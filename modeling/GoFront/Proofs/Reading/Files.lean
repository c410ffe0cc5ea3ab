import GoFront.Proofs.Reading.Rules

/-!
# Reading whole texts

How files and single declarations are read. At the top level nothing encloses what is read, and a file
is read until no lexeme is left.
-/

namespace GoFront

variable {P : Type}

/-! ## The end of the input -/

theorem ReadState.ahead_eq_nil
    {state : ReadState P}
    (regular : state.Regular)
    (atEnd : state.cursor.token = .eof) :
    state.cursor.ahead = [] := by
  cases aheadEq : state.cursor.ahead with
  | nil => rfl
  | cons lexeme rest =>
      have isEof : lexeme.token = .eof := (Cursor.token_of_ahead aheadEq).symm.trans atEnd
      exact absurd isEof (regular lexeme (by simp [aheadEq])).1

/-- Items are read until the condition on what lies ahead fails. -/
theorem Reads.not_goesOn_of_resuming
    {α : Type}
    {machine : Machine P}
    {recovery : Recovery}
    {goesOn : Cursor P -> Bool}
    {item : Production P α}
    {state final : ReadState P}
    {items : List α}
    (run : machine.run (Production.resuming recovery goesOn item) state = .done items final) :
    goesOn final.cursor = false := by
  obtain ⟨collected, last, loopRun, restRun⟩ := run_bind_done run
  obtain ⟨rfl, rfl⟩ := Outcome.done.inj restRun
  obtain ⟨middle, lastRun⟩ := Outcome.exists_of_iterate_done loopRun
  change machine.run (if goesOn middle.cursor then _ else _) middle = _ at lastRun
  split at lastRun
  · obtain ⟨next, between, -, restRun⟩ := run_bind_done lastRun
    cases restRun
  · next stops =>
      obtain ⟨-, rfl⟩ := Outcome.done.inj lastRun
      simpa using stops

/-! ## Files -/

/-- The leaves of the clause that names the package. -/
def PackageClause.outline (clause : PackageClause P) : List (Mention P) :=
  [clause.keyword.mention, clause.name.mention]

/-- The outline of the parts of a file. -/
def Production.FileParts.outline (parts : Production.FileParts P) : List (Mention P) :=
  parts.package.elim [] PackageClause.outline
    ++ (parts.imports.flatMap Tree.outline ++ parts.decls.flatMap Tree.outline)

/-- The top level of a text, where nothing encloses what is read. -/
def AtTop (outer : Option (List Token)) : Prop :=
  outer = none

theorem AtTop.inBrackets
    {outer : Option (List Token)}
    (atTop : AtTop outer) :
    InBrackets outer := by
  subst atTop
  exact fun isSome => nomatch isSome

theorem AtTop.resumes
    {outer : Option (List Token)}
    (atTop : AtTop outer)
    (recovery : Recovery) :
    Reads.Resumes recovery outer := by
  subst atTop
  exact fun _ isOuter => nomatch isOuter

namespace ReadsNonterminals

open Reads

variable {machine : Machine P}

theorem packageClause :
    ReadsPhrase machine InBrackets 0 Production.packageClause
      (Consumed PackageClause.outline fun _ => True) := by
  intro frame credit inBrackets _
  refine mark rfl rfl fun keyword _ => ident fun name => ?_
  refine semicolon (inside_map_nil inBrackets) ?_
  exact Reads.pure ⟨_, rfl, by omega, rfl, trivial⟩

variable (nonterminals : ReadsNonterminals machine)

include nonterminals

theorem file :
    ReadsPhrase machine AtTop 1 Production.file
      fun parts _ _ mentions => mentions = parts.outline := by
  intro frame credit atTop enough
  have start : Reads machine ⟨frame.outer, frame.known, none⟩
      (.recovering .decl Production.packageClause) ⟨[], credit⟩ fun package after mentions =>
        (∃ reached, after = ⟨[], reached⟩ ∧ credit ≤ reached)
          ∧ mentions = package.elim [] PackageClause.outline := by
    refine recovering_gaining 0 (atTop.resumes _) (fun _ _ => .inl rfl) ?_ ⟨⟨_, rfl, by omega⟩, rfl⟩ ?_
    · exact fun isInside => absurd atTop isInside
    · refine last packageClause (inside_map_nil atTop.inBrackets) (Nat.zero_le _) ?_
      rintro clause reached _ ⟨gains, rfl, -⟩
      exact ⟨⟨_, rfl, by omega⟩, rfl⟩
  refine Reads.bind start ?_
  rintro package _ _ ⟨⟨reached, rfl, more⟩, rfl⟩
  refine Reads.bind (resuming ?_ ?_ (atTop.resumes _) (nonterminals.specDecl .imports)
    atTop.inBrackets (by omega) (Nat.zero_le _)) ?_
  · intro first second same
    rw [same]
  · intro cursor goesOn
    have isImport : cursor.token = .kwImport := of_decide_eq_true goesOn
    exact ⟨by simp [isImport], fun isInside => absurd atTop isInside⟩
  rintro imports _ _ ⟨rfl, rfl⟩
  refine map (weaken (resuming ?_ ?_ (atTop.resumes _) nonterminals.decl atTop.inBrackets
    (by omega) (Nat.zero_le _)) ?_)
  · intro first second same
    rw [same]
  · intro cursor goesOn
    exact ⟨of_decide_eq_true goesOn, fun isInside => absurd atTop isInside⟩
  rintro decls _ _ ⟨rfl, rfl⟩
  exact ⟨_, .refl _, _, rfl, rfl⟩

theorem singleDecl :
    ReadsPhrase machine AtTop 0 Production.singleDecl
      fun decl _ _ mentions => mentions = decl.outline := by
  intro frame credit atTop enough
  have imports : ReadsTree machine InBrackets 0 (Production.specifiedDecl (P := P) .imports) := by
    intro frame credit inBrackets enough
    exact congr_run (machine.run_specifiedDecl .imports)
      (line (nonterminals.specifiedBody .imports).inBrackets frame credit inBrackets enough)
  -- whatever is declared, nothing may follow
  have behind {inner : Production P (Decl P)} (isDecl : ReadsTree machine InBrackets 0 inner)
      (known : Option Token) :
      Reads machine ⟨frame.outer, known, frame.follower⟩
        (inner.bind fun decl => Production.look.bind fun cursor =>
          if cursor.token = .eof then .pure decl
          else (Production.report (.trailing cursor.token)).bind fun _ => .pure decl)
        ⟨[], credit⟩ fun decl after mentions =>
          ∃ reached, after = ⟨[], reached⟩ ∧ mentions = decl.outline := by
    refine phrase isDecl (inside_map_nil atTop.inBrackets) (Nat.zero_le _) ?_
    rintro decl reached _ ⟨-, rfl, -⟩
    refine look (fun first second same _ => ?_) fun cursor _ => ?_
    · rw [same]
    · split
      · exact Reads.pure ⟨_, rfl, List.append_nil _⟩
      · have reported : Reads machine ⟨frame.outer, some cursor.token, none⟩
            (.report (.trailing cursor.token)) ⟨[], reached⟩ fun _ progress mentions =>
              progress = ⟨[], reached⟩ ∧ mentions = [] := report ⟨rfl, rfl⟩
        refine Reads.bind reported ?_
        rintro _ _ _ ⟨rfl, rfl⟩
        exact Reads.pure ⟨_, rfl, List.append_nil _⟩
  refine look (fun first second same _ => ?_) fun cursor _ => ?_
  · rw [same]
  · dsimp only
    split
    · exact behind imports _
    · exact behind nonterminals.decl _

end ReadsNonterminals
end GoFront
