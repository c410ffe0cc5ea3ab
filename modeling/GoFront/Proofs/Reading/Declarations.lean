import GoFront.Proofs.Reading.Expressions
import GoFront.Grammar.Declarations

/-!
# Reading declarations

How declarations are read, if nonterminals are read as they should. A declaration is a line: a body that
can stand anywhere, and a semicolon.
-/

namespace GoFront

variable {P : Type}

namespace Production

/-- A phrase and the end of its line. -/
def line {α : Type} (body : Production P α) : Production P α :=
  body.bind fun value => semicolon.bind fun _ => .pure value

/-- A declaration made of specs, without the end of its line. -/
def specDeclBody (kind : SpecKind) : Production P (SpecDecl P kind) :=
  (mark kind.keyword).bind fun keyword => (spec kind).bind fun spec =>
    build (Tree.specDecl? kind keyword spec)

/-- A function or method, without the end of its line. -/
def funcOrMethodBody : Production P (Decl P) :=
  (mark .kwFunc).bind fun keyword => look.bind fun cursor =>
    if cursor.token = .lParen then methodTail keyword else funcTail keyword

/-- A declaration other than an import, without the end of its line. -/
def declBody : Production P (Decl P) :=
  look.bind fun cursor =>
    match cursor.token with
    | .kwVar => (specDeclBody .vars).bind fun decl => .pure (.specified .vars decl)
    | .kwConst => (specDeclBody .consts).bind fun decl => .pure (.specified .consts decl)
    | .kwType => (specDeclBody .types).bind fun decl => .pure (.specified .types decl)
    | .kwFunc => funcOrMethodBody
    | token => .refuse (.declExpected token)

end Production

/-! ## Lines -/

namespace Outcome

variable {α β γ : Type}

theorem bind_assoc
    (outcome : Outcome P α)
    (first : α -> ReadState P -> Outcome P β)
    (second : β -> ReadState P -> Outcome P γ) :
    (outcome.bind first).bind second
      = outcome.bind fun value state => (first value state).bind second := by
  cases outcome <;> rfl

end Outcome

namespace Machine

variable (machine : Machine P)

theorem run_specDecl
    (kind : SpecKind)
    (state : ReadState P) :
    machine.run (Production.specDecl kind) state
      = machine.run (Production.line (Production.specDeclBody kind)) state := by
  change (machine.run (Production.mark kind.keyword) state).bind _
    = ((machine.run (Production.mark kind.keyword) state).bind _).bind _
  rw [Outcome.bind_assoc]
  congr 1
  funext keyword state
  change (machine.run (Production.spec kind) state).bind _
    = ((machine.run (Production.spec kind) state).bind _).bind _
  rw [Outcome.bind_assoc]
  rfl

theorem run_funcOrMethod (state : ReadState P) :
    machine.run Production.funcOrMethod state
      = machine.run (Production.line Production.funcOrMethodBody) state := by
  change (machine.run (Production.mark .kwFunc) state).bind _
    = ((machine.run (Production.mark .kwFunc) state).bind _).bind _
  rw [Outcome.bind_assoc]
  congr 1
  funext keyword state
  change machine.run (if state.cursor.token = .lParen then _ else _) state
    = (machine.run (if state.cursor.token = .lParen then _ else _) state).bind _
  split <;> rfl

theorem run_specifiedDecl
    (kind : SpecKind)
    (state : ReadState P) :
    machine.run (Production.specifiedDecl kind) state
      = machine.run (Production.line ((Production.specDeclBody kind).bind fun decl =>
          .pure (.specified kind decl))) state := by
  change (machine.run (Production.specDecl kind) state).bind _
    = ((machine.run (Production.specDeclBody kind) state).bind _).bind _
  rw [run_specDecl]
  change ((machine.run (Production.specDeclBody kind) state).bind _).bind _ = _
  rw [Outcome.bind_assoc, Outcome.bind_assoc]
  congr 1
  funext decl state
  change ((machine.run Production.semicolon state).bind _).bind _
    = (machine.run Production.semicolon state).bind _
  rw [Outcome.bind_assoc]
  rfl

/-- A declaration is a line. -/
theorem run_decl (state : ReadState P) :
    machine.run Production.decl state
      = machine.run (Production.line Production.declBody) state := by
  change machine.run (match state.cursor.token with
      | .kwVar => Production.specifiedDecl .vars
      | .kwConst => Production.specifiedDecl .consts
      | .kwType => Production.specifiedDecl .types
      | .kwFunc => Production.funcOrMethod
      | token => .refuse (.declExpected token)) state
    = (machine.run (match state.cursor.token with
      | .kwVar => _
      | .kwConst => _
      | .kwType => _
      | .kwFunc => _
      | token => _) state).bind _
  split
  · exact machine.run_specifiedDecl .vars state
  · exact machine.run_specifiedDecl .consts state
  · exact machine.run_specifiedDecl .types state
  · exact machine.run_funcOrMethod state
  · rfl

/-- A declaration that is read is a function behind its keyword, or it is made of specs that are no
imports behind theirs. -/
theorem decl_cases
    {state final : ReadState P}
    {value : Decl P}
    (run : machine.run Production.decl state = .done value final) :
    (∃ kind, kind ≠ .imports ∧ state.cursor.token = kind.keyword
        ∧ machine.run (Production.specifiedDecl kind) state = .done value final)
      ∨ state.cursor.token = .kwFunc
        ∧ machine.run Production.funcOrMethod state = .done value final := by
  replace run := Reads.run_look_done run
  split at run
  · next isKeyword => exact .inl ⟨.vars, nofun, isKeyword, run⟩
  · next isKeyword => exact .inl ⟨.consts, nofun, isKeyword, run⟩
  · next isKeyword => exact .inl ⟨.types, nofun, isKeyword, run⟩
  · next isKeyword => exact .inr ⟨isKeyword, run⟩
  · cases run

end Machine

namespace Reads

variable {machine : Machine P} {frame : Frame} {before : Progress} {α : Type}

/-- What is run in the same way is read in the same way. -/
theorem congr_run
    {production other : Production P α}
    {post : α -> Progress -> List (Mention P) -> Prop}
    (same : ∀ state, machine.run production state = machine.run other state)
    (reads : Reads machine frame other before post) :
    Reads machine frame production before post := by
  have sameRun : machine.run production = machine.run other := funext same
  exact ⟨sameRun ▸ reads.finishes, sameRun ▸ reads.completes, sameRun ▸ reads.fails⟩

/-- A line inside brackets. -/
theorem line
    {production : Production P α}
    {need : Nat}
    {outline : α -> List (Mention P)}
    {valid : α -> Prop}
    (reads : ReadsPhrase machine InBrackets need production (Consumed outline valid)) :
    ReadsPhrase machine InBrackets need (Production.line production) (Consumed outline valid) := by
  intro frame credit inBrackets enough
  refine phrase reads (inside_map_nil inBrackets) enough ?_
  rintro value reached _ ⟨gains, rfl, isValid⟩
  refine semicolon (inside_map_nil inBrackets) ?_
  exact Reads.pure ⟨_, rfl, gains, List.append_nil _, isValid⟩

end Reads

namespace ReadsNonterminals

open Reads

variable {machine : Machine P} (nonterminals : ReadsNonterminals machine)

/-! ## Specs -/

theorem importSpec : ReadsTree machine Anywhere 0 Production.importSpec := by
  intro frame credit _ _
  have name : ReadsPhrase machine Anywhere 0 Production.importName?
      fun name credit reached mentions => credit ≤ reached
        ∧ mentions = (name.map ImportName.mention).toList := by
    intro frame credit _ _
    refine look (fun first second same _ => ?_) fun cursor _ => ?_
    · rw [same]
    · split
      · exact ident fun name => Reads.pure ⟨_, rfl, by omega, rfl⟩
      · exact mark rfl rfl fun dot _ => Reads.pure ⟨_, rfl, by omega, rfl⟩
      · exact Reads.pure ⟨_, rfl, Nat.le_refl _, rfl⟩
  refine phrase name trivial (Nat.zero_le _) ?_
  rintro name reached _ ⟨more, rfl⟩
  refine map (last stringLit trivial (Nat.zero_le _) ?_)
  rintro path _ _ ⟨gains, rfl, -⟩
  exact ⟨_, rfl, by omega, rfl, trivial⟩

include nonterminals

/-- A type that may be missing, as a slot of the tree. -/
theorem typeSlot :
    ReadsPhrase machine Anywhere 2 Production.type? fun type credit reached mentions =>
      credit ≤ reached ∧ mentions = (Tree.ofOption type).outline := by
  intro frame credit _ enough
  refine last nonterminals.type? trivial enough ?_
  rintro _ reached _ (⟨rfl, rfl, rfl⟩ | ⟨type, rfl, gains, rfl⟩)
  · exact ⟨_, rfl, Nat.le_refl _, rfl⟩
  · exact ⟨_, rfl, by omega, rfl⟩

theorem constSpec (isFirst : Bool) :
    ReadsTree machine Anywhere 0 (Production.constSpec isFirst) := by
  intro frame credit _ _
  refine phrase identList trivial (Nat.zero_le _) ?_
  rintro names reached _ ⟨gains, rfl, -⟩
  refine phrase nonterminals.typeSlot trivial (by omega) ?_
  rintro type _ _ ⟨more, rfl⟩
  refine look (fun first second same _ => ?_) fun cursor _ => ?_
  · rw [same]
  · split
    · refine implied rfl rfl fun assign => map (last nonterminals.exprList trivial (by omega) ?_)
      rintro values _ _ ⟨valueGains, rfl, -⟩
      exact ⟨_, rfl, by omega, rfl, trivial⟩
    · exact Reads.pure ⟨_, rfl, by omega, rfl, trivial⟩

omit nonterminals in
theorem eq_of_varSpec?
    {names : List (Ident P)}
    {type : Tree P (.maybe .type)}
    {values : Tree P (.maybe .exprList)}
    {spec : Tree P (.one .varSpec)}
    (fits : Tree.varSpec? names type values = .ok spec) :
    spec = .varSpec names type values := by
  cases type with
  | absent =>
      cases values with
      | absent => cases fits
      | present values => exact (Except.ok.inj fits).symm
  | present type => exact (Except.ok.inj fits).symm

theorem varSpec : ReadsTree machine Anywhere 0 Production.varSpec := by
  intro frame credit _ _
  refine phrase identList trivial (Nat.zero_le _) ?_
  rintro names reached _ ⟨gains, rfl, -⟩
  refine phrase nonterminals.typeSlot trivial (by omega) ?_
  rintro type _ _ ⟨more, rfl⟩
  refine implied? rfl rfl (fun assign => ?_) ?_
  · refine phrase nonterminals.exprList trivial (by omega) ?_
    rintro values _ _ ⟨valueGains, rfl, -⟩
    refine pure_bind (build fun spec fits => ?_)
    obtain rfl := eq_of_varSpec? fits
    refine Reads.pure ⟨_, rfl, by omega, ?_, trivial⟩
    rw [List.append_nil]
    rfl
  · refine pure_bind (build fun spec fits => ?_)
    obtain rfl := eq_of_varSpec? fits
    exact Reads.pure ⟨_, rfl, by omega, rfl, trivial⟩

omit nonterminals in
/-- Whether type parameters come next is decided by the first three lexemes. -/
theorem atTypeParams_congr
    {cursor other : Cursor P}
    {taken behind behind' : List (Lexeme P)}
    {lexeme : Lexeme P}
    (nested : Brackets.scan [] taken = some [])
    (nonempty : 1 ≤ taken.length)
    (aheadEq : cursor.ahead = taken ++ lexeme :: behind)
    (otherAhead : other.ahead = taken ++ lexeme :: behind') :
    Production.atTypeParams other = Production.atTypeParams cursor := by
  rw [Production.atTypeParams, Production.atTypeParams, Cursor.token_congr aheadEq otherAhead]
  by_cases bracket : cursor.token = .lBrack
  · have long : 2 ≤ taken.length := by
      by_contra short
      obtain ⟨opener, rfl⟩ := List.length_eq_one_iff.1 (show taken.length = 1 by omega)
      have isOpener : opener.token = .lBrack := (Cursor.token_of_ahead aheadEq).symm.trans bracket
      simp [Brackets.scan, isOpener, Brackets.step] at nested
    rw [Cursor.tokenAfter_congr aheadEq otherAhead (by omega : 1 ≤ taken.length),
      Cursor.tokenAfter_congr aheadEq otherAhead long]
  · simp [bracket]

theorem typeSpec : ReadsTree machine Anywhere 0 Production.typeSpec := by
  intro frame credit _ _
  refine ident fun name => mark? rfl rfl (fun assign _ => ?_) ?_
  · refine map (last nonterminals.type trivial (by omega) ?_)
    rintro type reached _ ⟨gains, rfl, -⟩
    exact ⟨_, rfl, by omega, rfl, trivial⟩
  · refine look_further (fun _ value after mentions => ∃ reached, after = ⟨[], reached⟩
      ∧ credit + 16 ≤ reached ∧ name.mention :: mentions = value.outline) (fun cursor _ => ?_) ?_ ?_
    · split
      · refine phrase nonterminals.typeParams trivial (Nat.zero_le _) ?_
        rintro generics reached _ ⟨gains, rfl, -⟩
        refine pure_bind (map (last nonterminals.type trivial (by omega) ?_))
        rintro type _ _ ⟨more, rfl, -⟩
        exact ⟨_, rfl, by omega, rfl⟩
      · refine pure_bind (map (last nonterminals.type trivial (by omega) ?_))
        rintro type reached _ ⟨more, rfl, -⟩
        exact ⟨_, rfl, by omega, rfl⟩
    · rintro cursor value _ mentions ⟨reached, rfl, gains, mentionsEq⟩
      exact ⟨reached, rfl, by omega, mentionsEq, trivial⟩
    · rintro state final value _ mentions taken lexeme behind behind' other _
        ⟨reached, rfl, gains, -⟩ _ credited nested stateAhead _ _ otherAhead
      change reached ≤ credit + 8 + 8 * taken.length at credited
      rw [atTypeParams_congr nested (by omega) stateAhead otherAhead]

theorem singleSpec
    (kind : SpecKind)
    (first : Bool) :
    ReadsTree machine Anywhere 0 (Production.singleSpec kind first) := by
  cases kind with
  | imports => exact importSpec
  | vars => exact nonterminals.varSpec
  | consts => exact nonterminals.constSpec first
  | types => exact nonterminals.typeSpec

omit nonterminals in
theorem eq_of_groupSpec?
    {kind : SpecKind}
    {lParen rParen : Mark P}
    {specs : List (Spec P)}
    {group : Tree P (.one .groupSpec)}
    (fits : Tree.groupSpec? kind lParen specs rParen = .ok group) :
    group = .groupSpec kind lParen (.ofList specs) rParen := by
  unfold Tree.groupSpec? at fits
  split at fits
  · cases fits
  · exact (Except.ok.inj fits).symm

theorem spec (kind : SpecKind) : ReadsTree machine Anywhere 0 (Production.spec kind) := by
  intro frame credit _ _
  refine mark? rfl rfl (fun lParen _ => ?_) ?_
  · have items : ReadsItem machine (fun outer => Anywhere outer ∧ InBrackets outer) 0 Tree.outline
        (fun _ => True) fun first =>
          Production.withSemicolon (Production.singleSpec kind first) :=
      fun first => withSemicolon (nonterminals.singleSpec kind first)
    refine Reads.bind (itemsUntil items ⟨trivial, inBrackets_of_due _ _ _⟩ (by omega)
      (Nat.zero_le _)) ?_
    rintro specs _ _ ⟨rfl, rfl, -⟩
    refine mark rfl rfl fun rParen _ => build fun group fits => ?_
    obtain rfl := eq_of_groupSpec? fits
    refine Reads.pure ⟨_, rfl, by omega, ?_, trivial⟩
    rw [← Tree.outline_ofList]
    rfl
  · exact nonterminals.singleSpec kind true _ credit trivial (Nat.zero_le _)

/-! ## Declarations -/

omit nonterminals in
theorem eq_of_specDecl?
    {kind : SpecKind}
    {keyword : Mark P}
    {spec : Spec P}
    {decl : SpecDecl P kind}
    (fits : Tree.specDecl? kind keyword spec = .ok decl) :
    decl = .specDecl kind keyword spec := by
  unfold Tree.specDecl? at fits
  split at fits
  · exact (Except.ok.inj fits).symm
  · cases fits

theorem specDeclBody (kind : SpecKind) :
    ReadsTree machine Anywhere 0 (Production.specDeclBody kind) := by
  intro frame credit _ _
  have fixed : isMark kind.keyword = true := by
    cases kind <;> rfl
  have plain : Brackets.isBracket kind.keyword = false := by
    cases kind <;> rfl
  refine mark fixed (Brackets.step_of_not_bracket [] _ plain) fun keyword _ => ?_
  refine phrase (nonterminals.spec kind) trivial (Nat.zero_le _) ?_
  rintro spec reached _ ⟨gains, rfl, -⟩
  refine built fun decl fits => ?_
  obtain rfl := eq_of_specDecl? fits
  refine ⟨_, rfl, by omega, ?_, trivial⟩
  rw [List.append_nil]
  rfl

theorem body? :
    ReadsPhrase machine Anywhere 2 Production.body? fun body credit reached mentions =>
      credit ≤ reached ∧ mentions = body.outline := by
  intro frame credit _ enough
  refine look (fun first second same _ => ?_) fun cursor _ => ?_
  · rw [same]
  · split
    · refine map (last nonterminals.block trivial enough ?_)
      rintro body reached _ ⟨gains, rfl, -⟩
      exact ⟨_, rfl, by omega, rfl⟩
    · exact Reads.pure ⟨_, rfl, Nat.le_refl _, rfl⟩

/-- A function from behind its keyword. -/
theorem funcTail (keyword : Mark P) :
    ReadsPhrase machine Anywhere 0 (Production.funcTail keyword)
      fun decl credit reached mentions => credit + 8 ≤ reached
        ∧ keyword.mention :: mentions = decl.outline := by
  intro frame credit _ _
  refine ident fun name => look (fun first second same _ => ?_) fun cursor _ => ?_
  · rw [same]
  · split
    · refine phrase nonterminals.typeParams trivial (Nat.zero_le _) ?_
      rintro generics reached _ ⟨gains, rfl, -⟩
      refine pure_bind (phrase nonterminals.signature trivial (Nat.zero_le _) ?_)
      rintro shape _ _ ⟨more, rfl, -⟩
      refine map (last nonterminals.body? trivial (by omega) ?_)
      rintro body _ _ ⟨rest, rfl⟩
      exact ⟨_, rfl, by omega, rfl⟩
    · refine pure_bind (phrase nonterminals.signature trivial (Nat.zero_le _) ?_)
      rintro shape reached _ ⟨gains, rfl, -⟩
      refine map (last nonterminals.body? trivial (by omega) ?_)
      rintro body _ _ ⟨rest, rfl⟩
      exact ⟨_, rfl, by omega, rfl⟩

/-- A method from behind its keyword. -/
theorem methodTail (keyword : Mark P) :
    ReadsPhrase machine Anywhere 0 (Production.methodTail keyword)
      fun decl credit reached mentions => credit + 8 ≤ reached
        ∧ keyword.mention :: mentions = decl.outline := by
  intro frame credit _ _
  refine phrase (nonterminals.params false) trivial (Nat.zero_le _) ?_
  rintro receiver reached _ ⟨gains, rfl, -⟩
  refine ident fun name => phrase nonterminals.signature trivial (Nat.zero_le _) ?_
  rintro shape _ _ ⟨more, rfl, -⟩
  refine map (last nonterminals.body? trivial (by omega) ?_)
  rintro body _ _ ⟨rest, rfl⟩
  exact ⟨_, rfl, by omega, rfl⟩

theorem funcOrMethodBody : ReadsTree machine Anywhere 0 Production.funcOrMethodBody := by
  intro frame credit _ _
  refine mark rfl rfl fun keyword _ => look (fun first second same _ => ?_) fun cursor _ => ?_
  · rw [same]
  · split
    · refine last (nonterminals.methodTail keyword) trivial (Nat.zero_le _) ?_
      rintro decl reached _ ⟨gains, mentionsEq⟩
      exact ⟨_, rfl, by omega, mentionsEq, trivial⟩
    · refine last (nonterminals.funcTail keyword) trivial (Nat.zero_le _) ?_
      rintro decl reached _ ⟨gains, mentionsEq⟩
      exact ⟨_, rfl, by omega, mentionsEq, trivial⟩

theorem specifiedBody (kind : SpecKind) :
    ReadsTree machine Anywhere 0
      ((Production.specDeclBody kind).bind fun decl => .pure (Tree.specified kind decl)) := by
  intro frame credit _ _
  refine map (last (nonterminals.specDeclBody kind) trivial (Nat.zero_le _) ?_)
  rintro decl reached _ ⟨gains, rfl, -⟩
  exact ⟨_, rfl, gains, rfl, trivial⟩

/-- The body of a declaration can stand anywhere. -/
theorem declBody : ReadsTree machine Anywhere 0 Production.declBody := by
  intro frame credit _ _
  refine look (fun first second same _ => ?_) fun cursor _ => ?_
  · rw [same]
  · split
    · exact nonterminals.specifiedBody .vars _ credit trivial (Nat.zero_le _)
    · exact nonterminals.specifiedBody .consts _ credit trivial (Nat.zero_le _)
    · exact nonterminals.specifiedBody .types _ credit trivial (Nat.zero_le _)
    · exact nonterminals.funcOrMethodBody _ credit trivial (Nat.zero_le _)
    · exact refuse

theorem decl : ReadsTree machine InBrackets 0 Production.decl := by
  intro frame credit inBrackets enough
  exact congr_run machine.run_decl (line nonterminals.declBody.inBrackets frame credit inBrackets
    enough)

theorem specDecl (kind : SpecKind) : ReadsTree machine InBrackets 0 (Production.specDecl kind) := by
  intro frame credit inBrackets enough
  exact congr_run (machine.run_specDecl kind)
    (line (nonterminals.specDeclBody kind).inBrackets frame credit inBrackets enough)

end ReadsNonterminals
end GoFront
