import GoFront.Proofs.Places.Mirrors
import GoFront.Proofs.Reading.Followers
import GoFront.Proofs.Reading.ParsedTypes

/-!
# Readings in other contexts

What is known about the reading of some lexemes by themselves is used where the lexemes stand among
others. A phrase is read again behind other lexemes and in front of others, as long as the token behind it
is the same; types and expressions are also read again in front of any token that ends phrases.
-/

namespace GoFront

variable {P : Type}

theorem ReadState.Regular.moveTo_advance
    {state : ReadState P}
    (regular : state.Regular) :
    (state.moveTo state.cursor.advance).Regular := by
  intro lexeme member
  rw [ReadState.cursor_moveTo, Cursor.ahead_advance] at member
  exact regular lexeme (List.mem_of_mem_tail member)

namespace Production

variable {α : Type} {limit depth : Nat} {inside : Bool} {production : Production P α}
  {state other : ReadState P} {final : Cursor P} {value : α}
  {text taken behind rest : List (Lexeme P)} {lexeme : Lexeme P}

/-! ## Readings elsewhere -/

/-- A production reads at most one value. -/
theorem Parses.unique
    {value' : α}
    {final' : Cursor P}
    (first : Parses limit production state value final)
    (second : Parses limit production state value' final') :
    value = value' ∧ final = final' := by
  obtain ⟨allowance, run⟩ := first
  obtain ⟨allowance', run'⟩ := second
  have same := (Parses.run_of_le run (Nat.le_max_left allowance allowance')).symm.trans
    (Parses.run_of_le run' (Nat.le_max_right allowance allowance'))
  obtain ⟨rfl, sameState⟩ := Outcome.done.inj same
  exact ⟨rfl, congrArg ReadState.cursor sameState⟩

theorem Parses.exists_cleanRun
    (parses : Parses limit production state value final)
    (regular : state.Regular)
    (aheadEq : state.cursor.ahead = taken ++ final.ahead) :
    ∃ allowance,
      CleanRun (ruleMachine limit allowance) production state value (state.moveTo final) taken := by
  obtain ⟨allowance, run⟩ := parses
  obtain ⟨read, reaches⟩ := Machine.reaches_of_done run
  obtain rfl : read = taken := List.append_cancel_right (reaches.ahead.symm.trans aheadEq)
  exact ⟨allowance, regular, run, reaches, rfl⟩

/-- What is read from some lexemes is read from them again. -/
theorem Parses.again
    (parses : Parses limit production state value final)
    (regular : state.Regular)
    (aheadEq : state.cursor.ahead = taken ++ final.ahead)
    (readsAgain : ∀ allowance,
      CleanRun (ruleMachine limit allowance) production state value (state.moveTo final) taken ->
        ReadsAgain (ruleMachine limit allowance) production state value taken behind)
    (otherAhead : other.cursor.ahead = taken ++ behind)
    (sameDepth : other.depth = state.depth)
    (sameHeader : other.inHeader = state.inHeader) :
    Parses limit production other value (other.moved taken.length behind).cursor := by
  obtain ⟨allowance, cleanRun⟩ := parses.exists_cleanRun regular aheadEq
  exact ⟨allowance, readsAgain allowance cleanRun other otherAhead sameDepth sameHeader⟩

/-- What is read on some allowance is what a run reads that comes to an end. -/
theorem Parses.run_of_ends
    {allowance : Nat}
    {move : α -> α}
    (parses : Parses limit production state value final)
    (moveNothing : ∀ value, move value = value)
    (mirrors : Mirrors Shift.identity limit move production production)
    (ends : (ruleMachine limit allowance).run production state ≠ .exhausted) :
    (ruleMachine limit allowance).run production state = .done value (state.moveTo final) := by
  obtain ⟨_, run⟩ := parses
  exact run_eq_of_ends moveNothing mirrors run nofun ends

/-! ## Lexemes by themselves -/

/-- Lexemes are read up to their end as a value, in front of a given lexeme. -/
def ReadsBefore
    (limit depth : Nat)
    (inside : Bool)
    (production : Production P α)
    (text : List (Lexeme P))
    (value : α)
    (follower : Lexeme P) : Prop :=
  ∃ stop, Parses limit production ⟨⟨0, text ++ [follower], stop⟩, depth, inside, []⟩ value
    ⟨text.length, [follower], stop⟩

/-- Lexemes are read up to their end as a value, in front of some token that ends phrases. -/
def ReadsExactly
    (limit depth : Nat)
    (inside : Bool)
    (production : Production P α)
    (text : List (Lexeme P))
    (value : α) : Prop :=
  ∃ follower, follower.Regular ∧ follower.token ∈ phraseEnds
    ∧ ReadsBefore limit depth inside production text value follower

/-- Lexemes are read up to their end as a value, whatever may follow. -/
def ReadsAlone
    (limit depth : Nat)
    (inside : Bool)
    (production : Production P α)
    (text : List (Lexeme P))
    (value : α) : Prop :=
  ∃ behind stop, (∀ lexeme ∈ behind, lexeme.Regular)
    ∧ Parses limit production ⟨⟨0, text ++ behind, stop⟩, depth, inside, []⟩ value
        ⟨text.length, behind, stop⟩

/-- What is read by itself is read where the same lexeme follows. -/
theorem ReadsBefore.parses
    (reads : ReadsBefore limit state.depth state.inHeader production text value lexeme)
    (repeats : ∀ allowance, GoFront.Repeats (ruleMachine limit allowance) production)
    (regular : state.Regular)
    (aheadEq : state.cursor.ahead = text ++ lexeme :: rest) :
    Parses limit production state value (state.moved text.length (lexeme :: rest)).cursor := by
  obtain ⟨stop, parses⟩ := reads
  refine parses.again (fun each member => regular each ?_) rfl
    (fun allowance cleanRun => repeats allowance cleanRun lexeme [] rest rfl) aheadEq rfl rfl
  rw [aheadEq, List.append_cons]
  exact List.mem_append_left rest member

/-- What is read by itself is read in front of every token that ends phrases. -/
theorem ReadsExactly.parses
    (reads : ReadsExactly limit state.depth state.inHeader production text value)
    (detaches : ∀ allowance, Detaches (ruleMachine limit allowance) production)
    (regular : state.Regular)
    (aheadEq : state.cursor.ahead = text ++ lexeme :: rest)
    (ends : lexeme.token ∈ phraseEnds) :
    Parses limit production state value (state.moved text.length (lexeme :: rest)).cursor := by
  obtain ⟨follower, followerRegular, followerEnds, stop, parses⟩ := reads
  have startRegular : (⟨⟨0, text ++ [follower], stop⟩, state.depth, state.inHeader, []⟩ :
      ReadState P).Regular := by
    intro each member
    rcases List.mem_append.1 member with inText | isFollower
    · refine regular each ?_
      rw [aheadEq]
      exact List.mem_append_left _ inText
    · exact List.mem_singleton.1 isFollower ▸ followerRegular
  refine parses.again startRegular rfl (fun allowance cleanRun => ?_) aheadEq rfl rfl
  exact detaches allowance cleanRun followerEnds lexeme rest ends

/-- What ends in a token of its own and is read by itself is read anywhere. -/
theorem ReadsAlone.parses
    (reads : ReadsAlone limit state.depth state.inHeader production text value)
    (delimited : ∀ allowance, Delimited (ruleMachine limit allowance) production)
    (regular : state.Regular)
    (aheadEq : state.cursor.ahead = text ++ rest) :
    Parses limit production state value (state.moved text.length rest).cursor := by
  obtain ⟨behind, stop, behindRegular, parses⟩ := reads
  refine parses.again (fun each member => ?_) rfl
    (fun allowance cleanRun => (delimited allowance cleanRun).2 rest) aheadEq rfl rfl
  rcases List.mem_append.1 member with inText | isBehind
  · exact regular each (aheadEq ▸ List.mem_append_left _ inText)
  · exact behindRegular each isBehind

/-! ## Steps -/

theorem parses_semicolon :
    Parses limit semicolon state () final ↔
      if state.cursor.atAny [.rParen, .rBrace] then final = state.cursor
        else state.cursor.token = .semi ∧ final = state.cursor.advance := by
  by_cases closes : state.cursor.atAny [.rParen, .rBrace] <;> simp [semicolon, closes]

theorem parses_build
    {parts : Except InvalidNode α} :
    Parses limit (build parts) state value final ↔ parts = .ok value ∧ final = state.cursor := by
  cases parts <;> simp [build, eq_comm]

/-- A name, its package and its type arguments are read one after the other. -/
theorem parses_typeName_of_names
    {package : Option (Ident P)}
    {name : Ident P}
    {middle : Cursor P}
    {typeName : Tree P (.one .typeName)}
    (names : Names state.cursor package name middle) :
    Parses limit Production.typeName state typeName final ↔
      if middle.token = .lBrack then
        ∃ args, Parses limit typeArgs (state.moveTo middle) args final
          ∧ typeName = .typeName package name (.present args)
      else typeName = .typeName package name .absent ∧ final = middle := by
  cases names with
  | plain atName noDot =>
      by_cases opens : state.cursor.advance.token = .lBrack <;>
        simp [Production.typeName, atName, noDot, opens]
  | qualified atName dot atMember =>
      by_cases opens : state.cursor.advance.advance.advance.token = .lBrack <;>
        simp [Production.typeName, atName, dot, atMember, opens]

/-! ## Items between commas -/

section

variable {item : Production P α} {values : List α}

/-- Another item behind a comma. -/
def behindComma (item : Production P α) : Production P (Option α) :=
  (eat? .comma).bind fun comma =>
    if comma.isSome then item.bind fun next => .pure (some next) else .pure none

theorem parses_commaSeparated :
    Parses limit (commaSeparated item) state (value :: values) final ↔
      ∃ middle, Parses limit item state value middle
        ∧ Collects limit (behindComma item) values (state.moveTo middle) final := by
  change Parses limit (item.bind fun first => (many (behindComma item)).bind fun rest =>
    .pure (first :: rest)) state (value :: values) final ↔ _
  simp only [parses_bind, parses_many, parses_pure, List.cons.injEq]
  constructor
  · rintro ⟨_, middle, parses, _, _, collects, ⟨rfl, rfl⟩, rfl⟩
    exact ⟨middle, parses, collects⟩
  · rintro ⟨middle, parses, collects⟩
    exact ⟨value, middle, parses, values, final, collects, ⟨rfl, rfl⟩, rfl⟩

theorem collects_behindComma_nil :
    Collects limit (behindComma item) [] state final ↔
      state.cursor.token ≠ .comma ∧ final = state.cursor := by
  by_cases atComma : state.cursor.token = .comma <;> simp [Collects, behindComma, atComma]

theorem collects_behindComma_cons :
    Collects limit (behindComma item) (value :: values) state final ↔
      state.cursor.token = .comma
        ∧ ∃ middle, Parses limit item (state.moveTo state.cursor.advance) value middle
          ∧ Collects limit (behindComma item) values (state.moveTo middle) final := by
  by_cases atComma : state.cursor.token = .comma <;> simp [Collects, behindComma, atComma]

end

/-! ## Items up to a closing token -/

section

variable {closer : Token} {item : (first : Bool) -> Production P (α × Bool)}

/-- Items are read one after another, up to a closing token, the end of the input or an item behind which
none may follow. -/
inductive Itemizes
    (limit : Nat)
    (closer : Token)
    (item : (first : Bool) -> Production P (α × Bool)) :
    (first more : Bool) -> ReadState P -> List α -> Cursor P -> Prop
  | stop {first more : Bool} {state : ReadState P}
      (stops : (more && !state.cursor.atAny [closer, .eof]) = false) :
      Itemizes limit closer item first more state [] state.cursor
  | next {first more : Bool} {state : ReadState P} {value : α} {middle : Cursor P} {items : List α}
      {final : Cursor P}
      (goesOn : state.cursor.atAny [closer, .eof] = false)
      (parses : Parses limit (item first) state (value, more) middle)
      (rest : Itemizes limit closer item false more (state.moveTo middle) items final) :
      Itemizes limit closer item first true state (value :: items) final

/-- One step of reading items. -/
def nextItem
    (closer : Token)
    (item : (first : Bool) -> Production P (α × Bool)) :
    List α × Bool -> Production P (Option (List α × Bool)) :=
  fun (items, more) => .bind .look fun cursor =>
    if more && !cursor.atAny [closer, .eof] then
      (item items.isEmpty).bind fun (next, more) => .pure (some (next :: items, more))
    else .pure none

theorem repeats_nextItem_iff
    {collected result : List α}
    {more : Bool} :
    (∃ last, Repeats limit (nextItem closer item) state (collected, more) (result, last) final)
      ↔ ∃ items, result = items.reverse ++ collected
        ∧ Itemizes limit closer item collected.isEmpty more state items final := by
  constructor
  · rintro ⟨last, repeats⟩
    generalize startEq : (collected, more) = start at repeats
    generalize endEq : (result, last) = finish at repeats
    induction repeats generalizing collected more with
    | stop stops =>
        subst startEq
        obtain ⟨rfl, rfl⟩ := Prod.mk.inj endEq
        have stops := parses_bind_look.1 stops
        split at stops
        · obtain ⟨_, _, -, rest⟩ := parses_bind.1 stops
          exact nomatch (parses_pure.1 rest).1
        · next stopped =>
          obtain ⟨-, rfl⟩ := parses_pure.1 stops
          exact ⟨[], rfl, .stop (Bool.eq_false_iff.2 stopped)⟩
    | more first _ inductionHypothesis =>
        subst startEq
        have first := parses_bind_look.1 first
        split at first
        · next goesOn =>
          obtain ⟨⟨value, more'⟩, middle, parses, rest⟩ := parses_bind.1 first
          obtain ⟨same, rfl⟩ := parses_pure.1 rest
          obtain rfl := Option.some.inj same
          obtain ⟨items, rfl, itemizes⟩ := inductionHypothesis rfl endEq
          obtain ⟨rfl, noCloser⟩ := Bool.and_eq_true_iff.1 goesOn
          exact ⟨value :: items, by simp, 
            .next (by simpa using noCloser) parses itemizes⟩
        · exact nomatch (parses_pure.1 first).1
  · rintro ⟨items, rfl, itemizes⟩
    generalize firstEq : collected.isEmpty = first at itemizes
    induction itemizes generalizing collected with
    | @stop _ more _ stops =>
        refine ⟨more, .stop (parses_bind_look.2 ?_)⟩
        rw [stops]
        exact parses_pure.2 ⟨rfl, rfl⟩
    | @next _ more state value middle items _ goesOn parses _ inductionHypothesis =>
        obtain ⟨last, repeats⟩ := @inductionHypothesis (value :: collected) rfl
        have first : Parses limit (nextItem closer item (collected, true)) state
            (some (value :: collected, more)) middle := by
          refine parses_bind_look.2 ?_
          rw [goesOn, firstEq]
          exact parses_bind.2 ⟨_, _, parses, parses_pure.2 ⟨rfl, rfl⟩⟩
        rw [List.reverse_cons, List.append_assoc]
        exact ⟨last, .more first repeats⟩

theorem parses_itemsUntil_iff {items : List α} :
    Parses limit (itemsUntil closer item) state items final
      ↔ Itemizes limit closer item true true state items final := by
  change Parses limit (.bind (.iterate (nextItem closer item) ([], true)) fun collected =>
    .pure collected.1.reverse) state items final ↔ _
  simp only [parses_bind, parses_iterate, parses_pure]
  constructor
  · rintro ⟨⟨collected, more⟩, _, repeats, rfl, rfl⟩
    obtain ⟨items, rfl, itemizes⟩ := repeats_nextItem_iff.1 ⟨more, repeats⟩
    simpa using itemizes
  · intro itemizes
    have itemizes : Itemizes limit closer item ([] : List α).isEmpty true state items final := itemizes
    obtain ⟨last, repeats⟩ := repeats_nextItem_iff.2 ⟨items, rfl, itemizes⟩
    exact ⟨_, _, repeats, by simp, rfl⟩

end

end Production
end GoFront
