import GoFront.Proofs.Reading.Rules

/-!
# Steps of loops

Every loop of the grammar moves on: a step that yields a value to go on with has passed over a lexeme.
A production gains a lexeme if something in it does before anything is yielded. That is known of all
phrases that can be items of a list, so each loop of each rule is only to be looked at once.
-/

namespace GoFront

variable {P : Type} {α β : Type}

/-! ## Gaining lexemes -/

/-- Whenever a production yields a value of interest, it has passed over a lexeme. -/
def Gains
    (machine : Machine P)
    (production : Production P α)
    (interests : α -> Prop) : Prop :=
  ∀ state value final, state.Regular -> machine.run production state = .done value final ->
    interests value -> state.cursor.consumed < final.cursor.consumed

namespace Gains

variable {machine : Machine P} {interests : β -> Prop}

/-- A phrase that consumes lexemes gains one. -/
theorem of_phrase
    {inside : Option (List Token) -> Prop}
    {need : Nat}
    {production : Production P β}
    {outline : β -> List (Mention P)}
    {valid : β -> Prop}
    (isPhrase : ReadsPhrase machine inside need production (Consumed outline valid))
    (isInside : inside none) :
    Gains machine production interests :=
  fun _ _ _ regular run _ => Reads.consumed_lt isPhrase isInside regular run

/-- What is of no interest need not gain anything. -/
theorem pure
    {value : β}
    (dull : ¬interests value) :
    Gains machine (.pure value) interests := by
  intro state value final _ run interesting
  obtain ⟨rfl, -⟩ := Outcome.done.inj run
  exact absurd interesting dull

theorem refuse (cause : SyntaxCause) :
    Gains machine (.refuse cause) interests := by
  intro _ _ _ _ run
  cases run

/-- What gains a lexeme at first has gained one in the end. -/
theorem bind
    {first : Production P α}
    {next : α -> Production P β}
    (between : α -> Prop)
    (start : Gains machine first between)
    (rest : ∀ value, ¬between value -> Gains machine (next value) interests) :
    Gains machine (first.bind next) interests := by
  intro state result final regular run interesting
  obtain ⟨value, middle, startRun, restRun⟩ := Reads.run_bind_done run
  obtain ⟨_, reaches⟩ := machine.reaches_of_done startRun
  by_cases gained : between value
  · exact Nat.lt_of_lt_of_le (start state value middle regular startRun gained)
      (Reads.consumed_le restRun)
  · exact Nat.lt_of_le_of_lt (Reads.consumed_le startRun)
      (rest value gained middle result final (reaches.regular regular) restRun interesting)

/-- A phrase that gains a lexeme, whatever follows it. -/
theorem first
    {first : Production P α}
    {next : α -> Production P β}
    (start : Gains machine first fun _ => True) :
    Gains machine (first.bind next) interests :=
  bind _ start fun _ nothing => absurd trivial nothing

/-- A lexeme is gained by what follows. -/
theorem second
    {first : Production P α}
    {next : α -> Production P β}
    (rest : ∀ value, Gains machine (next value) interests) :
    Gains machine (first.bind next) interests := by
  refine bind (fun _ => False) (fun _ _ _ _ _ nothing => nothing.elim) ?_
  intro value _
  exact rest value

theorem choice
    {condition : Prop}
    [Decidable condition]
    {yes no : Production P β}
    (whenTrue : condition -> Gains machine yes interests)
    (whenFalse : ¬condition -> Gains machine no interests) :
    Gains machine (if condition then yes else no) interests := by
  split
  · exact whenTrue ‹_›
  · exact whenFalse ‹_›

theorem inHeader
    {inside : Bool}
    {body : Production P β}
    (inner : Gains machine body interests) :
    Gains machine (.inHeader inside body) interests := by
  intro state value final regular run interesting
  obtain ⟨last, innerRun, rfl⟩ := Machine.exists_of_run_inHeader run
  exact inner { state with inHeader := inside } value last regular innerRun interesting

theorem look
    {next : Cursor P -> Production P β}
    (rest : ∀ cursor, Gains machine (next cursor) interests) :
    Gains machine (Production.look.bind next) interests :=
  second rest

/-! ## Fixed tokens -/

theorem consumed_advance
    {cursor : Cursor P}
    (notAtEnd : cursor.token ≠ .eof) :
    cursor.consumed < cursor.advance.consumed := by
  obtain ⟨lexeme, rest, aheadEq, -⟩ := Cursor.exists_of_token_ne_eof notAtEnd
  simp [Cursor.advance, aheadEq]

/-- A token that must come next. -/
theorem expect
    {interests : Lexeme P -> Prop}
    {token : Token}
    (notEnd : token ≠ .eof) :
    Gains machine (Production.expect token) interests := by
  intro state value final _ run _
  change machine.run (if state.cursor.token = token then _ else _) state = _ at run
  split at run
  · next found =>
      obtain ⟨-, rfl⟩ := Outcome.done.inj run
      apply consumed_advance
      rwa [found]
  · cases run

/-- A token that may come next. -/
theorem eat?
    {token : Token}
    (notEnd : token ≠ .eof) :
    Gains machine (Production.eat? token) fun found => found.isSome = true := by
  intro state value final _ run isFound
  change machine.run (if state.cursor.token = token then _ else _) state = _ at run
  split at run
  · next found =>
      obtain ⟨-, rfl⟩ := Outcome.done.inj run
      apply consumed_advance
      rwa [found]
  · obtain ⟨rfl, -⟩ := Outcome.done.inj run
    cases isFound

/-- A keyword, an operator or a bracket, whatever follows it. -/
theorem mark
    {token : Token}
    {next : Mark P -> Production P β}
    (notEnd : token ≠ .eof) :
    Gains machine ((Production.mark token).bind next) interests := by
  apply first
  exact first (expect notEnd)

end Gains

/-! ## Steps -/

namespace Production

/-- A step of a loop that yields a value to go on with has passed over a lexeme, on every allowance. -/
def Advances (limit : Nat) (step : Production P (Option α)) : Prop :=
  ∀ allowance, Gains (ruleMachine limit allowance) step fun next => next.isSome = true

/-- Whether every loop in a production advances with each step. -/
def LoopsAdvance (limit : Nat) : {α : Type} -> Production P α -> Prop
  | _, .bind first next => first.LoopsAdvance limit ∧ ∀ value, (next value).LoopsAdvance limit
  | _, .nested body => body.LoopsAdvance limit
  | _, .inHeader _ body => body.LoopsAdvance limit
  | _, .recovering _ body => body.LoopsAdvance limit
  | _, .iterate step _ => ∀ value, (step value).Advances limit ∧ (step value).LoopsAdvance limit
  | _, _ => True

namespace LoopsAdvance

variable {limit : Nat}

theorem choice
    {condition : Prop}
    [Decidable condition]
    {yes no : Production P α}
    (whenTrue : yes.LoopsAdvance limit)
    (whenFalse : no.LoopsAdvance limit) :
    (if condition then yes else no).LoopsAdvance limit := by
  split
  · exact whenTrue
  · exact whenFalse

/-! ## Terminals -/

theorem expect (token : Token) :
    (Production.expect (P := P) token).LoopsAdvance limit :=
  ⟨trivial, fun _ => choice trivial trivial⟩

theorem eat? (token : Token) :
    (Production.eat? (P := P) token).LoopsAdvance limit := by
  refine ⟨trivial, ?_⟩
  intro cursor
  exact choice ⟨trivial, fun lexeme => trivial⟩ trivial

theorem mark (token : Token) :
    (Production.mark (P := P) token).LoopsAdvance limit :=
  ⟨expect token, fun _ => trivial⟩

theorem mark? (token : Token) :
    (Production.mark? (P := P) token).LoopsAdvance limit :=
  ⟨eat? token, fun _ => trivial⟩

theorem anyMark : (Production.anyMark (P := P)).LoopsAdvance limit :=
  ⟨trivial, fun _ => trivial⟩

theorem ident : (Production.ident (P := P)).LoopsAdvance limit :=
  ⟨expect _, fun _ => trivial⟩

theorem ident? : (Production.ident? (P := P)).LoopsAdvance limit :=
  ⟨eat? _, fun _ => trivial⟩

theorem semicolon : (Production.semicolon (P := P)).LoopsAdvance limit := by
  refine ⟨trivial, ?_⟩
  intro cursor
  exact choice trivial ⟨expect _, fun _ => trivial⟩

theorem build (node : Except InvalidNode α) :
    (Production.build (P := P) node).LoopsAdvance limit := by
  cases node <;> exact trivial

/-! ## Lists -/

/-- Repeated items. -/
theorem many
    {step : Production P (Option α)}
    (advances : step.Advances limit)
    (inner : step.LoopsAdvance limit) :
    (Production.many step).LoopsAdvance limit := by
  refine ⟨fun items => ⟨fun allowance => ?_, inner, fun _ => trivial⟩, fun _ => trivial⟩
  apply Gains.bind _ (advances allowance)
  intro item isNone
  apply Gains.pure
  simpa using isNone

/-- An item behind a token is read only if the token is consumed. -/
theorem advances_behind
    {token : Token}
    {item : Production P α}
    (notEnd : token ≠ .eof) :
    Advances limit ((Production.eat? token).bind fun found =>
      if found.isSome then item.bind fun next => .pure (some next) else .pure none) := by
  intro allowance
  apply Gains.bind _ (Gains.eat? notEnd)
  intro found isNone
  apply Gains.choice
  · intro isSome
    exact absurd isSome isNone
  · intro _
    apply Gains.pure
    simp

theorem commaSeparated
    {item : Production P α}
    (inner : item.LoopsAdvance limit) :
    (Production.commaSeparated item).LoopsAdvance limit := by
  refine ⟨inner, fun _ => ⟨many (advances_behind (by decide)) ?_, fun _ => trivial⟩⟩
  exact ⟨eat? _, fun _ => choice ⟨inner, fun _ => trivial⟩ trivial⟩

theorem commaTail
    {closer : Token}
    {item : Production P α}
    (inner : item.LoopsAdvance limit) :
    (Production.commaTail closer item).LoopsAdvance limit := by
  apply many
  · intro allowance
    apply Gains.bind _ (Gains.eat? (by decide))
    intro comma isNone
    apply Gains.look
    intro cursor
    apply Gains.choice
    · intro both
      simp only [Bool.and_eq_true] at both
      exact absurd both.1 isNone
    · intro _
      apply Gains.pure
      simp
  · refine ⟨eat? _, ?_⟩
    intro _
    refine ⟨trivial, ?_⟩
    intro _
    exact choice ⟨inner, fun _ => trivial⟩ trivial

/-- Items up to a closing token, each of which gains a lexeme. -/
theorem itemsUntil
    {closer : Token}
    {item : Bool -> Production P (α × Bool)}
    (gains : ∀ first allowance, Gains (ruleMachine limit allowance) (item first) fun _ => True)
    (inner : ∀ first, (item first).LoopsAdvance limit) :
    (Production.itemsUntil closer item).LoopsAdvance limit := by
  refine ⟨?_, fun _ => trivial⟩
  rintro ⟨items, more⟩
  constructor
  · intro allowance
    apply Gains.look
    intro cursor
    apply Gains.choice
    · intro _
      exact Gains.first (gains items.isEmpty allowance)
    · intro _
      apply Gains.pure
      simp
  · exact ⟨trivial, fun _ => choice ⟨inner _, fun _ => trivial⟩ trivial⟩

theorem withComma
    {item : Production P α}
    (inner : item.LoopsAdvance limit) :
    (Production.withComma item).LoopsAdvance limit := by
  refine ⟨inner, ?_⟩
  intro value
  exact ⟨eat? _, fun comma => trivial⟩

theorem withSemicolon
    {item : Production P α}
    (inner : item.LoopsAdvance limit) :
    (Production.withSemicolon item).LoopsAdvance limit := by
  refine ⟨inner, ?_⟩
  intro _
  exact ⟨semicolon, fun _ => trivial⟩

/-- Items behind which reading resumes, as long as the end has not been reached. What fails is passed
over at least in part. -/
theorem resuming
    {recovery : Recovery}
    {goesOn : Cursor P -> Bool}
    {item : Production P α}
    (stops : ∀ cursor, goesOn cursor = true -> cursor.token ≠ .eof)
    (gains : ∀ allowance, Gains (ruleMachine limit allowance) item fun _ => True)
    (inner : item.LoopsAdvance limit) :
    (Production.resuming recovery goesOn item).LoopsAdvance limit := by
  refine ⟨fun items => ⟨fun allowance => ?_, trivial, fun _ => ?_⟩, fun _ => trivial⟩
  · intro state next final regular run isSome
    change (ruleMachine limit allowance).run (if goesOn state.cursor then _ else _) state = _ at run
    split at run
    · next isMore =>
        obtain ⟨value, middle, itemRun, restRun⟩ := Reads.run_bind_done run
        obtain ⟨-, rfl⟩ := Outcome.done.inj restRun
        obtain ⟨value, -, bodyRun⟩ | ⟨last, -, bodyRun, rfl⟩ :=
          Machine.exists_of_run_recovering itemRun
        · exact gains allowance state value _ regular bodyRun trivial
        · obtain ⟨_, reaches, _⟩ := Machine.reaches_of_gaveUp bodyRun
          obtain ⟨passed, resumes, some⟩ := Reads.exists_of_resume recovery reaches
          rw [resumes.consumed]
          have := some (stops _ isMore)
          omega
    · obtain ⟨rfl, -⟩ := Outcome.done.inj run
      cases isSome
  · exact choice ⟨inner, fun _ => trivial⟩ trivial

end LoopsAdvance
end Production
end GoFront
