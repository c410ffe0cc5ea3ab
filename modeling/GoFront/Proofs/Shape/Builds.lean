import GoFront.Proofs.Reading.Loops

/-!
# What productions build

However a run ends, nothing is wrong with how its phrases were put together: the values that it yields
have the properties that its steps give them, and no error that it records says that parts do not fit.
A variable that has neither a type nor values is the only exception. What a production yields may depend
on its room, the number of levels to which phrases can still nest.
-/

namespace GoFront

variable {P : Type} {α β : Type}

/-- A cause is none that parts do not fit, unless a variable has neither a type nor values. -/
def SyntaxCause.PartsFit (cause : SyntaxCause) : Prop :=
  ∀ reason, cause = .invalidNode reason -> reason = .varWithoutTypeOrValue

/-- Why the parts of a phrase do not fit, if that is the cause. -/
def SyntaxCause.misfit? : SyntaxCause -> Option InvalidNode
  | .invalidNode reason => some reason
  | _ => none

/-- The parts of a phrase fit wherever something else is the cause. -/
theorem SyntaxCause.PartsFit.of_other
    {cause : SyntaxCause}
    (isOther : cause.misfit? = none) :
    cause.PartsFit := by
  rintro reason rfl
  cases isOther

/-- The parts of all phrases fit, as far as the errors of a state tell that were not known before. -/
def ReadState.PartsFit (known : List (SyntaxError P)) (state : ReadState P) : Prop :=
  ∀ error ∈ state.errors, error ∈ known ∨ error.cause.PartsFit

theorem ReadState.PartsFit.record
    {known : List (SyntaxError P)}
    {state : ReadState P}
    {cause : SyntaxCause}
    (partsFit : state.PartsFit known)
    (causeFits : cause.PartsFit) :
    (state.record cause).PartsFit known :=
  List.forall_mem_cons.2 ⟨.inr causeFits, partsFit⟩

/-! ## How runs end -/

namespace Outcome

/-- What is known of a run however it ends: of its value and the state behind it, and of the state in
which it gives up. -/
def Ends
    (done : α -> ReadState P -> Prop)
    (gaveUp : ReadState P -> Prop) : Outcome P α -> Prop
  | .done value final => done value final
  | .gaveUp final => gaveUp final
  | .exhausted => True

variable {gaveUp : ReadState P -> Prop}

theorem Ends.mono
    {done more : α -> ReadState P -> Prop}
    {outcome : Outcome P α}
    (ends : outcome.Ends done gaveUp)
    (weakens : ∀ value final, outcome = .done value final -> done value final -> more value final) :
    outcome.Ends more gaveUp := by
  cases outcome with
  | done value final => exact weakens value final rfl ends
  | gaveUp final => exact ends
  | exhausted => trivial

theorem Ends.bind
    {middle : α -> ReadState P -> Prop}
    {done : β -> ReadState P -> Prop}
    {outcome : Outcome P α}
    {next : α -> ReadState P -> Outcome P β}
    (start : outcome.Ends middle gaveUp)
    (rest : ∀ value state, outcome = .done value state -> middle value state ->
      (next value state).Ends done gaveUp) :
    (outcome.bind next).Ends done gaveUp := by
  cases outcome with
  | done value state => exact rest value state rfl start
  | gaveUp final => exact start
  | exhausted => trivial

theorem Ends.mapState
    {done : α -> ReadState P -> Prop}
    {change : ReadState P -> ReadState P}
    {outcome : Outcome P α}
    (ends : outcome.Ends (fun value final => done value (change final))
      fun final => gaveUp (change final)) :
    (outcome.mapState change).Ends done gaveUp := by
  cases outcome with
  | done value state => exact ends
  | gaveUp final => exact ends
  | exhausted => trivial

/-- What every step of a loop keeps holds at its end. -/
theorem Ends.iterate
    {step : α -> ReadState P -> Outcome P (Option α)}
    (invariant : α -> ReadState P -> Prop)
    (keeps : ∀ value state, invariant value state ->
      (step value state).Ends (fun next middle => invariant (next.getD value) middle) gaveUp)
    (repetitions : Nat)
    {start : α}
    {state : ReadState P}
    (first : invariant start state) :
    (Outcome.iterate step repetitions start state).Ends invariant gaveUp := by
  induction repetitions generalizing start state with
  | zero => trivial
  | succ repetitions inductionHypothesis =>
      refine (keeps start state first).bind fun next middle _ holds => ?_
      cases next with
      | none => exact holds
      | some value => exact inductionHypothesis holds

end Outcome

/-! ## Judgements -/

/-- With a room, every run of a production yields values with a property and records no error that parts
do not fit. -/
structure Builds
    (room : Nat)
    (machine : Machine P)
    (production : Production P α)
    (property : α -> Prop) : Prop where
  of_run : ∀ {known : List (SyntaxError P)} {state : ReadState P},
    state.depth + room = machine.limit -> state.PartsFit known ->
    (machine.run production state).Ends (fun value final => property value ∧ final.PartsFit known)
      (ReadState.PartsFit known)

namespace Builds

variable {room : Nat} {machine : Machine P} {property : β -> Prop}

/-! ## Steps -/

theorem done
    {value : β}
    (holds : property value) :
    Builds room machine (.pure value) property :=
  ⟨fun _ partsFit => ⟨holds, partsFit⟩⟩

theorem refuse
    {cause : SyntaxCause}
    (causeFits : cause.PartsFit) :
    Builds room machine (.refuse cause) property :=
  ⟨fun _ partsFit => partsFit.record causeFits⟩

theorem report
    {cause : SyntaxCause}
    (causeFits : cause.PartsFit) :
    Builds room machine (.report cause) fun _ => True :=
  ⟨fun _ partsFit => ⟨trivial, partsFit.record causeFits⟩⟩

theorem bind
    {first : Production P α}
    {next : α -> Production P β}
    {middle : α -> Prop}
    (start : Builds room machine first middle)
    (rest : ∀ value, middle value -> Builds room machine (next value) property) :
    Builds room machine (first.bind next) property := by
  constructor
  intro known state hasRoom partsFit
  refine (start.of_run hasRoom partsFit).bind fun value between startRun ⟨holds, stillFit⟩ => ?_
  obtain ⟨_, reaches⟩ := machine.reaches_of_done startRun
  exact (rest value holds).of_run (reaches.depth ▸ hasRoom) stillFit

/-- A step whose value may be anything. -/
theorem skip
    {first : Production P α}
    {next : α -> Production P β}
    {middle : α -> Prop}
    (start : Builds room machine first middle)
    (rest : ∀ value, Builds room machine (next value) property) :
    Builds room machine (first.bind next) property :=
  bind start fun value _ => rest value

theorem pure_bind
    {value : α}
    {next : α -> Production P β}
    (rest : Builds room machine (next value) property) :
    Builds room machine (Production.bind (.pure value) next) property :=
  ⟨fun hasRoom partsFit => rest.of_run hasRoom partsFit⟩

theorem weaken
    {production : Production P β}
    {stronger : β -> Prop}
    (start : Builds room machine production stronger)
    (weakens : ∀ value, stronger value -> property value) :
    Builds room machine production property :=
  ⟨fun hasRoom partsFit => (start.of_run hasRoom partsFit).mono
    fun value _ _ ⟨holds, stillFit⟩ => ⟨weakens value holds, stillFit⟩⟩

theorem done_some
    {value : β}
    (holds : property value) :
    Builds room machine (.pure (some value)) fun found => ∀ value ∈ found, property value := by
  apply done
  simpa using holds

theorem done_none :
    Builds room machine (.pure none) fun found => ∀ value ∈ found, property value :=
  done nofun

theorem map_some
    {production : Production P β}
    (start : Builds room machine production property) :
    Builds room machine (some <$> production) fun found => ∀ value ∈ found, property value :=
  bind start fun _ holds => done_some holds

theorem choice
    {condition : Prop}
    [Decidable condition]
    {yes no : Production P β}
    (whenTrue : condition -> Builds room machine yes property)
    (whenFalse : ¬condition -> Builds room machine no property) :
    Builds room machine (if condition then yes else no) property := by
  split
  · exact whenTrue ‹_›
  · exact whenFalse ‹_›

theorem look : Builds room machine .look fun _ => True :=
  ⟨fun _ partsFit => ⟨trivial, partsFit⟩⟩

theorem header : Builds room machine .header fun _ => True :=
  ⟨fun _ partsFit => ⟨trivial, partsFit⟩⟩

theorem advance : Builds room machine .advance fun _ => True :=
  ⟨fun _ partsFit => ⟨trivial, partsFit⟩⟩

theorem inHeader
    {within : Bool}
    {body : Production P β}
    (inner : Builds room machine body property) :
    Builds room machine (.inHeader within body) property := by
  constructor
  intro known state hasRoom partsFit
  have ends : (machine.run body { state with inHeader := within }).Ends
      (fun value final => property value ∧ final.PartsFit known) (ReadState.PartsFit known) :=
    inner.of_run hasRoom partsFit
  exact Outcome.Ends.mapState ends

/-- A phrase one level deeper has room for a level less. -/
theorem nested
    {body : Production P β}
    (inner : ∀ less, room = less + 1 -> Builds less machine body property) :
    Builds room machine (.nested body) property := by
  constructor
  intro known state hasRoom partsFit
  change (if machine.limit ≤ state.depth then .gaveUp (state.record (.nestingTooDeep machine.limit))
    else (machine.run body { state with depth := state.depth + 1 }).mapState _ :
      Outcome P β).Ends _ _
  split
  · exact partsFit.record (.of_other rfl)
  · next notFull =>
      obtain ⟨less, rfl⟩ : ∃ less, room = less + 1 := ⟨room - 1, by omega⟩
      have deeperRoom : state.depth + 1 + less = machine.limit := by omega
      exact Outcome.Ends.mapState ((inner less rfl).of_run deeperRoom partsFit)

/-- A phrase that may fail yields what it yields, or nothing. -/
theorem recovering
    {recovery : Recovery}
    {body : Production P β}
    (inner : Builds room machine body property) :
    Builds room machine (.recovering recovery body) fun found => ∀ value ∈ found, property value := by
  constructor
  intro known state hasRoom partsFit
  have ends := inner.of_run hasRoom partsFit
  rw [Machine.run_recovering]
  cases bodyRun : machine.run body state with
  | done value final =>
      rw [bodyRun] at ends
      exact ⟨by simpa using ends.1, ends.2⟩
  | gaveUp final =>
      rw [bodyRun] at ends
      exact ⟨nofun, ends⟩
  | exhausted => trivial

/-- What the steps of a loop keep: a property of the value, the room, and parts that fit. -/
structure Kept
    (room : Nat)
    (machine : Machine P)
    (known : List (SyntaxError P))
    (property : β -> Prop)
    (value : β)
    (state : ReadState P) : Prop where
  holds : property value
  hasRoom : state.depth + room = machine.limit
  partsFit : state.PartsFit known

/-- What every step of a loop keeps holds at its end. -/
theorem iterate
    {step : β -> Production P (Option β)}
    {start : β}
    (property : β -> Prop)
    (first : property start)
    (keeps : ∀ value, property value ->
      Builds room machine (step value) fun next => ∀ value ∈ next, property value) :
    Builds room machine (.iterate step start) property := by
  constructor
  intro known state hasRoom partsFit
  have keepsAll (value : β) (state : ReadState P)
      (kept : Kept room machine known property value state) :
      (machine.run (step value) state).Ends
        (fun next middle => Kept room machine known property (next.getD value) middle)
        (ReadState.PartsFit known) := by
    have ends := (keeps value kept.holds).of_run kept.hasRoom kept.partsFit
    refine ends.mono fun next middle run ⟨each, stillFit⟩ => ?_
    obtain ⟨_, reaches⟩ := machine.reaches_of_done run
    refine ⟨?_, reaches.depth ▸ kept.hasRoom, stillFit⟩
    cases next with
    | none => exact kept.holds
    | some next => exact each next rfl
  refine (Outcome.Ends.iterate _ keepsAll machine.allowance ⟨first, hasRoom, partsFit⟩).mono ?_
  exact fun _ _ _ kept => ⟨kept.holds, kept.partsFit⟩

/-! ## Terminals -/

theorem expect (token : Token) : Builds room machine (Production.expect (P := P) token) fun _ => True := by
  refine skip look ?_
  intro _
  refine choice (fun _ => advance) ?_
  intro _
  exact refuse (.of_other rfl)

theorem eat? (token : Token) : Builds room machine (Production.eat? (P := P) token) fun _ => True := by
  refine skip look ?_
  intro _
  refine choice (fun _ => skip advance fun _ => done trivial) ?_
  intro _
  exact done trivial

/-- A mark shows its token. -/
theorem mark (token : Token) :
    Builds room machine (Production.mark (P := P) token) fun mark => mark.token = token :=
  skip (expect token) fun _ => done rfl

theorem mark? (token : Token) : Builds room machine (Production.mark? (P := P) token) fun _ => True :=
  skip (eat? token) fun _ => done trivial

theorem anyMark : Builds room machine (Production.anyMark (P := P)) fun _ => True :=
  skip advance fun _ => done trivial

theorem ident : Builds room machine (Production.ident (P := P)) fun _ => True :=
  skip (expect .ident) fun _ => done trivial

theorem ident? : Builds room machine (Production.ident? (P := P)) fun _ => True :=
  skip (eat? .ident) fun _ => done trivial

theorem semicolon : Builds room machine (Production.semicolon (P := P)) fun _ => True := by
  refine skip look ?_
  intro _
  refine choice (fun _ => done trivial) ?_
  intro _
  exact skip (expect .semi) fun _ => done trivial

/-- Parts that fit make a phrase. -/
theorem build
    {node : Except InvalidNode β}
    (fits : ∀ reason, node = .error reason -> reason = .varWithoutTypeOrValue)
    (holds : ∀ value, node = .ok value -> property value) :
    Builds room machine (Production.build node) property := by
  cases node with
  | ok value => exact done (holds value rfl)
  | error reason =>
      refine refuse fun other isOther => ?_
      obtain rfl := SyntaxCause.invalidNode.inj isOther
      exact fits reason rfl

/-! ## Lists -/

theorem many
    {step : Production P (Option β)}
    (each : Builds room machine step fun found => ∀ value ∈ found, property value) :
    Builds room machine (Production.many step) fun items => ∀ item ∈ items, property item := by
  refine bind (iterate (fun items => ∀ item ∈ items, property item) ?_ ?_) ?_
  · simp
  · intro items all
    apply bind each
    intro found foundHolds
    apply done
    intro longer isLonger
    obtain ⟨item, isFound, rfl⟩ := Option.map_eq_some_iff.1 isLonger
    exact List.forall_mem_cons.2 ⟨foundHolds item isFound, all⟩
  · intro items all
    apply done
    simpa using all

/-- An item behind a token, if the token comes next. -/
theorem behind
    {token : Token}
    {item : Production P β}
    (each : Builds room machine item property) :
    Builds room machine ((Production.eat? token).bind fun found =>
      if found.isSome then item.bind fun next => .pure (some next) else .pure none)
      fun found => ∀ value ∈ found, property value := by
  refine skip (eat? token) ?_
  intro _
  refine choice (fun _ => bind each fun _ holds => done_some holds) ?_
  intro _
  exact done_none

theorem commaSeparated
    {item : Production P β}
    (each : Builds room machine item property) :
    Builds room machine (Production.commaSeparated item) fun items => ∀ item ∈ items, property item := by
  refine bind each fun first firstHolds => bind (many (behind each)) fun rest restHolds => done ?_
  exact List.forall_mem_cons.2 ⟨firstHolds, restHolds⟩

theorem commaTail
    {closer : Token}
    {item : Production P β}
    (each : Builds room machine item property) :
    Builds room machine (Production.commaTail closer item) fun items => ∀ item ∈ items, property item :=
  many <| skip (eat? .comma) fun _ => skip look fun _ =>
    choice (fun _ => bind each fun _ holds => done_some holds) fun _ => done_none

theorem itemsUntil
    {closer : Token}
    {item : Bool -> Production P (β × Bool)}
    (each : ∀ first, Builds room machine (item first) fun found => property found.1) :
    Builds room machine (Production.itemsUntil closer item) fun items =>
      ∀ item ∈ items, property item := by
  refine bind (iterate (fun collected : List β × Bool => ∀ item ∈ collected.1, property item) ?_ ?_) ?_
  · simp
  · rintro ⟨items, more⟩ all
    refine skip look fun cursor => choice (fun _ => ?_) fun _ => done_none
    apply bind (each items.isEmpty)
    rintro ⟨next, more⟩ holds
    exact done_some (List.forall_mem_cons.2 ⟨holds, all⟩)
  · rintro ⟨items, more⟩ all
    apply done
    simpa using all

theorem withComma
    {item : Production P β}
    (each : Builds room machine item property) :
    Builds room machine (Production.withComma item) fun found => property found.1 := by
  refine bind each ?_
  intro _ holds
  exact skip (eat? .comma) fun _ => done holds

theorem withSemicolon
    {item : Production P β}
    (each : Builds room machine item property) :
    Builds room machine (Production.withSemicolon item) fun found => property found.1 := by
  refine bind each ?_
  intro _ holds
  exact skip semicolon fun _ => done holds

theorem resuming
    {recovery : Recovery}
    {goesOn : Cursor P -> Bool}
    {item : Production P β}
    (each : Builds room machine item property) :
    Builds room machine (Production.resuming recovery goesOn item)
      fun items => ∀ item ∈ items, property item := by
  refine bind (iterate (fun items => ∀ item ∈ items, property item) ?_ ?_) ?_
  · simp
  · intro items all
    refine skip look fun cursor => choice (fun _ => ?_) fun _ => done_none
    refine bind (recovering each) fun found foundHolds => done_some fun item member => ?_
    rcases List.mem_append.1 member with isFound | isEarlier
    · exact foundHolds item (Option.mem_toList.1 isFound)
    · exact all item isEarlier
  · intro items all
    apply done
    simpa using all

end Builds
end GoFront
