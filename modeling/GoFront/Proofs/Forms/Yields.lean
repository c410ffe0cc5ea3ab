import GoFront.Proofs.Forms.WellFormed
import GoFront.Proofs.Reading.Loops

/-!
# What productions yield

Whatever the lexemes are, and whatever errors are recorded on the way, the values that a production can
yield have the properties that its steps give them. A run that gives up yields nothing, so errors need
no attention. What a production yields may depend on whether it stands in the header of a control
statement; every run keeps to the place where it starts.
-/

namespace GoFront

variable {P : Type} {α β : Type}

/-- Every value that a run of a production yields has a property, if the run starts inside or outside of
the header of a control statement, as told. -/
structure Yields
    (inside : Bool)
    (machine : Machine P)
    (production : Production P α)
    (property : α -> Prop) : Prop where
  of_run : ∀ {state : ReadState P} {value : α} {final : ReadState P},
    state.inHeader = inside -> machine.run production state = .done value final -> property value

namespace Yields

variable {inside : Bool} {machine : Machine P} {property : β -> Prop}

/-! ## Steps -/

theorem done
    {value : β}
    (holds : property value) :
    Yields inside machine (.pure value) property := by
  constructor
  intro state result final atFlag run
  obtain ⟨rfl, -⟩ := Outcome.done.inj run
  exact holds

theorem refuse (cause : SyntaxCause) :
    Yields inside machine (.refuse cause) property := by
  constructor
  intro state result final atFlag run
  cases run

theorem bind
    {first : Production P α}
    {next : α -> Production P β}
    {middle : α -> Prop}
    (start : Yields inside machine first middle)
    (rest : ∀ value, middle value -> Yields inside machine (next value) property) :
    Yields inside machine (first.bind next) property := by
  constructor
  intro state result final atFlag run
  obtain ⟨value, between, startRun, restRun⟩ := Reads.run_bind_done run
  obtain ⟨_, reaches⟩ := machine.reaches_of_done startRun
  have stillAtFlag := reaches.inHeader.trans atFlag
  exact (rest value (start.of_run atFlag startRun)).of_run stillAtFlag restRun

theorem pure_bind
    {value : α}
    {next : α -> Production P β}
    (rest : Yields inside machine (next value) property) :
    Yields inside machine (Production.bind (.pure value) next) property :=
  ⟨fun atFlag run => rest.of_run atFlag run⟩

/-- A step whose value may be anything. -/
theorem skip
    {first : Production P α}
    {next : α -> Production P β}
    (rest : ∀ value, Yields inside machine (next value) property) :
    Yields inside machine (first.bind next) property := by
  constructor
  intro state result final atFlag run
  obtain ⟨value, between, startRun, restRun⟩ := Reads.run_bind_done run
  obtain ⟨_, reaches⟩ := machine.reaches_of_done startRun
  exact (rest value).of_run (reaches.inHeader.trans atFlag) restRun

theorem weaken
    {production : Production P β}
    {stronger : β -> Prop}
    (start : Yields inside machine production stronger)
    (weakens : ∀ value, stronger value -> property value) :
    Yields inside machine production property :=
  ⟨fun atFlag run => weakens _ (start.of_run atFlag run)⟩

theorem done_some
    {value : β}
    (holds : property value) :
    Yields inside machine (.pure (some value)) fun found => ∀ value ∈ found, property value := by
  apply done
  simpa using holds

theorem done_none :
    Yields inside machine (.pure none) fun found => ∀ value ∈ found, property value :=
  done nofun

theorem map_some
    {production : Production P β}
    (start : Yields inside machine production property) :
    Yields inside machine (some <$> production) fun found => ∀ value ∈ found, property value :=
  bind start fun _ holds => done_some holds

theorem header : Yields inside machine Production.header fun flag => flag = inside := by
  constructor
  intro state value final atFlag run
  obtain ⟨rfl, -⟩ := Outcome.done.inj run
  exact atFlag

theorem choice
    {condition : Prop}
    [Decidable condition]
    {yes no : Production P β}
    (whenTrue : condition -> Yields inside machine yes property)
    (whenFalse : ¬condition -> Yields inside machine no property) :
    Yields inside machine (if condition then yes else no) property := by
  split
  · exact whenTrue ‹_›
  · exact whenFalse ‹_›

/-- Where a phrase is read does not matter to a part that is read in another place. -/
theorem inHeader
    {within : Bool}
    {body : Production P β}
    (inner : Yields within machine body property) :
    Yields inside machine (.inHeader within body) property := by
  constructor
  intro state value final _ run
  obtain ⟨_, bodyRun, -⟩ := Machine.exists_of_run_inHeader run
  exact inner.of_run rfl bodyRun

theorem nested
    {body : Production P β}
    (inner : Yields inside machine body property) :
    Yields inside machine (.nested body) property := by
  constructor
  intro state value final atFlag run
  obtain ⟨-, _, bodyRun, -⟩ := Machine.exists_of_run_nested run
  refine inner.of_run ?_ bodyRun
  exact atFlag

/-- A phrase that may fail yields what it yields, or nothing. -/
theorem recovering
    {recovery : Recovery}
    {body : Production P β}
    (inner : Yields inside machine body property) :
    Yields inside machine (.recovering recovery body) fun found => ∀ value ∈ found, property value := by
  constructor
  intro state found final atFlag run value isFound
  obtain ⟨result, rfl, bodyRun⟩ | ⟨_, rfl, -⟩ := Machine.exists_of_run_recovering run
  · obtain rfl := Option.some.inj isFound
    exact inner.of_run atFlag bodyRun
  · cases isFound

/-- What every step of a loop keeps holds at its end. -/
theorem iterate
    {step : β -> Production P (Option β)}
    {start : β}
    (property : β -> Prop)
    (first : property start)
    (keeps : ∀ value, property value ->
      Yields inside machine (step value) fun next => ∀ value ∈ next, property value) :
    Yields inside machine (.iterate step start) property := by
  constructor
  intro state result final atFlag run
  change Outcome.iterate (fun value => machine.run (step value)) machine.allowance start state = _
    at run
  generalize machine.allowance = repetitions at run
  induction repetitions generalizing start state with
  | zero => cases run
  | succ repetitions inductionHypothesis =>
      obtain ⟨next, middle, stepRun, restRun⟩ := Outcome.bind_eq_done run
      cases next with
      | none =>
          obtain ⟨rfl, -⟩ := Outcome.done.inj restRun
          exact first
      | some value =>
          obtain ⟨_, reaches⟩ := machine.reaches_of_done stepRun
          exact inductionHypothesis ((keeps start first).of_run atFlag stepRun value rfl)
            (reaches.inHeader.trans atFlag) restRun

/-! ## Terminals -/

/-- A mark shows its token. -/
theorem mark (token : Token) :
    Yields inside machine (Production.mark (P := P) token) fun mark => mark.token = token :=
  skip fun _ => done rfl

theorem build
    {node : Except InvalidNode β}
    (holds : ∀ value, node = .ok value -> property value) :
    Yields inside machine (Production.build node) property := by
  cases node with
  | ok value => exact done (holds value rfl)
  | error reason => exact refuse _

/-! ## Lists -/

theorem many
    {step : Production P (Option β)}
    (each : Yields inside machine step fun found => ∀ value ∈ found, property value) :
    Yields inside machine (Production.many step) fun items => ∀ item ∈ items, property item := by
  refine bind (iterate (fun items => ∀ item ∈ items, property item) ?_ ?_) ?_
  · simp
  · intro items all
    apply bind each
    intro found foundHolds
    apply done
    intro longer isLonger
    obtain ⟨item, isFound, rfl⟩ := Option.map_eq_some_iff.1 isLonger
    exact List.forall_mem_cons.2 ⟨foundHolds item isFound, all⟩
  · intro items all
    apply done
    simpa using all

/-- An item behind a token, if the token comes next. -/
theorem behind
    {token : Token}
    {item : Production P β}
    (each : Yields inside machine item property) :
    Yields inside machine ((Production.eat? token).bind fun found =>
      if found.isSome then item.bind fun next => .pure (some next) else .pure none)
      fun found => ∀ value ∈ found, property value := by
  apply skip
  intro found
  apply choice
  · intro _
    exact bind each fun value holds => done_some holds
  · intro _
    exact done_none

theorem commaSeparated
    {item : Production P β}
    (each : Yields inside machine item property) :
    Yields inside machine (Production.commaSeparated item)
      fun items => items ≠ [] ∧ ∀ item ∈ items, property item := by
  apply bind each
  intro first firstHolds
  apply bind (many (behind each))
  intro rest restHolds
  apply done
  exact ⟨List.cons_ne_nil first rest, List.forall_mem_cons.2 ⟨firstHolds, restHolds⟩⟩

theorem commaTail
    {closer : Token}
    {item : Production P β}
    (each : Yields inside machine item property) :
    Yields inside machine (Production.commaTail closer item)
      fun items => ∀ item ∈ items, property item := by
  apply many
  apply skip
  intro comma
  apply skip
  intro cursor
  apply choice
  · intro _
    exact bind each fun value holds => done_some holds
  · intro _
    exact done_none

/-- Items up to a closing token, of which the first is known to be the first. -/
theorem itemsUntil
    {closer : Token}
    {item : Bool -> Production P (β × Bool)}
    {leading : β -> Prop}
    (each : ∀ first, Yields inside machine (item first) fun found =>
      property found.1 ∧ (first = true -> leading found.1)) :
    Yields inside machine (Production.itemsUntil closer item) fun items =>
      (∀ item ∈ items, property item) ∧ ∀ item ∈ items.head?, leading item := by
  -- items are collected behind each other, so that the first one is last
  refine bind (iterate (fun collected : List β × Bool =>
    (∀ item ∈ collected.1, property item) ∧ ∀ item ∈ collected.1.getLast?, leading item) ?_ ?_) ?_
  · simp
  · rintro ⟨items, more⟩ ⟨all, leads⟩
    apply skip
    intro cursor
    apply choice
    · intro _
      apply bind (each items.isEmpty)
      rintro ⟨next, more⟩ ⟨holds, isLeading⟩
      apply done
      intro longer isLonger
      obtain rfl := Option.some.inj isLonger
      refine ⟨List.forall_mem_cons.2 ⟨holds, all⟩, ?_⟩
      cases items with
      | nil => simpa using isLeading rfl
      | cons last earlier => simpa [List.getLast?_cons_cons] using leads
    · intro _
      exact done_none
  · rintro ⟨items, more⟩ ⟨all, leads⟩
    apply done
    exact ⟨by simpa using all, by simpa using leads⟩

theorem withComma
    {item : Production P β}
    (each : Yields inside machine item property) :
    Yields inside machine (Production.withComma item) fun found => property found.1 := by
  refine bind each ?_
  intro _ holds
  exact skip fun _ => done holds

theorem withSemicolon
    {item : Production P β}
    (each : Yields inside machine item property) :
    Yields inside machine (Production.withSemicolon item) fun found => property found.1 := by
  refine bind each ?_
  intro _ holds
  exact skip fun _ => done holds

/-- Items up to a closing token, all of one sort. -/
theorem itemsUntil_of_each
    {closer : Token}
    {item : Production P (β × Bool)}
    (each : Yields inside machine item fun found => property found.1) :
    Yields inside machine (Production.itemsUntil closer fun _ => item)
      fun items => ∀ item ∈ items, property item := by
  have both : Yields inside machine (Production.itemsUntil closer fun _ => item) fun items =>
      (∀ item ∈ items, property item) ∧ ∀ item ∈ items.head?, True :=
    itemsUntil fun _ => each.weaken fun _ holds => ⟨holds, fun _ => trivial⟩
  exact both.weaken fun items holds => holds.1

theorem resuming
    {recovery : Recovery}
    {goesOn : Cursor P -> Bool}
    {item : Production P β}
    (each : Yields inside machine item property) :
    Yields inside machine (Production.resuming recovery goesOn item)
      fun items => ∀ item ∈ items, property item := by
  refine bind (iterate (fun items => ∀ item ∈ items, property item) ?_ ?_) ?_
  · simp
  · intro items all
    apply skip
    intro cursor
    apply choice
    · intro _
      apply bind (recovering each)
      intro found foundHolds
      apply done
      intro longer isLonger
      obtain rfl := Option.some.inj isLonger
      intro item member
      rcases List.mem_append.1 member with isFound | isEarlier
      · exact foundHolds item (Option.mem_toList.1 isFound)
      · exact all item isEarlier
    · intro _
      exact done_none
  · intro items all
    apply done
    simpa using all

end Yields
end GoFront
