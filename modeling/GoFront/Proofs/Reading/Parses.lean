import GoFront.Proofs.Reading.Nesting

/-!
# Readings without errors

What a production reads without errors is told without an allowance: it reads a value from a state up to
a cursor if some run does. The rules of this module take such a reading apart along the steps of the
production, and put it together again.
-/

namespace GoFront

variable {P : Type}

theorem Machine.run_bind_of_done
    {α β : Type}
    {machine : Machine P}
    {first : Production P α}
    {next : α -> Production P β}
    {state middle final : ReadState P}
    {value : α}
    {result : β}
    (firstRun : machine.run first state = .done value middle)
    (restRun : machine.run (next value) middle = .done result final) :
    machine.run (.bind first next) state = .done result final := by
  change (machine.run first state).bind (fun value => machine.run (next value)) = _
  rw [firstRun]
  exact restRun

/-! ## States on the way -/

namespace ReadState

/-- The same state in front of other lexemes. -/
def moveTo (state : ReadState P) (cursor : Cursor P) : ReadState P :=
  { state with cursor := cursor }

@[simp] theorem cursor_moveTo (state : ReadState P) (cursor : Cursor P) :
    (state.moveTo cursor).cursor = cursor := rfl

@[simp] theorem depth_moveTo (state : ReadState P) (cursor : Cursor P) :
    (state.moveTo cursor).depth = state.depth := rfl

@[simp] theorem inHeader_moveTo (state : ReadState P) (cursor : Cursor P) :
    (state.moveTo cursor).inHeader = state.inHeader := rfl

@[simp] theorem moveTo_cursor (state : ReadState P) : state.moveTo state.cursor = state := rfl

@[simp] theorem moveTo_moveTo (state : ReadState P) (first second : Cursor P) :
    (state.moveTo first).moveTo second = state.moveTo second := rfl

/-- The same state inside or outside a header. -/
def place (state : ReadState P) (inside : Bool) : ReadState P :=
  { state with inHeader := inside }

@[simp] theorem cursor_place (state : ReadState P) (inside : Bool) :
    (state.place inside).cursor = state.cursor := rfl

@[simp] theorem depth_place (state : ReadState P) (inside : Bool) :
    (state.place inside).depth = state.depth := rfl

@[simp] theorem moveTo_deeper (state : ReadState P) (levels : Nat) (cursor : Cursor P) :
    (state.deeper levels).moveTo cursor = (state.moveTo cursor).deeper levels := rfl

@[simp] theorem moveTo_place (state : ReadState P) (inside : Bool) (cursor : Cursor P) :
    (state.place inside).moveTo cursor = (state.moveTo cursor).place inside := rfl

/-- A run without errors changes nothing but the cursor. -/
theorem Reaches.eq_moveTo
    {state final : ReadState P}
    {taken : List (Lexeme P)}
    (reaches : state.Reaches taken final)
    (clean : final.errors = state.errors) :
    final = state.moveTo final.cursor := by
  cases final
  cases clean
  cases reaches.depth
  cases reaches.inHeader
  rfl

end ReadState

namespace Production

variable {α β : Type} {limit : Nat} {state : ReadState P} {final : Cursor P}

/-- A production reads a value without errors, from a state up to a cursor. -/
def Parses
    (limit : Nat)
    (production : Production P α)
    (state : ReadState P)
    (value : α)
    (final : Cursor P) : Prop :=
  ∃ allowance, (ruleMachine limit allowance).run production state = .done value (state.moveTo final)

namespace Parses

variable {production : Production P α} {value : α}

theorem of_run
    {allowance : Nat}
    {last : ReadState P}
    (run : (ruleMachine limit allowance).run production state = .done value last)
    (clean : last.errors = state.errors) :
    Parses limit production state value last.cursor := by
  obtain ⟨_, reaches⟩ := Machine.reaches_of_done run
  exact ⟨allowance, reaches.eq_moveTo clean ▸ run⟩

theorem exists_taken (parses : Parses limit production state value final) :
    ∃ taken, state.cursor.ahead = taken ++ final.ahead := by
  obtain ⟨allowance, run⟩ := parses
  obtain ⟨taken, reaches⟩ := Machine.reaches_of_done run
  exact ⟨taken, reaches.ahead⟩

theorem ahead_suffix (parses : Parses limit production state value final) :
    final.ahead <:+ state.cursor.ahead := by
  obtain ⟨taken, aheadEq⟩ := parses.exists_taken
  exact ⟨taken, aheadEq.symm⟩

/-- A larger allowance does as well. -/
theorem run_of_le
    {allowance allowance' : Nat}
    (run : (ruleMachine limit allowance).run production state = .done value (state.moveTo final))
    (lasts : allowance ≤ allowance') :
    (ruleMachine limit allowance').run production state = .done value (state.moveTo final) :=
  Machine.run_of_room 0 (Nat.le_refl limit) lasts run rfl

/-- What is read is read some levels deeper, if phrases may nest as much deeper. -/
theorem deeper
    {limit' : Nat}
    (levels : Nat)
    (parses : Parses limit production state value final)
    (room : limit + levels ≤ limit') :
    Parses limit' production (state.deeper levels) value final := by
  obtain ⟨allowance, run⟩ := parses
  exact ⟨allowance, Machine.run_of_room levels room (Nat.le_refl allowance) run rfl⟩

/-- Phrases may nest deeper than they do. -/
theorem mono
    {limit' : Nat}
    (parses : Parses limit production state value final)
    (room : limit ≤ limit') :
    Parses limit' production state value final :=
  parses.deeper 0 room

end Parses

/-! ## Steps -/

@[simp] theorem parses_pure {value result : α} :
    Parses limit (.pure value) state result final ↔ result = value ∧ final = state.cursor := by
  constructor
  · rintro ⟨_, run⟩
    obtain ⟨rfl, stateEq⟩ := Outcome.done.inj run
    exact ⟨rfl, congrArg ReadState.cursor stateEq.symm⟩
  · rintro ⟨rfl, rfl⟩
    exact ⟨0, rfl⟩

@[simp] theorem parses_bind
    {first : Production P α}
    {next : α -> Production P β}
    {result : β} :
    Parses limit (.bind first next) state result final ↔
      ∃ value middle, Parses limit first state value middle
        ∧ Parses limit (next value) (state.moveTo middle) result final := by
  constructor
  · rintro ⟨allowance, run⟩
    obtain ⟨value, between, firstRun, restRun⟩ := Reads.run_bind_done run
    obtain ⟨_, start⟩ := Machine.reaches_of_done firstRun
    obtain ⟨_, rest⟩ := Machine.reaches_of_done restRun
    -- errors of the first phrase would still be there behind the second
    have clean : between.errors = state.errors :=
      (start.errors.eq_of_length_le rest.errors.length_le).symm
    obtain ⟨middle, rfl⟩ : ∃ middle, between = state.moveTo middle := ⟨_, start.eq_moveTo clean⟩
    exact ⟨value, middle, ⟨allowance, firstRun⟩, allowance, restRun⟩
  · rintro ⟨value, middle, ⟨first, firstRun⟩, rest, restRun⟩
    refine ⟨max first rest, ?_⟩
    exact Machine.run_bind_of_done (Parses.run_of_le firstRun (Nat.le_max_left first rest))
      (Parses.run_of_le restRun (Nat.le_max_right first rest))

@[simp] theorem bind_eq (first : Production P α) (next : α -> Production P β) :
    first >>= next = .bind first next := rfl

@[simp] theorem map_eq (change : α -> β) (first : Production P α) :
    change <$> first = .bind first fun value => .pure (change value) := rfl

@[simp] theorem parses_look {result : Cursor P} :
    Parses limit .look state result final ↔ result = state.cursor ∧ final = state.cursor := by
  constructor
  · rintro ⟨_, run⟩
    obtain ⟨rfl, stateEq⟩ := Outcome.done.inj run
    exact ⟨rfl, congrArg ReadState.cursor stateEq.symm⟩
  · rintro ⟨rfl, rfl⟩
    exact ⟨0, rfl⟩

theorem parses_bind_look
    {next : Cursor P -> Production P β}
    {result : β} :
    Parses limit (.bind .look next) state result final ↔
      Parses limit (next state.cursor) state result final := by
  simp

@[simp] theorem parses_header {result : Bool} :
    Parses limit .header state result final ↔ result = state.inHeader ∧ final = state.cursor := by
  constructor
  · rintro ⟨_, run⟩
    obtain ⟨rfl, stateEq⟩ := Outcome.done.inj run
    exact ⟨rfl, congrArg ReadState.cursor stateEq.symm⟩
  · rintro ⟨rfl, rfl⟩
    exact ⟨0, rfl⟩

@[simp] theorem parses_advance {result : Lexeme P} :
    Parses limit .advance state result final ↔
      result = state.cursor.peek ∧ final = state.cursor.advance := by
  constructor
  · rintro ⟨_, run⟩
    obtain ⟨rfl, stateEq⟩ := Outcome.done.inj run
    exact ⟨rfl, congrArg ReadState.cursor stateEq.symm⟩
  · rintro ⟨rfl, rfl⟩
    exact ⟨0, rfl⟩

@[simp] theorem not_parses_refuse {cause : SyntaxCause} {result : α} :
    ¬ Parses limit (.refuse cause) state result final := by
  rintro ⟨_, run⟩
  cases run

@[simp] theorem parses_nested {body : Production P α} {result : α} :
    Parses limit (.nested body) state result final ↔
      state.depth < limit ∧ Parses limit body (state.deeper 1) result final := by
  constructor
  · rintro ⟨allowance, run⟩
    obtain ⟨room, last, bodyRun, finalEq⟩ := Machine.exists_of_run_nested run
    obtain rfl : final = last.cursor := congrArg ReadState.cursor finalEq
    have clean := congrArg ReadState.errors finalEq
    exact ⟨room, .of_run bodyRun clean.symm⟩
  · rintro ⟨room, allowance, run⟩
    refine ⟨allowance, (if_neg (Nat.not_le.2 room)).trans ?_⟩
    exact congrArg (·.mapState fun last => { last with depth := last.depth - 1 }) run

@[simp] theorem parses_inHeader {inside : Bool} {body : Production P α} {result : α} :
    Parses limit (.inHeader inside body) state result final ↔
      Parses limit body (state.place inside) result final := by
  constructor
  · rintro ⟨allowance, run⟩
    obtain ⟨last, bodyRun, finalEq⟩ := Machine.exists_of_run_inHeader run
    obtain rfl : final = last.cursor := congrArg ReadState.cursor finalEq
    have clean := congrArg ReadState.errors finalEq
    exact .of_run bodyRun clean.symm
  · rintro ⟨allowance, run⟩
    exact ⟨allowance, congrArg (·.mapState fun last => { last with inHeader := state.inHeader }) run⟩

/-- A nonterminal is read by its rule. -/
theorem parses_call {nonterminal : Nonterminal} {result : nonterminal.Result P} :
    Parses limit (.call nonterminal) state result final ↔
      Parses limit nonterminal.rule state result final := by
  constructor
  · rintro ⟨allowance, run⟩
    cases allowance with
    | zero => cases run
    | succ allowance => exact ⟨allowance, run⟩
  · rintro ⟨allowance, run⟩
    exact ⟨allowance + 1, run⟩

/-! ## Terminals -/

@[simp] theorem parses_expect {token : Token} {result : Lexeme P} :
    Parses limit (expect token) state result final ↔
      state.cursor.token = token ∧ result = state.cursor.peek ∧ final = state.cursor.advance := by
  by_cases atToken : state.cursor.token = token <;> simp [expect, atToken]

@[simp] theorem parses_eat? {token : Token} {result : Option (Lexeme P)} :
    Parses limit (eat? token) state result final ↔
      if state.cursor.token = token
        then result = some state.cursor.peek ∧ final = state.cursor.advance
        else result = none ∧ final = state.cursor := by
  by_cases atToken : state.cursor.token = token <;> simp [eat?, atToken, and_comm]

@[simp] theorem parses_mark {token : Token} {result : Mark P} :
    Parses limit (mark token) state result final ↔
      state.cursor.token = token ∧ result = ⟨token, state.cursor.pos⟩
        ∧ final = state.cursor.advance := by
  simp [mark, Cursor.pos, and_assoc]

@[simp] theorem parses_mark? {token : Token} {result : Option (Mark P)} :
    Parses limit (mark? token) state result final ↔
      if state.cursor.token = token
        then result = some ⟨token, state.cursor.pos⟩ ∧ final = state.cursor.advance
        else result = none ∧ final = state.cursor := by
  by_cases atToken : state.cursor.token = token <;> simp [mark?, atToken, Cursor.pos, and_comm]

@[simp] theorem parses_anyMark {result : Mark P} :
    Parses limit anyMark state result final ↔
      result = ⟨state.cursor.token, state.cursor.pos⟩ ∧ final = state.cursor.advance := by
  simp [anyMark, Cursor.pos, Cursor.token, and_comm]

@[simp] theorem parses_ident {result : Ident P} :
    Parses limit ident state result final ↔
      state.cursor.token = .ident ∧ result = identOf state.cursor.peek
        ∧ final = state.cursor.advance := by
  simp [ident, and_assoc]

/-! ## Repetitions -/

/-- Steps from a starting value, up to one that yields nothing. -/
inductive Repeats
    (limit : Nat)
    (step : α -> Production P (Option α)) :
    (state : ReadState P) -> (start result : α) -> (final : Cursor P) -> Prop
  | stop
      {state : ReadState P}
      {value : α}
      {final : Cursor P}
      (last : Parses limit (step value) state none final) :
      Repeats limit step state value value final
  | more
      {state : ReadState P}
      {value next result : α}
      {middle final : Cursor P}
      (first : Parses limit (step value) state (some next) middle)
      (rest : Repeats limit step (state.moveTo middle) next result final) :
      Repeats limit step state value result final

/-- A repetition without errors is the same on a larger allowance and with more steps to go. -/
theorem iterate_of_le
    {allowance allowance' repetitions repetitions' : Nat}
    {step : α -> Production P (Option α)}
    {start result : α}
    (lasts : allowance ≤ allowance')
    (more : repetitions ≤ repetitions')
    (run : Outcome.iterate (fun value => (ruleMachine limit allowance).run (step value)) repetitions
      start state = .done result (state.moveTo final)) :
    Outcome.iterate (fun value => (ruleMachine limit allowance').run (step value)) repetitions'
      start state = .done result (state.moveTo final) := by
  have tracks := Outcome.Tracks.iterate
    (fun value => (ruleMachine limit allowance).run_sound (step value))
    (fun value => Machine.run_tracks 0 (Nat.le_refl limit) lasts (step value)) more start state
  rw [run] at tracks
  exact tracks.eq_of_clean rfl

theorem repeats_of_iterate
    {allowance repetitions : Nat}
    {step : α -> Production P (Option α)}
    {start result : α}
    (run : Outcome.iterate (fun value => (ruleMachine limit allowance).run (step value)) repetitions
      start state = .done result (state.moveTo final)) :
    Repeats limit step state start result final := by
  induction repetitions generalizing start state with
  | zero => cases run
  | succ repetitions inductionHypothesis =>
      obtain ⟨next, between, stepRun, restRun⟩ := Outcome.bind_eq_done run
      obtain ⟨_, front⟩ := Machine.reaches_of_done stepRun
      cases next with
      | none =>
          obtain ⟨rfl, rfl⟩ := Outcome.done.inj restRun
          exact .stop ⟨allowance, stepRun⟩
      | some next =>
          have isSound := Outcome.Sound.iterate
            (fun value => (ruleMachine limit allowance).run_sound (step value)) repetitions next
            between
          dsimp only at restRun
          rw [restRun] at isSound
          obtain ⟨_, back⟩ := isSound
          have clean : between.errors = state.errors :=
            (front.errors.eq_of_length_le back.errors.length_le).symm
          obtain ⟨middle, rfl⟩ : ∃ middle, between = state.moveTo middle := ⟨_, front.eq_moveTo clean⟩
          exact .more ⟨allowance, stepRun⟩ (inductionHypothesis restRun)

theorem parses_iterate
    {step : α -> Production P (Option α)}
    {start result : α} :
    Parses limit (.iterate step start) state result final ↔
      Repeats limit step state start result final := by
  refine ⟨fun ⟨_, run⟩ => repeats_of_iterate run, fun isRepeated => ?_⟩
  induction isRepeated with
  | stop last =>
      obtain ⟨allowance, run⟩ := last
      have lastRun := Parses.run_of_le run (Nat.le_add_right allowance 1)
      refine ⟨allowance + 1, (ReadsStep.iterate_succ allowance _ _).trans ?_⟩
      rw [lastRun]
      rfl
  | more first _ inductionHypothesis =>
      obtain ⟨early, run⟩ := first
      obtain ⟨late, restRun⟩ := inductionHypothesis
      have early_le : early ≤ max early late + 1 := by omega
      have late_le : late ≤ max early late + 1 := by omega
      have firstRun := Parses.run_of_le run early_le
      have again := iterate_of_le late_le (Nat.le_max_right early late) restRun
      refine ⟨max early late + 1, (ReadsStep.iterate_succ (max early late) _ _).trans ?_⟩
      rw [firstRun]
      exact again

/-- Items that a step yields one after the other, up to where it yields nothing. -/
def Collects
    (limit : Nat)
    (step : Production P (Option α)) : List α -> ReadState P -> Cursor P -> Prop
  | [], state, final => Parses limit step state none final
  | item :: items, state, final =>
      ∃ middle, Parses limit step state (some item) middle
        ∧ Collects limit step items (state.moveTo middle) final

section Many

variable {step : Production P (Option α)}

/-- One step of a repetition that puts what is read in front of earlier items. -/
def collectStep (step : Production P (Option α)) (items : List α) : Production P (Option (List α)) := do
  let item ← step
  pure (item.map (· :: items))

theorem parses_collectStep_none {items : List α} :
    Parses limit (collectStep step items) state none final ↔ Parses limit step state none final := by
  simp only [collectStep, bind_eq, parses_bind, parses_pure]
  constructor
  · rintro ⟨item, middle, parses, missing, rfl⟩
    obtain rfl := Option.map_eq_none_iff.1 missing.symm
    exact parses
  · exact fun parses => ⟨none, final, parses, rfl, rfl⟩

theorem parses_collectStep_some {items collected : List α} :
    Parses limit (collectStep step items) state (some collected) final ↔
      ∃ item, collected = item :: items ∧ Parses limit step state (some item) final := by
  simp only [collectStep, bind_eq, parses_bind, parses_pure]
  constructor
  · rintro ⟨read, middle, parses, found, rfl⟩
    obtain ⟨item, rfl, isCollected⟩ := Option.map_eq_some_iff.1 found.symm
    exact ⟨item, isCollected.symm, parses⟩
  · rintro ⟨item, rfl, parses⟩
    exact ⟨some item, final, parses, rfl, rfl⟩

/-- Items pile up in reverse on what was there at the start. -/
theorem repeats_collectStep_iff {start result : List α} :
    Repeats limit (collectStep step) state start result final ↔
      ∃ items, result = items.reverse ++ start ∧ Collects limit step items state final := by
  constructor
  · intro isRepeated
    induction isRepeated with
    | stop last => exact ⟨[], rfl, parses_collectStep_none.1 last⟩
    | more first _ inductionHypothesis =>
        obtain ⟨item, rfl, parses⟩ := parses_collectStep_some.1 first
        obtain ⟨items, rfl, collects⟩ := inductionHypothesis
        exact ⟨item :: items, by simp, _, parses, collects⟩
  · rintro ⟨items, rfl, collects⟩
    induction items generalizing state start with
    | nil => exact .stop (parses_collectStep_none.2 collects)
    | cons item items inductionHypothesis =>
        obtain ⟨middle, parses, collects⟩ := collects
        rw [List.reverse_cons, List.append_assoc]
        exact .more (parses_collectStep_some.2 ⟨item, rfl, parses⟩) (inductionHypothesis collects)

theorem parses_many {items : List α} :
    Parses limit (many step) state items final ↔ Collects limit step items state final := by
  change Parses limit (.bind (.iterate (collectStep step) []) fun items => .pure items.reverse)
    state items final ↔ _
  simp only [parses_bind, parses_pure, parses_iterate, repeats_collectStep_iff, List.append_nil]
  constructor
  · rintro ⟨_, _, ⟨items, rfl, collects⟩, rfl, rfl⟩
    rw [List.reverse_reverse]
    exact collects
  · intro collects
    exact ⟨_, final, ⟨items, rfl, collects⟩, items.reverse_reverse.symm, rfl⟩

end Many

/-! ## Items behind commas -/

section CommaTail

variable {closer : Token} {item : Production P α}

theorem parses_commaTail_nil :
    Parses limit (commaTail closer item) state [] final ↔
      (state.cursor.token ≠ .comma ∧ final = state.cursor)
        ∨ (state.cursor.token = .comma ∧ state.cursor.advance.token = closer
          ∧ final = state.cursor.advance) := by
  rw [commaTail, parses_many]
  by_cases atComma : state.cursor.token = .comma <;>
    by_cases closes : state.cursor.advance.token = closer <;>
      simp [Collects, atComma, closes]

theorem parses_commaTail_cons {first : α} {rest : List α} :
    Parses limit (commaTail closer item) state (first :: rest) final ↔
      state.cursor.token = .comma ∧ state.cursor.advance.token ≠ closer
        ∧ ∃ middle, Parses limit item (state.moveTo state.cursor.advance) first middle
          ∧ Parses limit (commaTail closer item) (state.moveTo middle) rest final := by
  simp only [commaTail, parses_many]
  by_cases atComma : state.cursor.token = .comma <;>
    by_cases closes : state.cursor.advance.token = closer <;>
      simp [Collects, atComma, closes]

end CommaTail

end Production
end GoFront
