import GoFront.Proofs.Reading.Rules

/-!
# Room to nest

A run on a small nesting limit and a small allowance is the run on more room, unless it used up its
allowance or found a phrase to nest too deep. So what a run reads does not depend on the room that it
has, and a phrase is read some levels deeper as it is read where it stands.
-/

namespace GoFront

variable {P : Type}

/-! ## Levels and complaints -/

namespace ReadState

/-- The same state some levels deeper. -/
def deeper (state : ReadState P) (levels : Nat) : ReadState P :=
  { state with depth := state.depth + levels }

@[simp] theorem cursor_deeper (state : ReadState P) (levels : Nat) :
    (state.deeper levels).cursor = state.cursor := rfl

@[simp] theorem depth_deeper (state : ReadState P) (levels : Nat) :
    (state.deeper levels).depth = state.depth + levels := rfl

@[simp] theorem inHeader_deeper (state : ReadState P) (levels : Nat) :
    (state.deeper levels).inHeader = state.inHeader := rfl

@[simp] theorem errors_deeper (state : ReadState P) (levels : Nat) :
    (state.deeper levels).errors = state.errors := rfl

@[simp] theorem deeper_zero (state : ReadState P) : state.deeper 0 = state := rfl

/-- Behind a state, a phrase was found to nest too deep. -/
def TooDeep (limit : Nat) (state final : ReadState P) : Prop :=
  ∃ recent, final.errors = recent ++ state.errors
    ∧ ∃ error ∈ recent, error.cause = .nestingTooDeep limit

namespace TooDeep

variable {limit : Nat} {state middle final : ReadState P}

theorem record (limit : Nat) (state : ReadState P) :
    TooDeep limit state (state.record (.nestingTooDeep limit)) :=
  ⟨[⟨.nestingTooDeep limit, state.cursor.pos⟩], rfl, _, List.mem_singleton_self _, rfl⟩

theorem before
    (errors : state.errors <:+ middle.errors)
    (tooDeep : TooDeep limit middle final) :
    TooDeep limit state final := by
  obtain ⟨older, middleErrors⟩ := errors
  obtain ⟨recent, finalErrors, error, member, cause⟩ := tooDeep
  refine ⟨recent ++ older, ?_, error, List.mem_append_left older member, cause⟩
  rw [finalErrors, ← middleErrors, List.append_assoc]

theorem behind
    (tooDeep : TooDeep limit state middle)
    (errors : middle.errors <:+ final.errors) :
    TooDeep limit state final := by
  obtain ⟨recent, middleErrors, error, member, cause⟩ := tooDeep
  obtain ⟨newer, finalErrors⟩ := errors
  refine ⟨newer ++ recent, ?_, error, List.mem_append_right newer member, cause⟩
  rw [← finalErrors, middleErrors, List.append_assoc]

/-- A run that found a phrase to nest too deep has errors. -/
theorem errors_ne (tooDeep : TooDeep limit state final) : final.errors ≠ state.errors := by
  obtain ⟨recent, finalErrors, error, member, -⟩ := tooDeep
  intro same
  have nothing : recent = [] := List.append_left_eq_self.1 (finalErrors.symm.trans same)
  exact absurd (nothing ▸ member) List.not_mem_nil

end TooDeep
end ReadState

namespace Outcome

variable {α β : Type}

/-- The state in which a run ends, if its allowance lasts. -/
def final? : Outcome P α -> Option (ReadState P)
  | done _ final | gaveUp final => some final
  | exhausted => none

/-- From a state, a run found a phrase to nest too deep. -/
def TooDeep (limit : Nat) (state : ReadState P) (outcome : Outcome P α) : Prop :=
  ∃ final ∈ outcome.final?, state.TooDeep limit final

/-- A run without errors found nothing to nest too deep. -/
theorem not_tooDeep_done
    {limit : Nat}
    {state final : ReadState P}
    {value : α}
    (clean : final.errors = state.errors) :
    ¬(done value final).TooDeep limit state := by
  rintro ⟨_, ⟨⟩, tooDeep⟩
  exact tooDeep.errors_ne clean

/-- What a run from a state says about the run with more room from some levels deeper: the same, unless
it ended for want of room. -/
inductive Tracks
    (limit levels : Nat)
    (state : ReadState P) : (narrow roomy : Outcome P α) -> Prop
  | exhausted (roomy : Outcome P α) : Tracks limit levels state exhausted roomy
  | tooDeep {narrow roomy : Outcome P α}
      (found : narrow.TooDeep limit state) : Tracks limit levels state narrow roomy
  | same (narrow : Outcome P α) :
      Tracks limit levels state narrow (narrow.mapState fun final => final.deeper levels)

namespace Tracks

variable {limit levels : Nat} {state middle : ReadState P} {narrow roomy : Outcome P α}

/-- What was found behind a later state was found behind an earlier one. -/
theorem before
    (errors : state.errors <:+ middle.errors)
    (tracks : Tracks limit levels middle narrow roomy) :
    Tracks limit levels state narrow roomy := by
  cases tracks with
  | exhausted => exact .exhausted _
  | same => exact .same _
  | tooDeep found =>
      obtain ⟨final, isFinal, tooDeep⟩ := found
      exact .tooDeep ⟨final, isFinal, tooDeep.before errors⟩

/-- A run behind a complaint still has it. -/
theorem behind
    {final : ReadState P}
    {narrow roomy : Outcome P β}
    (sound : narrow.Sound final)
    (tooDeep : state.TooDeep limit final) :
    Tracks limit levels state narrow roomy := by
  cases narrow with
  | exhausted => exact .exhausted _
  | done value last =>
      obtain ⟨_, reaches⟩ := sound
      exact .tooDeep ⟨last, rfl, tooDeep.behind reaches.errors⟩
  | gaveUp last =>
      obtain ⟨_, reaches, -⟩ := sound
      exact .tooDeep ⟨last, rfl, tooDeep.behind reaches.errors⟩

theorem bind
    {next next' : α -> ReadState P -> Outcome P β}
    (tracks : Tracks limit levels state narrow roomy)
    (sound : narrow.Sound state)
    (nextSound : ∀ value middle, (next value middle).Sound middle)
    (rest : ∀ value middle,
      Tracks limit levels middle (next value middle) (next' value (middle.deeper levels))) :
    Tracks limit levels state (narrow.bind next) (roomy.bind next') := by
  cases tracks with
  | exhausted => exact .exhausted _
  | tooDeep found =>
      cases narrow with
      | exhausted => exact .exhausted _
      | gaveUp final => exact .tooDeep found
      | done value middle =>
          obtain ⟨_, ⟨⟩, tooDeep⟩ := found
          exact .behind (nextSound value middle) tooDeep
  | same =>
      cases narrow with
      | exhausted => exact .exhausted _
      | gaveUp final => exact .same (.gaveUp final)
      | done value middle =>
          obtain ⟨_, reaches⟩ := sound
          exact (rest value middle).before reaches.errors

/-- Runs that change the state back when they are over. -/
theorem mapState
    {entered : ReadState P}
    {change change' : ReadState P -> ReadState P}
    (tracks : Tracks limit levels entered narrow roomy)
    (sound : narrow.Sound entered)
    (sameErrors : entered.errors = state.errors)
    (keeps : ∀ final, (change final).errors = final.errors)
    (agrees : ∀ taken final, entered.Reaches taken final ->
      change' (final.deeper levels) = (change final).deeper levels) :
    Tracks limit levels state (narrow.mapState change) (roomy.mapState change') := by
  cases tracks with
  | exhausted => exact .exhausted _
  | tooDeep found =>
      have still {final : ReadState P} (tooDeep : entered.TooDeep limit final) :
          state.TooDeep limit (change final) := by
        obtain ⟨recent, errors, complaint⟩ := tooDeep
        exact ⟨recent, by rw [keeps, errors, sameErrors], complaint⟩
      cases narrow with
      | exhausted => exact .exhausted _
      | gaveUp final =>
          obtain ⟨_, ⟨⟩, tooDeep⟩ := found
          exact .tooDeep ⟨_, rfl, still tooDeep⟩
      | done value final =>
          obtain ⟨_, ⟨⟩, tooDeep⟩ := found
          exact .tooDeep ⟨_, rfl, still tooDeep⟩
  | same =>
      cases narrow with
      | exhausted => exact .exhausted _
      | gaveUp final =>
          obtain ⟨taken, reaches, -⟩ := sound
          simp only [Outcome.mapState, agrees taken final reaches]
          exact .same (.gaveUp (change final))
      | done value final =>
          obtain ⟨taken, reaches⟩ := sound
          simp only [Outcome.mapState, agrees taken final reaches]
          exact .same (.done value (change final))

theorem iterate
    {step step' : α -> ReadState P -> Outcome P (Option α)}
    (sound : ∀ value state, (step value state).Sound state)
    (steps : ∀ value state,
      Tracks limit levels state (step value state) (step' value (state.deeper levels)))
    {allowance allowance' : Nat}
    (lasts : allowance ≤ allowance')
    (value : α)
    (state : ReadState P) :
    Tracks limit levels state (Outcome.iterate step allowance value state)
      (Outcome.iterate step' allowance' value (state.deeper levels)) := by
  induction allowance generalizing allowance' value state with
  | zero => exact .exhausted _
  | succ allowance inductionHypothesis =>
      obtain ⟨more, rfl⟩ : ∃ more, allowance' = more + 1 := ⟨allowance' - 1, by omega⟩
      refine (steps value state).bind (sound value state) ?_ ?_
      · intro next middle
        cases next with
        | none => exact ⟨[], .refl middle⟩
        | some next => exact Outcome.Sound.iterate sound allowance next middle
      · intro next middle
        cases next with
        | none => exact .same (.done value middle)
        | some next => exact inductionHypothesis (Nat.le_of_succ_le_succ lasts) next middle

/-- A run without errors did not end for want of room. -/
theorem eq_of_clean
    {value : α}
    {final : ReadState P}
    (tracks : Tracks limit levels state (.done value final) roomy)
    (clean : final.errors = state.errors) :
    roomy = .done value (final.deeper levels) := by
  cases tracks with
  | same => rfl
  | tooDeep found => exact absurd found (not_tooDeep_done clean)

end Tracks
end Outcome

/-! ## Runs -/

namespace Production

/-- A run tracks the run with more room if the readers of nonterminals do. -/
theorem run_tracks
    {limit limit' levels allowance allowance' : Nat}
    {reader reader' : Reader P}
    (room : limit + levels ≤ limit')
    (lasts : allowance ≤ allowance')
    (sound : reader.Sound)
    (nonterminals : ∀ nonterminal state, Outcome.Tracks limit levels state
      (reader nonterminal state) (reader' nonterminal (state.deeper levels)))
    {α : Type}
    (production : Production P α)
    (state : ReadState P) :
    Outcome.Tracks limit levels state (production.run limit allowance reader state)
      (production.run limit' allowance' reader' (state.deeper levels)) := by
  induction production generalizing state with
  | pure value => exact .same (.done value state)
  | bind first next firstHypothesis nextHypothesis =>
      exact (firstHypothesis state).bind (first.run_sound sound state)
        (fun value => (next value).run_sound sound) nextHypothesis
  | look => exact .same (.done state.cursor state)
  | header => exact .same (.done state.inHeader state)
  | advance =>
      exact .same (.done state.cursor.peek { state with cursor := state.cursor.advance })
  | report cause => exact .same (.done () (state.record cause))
  | refuse cause => exact .same (.gaveUp (state.record cause))
  | nested body bodyHypothesis =>
      by_cases refused : limit ≤ state.depth
      · rw [run, if_pos refused]
        exact .tooDeep ⟨_, rfl, .record limit state⟩
      · have entered : ¬ limit' ≤ (state.deeper levels).depth := by
          rw [ReadState.depth_deeper]
          omega
        rw [run, run, if_neg refused, if_neg entered]
        have inside := bodyHypothesis { state with depth := state.depth + 1 }
        have sameStart : ReadState.deeper { state with depth := state.depth + 1 } levels
            = { state.deeper levels with depth := (state.deeper levels).depth + 1 } := by
          simp only [ReadState.deeper, Nat.add_right_comm]
        rw [sameStart] at inside
        refine inside.mapState (body.run_sound sound _) rfl (fun _ => rfl) ?_
        intro taken final reaches
        -- the level that is left is the one that was entered
        have depthEq : final.depth = state.depth + 1 := reaches.depth
        simp only [ReadState.deeper, ReadState.mk.injEq, true_and, and_true]
        omega
  | inHeader inside body bodyHypothesis =>
      exact (bodyHypothesis { state with inHeader := inside }).mapState (body.run_sound sound _) rfl
        (fun _ => rfl) fun _ _ _ => rfl
  | recovering recovery body bodyHypothesis =>
      have tracks := bodyHypothesis state
      simp only [run, ReadState.cursor_deeper]
      generalize body.run limit allowance reader state = narrow at tracks ⊢
      generalize body.run limit' allowance' reader' (state.deeper levels) = roomy at tracks ⊢
      cases tracks with
      | exhausted => exact .exhausted _
      | tooDeep found =>
          obtain ⟨last, isFinal, tooDeep⟩ := found
          cases narrow with
          | exhausted => exact .exhausted _
          | done value final =>
              obtain rfl := Option.some.inj isFinal
              exact .tooDeep ⟨_, rfl, tooDeep⟩
          | gaveUp final =>
              obtain rfl := Option.some.inj isFinal
              exact .tooDeep ⟨_, rfl, tooDeep⟩
      | same =>
          cases narrow with
          | exhausted => exact .exhausted _
          | done value final => exact .same (.done (some value) final)
          | gaveUp final => exact .same (.done none _)
  | iterate step start stepHypothesis =>
      exact .iterate (fun value => (step value).run_sound sound) stepHypothesis lasts start state
  | call nonterminal => exact nonterminals nonterminal state

end Production

/-- Nonterminals are read on a small limit and allowance as they are on more room. -/
theorem Nonterminal.read_tracks
    {limit limit' levels allowance allowance' : Nat}
    (room : limit + levels ≤ limit')
    (lasts : allowance ≤ allowance')
    (nonterminal : Nonterminal)
    (state : ReadState P) :
    Outcome.Tracks limit levels state (Nonterminal.read limit allowance nonterminal state)
      (Nonterminal.read limit' allowance' nonterminal (state.deeper levels)) := by
  induction allowance generalizing allowance' nonterminal state with
  | zero => exact .exhausted _
  | succ allowance inductionHypothesis =>
      obtain ⟨more, rfl⟩ : ∃ more, allowance' = more + 1 := ⟨allowance' - 1, by omega⟩
      have lasts := Nat.le_of_succ_le_succ lasts
      exact nonterminal.rule.run_tracks room lasts (Nonterminal.read_sound limit allowance)
        (inductionHypothesis lasts) state

namespace Machine

/-- A run on a small limit and allowance is the run on more room, unless it ended for want of room. -/
theorem run_tracks
    {limit limit' allowance allowance' : Nat}
    (levels : Nat)
    (room : limit + levels ≤ limit')
    (lasts : allowance ≤ allowance')
    {α : Type}
    (production : Production P α)
    (state : ReadState P) :
    Outcome.Tracks limit levels state ((ruleMachine limit allowance).run production state)
      ((ruleMachine limit' allowance').run production (state.deeper levels)) :=
  production.run_tracks room lasts (Nonterminal.read_sound limit allowance)
    (Nonterminal.read_tracks room lasts) state

/-- A run without errors is the same on more room. -/
theorem run_of_room
    {limit limit' allowance allowance' : Nat}
    (levels : Nat)
    (room : limit + levels ≤ limit')
    (lasts : allowance ≤ allowance')
    {α : Type}
    {production : Production P α}
    {state final : ReadState P}
    {value : α}
    (run : (ruleMachine limit allowance).run production state = .done value final)
    (clean : final.errors = state.errors) :
    (ruleMachine limit' allowance').run production (state.deeper levels)
      = .done value (final.deeper levels) := by
  have tracks := run_tracks levels room lasts production state
  rw [run] at tracks
  exact tracks.eq_of_clean clean

/-- What a run reads without errors on more room it reads on less, unless it ends for want of room. -/
theorem run_of_roomy
    {limit limit' allowance allowance' : Nat}
    (room : limit ≤ limit')
    (lasts : allowance ≤ allowance')
    {α : Type}
    {production : Production P α}
    {state final : ReadState P}
    {value : α}
    (finishes : (ruleMachine limit allowance).run production state ≠ .exhausted)
    (run : (ruleMachine limit' allowance').run production state = .done value final) :
    ((ruleMachine limit allowance).run production state).TooDeep limit state
      ∨ (ruleMachine limit allowance).run production state = .done value final := by
  have tracks := run_tracks 0 room lasts production state
  rw [ReadState.deeper_zero, run] at tracks
  generalize (ruleMachine limit allowance).run production state = narrow at tracks finishes ⊢
  generalize roomyEq : Outcome.done value final = roomy at tracks
  cases tracks with
  | exhausted => exact absurd rfl finishes
  | tooDeep found => exact .inl found
  | same =>
      cases narrow with
      | exhausted => exact absurd rfl finishes
      | gaveUp _ => cases roomyEq
      | done _ _ =>
          obtain ⟨rfl, rfl⟩ := Outcome.done.inj roomyEq
          exact .inr rfl

end Machine
end GoFront
