import GoFront.Grammar.Rules
import Mathlib.Tactic.SplitIfs

/-!
# What every run leaves alone

Whatever a production describes, a run of it only moves forward in the lexemes, only adds errors, and
restores the depth and the header flag. A run that gives up has added an error. None of this depends
on the grammar.
-/

namespace GoFront

variable {P : Type}

namespace Cursor

@[simp] theorem stop_advance (cursor : Cursor P) : cursor.advance.stop = cursor.stop := by
  unfold advance
  split <;> rfl

end Cursor

namespace ReadState

/-- A state can be followed by another in a run that passes over some lexemes. -/
structure Reaches (state : ReadState P) (taken : List (Lexeme P)) (final : ReadState P) : Prop where
  ahead : state.cursor.ahead = taken ++ final.cursor.ahead
  consumed : final.cursor.consumed = state.cursor.consumed + taken.length
  stop : final.cursor.stop = state.cursor.stop
  depth : final.depth = state.depth
  inHeader : final.inHeader = state.inHeader
  errors : state.errors <:+ final.errors

namespace Reaches

theorem refl (state : ReadState P) : state.Reaches [] state :=
  ⟨rfl, rfl, rfl, rfl, rfl, List.suffix_rfl⟩

theorem trans
    {first second third : ReadState P}
    {before behind : List (Lexeme P)}
    (start : first.Reaches before second)
    (rest : second.Reaches behind third) :
    first.Reaches (before ++ behind) third where
  ahead := by rw [start.ahead, rest.ahead, List.append_assoc]
  consumed := by
    rw [rest.consumed, start.consumed, List.length_append]
    omega
  stop := rest.stop.trans start.stop
  depth := rest.depth.trans start.depth
  inHeader := rest.inHeader.trans start.inHeader
  errors := start.errors.trans rest.errors

/-- Moving a cursor forward keeps everything else. -/
theorem advance (state : ReadState P) :
    ∃ taken, state.Reaches taken { state with cursor := state.cursor.advance } := by
  cases aheadEq : state.cursor.ahead with
  | nil =>
      have same : state.cursor.advance = state.cursor := by simp [Cursor.advance, aheadEq]
      rw [same]
      exact ⟨[], refl state⟩
  | cons lexeme rest =>
      refine ⟨[lexeme], ?_, ?_, Cursor.stop_advance _, rfl, rfl, List.suffix_rfl⟩ <;>
        simp [Cursor.advance, aheadEq]

/-- Recording an error keeps everything else. -/
theorem record
    (state : ReadState P)
    (cause : SyntaxCause) :
    state.Reaches [] (state.record cause) :=
  ⟨rfl, rfl, rfl, rfl, rfl, List.suffix_cons _ _⟩

/-- Resuming after an error keeps everything else. -/
theorem resume
    (recovery : Recovery)
    (start : Nat)
    (state : ReadState P) :
    ∃ taken, state.Reaches taken
      { state with cursor := recovery.resume start state.cursor } := by
  have skips (cursor : Cursor P) (count : Nat) :
      ∃ taken, cursor.ahead = taken ++ (cursor.skip count).ahead
        ∧ (cursor.skip count).consumed = cursor.consumed + taken.length :=
    ⟨cursor.ahead.take count, by simp [Cursor.skip], by simp [Cursor.skip]⟩
  obtain ⟨first, reaches⟩ := advance state
  unfold Recovery.resume
  split_ifs
  · obtain ⟨rest, aheadEq, consumedEq⟩ :=
      skips state.cursor.advance (recovery.distance state.cursor.advance.ahead)
    refine ⟨first ++ rest, reaches.trans ⟨aheadEq, consumedEq, rfl, rfl, rfl, List.suffix_rfl⟩⟩
  · obtain ⟨rest, aheadEq, consumedEq⟩ :=
      skips state.cursor (recovery.distance state.cursor.ahead)
    exact ⟨rest, aheadEq, consumedEq, rfl, rfl, rfl, List.suffix_rfl⟩

end Reaches
end ReadState

/-! ## Runs -/

namespace Outcome

/-- What every outcome of a run from a state satisfies. -/
def Sound {α : Type} (state : ReadState P) : Outcome P α -> Prop
  | done _ final => ∃ taken, state.Reaches taken final
  | gaveUp final =>
      ∃ taken, state.Reaches taken final ∧ state.errors.length < final.errors.length
  | exhausted => True

theorem Sound.bind
    {α β : Type}
    {state : ReadState P}
    {outcome : Outcome P α}
    {next : α -> ReadState P -> Outcome P β}
    (first : outcome.Sound state)
    (rest : forall value middle, (next value middle).Sound middle) :
    (outcome.bind next).Sound state := by
  cases outcome with
  | exhausted => trivial
  | gaveUp final => exact first
  | done value middle =>
      obtain ⟨before, start⟩ := first
      have behind := rest value middle
      simp only [Outcome.bind]
      cases result : next value middle with
      | exhausted => trivial
      | done value final =>
          rw [result] at behind
          obtain ⟨taken, reaches⟩ := behind
          exact ⟨before ++ taken, start.trans reaches⟩
      | gaveUp final =>
          rw [result] at behind
          obtain ⟨taken, reaches, more⟩ := behind
          exact ⟨before ++ taken, start.trans reaches,
            Nat.lt_of_le_of_lt start.errors.length_le more⟩

theorem Sound.iterate
    {α : Type}
    {step : α -> ReadState P -> Outcome P (Option α)}
    (sound : forall value state, (step value state).Sound state)
    (allowance : Nat)
    (start : α)
    (state : ReadState P) :
    (Outcome.iterate step allowance start state).Sound state := by
  induction allowance generalizing start state with
  | zero => trivial
  | succ allowance inductionHypothesis =>
      refine (sound start state).bind fun next middle => ?_
      cases next with
      | none => exact ⟨[], .refl middle⟩
      | some value => exact inductionHypothesis value middle

end Outcome

/-- Whether every outcome of a reader is sound. -/
def Reader.Sound (reader : Reader P) : Prop :=
  forall nonterminal state, (reader nonterminal state).Sound state

namespace Production

/-- Every run is sound if nonterminals are read soundly. -/
theorem run_sound
    {limit allowance : Nat}
    {reader : Reader P}
    (readerSound : reader.Sound)
    {α : Type}
    (production : Production P α)
    (state : ReadState P) :
    (production.run limit allowance reader state).Sound state := by
  induction production generalizing state with
  | pure value => exact ⟨[], .refl state⟩
  | bind first next firstHypothesis nextHypothesis =>
      exact (firstHypothesis state).bind nextHypothesis
  | look => exact ⟨[], .refl state⟩
  | header => exact ⟨[], .refl state⟩
  | advance => exact ReadState.Reaches.advance state
  | report cause => exact ⟨[], .record state cause⟩
  | refuse cause => exact ⟨[], .record state cause, Nat.lt_succ_self _⟩
  | nested body bodyHypothesis =>
      simp only [run]
      split_ifs
      · exact ⟨[], .record state _, Nat.lt_succ_self _⟩
      · have inside := bodyHypothesis { state with depth := state.depth + 1 }
        cases result : body.run limit allowance reader { state with depth := state.depth + 1 } with
        | exhausted => trivial
        | done value final =>
            rw [result] at inside
            obtain ⟨taken, reaches⟩ := inside
            exact ⟨taken, reaches.ahead, reaches.consumed, reaches.stop,
              by simp [reaches.depth], reaches.inHeader, reaches.errors⟩
        | gaveUp final =>
            rw [result] at inside
            obtain ⟨taken, reaches, more⟩ := inside
            exact ⟨taken, ⟨reaches.ahead, reaches.consumed, reaches.stop,
              by simp [reaches.depth], reaches.inHeader, reaches.errors⟩, more⟩
  | inHeader inside body bodyHypothesis =>
      have within := bodyHypothesis { state with inHeader := inside }
      simp only [run]
      cases result : body.run limit allowance reader { state with inHeader := inside } with
      | exhausted => trivial
      | done value final =>
          rw [result] at within
          obtain ⟨taken, reaches⟩ := within
          exact ⟨taken, reaches.ahead, reaches.consumed, reaches.stop, reaches.depth, rfl,
            reaches.errors⟩
      | gaveUp final =>
          rw [result] at within
          obtain ⟨taken, reaches, more⟩ := within
          exact ⟨taken, ⟨reaches.ahead, reaches.consumed, reaches.stop, reaches.depth, rfl,
            reaches.errors⟩, more⟩
  | recovering recovery body bodyHypothesis =>
      have within := bodyHypothesis state
      simp only [run]
      cases result : body.run limit allowance reader state with
      | exhausted => trivial
      | done value final =>
          rw [result] at within
          exact within
      | gaveUp final =>
          rw [result] at within
          obtain ⟨before, reaches, -⟩ := within
          obtain ⟨behind, resumes⟩ := ReadState.Reaches.resume recovery state.cursor.consumed final
          exact ⟨before ++ behind, reaches.trans resumes⟩
  | iterate step start stepHypothesis =>
      exact Outcome.Sound.iterate stepHypothesis allowance start state
  | call nonterminal => exact readerSound nonterminal state

end Production

/-- Nonterminals are read soundly on every allowance. -/
theorem Nonterminal.read_sound
    (limit allowance : Nat) :
    (Nonterminal.read (P := P) limit allowance).Sound := by
  induction allowance with
  | zero =>
      intro nonterminal state
      trivial
  | succ allowance inductionHypothesis =>
      intro nonterminal state
      exact Production.run_sound inductionHypothesis nonterminal.rule state

end GoFront
