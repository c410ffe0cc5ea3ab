import GoFront.Proofs.Progress.Runs
import GoFront.Proofs.Reading.Nesting

/-!
# The nesting limit

The nesting limit is seen only where it is hit. A text in which no phrase is found to nest too deep is
read within every larger limit just as it is within this one, errors and all. That rests on two facts:
each run leaves the depth as it found it, whether it succeeds or gives up, and hitting the limit is always
complained about.
-/

namespace GoFront

variable {P : Type} {α β : Type}

/-- Every run that ends leaves behind the depth and the header flag that it found. -/
theorem Production.restored_of_run
    (limit allowance : Nat)
    (production : Production P α)
    (state final : ReadState P)
    (isFinal : final ∈
      (production.run limit allowance (Nonterminal.read limit allowance) state).final?) :
    final.depth = state.depth ∧ final.inHeader = state.inHeader := by
  have sound := (ruleMachine limit allowance).run_sound production state
  change final ∈ ((ruleMachine limit allowance).run production state).final? at isFinal
  cases run : (ruleMachine limit allowance).run production state with
  | exhausted =>
      rw [run] at isFinal
      cases isFinal
  | done value last =>
      rw [run] at isFinal sound
      obtain rfl := Option.some.inj isFinal
      obtain ⟨_, reaches⟩ := sound
      exact ⟨reaches.depth, reaches.inHeader⟩
  | gaveUp last =>
      rw [run] at isFinal sound
      obtain rfl := Option.some.inj isFinal
      obtain ⟨_, reaches, _⟩ := sound
      exact ⟨reaches.depth, reaches.inHeader⟩

/-- Whether a complaint is that a phrase nests deeper than a limit. -/
def Diagnostic.isTooDeep (limit : Nat) : Diagnostic -> Bool
  | grammatical error => error.cause = .nestingTooDeep limit
  | lexical _ => false

namespace Parsed

/-- No phrase is complained about for nesting deeper than a limit. -/
def NestsWithin (limit : Nat) (parsed : Parsed α) : Prop :=
  ∀ diagnostic ∈ parsed.diagnostics, diagnostic.isTooDeep limit = false

instance (limit : Nat) (parsed : Parsed α) : Decidable (parsed.NestsWithin limit) :=
  inferInstanceAs (Decidable (∀ diagnostic ∈ parsed.diagnostics, _))

/-- A run that found a phrase to nest too deep complains about it. -/
theorem not_nestsWithin_of_tooDeep
    {limit : Nat}
    {lexemes : List (Lexeme Position)}
    {stop : Position}
    {outcome : Outcome Position α}
    (finish : α -> Option β)
    (found : outcome.TooDeep limit (.start lexemes stop)) :
    ¬(ofOutcome finish outcome).NestsWithin limit := by
  obtain ⟨final, isFinal, recent, errorsEq, error, member, tooDeep⟩ := found
  have recorded : error ∈ final.errors := errorsEq ▸ List.mem_append_left _ member
  have shown : Diagnostic.grammatical error ∈ final.errors.reverse.map .grammatical :=
    List.mem_map_of_mem (List.mem_reverse.2 recorded)
  intro nests
  cases outcome with
  | exhausted => cases isFinal
  | done value last | gaveUp last =>
      obtain rfl := Option.some.inj isFinal
      exact of_decide_eq_false (nests _ shown) tooDeep

/-- An answer is the same within a larger limit if the smaller one is not hit. -/
theorem ofLexed_of_nestsWithin
    {limit limit' : Nat}
    {production : Production Position α}
    {finish : α -> Option β}
    {lexed : Lexed Position}
    (room : limit ≤ limit')
    (ends : production.readFrom limit lexed.significant lexed.stop ≠ .exhausted)
    (nests : (ofLexed limit production finish lexed).NestsWithin limit) :
    ofLexed limit' production finish lexed = ofLexed limit production finish lexed := by
  unfold ofLexed at nests ⊢
  split
  · rfl
  · next noErrors =>
    rw [if_neg noErrors] at nests
    have tracks := Machine.run_tracks 0 room
      (Nat.le_refl (Production.allowance lexed.significant.length)) production
      (.start lexed.significant lexed.stop)
    rw [ReadState.deeper_zero, ← Production.readFrom_eq_run, ← Production.readFrom_eq_run] at tracks
    generalize production.readFrom limit lexed.significant lexed.stop = narrow at *
    generalize production.readFrom limit' lexed.significant lexed.stop = roomy at *
    cases tracks with
    | exhausted => exact absurd rfl ends
    | tooDeep found => exact absurd nests (not_nestsWithin_of_tooDeep finish found)
    | same => cases narrow <;> rfl

end Parsed

/-- The nesting limit is transparent: a text in which nothing is found to nest deeper than a limit has the
same tree and the same diagnostics within every larger one. And whatever is read, within any limit, the
depth and the header flag are as before when it is read or given up. -/
theorem nesting_limit_is_transparent
    (limit limit' : Nat)
    (room : limit ≤ limit')
    (source : String)
    (filename : Option String) :
    ((parseFileWithin limit source filename).NestsWithin limit ->
        parseFileWithin limit' source filename = parseFileWithin limit source filename)
      ∧ ((parseDeclWithin limit source filename).NestsWithin limit ->
        parseDeclWithin limit' source filename = parseDeclWithin limit source filename)
      ∧ ∀ (anyLimit allowance : Nat) {α : Type} (production : Production Position α)
          (state final : ReadState Position),
        final ∈ (production.run anyLimit allowance (Nonterminal.read anyLimit allowance) state).final? ->
          final.depth = state.depth ∧ final.inHeader = state.inHeader := by
  obtain ⟨file, decl⟩ := parse_comes_to_end limit source filename
  exact ⟨Parsed.ofLexed_of_nestsWithin room file.ends, Parsed.ofLexed_of_nestsWithin room decl.ends,
    fun anyLimit allowance _ => Production.restored_of_run anyLimit allowance⟩

/-- A text that can just be read, and a declaration in it that is given up and skipped. -/
theorem nesting_limit_is_transparent_skipped :
    9 ≤ 100
      ∧ (parseFileWithin 9 "package p\nvar = 1\nvar x = ((((((((1))))))))\n" none).NestsWithin 9
      ∧ parseFileWithin 100 "package p\nvar = 1\nvar x = ((((((((1))))))))\n" none
        = parseFileWithin 9 "package p\nvar = 1\nvar x = ((((((((1))))))))\n" none := by
  have nests :
      (parseFileWithin 9 "package p\nvar = 1\nvar x = ((((((((1))))))))\n" none).NestsWithin 9 := by
    decide +kernel
  exact ⟨by decide, nests, (nesting_limit_is_transparent 9 100 (by decide) _ none).1 nests⟩

end GoFront
