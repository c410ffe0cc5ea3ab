import GoFront.Proofs.Reading.Statements
import GoFront.Grammar.Rules

/-!
# Reading nonterminals

Every nonterminal is read as a phrase, on every allowance. The proof is by induction on the allowance:
the rules on an allowance read what they should if nonterminals are read as they should on the next
smaller one.
-/

namespace GoFront

variable {P : Type}

/-- Reads nonterminals by their rules, on an allowance. -/
def ruleMachine
    (limit allowance : Nat) : Machine P :=
  ⟨limit, allowance, Nonterminal.read limit allowance, Nonterminal.read_sound limit allowance⟩

theorem run_call_succ
    (limit allowance : Nat)
    (nonterminal : Nonterminal)
    (state : ReadState P) :
    (ruleMachine limit (allowance + 1)).run (.call nonterminal) state
      = (ruleMachine limit allowance).run nonterminal.rule state := rfl

/-- Nothing is read on no allowance. -/
theorem readsPhrase_zero
    {limit need : Nat}
    {inside : Option (List Token) -> Prop}
    {nonterminal : Nonterminal}
    {result : nonterminal.Result P -> Nat -> Nat -> List (Mention P) -> Prop} :
    ReadsPhrase (ruleMachine limit 0) inside (need + 1) (.call nonterminal) result := by
  intro frame credit _ enough
  refine ⟨?_, fun _ _ _ _ _ run => (nomatch run), fun _ _ _ _ run => (nomatch run)⟩
  intro state _ _ allowed
  change 8 * state.cursor.ahead.length + credit ≤ 0 at allowed
  omega

/-- A nonterminal is read as its rule is on a smaller allowance. -/
theorem readsPhrase_succ
    {limit allowance need : Nat}
    {inside : Option (List Token) -> Prop}
    {nonterminal : Nonterminal}
    {result : nonterminal.Result P -> Nat -> Nat -> List (Mention P) -> Prop}
    (reads : ReadsPhrase (ruleMachine limit allowance) inside need nonterminal.rule result)
    (shifts : ∀ value credit reached mentions, result value credit reached mentions ->
      result value (credit + 1) (reached + 1) mentions) :
    ReadsPhrase (ruleMachine limit (allowance + 1)) inside (need + 1) (.call nonterminal)
      result := by
  intro frame credit isInside enough
  obtain ⟨less, rfl⟩ : ∃ less, credit = less + 1 := ⟨credit - 1, by omega⟩
  have rule := reads frame less isInside (by omega)
  refine ⟨?_, ?_, rule.fails⟩
  · intro state regular known allowed
    change 8 * state.cursor.ahead.length + (less + 1) ≤ allowance + 1 at allowed
    refine rule.finishes state regular known ?_
    change 8 * state.cursor.ahead.length + less ≤ allowance
    omega
  · intro state value final regular known run
    obtain ⟨_, mentions, taken, ⟨reached, rfl, holds⟩, completes⟩ :=
      rule.completes state value final regular known run
    refine ⟨_, mentions, taken, ⟨reached + 1, rfl, shifts _ _ _ _ holds⟩, ?_⟩
    have credit : reached ≤ less + 8 * taken.length := completes.credit
    refine { completes with credit := ?_ }
    change reached + 1 ≤ less + 1 + 8 * taken.length
    omega

theorem Consumed.shift
    {α : Type}
    {outline : α -> List (Mention P)}
    {valid : α -> Prop}
    (value : α)
    (credit reached : Nat)
    (mentions : List (Mention P))
    (consumed : Consumed outline valid value credit reached mentions) :
    Consumed outline valid value (credit + 1) (reached + 1) mentions := by
  obtain ⟨gains, mentionsEq, isValid⟩ := consumed
  exact ⟨by omega, mentionsEq, isValid⟩

theorem Possibly.shift
    (value : Option (TypeExpr P))
    (credit reached : Nat)
    (mentions : List (Mention P))
    (possibly : Possibly value credit reached mentions) :
    Possibly value (credit + 1) (reached + 1) mentions := by
  obtain ⟨missing, same, nothing⟩ | ⟨type, found, gains, mentionsEq⟩ := possibly
  · exact .inl ⟨missing, by omega, nothing⟩
  · exact .inr ⟨type, found, by omega, mentionsEq⟩

namespace ReadsNonterminals

open Reads

variable {machine : Machine P} (nonterminals : ReadsNonterminals machine)

include nonterminals in
/-- A type that is a name takes the brackets behind it. -/
theorem typeRule_takesArgs
    {state final : ReadState P}
    {value : Option (TypeExpr P)}
    (regular : state.Regular)
    (run : machine.run Production.typeRule state = .done value final)
    (startsName : state.cursor.token = .ident)
    (bracket : final.cursor.token = .lBrack) :
    state.cursor.consumed + 2 ≤ final.cursor.consumed := by
  obtain ⟨-, inner, bodyRun, rfl⟩ := Machine.exists_of_run_nested run
  replace bodyRun := run_look_done bodyRun
  dsimp only at bodyRun
  rw [startsName] at bodyRun
  obtain ⟨type, middle, typeRun, restRun⟩ := run_bind_done bodyRun
  obtain ⟨rfl, rfl⟩ := Outcome.done.inj restRun
  obtain ⟨name, last, nameRun, restRun⟩ := run_bind_done typeRun
  obtain ⟨rfl, rfl⟩ := Outcome.done.inj restRun
  have innerRegular : ReadState.Regular { state with depth := state.depth + 1 } := regular
  have taken := nonterminals.typeName_takesArgs innerRegular nameRun bracket
  exact taken

/-- A block begins with a brace. -/
theorem blockRule_brace
    (machine : Machine P)
    {state final : ReadState P}
    {value : Block P}
    (run : machine.run Production.blockRule state = .done value final) :
    state.cursor.token = .lBrace := by
  obtain ⟨-, _, run, -⟩ := Machine.exists_of_run_nested run
  obtain ⟨_, run, -⟩ := Machine.exists_of_run_inHeader run
  have brace := token_of_mark run
  exact brace

end ReadsNonterminals

/-- Nonterminals are read as they should on every allowance. -/
theorem readsNonterminals (limit allowance : Nat) :
    ReadsNonterminals (P := P) (ruleMachine limit allowance) := by
  induction allowance with
  | zero =>
      refine ⟨readsPhrase_zero, fun _ => readsPhrase_zero, readsPhrase_zero, readsPhrase_zero,
        readsPhrase_zero, readsPhrase_zero, readsPhrase_zero, ?_, ?_⟩
      · exact fun _ _ _ _ run => nomatch run
      · exact fun _ _ _ run => nomatch run
  | succ allowance nonterminals =>
      exact {
        type? := readsPhrase_succ nonterminals.typeRule Possibly.shift
        exprOf := fun least => readsPhrase_succ (nonterminals.exprRule least) Consumed.shift
        unary := readsPhrase_succ nonterminals.unaryRule Consumed.shift
        literalBody := readsPhrase_succ nonterminals.literalBodyRule Consumed.shift
        block := readsPhrase_succ nonterminals.blockRule Consumed.shift
        stmt := readsPhrase_succ nonterminals.stmtRule Consumed.shift
        ifStmt := readsPhrase_succ nonterminals.ifStmtRule Consumed.shift
        typeTakesArgs := fun _ _ _ regular run => nonterminals.typeRule_takesArgs regular run
        blockBrace := fun _ _ _ run => 
          ReadsNonterminals.blockRule_brace (ruleMachine limit allowance) run }

end GoFront
