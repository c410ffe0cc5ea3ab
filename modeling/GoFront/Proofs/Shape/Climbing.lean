import GoFront.Proofs.Places.Mirrors
import GoFront.Proofs.Shape.Files

/-!
# Precedence climbing

Operands with binary operators between them are read as the one tree that has them in their order and
groups the operators as they bind. How far the right operand of an operator reaches is told along the
sequence: up to the first operator that binds no tighter.
-/

namespace GoFront

variable {P : Type} {limit allowance : Nat}

open GoFront.Tree (GradedExpr GradedOperand Item)

/-! ## Operands -/

/-- An operand with the unary operators before it is read from a state, up to another one, on some
allowance. -/
def ReadsOperand
    (limit : Nat)
    (state : ReadState P)
    (operand : Expr P)
    (final : ReadState P) : Prop :=
  ∃ allowance, (ruleMachine limit allowance).run (.call .unary) state = .done operand final

/-- An operand is read only where phrases can still nest. -/
theorem ReadsOperand.depth_lt
    {state final : ReadState P}
    {operand : Expr P}
    (reads : ReadsOperand limit state operand final) :
    state.depth < limit := by
  obtain ⟨allowance, run⟩ := reads
  cases allowance with
  | zero => cases run
  | succ allowance =>
      rw [run_call_succ] at run
      exact (Machine.exists_of_run_nested run).1

theorem ReadsOperand.operator?_eq_none
    {state final : ReadState P}
    {operand : Expr P}
    (reads : ReadsOperand limit state operand final) :
    operand.operator? = none := by
  obtain ⟨room, hasRoom⟩ := Nat.exists_eq_add_of_lt reads.depth_lt
  obtain ⟨allowance, run⟩ := reads
  have unary : Builds (room + 1) (ruleMachine limit allowance) (.call .unary)
      (GradedOperand (P := P) (8 * (room + 1) + 2)) :=
    (buildsGraded limit allowance).builds .unary
  have ends := unary.of_run hasRoom.symm fun _ member => .inl member
  rw [run] at ends
  exact ends.1.notBinary

theorem ReadsOperand.run_eq
    {state final : ReadState P}
    {operand : Expr P}
    (reads : ReadsOperand limit state operand final)
    (ends : (ruleMachine limit allowance).run (.call .unary) state ≠ .exhausted) :
    (ruleMachine limit allowance).run (.call .unary) state = .done operand final := by
  obtain ⟨other, run⟩ := reads
  exact run_eq_of_ends Tree.map_id Mirrors.unary run nofun ends

/-! ## Sequences -/

/-- Operators, each in front of an operand, are read behind an operand, up to a token that is no binary
operator. -/
inductive ReadsRest (limit : Nat) : ReadState P -> List (Item P) -> ReadState P -> Prop
  | stop {state : ReadState P}
      (ends : state.cursor.token.precedence = .none) : ReadsRest limit state [] state
  | more {state middle final : ReadState P} {operand : Expr P} {items : List (Item P)}
      (isOperator : state.cursor.token.precedence ≠ .none)
      (reads : ReadsOperand limit { state with cursor := state.cursor.advance } operand middle)
      (rest : ReadsRest limit middle items final) :
      ReadsRest limit state
        (.operator ⟨state.cursor.token, state.cursor.pos⟩ :: .operand operand :: items) final

/-- Operands with binary operators between them are read, up to a token that is no binary operator. -/
inductive ReadsSequence (limit : Nat) : ReadState P -> List (Item P) -> ReadState P -> Prop
  | mk {state middle final : ReadState P} {first : Expr P} {items : List (Item P)}
      (reads : ReadsOperand limit state first middle)
      (rest : ReadsRest limit middle items final) :
      ReadsSequence limit state (.operand first :: items) final

/-- What was read to the left of a place and what is left behind it make up a sequence. -/
structure Climbed
    (limit : Nat)
    (least : Precedence)
    (left : Expr P)
    (items : List (Item P))
    (final : ReadState P)
    (tree : Expr P)
    (stop : ReadState P) : Prop where
  exists_cut : ∃ taken behind, items = taken ++ behind ∧ tree.inOrder = left.inOrder ++ taken
    ∧ ReadsRest limit stop behind final
  ends : stop.cursor.token.EndsExpr least

theorem Outcome.bind_ne_exhausted
    {α β : Type}
    {outcome : Outcome P α}
    {next : α -> ReadState P -> Outcome P β}
    (ends : outcome.bind next ≠ .exhausted) :
    outcome ≠ .exhausted := by
  rintro rfl
  exact ends rfl

/-- An operator that binds tightly enough is read with its right operand. -/
theorem run_binaryTail?
    {machine : Machine P}
    {least : Precedence}
    {state : ReadState P}
    (left : Expr P)
    (goesOn : ¬state.cursor.token.EndsExpr least) :
    machine.run (Production.binaryTail? least left) state
      = (machine.run (.call (.expr state.cursor.token.precedence.next))
          { state with cursor := state.cursor.advance }).bind fun right final =>
        .done (some (.binary left ⟨state.cursor.token, state.cursor.pos⟩ right)) final := by
  change machine.run (if state.cursor.token.precedence = .none
    || state.cursor.token.precedence.rank < least.rank then _ else _) state = _
  rw [if_neg (by simpa [Token.EndsExpr] using goesOn)]
  rfl

theorem run_binaryTail?_of_ends
    {machine : Machine P}
    {least : Precedence}
    {state : ReadState P}
    (left : Expr P)
    (ends : state.cursor.token.EndsExpr least) :
    machine.run (Production.binaryTail? least left) state = .done none state := by
  change machine.run (if state.cursor.token.precedence = .none
    || state.cursor.token.precedence.rank < least.rank then _ else _) state = _
  rw [if_pos (by simpa [Token.EndsExpr] using ends)]
  rfl

/-- The loop over operators reads what is left of a sequence up to the first operator that binds too
loosely, if it comes to an end. -/
def LoopClimbs
    (limit : Nat)
    (items : List (Item P))
    (final : ReadState P) : Prop :=
  ∀ {allowance repetitions : Nat} {least : Precedence} {left : Expr P} {state : ReadState P},
    ReadsRest limit state items final ->
    Outcome.iterate (fun value => (ruleMachine limit allowance).run
      (Production.binaryTail? least value)) repetitions left state ≠ .exhausted ->
    ∃ tree stop, Outcome.iterate (fun value => (ruleMachine limit allowance).run
        (Production.binaryTail? least value)) repetitions left state = .done tree stop
      ∧ Climbed limit least left items final tree stop

/-- An expression is its first operand and what the loop adds to it. -/
theorem climbed_of_call
    {least : Precedence}
    {operand : Expr P}
    {items : List (Item P)}
    {state middle final : ReadState P}
    (loop : LoopClimbs limit items final)
    (reads : ReadsOperand limit state operand middle)
    (rest : ReadsRest limit middle items final)
    (ends : (ruleMachine limit allowance).run (.call (.expr least)) state ≠ .exhausted) :
    ∃ (tree : Expr P) (stop : ReadState P),
      (ruleMachine limit allowance).run (.call (.expr least)) state = .done tree stop
        ∧ Climbed limit least operand items final tree stop := by
  cases allowance with
  | zero => exact absurd rfl ends
  | succ allowance =>
      rw [run_call_succ] at ends ⊢
      change ((ruleMachine limit allowance).run (.call .unary) state).bind _ ≠ _ at ends
      have operandRun := reads.run_eq (Outcome.bind_ne_exhausted ends)
      change ∃ (tree : Expr P) (stop : ReadState P),
        ((ruleMachine limit allowance).run (.call .unary) state).bind _ = _ ∧ _
      rw [operandRun] at ends ⊢
      change Outcome.iterate (fun value => (ruleMachine limit allowance).run
        (Production.binaryTail? least value)) allowance operand middle ≠ .exhausted at ends
      exact loop rest ends

theorem loopClimbs
    (items : List (Item P))
    (final : ReadState P) :
    LoopClimbs limit items final := by
  -- the right operand of an operator and what follows it are shorter sequences
  induction length : items.length using Nat.strongRecOn generalizing items with
  | _ length inductionHypothesis =>
      subst length
      intro allowance repetitions least left state rest ends
      cases repetitions with
      | zero => exact absurd rfl ends
      | succ repetitions =>
          rw [ReadsStep.iterate_succ] at ends ⊢
          by_cases stops : state.cursor.token.EndsExpr least
          · rw [run_binaryTail?_of_ends left stops]
            exact ⟨left, state, rfl, ⟨[], items, rfl, by simp, rest⟩, stops⟩
          · rw [run_binaryTail? left stops] at ends ⊢
            cases rest with
            | stop isLast => exact absurd (.inl isLast) stops
            | @more _ middle _ operand items isOperator reads rest =>
                have rightEnds := Outcome.bind_ne_exhausted (Outcome.bind_ne_exhausted ends)
                obtain ⟨right, between, run, ⟨taken, behind, cut, inRight, rest⟩, -⟩ :=
                  climbed_of_call (inductionHypothesis _ (by simp only [List.length_cons]; omega) items rfl)
                    reads rest rightEnds
                rw [run] at ends ⊢
                have shorter : behind.length < (Item.operator (P := P)
                    ⟨state.cursor.token, state.cursor.pos⟩ :: .operand operand :: items).length := by
                  simp only [cut, List.length_cons, List.length_append]
                  omega
                obtain ⟨tree, stop, run, ⟨more, last, cut', inTree, rest⟩, stops⟩ :=
                  inductionHypothesis _ shorter behind rfl rest ends
                refine ⟨tree, stop, run, ⟨.operator ⟨state.cursor.token, state.cursor.pos⟩
                  :: .operand operand :: (taken ++ more), last, ?_, ?_, rest⟩, stops⟩
                · simp [cut, cut']
                · rw [inTree, Tree.inOrder_binary, inRight,
                    Tree.inOrder_operand reads.operator?_eq_none]
                  simp

/-! ## Expressions -/

/-- No operator binds more loosely than the loosest level. -/
theorem Precedence.eq_none_of_rank_lt
    {precedence : Precedence}
    (loose : precedence.rank < Precedence.or.rank) :
    precedence = .none := by
  cases precedence with
  | none => rfl
  | _ => exact absurd loose (by decide)

/-- What an expression is read as is grouped. -/
theorem grouped_of_run
    {least : Precedence}
    {state final : ReadState P}
    {tree : Expr P}
    (inside : state.depth ≤ limit)
    (run : (ruleMachine limit allowance).run (.call (.expr least)) state = .done tree final) :
    tree.Grouped := by
  obtain ⟨room, hasRoom⟩ := Nat.exists_eq_add_of_le inside
  have expr : Builds room (ruleMachine limit allowance) (.call (.expr least))
      (GradedExpr (P := P) (8 * room + 2) least) :=
    (buildsGraded limit allowance).builds (.expr least)
  have ends := expr.of_run hasRoom.symm fun _ member => .inl member
  rw [run] at ends
  exact ends.1.graded.grouped

theorem exists_of_readsSequence
    {state final : ReadState P}
    {items : List (Item P)}
    (sequence : ReadsSequence limit state items final)
    (ends : (ruleMachine limit allowance).run Production.expr state ≠ .exhausted) :
    ∃ tree : Expr P, (ruleMachine limit allowance).run Production.expr state = .done tree final
      ∧ tree.inOrder = items ∧ tree.Grouped := by
  obtain ⟨reads, rest⟩ := sequence
  obtain ⟨tree, stop, run, ⟨taken, behind, rfl, inTree, rest⟩, stops⟩ :=
    climbed_of_call (loopClimbs _ final) reads rest ends
  have noOperator : stop.cursor.token.precedence = .none :=
    stops.elim id Precedence.eq_none_of_rank_lt
  cases rest with
  | more isOperator _ _ => exact absurd noOperator isOperator
  | stop _ =>
      refine ⟨tree, run, ?_, grouped_of_run (Nat.le_of_lt reads.depth_lt) run⟩
      rw [inTree, Tree.inOrder_operand reads.operator?_eq_none]
      simp

/-- Operators are grouped as they bind. Operands with binary operators between them, each operand read as
one with its unary operators, are read as an expression up to the end of the last operand. The tree has
the operands and operators in their order; to the left of an operator stand in it only operators that bind
as tightly or more tightly, to the right only ones that bind more tightly, and below a unary operator
none; no other tree is like this. In no tree that is returned for a text are operators grouped in another
way. -/
theorem operators_are_grouped (limit : Nat) :
    (∀ {P : Type} {allowance : Nat} {state final : ReadState P} {items : List (Item P)},
      state.Regular -> Production.allowance state.cursor.ahead.length ≤ allowance ->
      ReadsSequence limit state items final ->
      ∃ tree : Expr P, (ruleMachine limit allowance).run Production.expr state = .done tree final
        ∧ tree.inOrder = items ∧ tree.Grouped
        ∧ ∀ other : Expr P, other.Grouped -> other.inOrder = items -> other = tree)
      ∧ ∀ (source : String) (filename : Option String),
        (∀ file, (parseFileWithin limit source filename).tree = some file ->
          file.imports.Grouped ∧ file.decls.Grouped)
        ∧ ∀ decl, (parseDeclWithin limit source filename).tree = some decl -> decl.Grouped := by
  refine ⟨?_, fun source filename => ⟨fun file returned => ?_, fun decl returned => ?_⟩⟩
  · intro P allowance state final items regular enough sequence
    have lasts : 8 * state.cursor.ahead.length + 8 ≤ allowance := by
      simp only [Production.allowance] at enough
      omega
    have ends := ((readsNonterminals limit allowance).expr ⟨none, none, none⟩ 8 trivial
      (by omega)).finishes state regular (fun _ known => nomatch known) lasts
    obtain ⟨tree, run, inTree, grouped⟩ := exists_of_readsSequence sequence ends
    exact ⟨tree, run, inTree, grouped, fun other otherGrouped inOther =>
      otherGrouped.eq_of_inOrder grouped (inOther.trans inTree.symm)⟩
  · obtain ⟨imports, decls⟩ := graded_of_returned_file returned
    exact ⟨imports.grouped, decls.grouped⟩
  · exact (graded_of_returned_decl returned).grouped

/-- The lexemes of `-a + b * c;`, each at its number. -/
def sumAndProduct : List (Lexeme Nat) :=
  [⟨.minus, 0, none⟩, ⟨.ident, 1, some "a"⟩, ⟨.plus, 2, none⟩, ⟨.ident, 3, some "b"⟩, ⟨.star, 4, none⟩,
    ⟨.ident, 5, some "c"⟩, ⟨.semi, 6, none⟩]

/-- A sum of a negated name and a product, and a text with a sum below a unary operator. -/
theorem operators_are_grouped_sum :
    (∃ tree : Expr Nat,
      (ruleMachine 9 64).run Production.expr (.start sumAndProduct 7)
          = .done tree ⟨⟨6, sumAndProduct.drop 6, 7⟩, 0, false, []⟩
        ∧ tree.inOrder = [.operand (.unary ⟨.minus, 0⟩ (.ident ⟨"a", 1⟩)), .operator ⟨.plus, 2⟩,
          .operand (.ident ⟨"b", 3⟩), .operator ⟨.star, 4⟩, .operand (.ident ⟨"c", 5⟩)]
        ∧ tree.Grouped)
      ∧ ∃ file, (parseFileWithin 9 "package p\nvar x = -(a + b)" none).tree = some file
        ∧ file.decls.Grouped := by
  have regular : (ReadState.start sumAndProduct 7).Regular := by
    change ∀ lexeme ∈ sumAndProduct,
      lexeme.token ≠ .eof ∧ lexeme.literal.isSome = lexeme.token.isLiteral
    decide
  have sequence : ReadsSequence 9 (.start sumAndProduct 7)
      [.operand (.unary ⟨.minus, 0⟩ (.ident ⟨"a", 1⟩)), .operator ⟨.plus, 2⟩,
        .operand (.ident ⟨"b", 3⟩), .operator ⟨.star, 4⟩, .operand (.ident ⟨"c", 5⟩)]
      ⟨⟨6, sumAndProduct.drop 6, 7⟩, 0, false, []⟩ :=
    .mk ⟨64, rfl⟩ (.more (by decide) ⟨64, rfl⟩ (.more (by decide) ⟨64, rfl⟩ (.stop rfl)))
  have isSome : (parseFileWithin 9 "package p\nvar x = -(a + b)" none).tree.isSome := by
    decide +kernel
  obtain ⟨file, returned⟩ := Option.isSome_iff_exists.1 isSome
  obtain ⟨tree, run, inTree, grouped, -⟩ :=
    (operators_are_grouped 9).1 regular (Nat.le_refl 64) sequence
  exact ⟨⟨tree, run, inTree, grouped⟩, file, returned,
    (((operators_are_grouped 9).2 _ none).1 file returned).2⟩

end GoFront
