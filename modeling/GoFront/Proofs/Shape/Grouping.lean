import GoFront.Proofs.Forms.WellFormed

/-!
# Operators in groups

In a tree, binary operators are grouped as they bind: to the left of an operator stand operators that
bind as tightly or more tightly, to its right only ones that bind more tightly, and below a unary
operator none at all. Only one tree is grouped like this for a sequence of operands and operators.
-/

namespace GoFront

variable {P : Type} {slot : Slot}

/-- How tightly a mark binds as a binary operator. -/
def Mark.rank (op : Mark P) : Nat :=
  op.token.precedence.rank

namespace Tree

/-! ## Groups -/

/-- The operator of a binary expression. -/
def operator? : {slot : Slot} -> Tree P slot -> Option (Mark P)
  | _, binary _ op _ => some op
  | _, _ => none

/-- The operators next to an operator are grouped as they bind. -/
def Groups : {slot : Slot} -> Tree P slot -> Prop
  | _, binary left op right =>
      op.token.precedence ≠ .none
        ∧ (∀ inner ∈ left.operator?, op.rank ≤ inner.rank)
        ∧ ∀ inner ∈ right.operator?, op.rank < inner.rank
  | _, unary _ operand => operand.operator? = none
  | _, _ => True

/-- Everywhere in a tree operators are grouped as they bind. -/
structure Grouped (tree : Tree P slot) : Prop where
  groups_of_occurs : ∀ {inner : Slot} {node : Tree P inner}, Occurs node tree -> node.Groups

namespace Grouped

variable {tree : Tree P slot}

theorem groups (grouped : tree.Grouped) : tree.Groups :=
  grouped.groups_of_occurs (.refl tree)

theorem child
    {inner : Slot}
    {child : Tree P inner}
    (grouped : tree.Grouped)
    (isChild : ⟨inner, child⟩ ∈ tree.children) :
    child.Grouped := by
  constructor
  intro slot node occurs
  exact grouped.groups_of_occurs (.inside isChild occurs)

theorem of_parts
    (groups : tree.Groups)
    (parts : ∀ part ∈ tree.children, part.2.Grouped) :
    tree.Grouped := by
  constructor
  intro inner node occurs
  cases occurs with
  | refl => exact groups
  | inside isChild occurs => exact (parts _ isChild).groups_of_occurs occurs

end Grouped

/-! ## Sequences of operands and operators -/

/-- An operand or an operator of an expression. -/
inductive Item (P : Type)
  | operand (expr : Expr P)
  | operator (op : Mark P)

/-- The operands and the operators of an expression from left to right. -/
def inOrder : {slot : Slot} -> Tree P slot -> List (Item P)
  | _, binary left op right => left.inOrder ++ .operator op :: right.inOrder
  | .one .expr, operand => [.operand operand]
  | _, _ => []

theorem inOrder_binary
    (left : Expr P)
    (op : Mark P)
    (right : Expr P) :
    (binary left op right).inOrder = left.inOrder ++ .operator op :: right.inOrder := rfl

theorem inOrder_operand
    {expr : Expr P}
    (isOperand : expr.operator? = none) :
    expr.inOrder = [.operand expr] := by
  cases expr with
  | binary _ _ _ => cases isOperand
  | _ => rfl

/-- An expression is an operand of a sequence, or it is put together by an operator. -/
theorem operand_or_binary (expr : Expr P) :
    expr.inOrder = [.operand expr] ∨ ∃ left op right, expr = binary left op right := by
  cases expr with
  | binary left op right => exact .inr ⟨left, op, right, rfl⟩
  | _ => exact .inl rfl

/-- What is known of the operator of a part holds for all operators in it, if none is looser. -/
theorem le_rank_of_root
    {part : Expr P}
    {op : Mark P}
    {least : Nat}
    (roots : ∀ root ∈ part.operator?, least ≤ root.rank)
    (loosest : ∀ root ∈ part.operator?, root.rank ≤ op.rank)
    (isInOrder : .operator op ∈ part.inOrder) :
    least ≤ op.rank := by
  cases isRoot : part.operator? with
  | none => simp [inOrder_operand isRoot] at isInOrder
  | some root => exact Nat.le_trans (roots root isRoot) (loosest root isRoot)

/-- The operator of a grouped expression binds as loosely as any of its operators. -/
theorem Grouped.rank_le
    {tree : Tree P slot}
    (grouped : tree.Grouped)
    {op : Mark P}
    (isInOrder : .operator op ∈ tree.inOrder)
    {root : Mark P}
    (isRoot : root ∈ tree.operator?) :
    root.rank ≤ op.rank := by
  induction tree generalizing root with
  | binary left first right leftHypothesis rightHypothesis =>
      obtain rfl : first = root := Option.some.inj isRoot
      obtain ⟨-, leftRank, rightRank⟩ := grouped.groups
      obtain inLeft | rfl | inRight :
          .operator op ∈ left.inOrder ∨ op = first ∨ .operator op ∈ right.inOrder := by
        simpa [inOrder_binary] using isInOrder
      · have leftGrouped : left.Grouped := grouped.child (.head _)
        exact le_rank_of_root leftRank (fun _ => leftHypothesis leftGrouped inLeft) inLeft
      · exact Nat.le_refl _
      · have rightGrouped : right.Grouped := grouped.child (.tail _ (.head _))
        apply Nat.le_of_succ_le
        exact le_rank_of_root rightRank (fun _ => rightHypothesis rightGrouped inRight) inRight
  | _ => cases isRoot

section Binary

variable {left right : Expr P} {root op : Mark P}

theorem Grouped.rank_le_left
    (grouped : (binary left root right).Grouped)
    (isInOrder : .operator op ∈ left.inOrder) :
    root.rank ≤ op.rank := by
  have leftGrouped : left.Grouped := grouped.child (.head _)
  exact le_rank_of_root grouped.groups.2.1 (fun _ => leftGrouped.rank_le isInOrder) isInOrder

theorem Grouped.rank_lt_right
    (grouped : (binary left root right).Grouped)
    (isInOrder : .operator op ∈ right.inOrder) :
    root.rank < op.rank := by
  have rightGrouped : right.Grouped := grouped.child (.tail _ (.head _))
  exact le_rank_of_root grouped.groups.2.2 (fun _ => rightGrouped.rank_le isInOrder) isInOrder

end Binary

/-- A sequence is cut at the last of its loosest operators: no other cut comes later. -/
theorem length_le_of_cuts
    {first second : Mark P}
    {left right left' right' : List (Item P)}
    (same : left ++ .operator first :: right = left' ++ .operator second :: right')
    (tighter : ∀ op, .operator op ∈ right -> first.rank < op.rank)
    (tight : ∀ op, .operator op ∈ left' -> second.rank ≤ op.rank) :
    left'.length ≤ left.length := by
  obtain ⟨between, rfl, rest⟩ | ⟨between, rfl, -⟩ := List.append_eq_append_iff.1 same
  · cases between with
    | nil => simp
    | cons item between =>
        obtain ⟨rfl, rfl⟩ := List.cons.inj rest
        have less := tighter second (by simp)
        exact absurd less (Nat.not_lt_of_ge (tight first (by simp)))
  · simp

/-- Only one grouped tree has a given sequence of operands and operators. -/
theorem Grouped.eq_of_inOrder
    {expr other : Expr P}
    (grouped : expr.Grouped)
    (otherGrouped : other.Grouped)
    (same : expr.inOrder = other.inOrder) :
    expr = other := by
  induction length : expr.inOrder.length using Nat.strongRecOn generalizing expr other with
  | _ length inductionHypothesis =>
      subst length
      obtain isOperand | ⟨left, root, right, rfl⟩ := operand_or_binary expr
      · obtain isOther | ⟨left, root, right, rfl⟩ := operand_or_binary other
        · rw [isOperand, isOther] at same
          exact Item.operand.inj (List.cons.inj same).1
        · simp [isOperand, inOrder_binary, List.singleton_eq_append_iff] at same
      · obtain isOther | ⟨left', root', right', rfl⟩ := operand_or_binary other
        · simp [isOther, inOrder_binary, List.append_eq_singleton_iff] at same
        · rw [inOrder_binary, inOrder_binary] at same
          have notLater := length_le_of_cuts same (fun _ => grouped.rank_lt_right)
            fun _ => otherGrouped.rank_le_left
          have notEarlier := length_le_of_cuts same.symm (fun _ => otherGrouped.rank_lt_right)
            fun _ => grouped.rank_le_left
          obtain ⟨sameLeft, rest⟩ := List.append_inj same (Nat.le_antisymm notEarlier notLater)
          obtain ⟨sameRoot, sameRight⟩ := List.cons.inj rest
          obtain rfl := Item.operator.inj sameRoot
          have leftEq : left = left' :=
            inductionHypothesis _ (by simp [inOrder_binary]) (grouped.child (.head _))
              (otherGrouped.child (.head _)) sameLeft rfl
          have rightEq : right = right' :=
            inductionHypothesis _ (by simp [inOrder_binary]; omega)
              (grouped.child (.tail _ (.head _))) (otherGrouped.child (.tail _ (.head _))) sameRight rfl
          rw [leftEq, rightEq]

end Tree
end GoFront
