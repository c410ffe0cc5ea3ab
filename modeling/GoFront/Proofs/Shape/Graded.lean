import GoFront.Proofs.Shape.Grouping
import GoFront.Proofs.Shape.Layers

/-!
# Graded trees

What reading a phrase comes to, as far as its layers and operators go: a tree with few layers whose
operators are grouped as they bind. Trees are graded if they are put together of graded ones. The layers
of an expression that may later be read as a type are known along with those of the type.
-/

namespace GoFront
namespace Tree

variable {P : Type} {slot inner : Slot} {layers more : Nat}

/-- A tree with at most a number of layers, in which operators are grouped as they bind. -/
structure Graded (layers : Nat) (tree : Tree P slot) : Prop where
  layered : tree.Layered layers
  grouped : tree.Grouped

namespace Graded

variable {tree : Tree P slot}

theorem mono
    (graded : tree.Graded layers)
    (enough : layers ≤ more) :
    tree.Graded more :=
  ⟨graded.layered.mono enough, graded.grouped⟩

/-- The parts in the layer of a tree and those further inside make the tree graded. -/
theorem link
    (groups : tree.Groups)
    (along : tree.along.Forall fun part => part.2.Graded (layers + 1))
    (inside : tree.inside.Forall fun part => part.2.Graded layers) :
    tree.Graded (layers + 1) := by
  rw [List.forall_iff_forall_mem] at along inside
  refine ⟨.of_parts (fun part isPart => (along part isPart).layered)
    (fun part isPart => (inside part isPart).layered), .of_parts groups ?_⟩
  intro part isPart
  rw [children_eq, List.mem_append] at isPart
  exact isPart.elim (fun isAlong => (along part isAlong).grouped)
    (fun isInside => (inside part isInside).grouped)

/-- A tree of which no part is in its own layer has one layer more than its parts. -/
theorem node
    (groups : tree.Groups)
    (none : tree.along = [])
    (parts : tree.children.Forall fun part => part.2.Graded layers) :
    tree.Graded (layers + 1) := by
  apply link groups
  · rw [none]
    trivial
  · rw [inside, none]
    exact parts

theorem child
    {child : Tree P inner}
    (graded : tree.Graded layers)
    (isChild : ⟨inner, child⟩ ∈ tree.children) :
    child.Graded layers := by
  refine ⟨?_, graded.grouped.child isChild⟩
  cases graded.layered with
  | of_parts along inside =>
      rw [children_eq, List.mem_append] at isChild
      exact isChild.elim (along ⟨inner, child⟩)
        (fun isInside => (inside ⟨inner, child⟩ isInside).mono (Nat.le_succ _))

end Graded

/-! ## Lists and options -/

section Several

variable {phrase : Phrase}

theorem Graded.ofList
    {trees : List (Tree P (.one phrase))}
    (all : ∀ tree ∈ trees, tree.Graded (layers + 1)) :
    (Tree.ofList trees).Graded (layers + 1) := by
  induction trees with
  | nil => exact .link trivial trivial trivial
  | cons head tail inductionHypothesis =>
      obtain ⟨headGraded, tailGraded⟩ := List.forall_mem_cons.1 all
      exact .link trivial ⟨headGraded, inductionHypothesis tailGraded⟩ trivial

theorem Graded.present
    {tree : Tree P (.one phrase)}
    (graded : tree.Graded (layers + 1)) :
    (Tree.present tree).Graded (layers + 1) :=
  .link trivial graded trivial

theorem Graded.absent : (Tree.absent : Tree P (.maybe phrase)).Graded (layers + 1) :=
  .link trivial trivial trivial

theorem Graded.ofOption
    {found : Option (Tree P (.one phrase))}
    (all : ∀ tree ∈ found, tree.Graded (layers + 1)) :
    (Tree.ofOption found).Graded (layers + 1) := by
  cases found with
  | none => exact .absent
  | some tree => exact .present (all tree rfl)

theorem Graded.of_mem_toList
    {list : Tree P (.many phrase)}
    {tree : Tree P (.one phrase)}
    (graded : list.Graded layers)
    (member : tree ∈ list.toList) :
    tree.Graded layers := by
  match list, graded, member with
  | .cons head tail, graded, member =>
      have tailGraded : tail.Graded layers := graded.child (.tail _ (.head _))
      rcases List.mem_cons.1 member with rfl | inTail
      · exact graded.child (.head _)
      · exact of_mem_toList tailGraded inTail

end Several

theorem Graded.of_mem_exprs
    {list : ExprList P}
    {expr : Expr P}
    (graded : list.Graded layers)
    (member : expr ∈ list.exprs) :
    expr.Graded layers := by
  match list, graded, member with
  | .exprList exprs, graded, member =>
      have exprsGraded : exprs.Graded layers := graded.child (.head _)
      exact exprsGraded.of_mem_toList member

/-! ## Types read as expressions -/

/-- What an expression is read as has at most a number of layers. -/
def ReadsGraded (layers : Nat) (expr : Expr P) : Prop :=
  ∀ type, expr.readType? = some type -> type.Graded layers

theorem ReadsGraded.mono
    {expr : Expr P}
    (reads : expr.ReadsGraded layers)
    (enough : layers ≤ more) :
    expr.ReadsGraded more :=
  fun type isType => (reads type isType).mono enough

theorem graded_name
    (package : Option (Ident P))
    (name : Ident P) :
    (namedType (typeName package name .absent)).Graded (layers + 3) :=
  .node trivial rfl (.node trivial rfl .absent)

theorem graded_typeArgs
    {types : List (TypeExpr P)}
    (all : ∀ type ∈ types, type.Graded (layers + 1))
    (lBrack rBrack : Mark P) :
    (typeArgs lBrack (.typeList (.ofList types)) rBrack).Graded (layers + 3) :=
  .node trivial rfl (.node trivial rfl (.ofList all))

theorem graded_withTypeArgs?
    {args : Tree P (.one .typeArgs)}
    {type result : TypeExpr P}
    (argsGraded : args.Graded (layers + 1))
    (found : withTypeArgs? args type = some result) :
    result.Graded (layers + 3) := by
  unfold withTypeArgs? at found
  split at found
  · obtain rfl := Option.some.inj found
    exact .node trivial rfl (.node trivial rfl (.present argsGraded))
  · cases found

/-- An expression to which suffixes can be added, and before which unary operators can stand: it is no
binary expression. If it is read as a type, a layer is left out. -/
structure GradedOperand (layers : Nat) (expr : Expr P) : Prop where
  graded : expr.Graded (layers + 1)
  reads : expr.ReadsGraded layers
  notBinary : expr.operator? = none

namespace GradedOperand

variable {base : Expr P}

theorem mono
    (isBase : base.GradedOperand layers)
    (enough : layers ≤ more) :
    base.GradedOperand more :=
  ⟨isBase.graded.mono (Nat.succ_le_succ enough), isBase.reads.mono enough, isBase.notBinary⟩

/-- An expression that is no type. -/
theorem of_noType
    (graded : base.Graded (layers + 1))
    (noType : base.readType? = none)
    (notBinary : base.operator? = none) :
    base.GradedOperand layers := by
  refine ⟨graded, ?_, notBinary⟩
  intro type isType
  rw [noType] at isType
  cases isType

theorem ident (name : Ident P) : (ident name).GradedOperand (layers + 3) := by
  refine ⟨.node trivial rfl trivial, ?_, rfl⟩
  intro type isType
  obtain rfl := Option.some.inj isType
  exact graded_name none name

theorem typeOperand
    {type : TypeExpr P}
    (isType : type.Graded layers) :
    (typeOperand type).GradedOperand layers := by
  refine ⟨.node trivial rfl isType, ?_, rfl⟩
  intro found isFound
  obtain rfl := Option.some.inj isFound
  exact isType

theorem group
    {inner : Expr P}
    (lParen rParen : Mark P)
    (graded : inner.Graded layers)
    (reads : inner.ReadsGraded more)
    (enough : more < layers) :
    (group lParen inner rParen).GradedOperand layers := by
  refine ⟨.node trivial rfl graded, ?_, rfl⟩
  intro found isFound
  obtain ⟨type, isType, isFound⟩ := Option.bind_eq_some_iff.1 isFound
  obtain rfl := Option.some.inj isFound
  have parenGraded : (parenType lParen type rParen).Graded (more + 1) :=
    .node trivial rfl (reads type isType)
  exact parenGraded.mono enough

theorem selector
    (isBase : base.GradedOperand (layers + 3))
    (dot : Mark P)
    (name : Ident P) :
    (selector base dot name).GradedOperand (layers + 3) := by
  refine ⟨.link trivial isBase.graded trivial, ?_, rfl⟩
  intro type isType
  cases base with
  | ident package =>
      obtain rfl := Option.some.inj isType
      exact graded_name (some package) name
  | _ => cases isType

/-- An index may turn out to be a type argument. -/
theorem index
    {subscript : Expr P}
    (isBase : base.GradedOperand layers)
    (lBrack rBrack : Mark P)
    (graded : subscript.Graded layers)
    (reads : subscript.ReadsGraded (more + 1))
    (enough : more + 5 ≤ layers) :
    (index base lBrack subscript rBrack).GradedOperand layers := by
  refine ⟨.link trivial isBase.graded graded, ?_, rfl⟩
  intro type isType
  obtain ⟨arg, isArg, isType⟩ := Option.bind_eq_some_iff.1 isType
  obtain ⟨outer, -, isType⟩ := Option.bind_eq_some_iff.1 isType
  have argGraded : ∀ type ∈ [arg], type.Graded (more + 1) := by
    simpa using reads arg isArg
  exact (graded_withTypeArgs? (graded_typeArgs argGraded lBrack rBrack) isType).mono enough

theorem instantiation
    {args : Tree P (.one .typeArgs)}
    (isBase : base.GradedOperand layers)
    (graded : args.Graded (more + 1))
    (enough : more + 3 ≤ layers) :
    (instantiation base args).GradedOperand layers := by
  refine ⟨.link trivial isBase.graded (graded.mono (by omega)), ?_, rfl⟩
  intro type isType
  obtain ⟨outer, -, isType⟩ := Option.bind_eq_some_iff.1 isType
  exact (graded_withTypeArgs? graded isType).mono enough

theorem unary
    {operand : Expr P}
    (isOperand : operand.GradedOperand layers)
    (op : Mark P) :
    (unary op operand).GradedOperand (layers + 1) := by
  refine ⟨.node isOperand.notBinary rfl isOperand.graded, ?_, rfl⟩
  intro type isType
  change (if op.token = .star then _ else none) = _ at isType
  split at isType
  · obtain ⟨elem, isElem, isType⟩ := Option.bind_eq_some_iff.1 isType
    obtain rfl := Option.some.inj isType
    exact .node trivial rfl (isOperand.reads elem isElem)
  · cases isType

end GradedOperand

/-- An expression whose operators bind at least as tightly as a level; each looser level may add a
layer. -/
structure GradedExpr (layers : Nat) (least : Precedence) (expr : Expr P) : Prop where
  graded : expr.Graded (layers + 7 - least.rank)
  reads : expr.ReadsGraded layers
  least_le : ∀ op ∈ expr.operator?, least.rank ≤ op.rank

end Tree

theorem Precedence.rank_le_unary (precedence : Precedence) :
    precedence.rank ≤ Precedence.unary.rank := by
  cases precedence <;> decide

/-- Behind the level of an operator comes a tighter one. -/
theorem Precedence.rank_next
    {token : Token}
    (isOperator : token.precedence ≠ .none) :
    token.precedence.next.rank = token.precedence.rank + 1 := by
  cases token <;> simp [Token.precedence] at isOperator ⊢ <;> rfl

/-- An operand does for every level. -/
theorem Tree.GradedOperand.gradedExpr
    {P : Type}
    {layers : Nat}
    {operand : Expr P}
    (isOperand : operand.GradedOperand layers)
    (least : Precedence) :
    operand.GradedExpr layers least := by
  have tight : least.rank ≤ 6 := least.rank_le_unary
  refine ⟨isOperand.graded.mono (by omega), isOperand.reads, ?_⟩
  rw [isOperand.notBinary]
  exact nofun

namespace Tree

variable {P : Type} {layers : Nat}

/-- An operator continues an expression if it binds no tighter than the operators to its left. -/
theorem GradedExpr.binary
    {least : Precedence}
    {left right : Expr P}
    {op : Mark P}
    (isLeft : left.GradedExpr layers least)
    (isRight : right.GradedExpr layers op.token.precedence.next)
    (isOperator : op.token.precedence ≠ .none)
    (tight : least.rank ≤ op.rank)
    (loose : ∀ inner ∈ left.operator?, op.rank ≤ inner.rank) :
    (binary left op right).GradedExpr layers least := by
  have nextRank : op.token.precedence.next.rank = op.rank + 1 := Precedence.rank_next isOperator
  have bounded : op.rank + 1 ≤ 6 := nextRank ▸ op.token.precedence.next.rank_le_unary
  refine ⟨?_, nofun, ?_⟩
  · have groups : (Tree.binary left op right).Groups := by
      refine ⟨isOperator, loose, fun inner isInner => ?_⟩
      have tighter := isRight.least_le inner isInner
      omega
    have leftGraded := isLeft.graded
    have rightGraded := isRight.graded
    obtain ⟨less, isLess⟩ : ∃ less, layers + 7 - least.rank = less + 1 :=
      ⟨layers + 6 - least.rank, by omega⟩
    rw [isLess] at leftGraded ⊢
    exact .link groups leftGraded (rightGraded.mono (by omega))
  · intro root isRoot
    obtain rfl := Option.some.inj isRoot
    exact tight

end Tree
end GoFront
