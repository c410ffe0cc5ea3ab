import GoFront.Proofs.Reading.Outline
import Mathlib.Data.List.Basic

/-!
# Outlines that cover lexemes

An outline covers lexemes if it mentions them one after the other and passes over nothing but commas
and semicolons. When an expression is read as a type, the new outline covers what the old one covered,
and it has no new leaves.
-/

namespace GoFront

variable {P : Type}

/-- Mentions cover lexemes, up to commas and semicolons. -/
inductive Covers : List (Mention P) -> List (Lexeme P) -> Prop
  | nil : Covers [] []
  | leaf
      {mentions : List (Mention P)}
      {lexemes : List (Lexeme P)}
      (lexeme : Lexeme P)
      (rest : Covers mentions lexemes) : Covers (.leaf lexeme :: mentions) (lexeme :: lexemes)
  | implied
      {mentions : List (Mention P)}
      {lexemes : List (Lexeme P)}
      (lexeme : Lexeme P)
      (rest : Covers mentions lexemes) :
      Covers (.implied lexeme.token :: mentions) (lexeme :: lexemes)
  | separator
      {mentions : List (Mention P)}
      {lexemes : List (Lexeme P)}
      (lexeme : Lexeme P)
      (separates : lexeme.token = .comma ∨ lexeme.token = .semi)
      (rest : Covers mentions lexemes) : Covers mentions (lexeme :: lexemes)

namespace Covers

theorem append
    {first second : List (Mention P)}
    {before behind : List (Lexeme P)}
    (start : Covers first before)
    (rest : Covers second behind) :
    Covers (first ++ second) (before ++ behind) := by
  induction start with
  | nil => exact rest
  | leaf lexeme _ inductionHypothesis => exact inductionHypothesis.leaf lexeme
  | implied lexeme _ inductionHypothesis => exact inductionHypothesis.implied lexeme
  | separator lexeme separates _ inductionHypothesis =>
      exact inductionHypothesis.separator lexeme separates

/-- What covers lexemes in two parts covers a part of them with each. -/
theorem exists_of_append
    {first second : List (Mention P)}
    {lexemes : List (Lexeme P)}
    (covers : Covers (first ++ second) lexemes) :
    ∃ before behind, lexemes = before ++ behind ∧ Covers first before
      ∧ Covers second behind := by
  generalize mentionsEq : first ++ second = mentions at covers
  induction covers generalizing first with
  | nil =>
      obtain ⟨rfl, rfl⟩ := List.append_eq_nil_iff.1 mentionsEq
      exact ⟨[], [], rfl, .nil, .nil⟩
  | @leaf mentions lexemes lexeme rest inductionHypothesis =>
      cases first with
      | nil =>
          obtain rfl : second = _ := mentionsEq
          exact ⟨[], lexeme :: lexemes, rfl, .nil, rest.leaf lexeme⟩
      | cons head first =>
          obtain ⟨rfl, restEq⟩ := List.cons.inj mentionsEq
          obtain ⟨before, behind, rfl, start, last⟩ := inductionHypothesis restEq
          exact ⟨lexeme :: before, behind, rfl, start.leaf lexeme, last⟩
  | @implied mentions lexemes lexeme rest inductionHypothesis =>
      cases first with
      | nil =>
          obtain rfl : second = _ := mentionsEq
          exact ⟨[], lexeme :: lexemes, rfl, .nil, rest.implied lexeme⟩
      | cons head first =>
          obtain ⟨rfl, restEq⟩ := List.cons.inj mentionsEq
          obtain ⟨before, behind, rfl, start, last⟩ := inductionHypothesis restEq
          exact ⟨lexeme :: before, behind, rfl, start.implied lexeme, last⟩
  | separator lexeme separates rest inductionHypothesis =>
      obtain ⟨before, behind, rfl, start, last⟩ := inductionHypothesis mentionsEq
      exact ⟨lexeme :: before, behind, rfl, start.separator lexeme separates, last⟩

/-- The leaves are among the covered lexemes, in their order. -/
theorem leaves_sublist
    {mentions : List (Mention P)}
    {lexemes : List (Lexeme P)}
    (covers : Covers mentions lexemes) :
    (Mention.leaves mentions).Sublist lexemes := by
  induction covers with
  | nil => exact List.nil_sublist _
  | leaf lexeme _ inductionHypothesis => exact inductionHypothesis.cons_cons lexeme
  | implied lexeme _ inductionHypothesis => exact inductionHypothesis.cons lexeme
  | separator lexeme _ _ inductionHypothesis => exact inductionHypothesis.cons lexeme

end Covers

/-! ## Refinement -/

/-- An outline can be replaced by another that covers the same lexemes with some of the leaves. -/
def Refines (first second : List (Mention P)) : Prop :=
  (Mention.leaves second).Sublist (Mention.leaves first)
    ∧ forall lexemes, Covers first lexemes -> Covers second lexemes

namespace Refines

theorem refl (mentions : List (Mention P)) : Refines mentions mentions :=
  ⟨List.Sublist.refl _, fun _ covers => covers⟩

theorem trans
    {first second third : List (Mention P)}
    (start : Refines first second)
    (rest : Refines second third) :
    Refines first third :=
  ⟨rest.1.trans start.1, fun lexemes covers => rest.2 lexemes (start.2 lexemes covers)⟩

theorem append
    {first first' second second' : List (Mention P)}
    (start : Refines first first')
    (rest : Refines second second') :
    Refines (first ++ second) (first' ++ second') := by
  refine ⟨?_, fun lexemes covers => ?_⟩
  · simpa using start.1.append rest.1
  · obtain ⟨before, behind, rfl, coversFirst, coversSecond⟩ := covers.exists_of_append
    exact (start.2 before coversFirst).append (rest.2 behind coversSecond)

theorem append_left
    (front : List (Mention P))
    {second second' : List (Mention P)}
    (rest : Refines second second') :
    Refines (front ++ second) (front ++ second') :=
  (refl front).append rest

theorem append_right
    {first first' : List (Mention P)}
    (start : Refines first first')
    (back : List (Mention P)) :
    Refines (first ++ back) (first' ++ back) :=
  start.append (refl back)

theorem cons
    (mention : Mention P)
    {second second' : List (Mention P)}
    (rest : Refines second second') :
    Refines (mention :: second) (mention :: second') :=
  append_left [mention] rest

/-- A leaf can be replaced by its token. -/
theorem leaf_implied (lexeme : Lexeme P) :
    Refines [.leaf lexeme] [.implied lexeme.token] := by
  refine ⟨List.nil_sublist _, fun lexemes covers => ?_⟩
  generalize mentionsEq : [Mention.leaf lexeme] = mentions at covers
  induction covers with
  | nil => simp at mentionsEq
  | leaf _ rest _ =>
      obtain ⟨sameLexeme, rfl⟩ := List.cons.inj mentionsEq
      obtain rfl := Mention.leaf.inj sameLexeme
      exact rest.implied lexeme
  | implied _ _ => simp at mentionsEq
  | separator other separates _ inductionHypothesis =>
      exact (inductionHypothesis mentionsEq).separator other separates

end Refines

/-! ## Types read as expressions -/

namespace Tree

/-- Whether the points of the qualified names that an expression could be read as are points. -/
def PointsMarked : {slot : Slot} -> Tree P slot -> Prop
  | _, selector _ dot _ => dot.token = .dot
  | _, index base _ subscript _ => base.PointsMarked ∧ subscript.PointsMarked
  | _, instantiation base _ => base.PointsMarked
  | _, unary _ operand => operand.PointsMarked
  | _, group _ inner _ => inner.PointsMarked
  | _, _ => True

/-- A type that gets arguments has its own outline before theirs. -/
theorem outline_withTypeArgs?
    (args : Tree P (.one .typeArgs))
    (base type : TypeExpr P)
    (found : withTypeArgs? args base = some type) :
    type.outline = base.outline ++ args.outline := by
  unfold withTypeArgs? at found
  split at found
  · next package name =>
      obtain rfl := Option.some.inj found
      cases package <;> rfl
  · simp at found

/-- A type read from an expression covers what the expression covers. -/
theorem refines_readType?
    {slot : Slot}
    (tree : Tree P slot)
    (type : TypeExpr P)
    (found : tree.readType? = some type)
    (marked : tree.PointsMarked) :
    Refines tree.outline type.outline := by
  induction tree generalizing type with
  | typeOperand inner =>
      obtain rfl := Option.some.inj found
      exact .refl _
  | ident name =>
      obtain rfl := Option.some.inj found
      exact .refl _
  | selector base dot name =>
      cases base with
      | ident package =>
          obtain rfl := Option.some.inj found
          have point : dot.lexeme.token = .dot := marked
          have implied := Refines.leaf_implied dot.lexeme
          rw [point] at implied
          exact .cons _ (implied.append_right [name.mention])
      | _ => exact (Option.some_ne_none _ found.symm).elim
  | index base lBrack subscript rBrack baseHypothesis subscriptHypothesis =>
      obtain ⟨arg, argFound, found⟩ := Option.bind_eq_some_iff.1 found
      obtain ⟨generic, baseFound, found⟩ := Option.bind_eq_some_iff.1 found
      have argsEq : (typeArgs lBrack (typeList (cons arg nil)) rBrack).outline
          = lBrack.mention :: (arg.outline ++ [rBrack.mention]) := by
        change lBrack.mention :: ((arg.outline ++ []) ++ [rBrack.mention]) = _
        rw [List.append_nil]
      have args := (subscriptHypothesis arg argFound marked.2).append_right [rBrack.mention]
      rw [outline_withTypeArgs? _ _ _ found, argsEq]
      exact (baseHypothesis generic baseFound marked.1).append (.cons lBrack.mention args)
  | instantiation base args baseHypothesis _ =>
      obtain ⟨generic, baseFound, found⟩ := Option.bind_eq_some_iff.1 found
      rw [outline_withTypeArgs? _ _ _ found]
      exact (baseHypothesis generic baseFound marked).append_right args.outline
  | unary op operand operandHypothesis =>
      change (if op.token = .star then _ else none) = some type at found
      split at found
      · obtain ⟨elem, elemFound, found⟩ := Option.bind_eq_some_iff.1 found
        obtain rfl := Option.some.inj found
        exact .cons _ (operandHypothesis elem elemFound marked)
      · simp at found
  | group lParen inner rParen innerHypothesis =>
      obtain ⟨type, innerFound, found⟩ := Option.bind_eq_some_iff.1 found
      obtain rfl := Option.some.inj found
      exact .cons _ ((innerHypothesis type innerFound marked).append_right [rParen.mention])
  | _ => exact (Option.some_ne_none _ found.symm).elim

end Tree
end GoFront
