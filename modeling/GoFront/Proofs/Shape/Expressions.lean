import GoFront.Proofs.Forms.Expressions
import GoFront.Proofs.Shape.Types

/-!
# Layers of expressions

Expressions are graded: suffixes and binary operators continue a chain in its layer, and everything else
is one layer further inside. Since the right operand of an operator is read one level tighter, and an
expression is read as far as its level allows, operators are grouped as they bind.
-/

namespace GoFront

variable {P : Type}

open GoFront.Tree (Graded GradedExpr GradedOperand ReadsGraded)

theorem Tree.graded_of_mapM_readType?
    {layers : Nat}
    {exprs : List (Expr P)}
    {types : List (TypeExpr P)}
    (all : ∀ expr ∈ exprs, expr.ReadsGraded layers)
    (found : exprs.mapM readType? = some types) :
    ∀ type ∈ types, type.Graded layers :=
  forall_of_mapM (fun _ type isType readsGraded => readsGraded type isType) found all

namespace BuildsGraded

open Builds

variable {room : Nat} {machine : Machine P} (graded : BuildsGraded machine)

include graded

theorem exprList : Builds room machine (Production.exprList (P := P)) (Graded (8 * room + 9)) :=
  bind (commaSeparated graded.anyExpr) fun _ all => done (.node trivial rfl (.ofList all))

theorem block : Builds room machine (Production.block (P := P)) (Graded (8 * room + 3)) :=
  graded.builds .block

/-! ## Operands -/

theorem funcOperand :
    Builds room machine (Production.funcOperand (P := P)) (GradedOperand (8 * room + 10)) := by
  refine bind graded.funcType fun type isType => skip look fun cursor => choice (fun _ => ?_) fun _ => ?_
  · refine bind (inHeader graded.block) fun body isBody => done (.of_noType ?_ rfl rfl)
    exact .node trivial rfl ⟨isType.mono (by omega), isBody.mono (by omega)⟩
  · have functionType : (Tree.functionType type).Graded (8 * room + 9) := .node trivial rfl isType
    exact done (.typeOperand (functionType.mono (by omega)))

theorem groupExpr :
    Builds room machine (Production.groupExpr (P := P)) (GradedOperand (8 * room + 10)) := by
  refine inHeader (skip (mark _) fun lParen => bind graded.expr fun inner isInner => ?_)
  refine skip (mark _) fun rParen => done ?_
  exact .group lParen rParen (isInner.graded.mono (by omega)) isInner.reads (by omega)

theorem typeOperand :
    Builds room machine (Production.typeOperand (P := P)) (GradedOperand (8 * room + 10)) := by
  refine skip look fun cursor => bind graded.type? fun found isType => ?_
  cases found with
  | some type => exact done (.typeOperand ((isType type rfl).mono (by omega)))
  | none => exact refuse (.of_other rfl)

theorem operand :
    Builds room machine (Production.operand (P := P)) (GradedOperand (8 * room + 10)) := by
  refine skip look fun cursor => ?_
  split
  · exact skip advance fun lexeme => done (.of_noType (.node trivial rfl trivial) rfl rfl)
  · split
    · exact skip ident fun name => done (.ident name)
    · exact graded.groupExpr
    · exact graded.funcOperand
    · exact graded.typeOperand

/-! ## Suffixes -/

variable {base : Expr P}

theorem sliceEnd
    {low : Tree P (.maybe .expr)}
    {high : Option (Expr P)}
    (lBrack colon : Mark P)
    (isBase : base.GradedOperand (8 * room + 10))
    (isLow : low.Graded (8 * room + 10))
    (isHigh : ∀ expr ∈ high, expr.Graded (8 * room + 10)) :
    Builds room machine (Production.sliceEnd base lBrack colon low high)
      (GradedOperand (8 * room + 10)) := by
  refine skip (mark? _) fun second => ?_
  cases second with
  | none =>
      refine skip (mark _) fun rBrack => done (.of_noType ?_ rfl rfl)
      exact .link trivial isBase.graded ⟨isLow, .ofOption isHigh⟩
  | some secondColon =>
      cases high with
      | none => exact refuse (.of_other rfl)
      | some high =>
          refine skip look ?_
          intro cursor
          refine choice (fun _ => refuse (.of_other rfl)) ?_
          intro _
          refine bind graded.anyExpr fun max isMax => skip (mark _) fun rBrack => ?_
          refine done (.of_noType ?_ rfl rfl)
          exact .link trivial isBase.graded ⟨isLow, isHigh high rfl, isMax.mono (by omega)⟩

theorem sliceTail
    {low : Tree P (.maybe .expr)}
    (lBrack : Mark P)
    (isBase : base.GradedOperand (8 * room + 10))
    (isLow : low.Graded (8 * room + 10)) :
    Builds room machine (Production.sliceTail base lBrack low) (GradedOperand (8 * room + 10)) := by
  refine skip (mark _) fun colon => skip look fun cursor => choice (fun _ => ?_) fun _ => ?_
  · exact pure_bind (graded.sliceEnd lBrack colon isBase isLow (by simp))
  · refine bind graded.anyExpr fun high isHigh => pure_bind ?_
    apply graded.sliceEnd lBrack colon isBase isLow
    simpa using isHigh.mono (by omega)

omit graded in
theorem gradedOperand_instantiate
    {types : List (TypeExpr P)}
    (lBrack rBrack : Mark P)
    (isBase : base.GradedOperand (8 * room + 10))
    (all : ∀ type ∈ types, type.Graded (8 * room + 2)) :
    (Production.instantiate base lBrack types rBrack).GradedOperand (8 * room + 10) :=
  .instantiation isBase (Tree.graded_typeArgs all lBrack rBrack) (by omega)

theorem indexOrSlice (isBase : base.GradedOperand (8 * room + 10)) :
    Builds room machine (Production.indexOrSlice base) (GradedOperand (8 * room + 10)) := by
  refine inHeader (skip (mark _) fun lBrack => skip look fun cursor => ?_)
  refine choice (fun _ => graded.sliceTail lBrack isBase .absent) fun _ => ?_
  refine bind graded.expr fun first isFirst => skip look fun cursor => ?_
  split
  · exact graded.sliceTail lBrack isBase (.present (isFirst.graded.mono (by omega)))
  · refine bind (commaTail graded.expr) fun rest isRest => skip (mark _) fun rBrack => ?_
    split
    · next types found =>
        refine done (gradedOperand_instantiate lBrack rBrack isBase ?_)
        apply Tree.graded_of_mapM_readType? _ found
        exact List.forall_mem_cons.2 ⟨isFirst.reads, fun expr member => (isRest expr member).reads⟩
    · exact refuse (.of_other rfl)
  · refine skip (mark _) fun rBrack => ?_
    split
    · next type =>
        have isType : type.Graded (8 * room + 2) := isFirst.reads type rfl
        refine done (gradedOperand_instantiate lBrack rBrack isBase ?_)
        simpa using isType
    · refine done ?_
      exact .index isBase lBrack rBrack (isFirst.graded.mono (by omega)) isFirst.reads (by omega)

theorem argument (isType : Bool) :
    Builds room machine (Production.argument (P := P) isType) fun found =>
      found.1.1.Graded (8 * room + 8) := by
  have behind (arg : Expr P) (isArg : arg.Graded (8 * room + 8)) :
      Builds room machine ((Production.mark? .ellipsis).bind fun ellipsis =>
        (Production.eat? .comma).bind fun comma => Production.look.bind fun cursor =>
          if ellipsis.isSome then .pure ((arg, ellipsis), false)
          else if comma.isSome then .pure ((arg, none), true)
          else if cursor.token = .rParen then .pure ((arg, none), false)
          else .refuse .argumentCommaExpected)
        fun found => found.1.1.Graded (8 * room + 8) := by
    refine skip (mark? _) ?_
    intro ellipsis
    refine skip (eat? _) ?_
    intro comma
    refine skip look ?_
    intro cursor
    refine choice (fun _ => done isArg) ?_
    intro _
    refine choice (fun _ => done isArg) ?_
    intro _
    exact choice (fun _ => done isArg) fun _ => refuse (.of_other rfl)
  refine choice (fun _ => ?_) fun _ => bind graded.anyExpr behind
  refine bind graded.type fun type isType => pure_bind (behind _ ?_)
  exact .node trivial rfl (isType.mono (by omega))

theorem callTail (isBase : base.GradedOperand (8 * room + 10)) :
    Builds room machine (Production.callTail base) (Graded (8 * room + 11)) := by
  have items : Builds room machine (Production.itemsUntil .rParen fun first =>
      Production.argument (Production.takesType base && first))
      fun args => ∀ arg ∈ args, arg.1.Graded (8 * room + 8) :=
    itemsUntil fun first => graded.argument _
  refine inHeader (skip (mark _) fun lParen => bind items fun args isArgs => ?_)
  refine skip (mark _) fun rParen => done ?_
  have exprs : (Tree.ofList (args.map Prod.fst)).Graded (8 * room + 8) :=
    .ofList (List.forall_mem_map.2 isArgs)
  have list : (Tree.exprList (Tree.ofList (args.map Prod.fst))).Graded (8 * room + 9) :=
    .node trivial rfl exprs
  exact .link trivial isBase.graded (list.mono (by omega))

theorem selectorOrAssertion (isBase : base.GradedOperand (8 * room + 10)) :
    Builds room machine (Production.selectorOrAssertion base) (GradedOperand (8 * room + 10)) := by
  refine skip (mark _) fun dot => skip look fun cursor => ?_
  split
  · exact skip ident fun name => done (.selector isBase dot name)
  · refine inHeader (skip (mark _) fun lParen => skip (mark? _) fun keyword => ?_)
    cases keyword with
    | some keyword =>
        refine skip (mark _) fun rParen => done (.of_noType ?_ rfl rfl)
        exact .link trivial isBase.graded trivial
    | none =>
        refine bind graded.type fun type isType => skip (mark _) fun rParen => ?_
        refine done (.of_noType ?_ rfl rfl)
        exact .link trivial isBase.graded (isType.mono (by omega))
  · exact refuse (.of_other rfl)

theorem literalTail (isBase : base.GradedOperand (8 * room + 10)) :
    Builds room machine (Production.literalTail base) (GradedOperand (8 * room + 10)) := by
  unfold Production.literalTail
  split
  · exact refuse (.of_other rfl)
  · next type found =>
      refine bind (graded.builds .literalBody) fun body isBody => done (.of_noType ?_ rfl rfl)
      exact .node trivial rfl ⟨.present (isBase.reads type found), isBody.mono (by omega)⟩

theorem suffix? (isBase : base.GradedOperand (8 * room + 10)) :
    Builds room machine (Production.suffix? base) fun found =>
      ∀ expr ∈ found, expr.GradedOperand (8 * room + 10) := by
  refine skip look fun cursor => skip header fun flag => ?_
  split
  · exact map_some (graded.indexOrSlice isBase)
  · refine bind (graded.callTail isBase) fun call isCall => done_some (.of_noType ?_ rfl rfl)
    exact .link trivial isCall trivial
  · exact choice (fun _ => map_some (graded.literalTail isBase)) fun _ => done_none
  · exact map_some (graded.selectorOrAssertion isBase)
  · exact done_none

theorem primaryExpr :
    Builds room machine (Production.primaryExpr (P := P)) (GradedOperand (8 * room + 10)) := by
  refine bind graded.operand ?_
  intro _ isBase
  exact iterate (GradedOperand (8 * room + 10)) isBase fun _ => graded.suffix?

/-! ## Literal values -/

theorem elementExpr :
    Builds room machine (Production.elementExpr (P := P)) (Graded (8 * room + 8)) := by
  refine skip look fun cursor => choice (fun _ => ?_) fun _ => graded.anyExpr
  refine bind (graded.builds .literalBody) fun body isBody => done ?_
  exact .node trivial rfl ⟨.absent, isBody.mono (by omega)⟩

/-- Key and colon come together. -/
theorem element :
    Builds room machine (Production.element (P := P)) fun found => found.1.Graded (8 * room + 10) := by
  have behind (element : Tree P (.one .element)) (isElement : element.Graded (8 * room + 10)) :
      Builds room machine ((Production.eat? .comma).bind fun comma => Production.look.bind fun cursor =>
        if comma.isSome then .pure (element, true)
        else if cursor.token = .rBrace then .pure (element, false)
        else .refuse .elementCommaExpected) fun found => found.1.Graded (8 * room + 10) := by
    refine skip (eat? _) ?_
    intro comma
    refine skip look ?_
    intro cursor
    refine choice (fun _ => done isElement) ?_
    intro _
    exact choice (fun _ => done isElement) fun _ => refuse (.of_other rfl)
  refine bind graded.elementExpr fun first isFirst => skip (mark? _) fun colon => ?_
  cases colon with
  | some colon =>
      refine bind graded.elementExpr fun value isValue => pure_bind (behind _ ?_)
      have key : (Tree.elementKey first colon).Graded (8 * room + 9) := .node trivial rfl isFirst
      exact .node trivial rfl ⟨.present key, isValue.mono (by omega)⟩
  | none => exact pure_bind (behind _ (.node trivial rfl ⟨.absent, isFirst.mono (by omega)⟩))

theorem literalBodyRule :
    Builds room machine (Production.literalBodyRule (P := P)) fun body =>
      body.elements.Graded (8 * room + 3) := by
  refine nested fun less isLess => inHeader (skip (mark _) fun lBrace => ?_)
  refine bind (itemsUntil fun _ => graded.element) fun elements isElements => ?_
  refine skip (mark _) fun rBrace => done ?_
  have list : (Tree.elementList (Tree.ofList elements)).Graded (8 * less + 11) :=
    .node trivial rfl (.ofList isElements)
  exact list.mono (by omega)

/-! ## Operators -/

theorem unaryRule :
    Builds room machine (Production.unaryRule (P := P)) (GradedOperand (8 * room + 2)) := by
  refine nested fun less isLess => skip look fun cursor => choice (fun _ => ?_) fun _ => ?_
  · refine skip anyMark fun op => bind (graded.builds .unary) fun operand isOperand => done ?_
    exact (GradedOperand.unary isOperand op).mono (by omega)
  · exact graded.primaryExpr.weaken fun _ isExpr => isExpr.mono (by omega)

/-- The expression to the left of a state is graded, and an operator in front of the state binds no
tighter than the operators of the expression. -/
structure Climbs
    (room : Nat)
    (machine : Machine P)
    (known : List (SyntaxError P))
    (least : Precedence)
    (left : Expr P)
    (state : ReadState P) : Prop where
  kept : Kept room machine known (GradedExpr (8 * room + 2) least) left state
  loose : state.cursor.token.precedence ≠ .none ->
    ∀ op ∈ left.operator?, state.cursor.token.precedence.rank ≤ op.rank

/-- What stands behind the right operand of an operator binds no tighter than the operator. -/
theorem binaryTail?
    {known : List (SyntaxError P)}
    {least : Precedence}
    {left : Expr P}
    {state : ReadState P}
    (climbs : Climbs room machine known least left state) :
    (machine.run (Production.binaryTail? least left) state).Ends
      (fun next middle => Climbs room machine known least (next.getD left) middle)
      (ReadState.PartsFit known) := by
  change (machine.run (if state.cursor.token.precedence = .none
    || state.cursor.token.precedence.rank < least.rank then _ else _) state).Ends _ _
  split
  · exact climbs
  · next goesOn =>
      simp only [Bool.or_eq_true, decide_eq_true_eq, not_or, Nat.not_lt] at goesOn
      obtain ⟨isOperator, tight⟩ := goesOn
      have right : Builds room machine (.call (.expr state.cursor.token.precedence.next)) _ :=
        graded.builds (.expr state.cursor.token.precedence.next)
      have rightEnds := @right.of_run known { state with cursor := state.cursor.advance }
        climbs.kept.hasRoom climbs.kept.partsFit
      change ((machine.run (.call (.expr state.cursor.token.precedence.next))
        { state with cursor := state.cursor.advance }).bind fun right final =>
          .done (some (Tree.binary left ⟨state.cursor.token, state.cursor.pos⟩ right)) final).Ends _ _
      refine rightEnds.bind fun right final run ⟨isRight, stillFit⟩ => ?_
      have hasRoom : final.depth + room = machine.limit := by
        obtain ⟨_, reaches⟩ := machine.reaches_of_done run
        exact reaches.depth ▸ climbs.kept.hasRoom
      refine ⟨⟨?_, hasRoom, stillFit⟩, fun isOperatorBehind op isOp => ?_⟩
      · exact .binary climbs.kept.holds isRight isOperator tight (climbs.loose isOperator)
      · obtain rfl := Option.some.inj isOp
        have behind := (graded.stops run).resolve_left isOperatorBehind
        rw [Precedence.rank_next isOperator] at behind
        exact Nat.le_of_lt_succ behind

theorem exprRule (least : Precedence) :
    Builds room machine (Production.exprRule (P := P) least) (GradedExpr (8 * room + 2) least) := by
  refine bind (graded.builds .unary) fun left isLeft => ⟨fun {known state} hasRoom partsFit => ?_⟩
  have start : Climbs room machine known least left state := by
    have noOperator : left.operator? = none := GradedOperand.notBinary isLeft
    refine ⟨⟨GradedOperand.gradedExpr isLeft least, hasRoom, partsFit⟩, fun _ op isOp => ?_⟩
    rw [noOperator] at isOp
    cases isOp
  have keeps (left : Expr P) (state : ReadState P)
      (climbs : Climbs room machine known least left state) := graded.binaryTail? climbs
  refine (Outcome.Ends.iterate _ keeps machine.allowance start).mono fun expr final _ climbs => ?_
  exact ⟨climbs.kept.holds, climbs.kept.partsFit⟩

omit graded in
/-- An expression ends where no operator continues it. -/
theorem stops_of_exprRule
    {least : Precedence}
    {state final : ReadState P}
    {expr : Expr P}
    (run : machine.run (Production.exprRule least) state = .done expr final) :
    final.cursor.token.EndsExpr least := by
  obtain ⟨left, middle, -, run⟩ := Reads.run_bind_done run
  obtain ⟨last, stepRun⟩ := Outcome.exists_of_iterate_done run
  replace stepRun := Reads.run_look_done stepRun
  dsimp only at stepRun
  split at stepRun
  · next ends =>
      obtain ⟨-, rfl⟩ := Outcome.done.inj stepRun
      simpa [Token.EndsExpr] using ends
  · obtain ⟨_, _, -, stepRun⟩ := Reads.run_bind_done stepRun
    obtain ⟨_, _, -, stepRun⟩ := Reads.run_bind_done stepRun
    cases (Outcome.done.inj stepRun).1

end BuildsGraded
end GoFront
