import GoFront.Proofs.Forms.Types
import GoFront.Proofs.Reading.Expressions

/-!
# Forms of expressions

An expression that is read as an operand or a statement can stand anywhere. Only an element of a
composite literal can lack its type, and only a call can have no arguments. What is read as a type keeps
its form. In a header no brace is taken for that of a literal of a named type, so that an expression
read there is clear.
-/

namespace GoFront

variable {P : Type}

open GoFront.Tree (Plain)

namespace Tree

variable {inside : Bool}

/-! ## Types read as expressions -/

theorem plain_withTypeArgs?
    {args : Tree P (.one .typeArgs)}
    {type result : TypeExpr P}
    (argsPlain : args.Plain false)
    (found : withTypeArgs? args type = some result) :
    result.Plain false := by
  unfold withTypeArgs? at found
  split at found
  · obtain rfl := Option.some.inj found
    exact .of trivial rfl (.of trivial rfl (.present argsPlain))
  · cases found

/-- What an expression is read as has the form of a type. -/
theorem plain_readType?
    {slot : Slot}
    {tree : Tree P slot}
    {type : TypeExpr P}
    (formed : tree.Formed false)
    (found : tree.readType? = some type) :
    type.Plain false := by
  have named (package : Option (Ident P)) (name : Ident P) :
      (namedType (typeName package name .absent)).Plain false :=
    .of trivial rfl (.of trivial rfl .absent)
  induction tree generalizing type with
  | typeOperand operand =>
      obtain rfl := Option.some.inj found
      exact formed.plain_child rfl (.head _)
  | ident name =>
      obtain rfl := Option.some.inj found
      exact named none name
  | selector base dot name =>
      cases base with
      | ident package =>
          obtain rfl := Option.some.inj found
          exact named (some package) name
      | _ => cases found
  | index base lBrack subscript rBrack baseHypothesis subscriptHypothesis =>
      obtain ⟨arg, isArg, found⟩ := Option.bind_eq_some_iff.1 found
      obtain ⟨outer, _, found⟩ := Option.bind_eq_some_iff.1 found
      have argPlain := subscriptHypothesis (formed.plain_child rfl (.tail _ (.head _))).formed isArg
      have types : (typeList (ofList [arg])).Plain false :=
        .ofTypes (List.cons_ne_nil arg []) (by simpa using argPlain)
      have argsPlain : (typeArgs lBrack (typeList (ofList [arg])) rBrack).Plain false :=
        .of trivial rfl types
      exact plain_withTypeArgs? argsPlain found
  | instantiation base args baseHypothesis argsHypothesis =>
      obtain ⟨outer, _, found⟩ := Option.bind_eq_some_iff.1 found
      exact plain_withTypeArgs? (formed.plain_child rfl (.tail _ (.head _))) found
  | unary op operand operandHypothesis =>
      change (if op.token = .star then _ else none) = _ at found
      split at found
      · obtain ⟨elem, isElem, found⟩ := Option.bind_eq_some_iff.1 found
        obtain rfl := Option.some.inj found
        have elemPlain := operandHypothesis (formed.plain_child rfl (.head _)).formed isElem
        exact .of trivial rfl elemPlain
      · cases found
  | group lParen inner rParen innerHypothesis =>
      obtain ⟨type, isType, found⟩ := Option.bind_eq_some_iff.1 found
      obtain rfl := Option.some.inj found
      have typePlain := innerHypothesis (formed.plain_child rfl (.head _)).formed isType
      exact .of trivial rfl typePlain
  | _ => cases found

theorem plain_of_mapM_readType?
    {exprs : List (Expr P)}
    {types : List (TypeExpr P)}
    (all : ∀ expr ∈ exprs, expr.Plain false)
    (found : exprs.mapM readType? = some types) :
    ∀ type ∈ types, type.Plain false :=
  forall_of_mapM (fun _ _ isType plain => plain_readType? plain.formed isType) found all

/-! ## Composite literals and calls -/

/-- A plain list has an expression. -/
theorem exprs_ne_nil_of_plain
    {list : ExprList P}
    (plain : list.Plain inside) :
    list.exprs ≠ [] := by
  match list, plain with
  | .exprList (.cons head tail), _ => exact List.cons_ne_nil head tail.toList

/-- An element or a key can be any expression. -/
theorem admits_expr_of_elementPart
    {slot : Slot}
    {tree : Tree P slot}
    (isPart : tree.isElementPart = true)
    (expr : Expr P) :
    tree.Admits expr := by
  cases expr with
  | compositeLit type _ _ _ =>
      cases type with
      | absent => exact isPart
      | present _ => trivial
  | _ => trivial

theorem plain_elementKey
    {key : Expr P}
    (colon : Mark P)
    (formed : key.Formed false) :
    (elementKey key colon).Plain inside := by
  have admits := admits_expr_of_elementPart (rfl : (elementKey key colon).isElementPart = true) key
  exact ⟨.of_parts trivial (fun _ => rfl) trivial trivial ⟨admits, formed⟩, rfl⟩

theorem plain_element
    {key : Tree P (.maybe .elementKey)}
    {value : Expr P}
    (keyPlain : key.Plain false)
    (formed : value.Formed false) :
    (element key value).Plain inside := by
  have admits := admits_expr_of_elementPart (rfl : (element key value).isElementPart = true) value
  have keyAdmits := (element key value).admits_of_unrestricted keyPlain.free
  refine ⟨.of_parts trivial (fun _ => rfl) trivial trivial ?_, rfl⟩
  exact ⟨⟨keyAdmits, keyPlain.formed⟩, admits, formed⟩

/-- A composite literal without a type has the form of an element. -/
theorem formed_untypedLit
    {elements : Tree P (.one .elementList)}
    {lBrace rBrace : Mark P}
    (elementsPlain : elements.Plain false) :
    (compositeLit absent lBrace elements rBrace).Formed false := by
  have untyped : (absent : Tree P (.maybe .type)).Plain false := .absent
  refine .of_parts trivial (fun _ => rfl) trivial trivial ?_
  exact ⟨⟨admits_of_unrestricted _ untyped.free, untyped.formed⟩,
    admits_of_unrestricted _ elementsPlain.free, elementsPlain.formed⟩

/-- A call can have no arguments. -/
theorem plain_call
    {func : Expr P}
    {args : List (Expr P)}
    {lParen rParen : Mark P}
    {ellipsis : Option (Mark P)}
    (funcPlain : func.Plain inside)
    (argsPlain : ∀ arg ∈ args, arg.Plain false)
    (typeFirst : Production.takesType func = true ->
      ∀ first ∈ args.head?, first.isTypeOperand = true) :
    (call func lParen (.exprList (.ofList args)) ellipsis rParen).Plain inside := by
  have exprsPlain : (ofList args).Plain false := .ofList argsPlain
  have listFormed : (exprList (ofList args)).Formed false := by
    refine .of_parts trivial (fun _ => rfl) trivial exprsPlain.formed ?_
    exact ⟨admits_of_unrestricted _ exprsPlain.free, exprsPlain.formed⟩
  refine ⟨.of_parts ?_ (fun _ => rfl) trivial funcPlain.formed ?_, rfl⟩
  · rintro name rfl isAllocator
    have takesType : Production.takesType (ident name) = true := by
      simpa [Production.takesType] using isAllocator
    simpa [exprs] using typeFirst takesType
  · refine ⟨⟨admits_of_unrestricted _ funcPlain.free, funcPlain.formed.outside⟩, ?_, listFormed⟩
    cases args with
    | nil => rfl
    | cons _ _ => trivial

/-! ## Literals in headers -/

/-- Whether an expression is a type that is a name. -/
def isNamedOperand : Expr P -> Bool
  | typeOperand type => type.isNamedType
  | _ => false

/-- A plain expression to which suffixes can be added: it is no type that is a name. -/
structure PlainOperand (inside : Bool) (expr : Expr P) : Prop where
  plain : expr.Plain inside
  unnamed : expr.isNamedOperand = false

theorem isNamedLiteral_compositeLit
    (type : TypeExpr P)
    (lBrace : Mark P)
    (elements : Tree P (.one .elementList))
    (rBrace : Mark P) :
    (compositeLit (present type) lBrace elements rBrace).isNamedLiteral = type.isNamedType := by
  cases type <;> rfl

/-- What opens a literal in a header is a type that is no name. -/
theorem isNamedType_of_opensLiteral
    {base : Expr P}
    {type : TypeExpr P}
    (unnamed : base.isNamedOperand = false)
    (opens : Production.opensLiteral true base = true)
    (found : base.readType? = some type) :
    type.isNamedType = false := by
  cases base with
  | typeOperand operand =>
      obtain rfl := Option.some.inj found
      exact unnamed
  | _ => cases opens

end Tree

namespace YieldsPlain

open Yields
open GoFront.Tree (PlainOperand)

variable {inside : Bool} {machine : Machine P} (plain : YieldsPlain machine)

include plain

/-! ## Operands -/

theorem exprList : Yields inside machine (Production.exprList (P := P)) (Plain inside) := by
  apply bind (commaSeparated plain.expr)
  rintro exprs ⟨some, all⟩
  apply done
  cases exprs with
  | nil => exact absurd rfl some
  | cons first rest => exact .of trivial rfl (.ofList all)

theorem block : Yields inside machine (Production.block (P := P)) (Plain inside) :=
  plain.yields .block

theorem funcOperand : Yields inside machine (Production.funcOperand (P := P)) (Plain inside) := by
  refine bind plain.funcType fun type isType => skip fun cursor => choice (fun _ => ?_) fun _ => ?_
  · refine bind (inHeader plain.block) fun body isBody => done ?_
    exact .sheltered trivial rfl rfl ⟨isType.outside, isBody⟩
  · exact done (.of trivial rfl (.of trivial rfl isType))

theorem groupExpr : Yields inside machine (Production.groupExpr (P := P)) (Plain inside) := by
  refine inHeader ?_
  refine skip ?_
  intro _
  refine bind plain.expr ?_
  intro _ isInner
  exact skip fun _ => done (.sheltered trivial rfl rfl isInner)

theorem typeOperand : Yields inside machine (Production.typeOperand (P := P)) (Plain inside) := by
  refine skip fun cursor => bind plain.type? fun found isType => ?_
  cases found with
  | some type => exact done (.of trivial rfl (isType type rfl))
  | none => exact refuse _

/-- A name is read as such, so that no type that is a name stands as an operand. -/
theorem unnamed_of_operand
    {state final : ReadState P}
    {expr : Expr P}
    (run : machine.run Production.operand state = .done expr final) :
    expr.isNamedOperand = false := by
  replace run := Reads.run_look_done run
  split at run
  · obtain ⟨_, _, -, run⟩ := Reads.run_bind_done run
    obtain ⟨rfl, -⟩ := Outcome.done.inj run
    rfl
  · split at run
    · obtain ⟨_, _, -, run⟩ := Reads.run_bind_done run
      obtain ⟨rfl, -⟩ := Outcome.done.inj run
      rfl
    · have group : Yields state.inHeader machine (Production.groupExpr (P := P))
          fun expr => expr.isNamedOperand = false :=
        inHeader (skip fun _ => skip fun _ => skip fun _ => done rfl)
      exact group.of_run rfl run
    · have func : Yields state.inHeader machine (Production.funcOperand (P := P))
          fun expr => expr.isNamedOperand = false :=
        skip fun _ => skip fun _ => choice (fun _ => skip fun _ => done rfl) fun _ => done rfl
      exact func.of_run rfl run
    · next notIdent _ _ =>
        replace run := Reads.run_look_done run
        obtain ⟨found, _, typeRun, run⟩ := Reads.run_bind_done run
        cases found with
        | none => cases run
        | some type =>
            obtain ⟨rfl, -⟩ := Outcome.done.inj run
            exact plain.unnamed notIdent typeRun

theorem operand : Yields inside machine (Production.operand (P := P)) (PlainOperand inside) := by
  have isPlain : Yields inside machine (Production.operand (P := P)) (Plain inside) := by
    refine skip fun cursor => ?_
    split
    · exact skip fun lexeme => done (.of trivial rfl trivial)
    · split
      · exact skip fun name => done (.of trivial rfl trivial)
      · exact plain.groupExpr
      · exact plain.funcOperand
      · exact plain.typeOperand
  exact ⟨fun atFlag run => ⟨isPlain.of_run atFlag run, plain.unnamed_of_operand run⟩⟩

/-! ## Suffixes -/

theorem sliceEnd
    {base : Expr P}
    {low : Tree P (.maybe .expr)}
    {high : Option (Expr P)}
    (lBrack colon : Mark P)
    (isBase : base.Plain inside)
    (isLow : low.Plain false)
    (isHigh : ∀ expr ∈ high, expr.Plain false) :
    Yields false machine (Production.sliceEnd base lBrack colon low high) (PlainOperand inside) := by
  refine skip fun second => ?_
  cases second with
  | none =>
      refine skip fun rBrack => done ⟨.of_open trivial rfl isBase ?_, rfl⟩
      exact ⟨isBase.outside, isLow, .ofOption isHigh⟩
  | some secondColon =>
      cases high with
      | none => exact refuse _
      | some high =>
          refine skip ?_
          intro cursor
          refine choice (fun _ => refuse _) ?_
          intro _
          refine bind plain.expr fun max isMax => skip fun rBrack => done ?_
          exact ⟨.of_open trivial rfl isBase ⟨isBase.outside, isLow, isHigh high rfl, isMax⟩, rfl⟩

theorem sliceTail
    {base : Expr P}
    {low : Tree P (.maybe .expr)}
    (lBrack : Mark P)
    (isBase : base.Plain inside)
    (isLow : low.Plain false) :
    Yields false machine (Production.sliceTail base lBrack low) (PlainOperand inside) := by
  refine skip fun colon => skip fun cursor => choice (fun _ => ?_) fun _ => ?_
  · exact pure_bind (plain.sliceEnd lBrack colon isBase isLow (by simp))
  · refine bind plain.expr fun high isHigh => pure_bind ?_
    exact plain.sliceEnd lBrack colon isBase isLow (by simpa using isHigh)

omit plain in
theorem plain_instantiate
    {base : Expr P}
    {types : List (TypeExpr P)}
    (lBrack rBrack : Mark P)
    (isBase : base.Plain inside)
    (some : types ≠ [])
    (all : ∀ type ∈ types, type.Plain false) :
    PlainOperand inside (Production.instantiate base lBrack types rBrack) := by
  have args : (Tree.typeArgs lBrack (.typeList (.ofList types)) rBrack).Plain false :=
    .of trivial rfl (.ofTypes some all)
  exact ⟨.of_open trivial rfl isBase ⟨isBase.outside, args⟩, rfl⟩

theorem indexOrSlice
    {base : Expr P}
    (isBase : base.Plain inside) :
    Yields inside machine (Production.indexOrSlice base) (PlainOperand inside) := by
  apply inHeader
  refine skip fun lBrack => skip fun cursor => choice (fun _ => ?_) fun _ => ?_
  · exact plain.sliceTail lBrack isBase .absent
  · refine bind plain.expr fun first isFirst => skip fun cursor => ?_
    split
    · exact plain.sliceTail lBrack isBase (.present isFirst)
    · refine bind (commaTail plain.expr) fun rest isRest => skip fun rBrack => ?_
      split
      · next types found =>
          have read := Tree.forall₂_of_mapM found
          refine done (plain_instantiate lBrack rBrack isBase ?_ ?_)
          · rintro rfl
            cases read
          · exact Tree.plain_of_mapM_readType? (List.forall_mem_cons.2 ⟨isFirst, isRest⟩) found
      · exact refuse _
    · refine skip fun rBrack => ?_
      split
      · next type =>
          have isType : type.Plain false := isFirst.formed.plain_child rfl (.head _)
          refine done (plain_instantiate lBrack rBrack isBase (by simp) ?_)
          simpa using isType
      · exact done ⟨.of_open trivial rfl isBase ⟨isBase.outside, isFirst⟩, rfl⟩

/-- An argument; the first one of some calls is a type. -/
theorem argument (isType : Bool) :
    Yields inside machine (Production.argument (P := P) isType) fun found =>
      found.1.1.Plain inside ∧ (isType = true -> found.1.1.isTypeOperand = true) := by
  have behind (arg : Expr P) : (arg.Plain inside ∧ (isType = true -> arg.isTypeOperand = true)) ->
      Yields inside machine ((Production.mark? .ellipsis).bind fun ellipsis =>
        (Production.eat? .comma).bind fun comma => Production.look.bind fun cursor =>
          if ellipsis.isSome then .pure ((arg, ellipsis), false)
          else if comma.isSome then .pure ((arg, none), true)
          else if cursor.token = .rParen then .pure ((arg, none), false)
          else .refuse .argumentCommaExpected)
        fun found => found.1.1.Plain inside ∧ (isType = true -> found.1.1.isTypeOperand = true) := by
    intro holds
    refine skip ?_
    intro ellipsis
    refine skip ?_
    intro comma
    refine skip ?_
    intro cursor
    refine choice (fun _ => done holds) ?_
    intro _
    refine choice (fun _ => done holds) ?_
    intro _
    exact choice (fun _ => done holds) fun _ => refuse _
  refine choice (fun takesType => ?_) fun takesNone => ?_
  · refine bind plain.type fun type isType => pure_bind (behind _ ⟨?_, fun _ => rfl⟩)
    exact .of trivial rfl isType
  · exact bind plain.expr fun arg isArg => behind arg ⟨isArg, fun isType => absurd isType takesNone⟩

theorem callTail
    {func : Expr P}
    (isFunc : func.Plain inside) :
    Yields inside machine (Production.callTail func) (Plain inside) := by
  apply inHeader
  have items : Yields false machine
      (Production.itemsUntil .rParen fun first =>
        Production.argument (Production.takesType func && first))
      fun args => (∀ arg ∈ args, arg.1.Plain false) ∧ ∀ arg ∈ args.head?,
        Production.takesType func = true -> arg.1.isTypeOperand = true := by
    apply itemsUntil
    intro first
    refine (plain.argument _).weaken ?_
    rintro ⟨⟨arg, ellipsis⟩, more⟩ ⟨isArg, isType⟩
    refine ⟨isArg, fun isFirst takesType => isType ?_⟩
    simp [isFirst, takesType]
  refine skip ?_
  intro lParen
  refine bind items ?_
  rintro args ⟨all, leads⟩
  refine skip ?_
  intro rParen
  refine done ?_
  apply Tree.plain_call isFunc
  · exact List.forall_mem_map.2 all
  · intro takesType first isFirst
    rw [List.head?_map] at isFirst
    obtain ⟨arg, isArg, rfl⟩ := Option.map_eq_some_iff.1 isFirst
    exact leads arg isArg takesType

theorem selectorOrAssertion
    {base : Expr P}
    (isBase : base.Plain inside) :
    Yields inside machine (Production.selectorOrAssertion base) (PlainOperand inside) := by
  refine skip fun dot => skip fun cursor => ?_
  split
  · exact skip fun name => done ⟨.of trivial rfl isBase, rfl⟩
  · apply inHeader
    refine skip fun lParen => skip fun keyword => ?_
    cases keyword with
    | some keyword => exact skip fun rParen => done ⟨.of trivial rfl isBase, rfl⟩
    | none =>
        refine bind plain.type fun type isType => skip fun rParen => done ?_
        exact ⟨.of_open trivial rfl isBase ⟨isBase.outside, isType⟩, rfl⟩
  · exact refuse _

/-- In a header only a type that is no name can be that of a literal. -/
theorem literalTail
    {base : Expr P}
    (isBase : PlainOperand inside base)
    (opens : Production.opensLiteral inside base = true) :
    Yields inside machine (Production.literalTail base) (PlainOperand inside) := by
  unfold Production.literalTail
  split
  · exact refuse _
  · next type found =>
      refine bind (plain.yields .literalBody) fun body isBody => done ⟨?_, rfl⟩
      have isType := Tree.plain_readType? isBase.plain.formed.outside found
      refine .of_parts trivial rfl ?_ trivial trivial ⟨.present isType, isBody.outside⟩
      rintro rfl
      rw [Tree.isNamedLiteral_compositeLit]
      exact Tree.isNamedType_of_opensLiteral isBase.unnamed opens found

theorem suffix?
    {base : Expr P}
    (isBase : PlainOperand inside base) :
    Yields inside machine (Production.suffix? base)
      fun found => ∀ expr ∈ found, PlainOperand inside expr := by
  refine skip fun cursor => bind header ?_
  rintro flag rfl
  split
  · exact map_some (plain.indexOrSlice isBase.plain)
  · refine bind (plain.callTail isBase.plain) fun call isCall => done_some ?_
    exact ⟨.of trivial rfl isCall, rfl⟩
  · exact choice (fun opens => map_some (plain.literalTail isBase opens)) fun _ => done_none
  · exact map_some (plain.selectorOrAssertion isBase.plain)
  · exact done_none

theorem primaryExpr : Yields inside machine (Production.primaryExpr (P := P)) (Plain inside) := by
  have reads : Yields inside machine (Production.primaryExpr (P := P)) (PlainOperand inside) :=
    bind plain.operand fun _ isBase => iterate (PlainOperand inside) isBase fun _ => plain.suffix?
  exact reads.weaken fun _ holds => holds.plain

/-! ## Literal values -/

/-- An element or a key, which may be a literal without a type. -/
theorem elementExpr :
    Yields inside machine (Production.elementExpr (P := P)) (Tree.Formed false) := by
  refine skip fun cursor => choice (fun _ => ?_) fun _ => ?_
  · exact bind (plain.yields .literalBody) fun body isBody =>
      done (Tree.formed_untypedLit isBody.outside)
  · exact plain.expr.weaken fun _ holds => holds.formed.outside

theorem element :
    Yields inside machine (Production.element (P := P)) fun found => found.1.Plain inside := by
  have behind : ∀ element : Tree P (.one .element), element.Plain inside ->
      Yields inside machine ((Production.eat? .comma).bind fun comma => Production.look.bind fun cursor =>
        if comma.isSome then .pure (element, true)
        else if cursor.token = .rBrace then .pure (element, false)
        else .refuse .elementCommaExpected) fun found => found.1.Plain inside := by
    intro element holds
    refine skip ?_
    intro comma
    refine skip ?_
    intro cursor
    refine choice (fun _ => done holds) fun _ => ?_
    exact choice (fun _ => done holds) fun _ => refuse _
  refine bind plain.elementExpr fun first isFirst => skip fun colon => ?_
  cases colon with
  | some colon =>
      refine bind plain.elementExpr fun value isValue => pure_bind (behind _ ?_)
      exact Tree.plain_element (.present (Tree.plain_elementKey colon isFirst)) isValue
  | none => exact pure_bind (behind _ (Tree.plain_element .absent isFirst))

theorem literalBodyRule :
    Yields inside machine (Production.literalBodyRule (P := P))
      fun body => body.elements.Plain inside := by
  apply nested
  apply inHeader
  refine skip fun lBrace => bind (itemsUntil_of_each plain.element) fun elements isElements => ?_
  exact skip fun rBrace => done (.sheltered trivial rfl rfl (.ofList isElements))

/-! ## Operators -/

theorem unaryRule : Yields inside machine (Production.unaryRule (P := P)) (Plain inside) := by
  apply nested
  refine skip fun cursor => choice (fun _ => ?_) fun _ => plain.primaryExpr
  refine skip fun op => bind (plain.yields .unary) fun operand isOperand => done ?_
  exact .of trivial rfl isOperand

theorem binaryTail?
    (least : Precedence)
    {left : Expr P}
    (isLeft : left.Plain inside) :
    Yields inside machine (Production.binaryTail? least left)
      fun found => ∀ expr ∈ found, expr.Plain inside := by
  refine skip ?_
  intro cursor
  refine choice (fun _ => done_none) ?_
  intro _
  refine skip ?_
  intro op
  exact bind (plain.yields (.expr _)) fun right isRight => done_some (.of trivial rfl ⟨isLeft, isRight⟩)

theorem exprRule (least : Precedence) :
    Yields inside machine (Production.exprRule (P := P) least) (Plain inside) := by
  refine bind (plain.yields .unary) ?_
  intro _ isLeft
  exact iterate (Plain inside) isLeft fun _ => plain.binaryTail? least

end YieldsPlain
end GoFront
