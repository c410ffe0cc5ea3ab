import GoFront.Proofs.Progress.Steps
import GoFront.Proofs.Reading.Files

/-!
# Loops of the grammar

No loop of any production stands still. Productions are taken in the order of the grammar; each has the
loops of its parts, and where it has a loop of its own, the items of the loop gain a lexeme.
-/

namespace GoFront

variable {P : Type} {α : Type} {limit : Nat}

namespace Production
namespace LoopsAdvance

/-! ## Types -/

theorem type? : (Production.type? (P := P)).LoopsAdvance limit :=
  trivial

theorem type : (Production.type (P := P)).LoopsAdvance limit := by
  refine ⟨type?, fun found => ?_⟩
  cases found with
  | some type => trivial
  | none => exact ⟨trivial, fun _ => trivial⟩

theorem expr : (Production.expr (P := P)).LoopsAdvance limit :=
  trivial

theorem identList : (Production.identList (P := P)).LoopsAdvance limit :=
  commaSeparated ident

theorem typeList : (Production.typeList (P := P)).LoopsAdvance limit :=
  ⟨commaSeparated type, fun _ => trivial⟩

theorem stringLit : (Production.stringLit (P := P)).LoopsAdvance limit := by
  refine ⟨trivial, fun cursor => ?_⟩
  dsimp only
  split
  · exact ⟨trivial, fun _ => trivial⟩
  · exact ⟨trivial, fun _ => trivial⟩
  · trivial

theorem typeArgs : (Production.typeArgs (P := P)).LoopsAdvance limit := by
  refine ⟨mark _, ?_⟩
  intro lBrack
  refine ⟨trivial, ?_⟩
  intro cursor
  refine choice trivial ?_
  refine ⟨type, ?_⟩
  intro first
  refine ⟨commaTail type, ?_⟩
  intro rest
  exact ⟨mark _, fun rBrack => trivial⟩

theorem typeName : (Production.typeName (P := P)).LoopsAdvance limit := by
  have behind (package : Option (Ident P)) (name : Ident P) :
      (Production.look.bind fun cursor =>
        if cursor.token = .lBrack then
          Production.typeArgs.bind fun args => .pure (Tree.typeName package name (.present args))
        else .pure (Tree.typeName package name .absent)).LoopsAdvance limit :=
    ⟨trivial, fun _ => choice ⟨typeArgs, fun _ => trivial⟩ trivial⟩
  refine ⟨ident, fun first => ⟨eat? _, fun dot => choice ?_ ?_⟩⟩
  · exact ⟨ident, fun name => ⟨trivial, fun _ => behind _ _⟩⟩
  · exact ⟨trivial, fun _ => behind _ _⟩

theorem arrayOrSliceType : (Production.arrayOrSliceType (P := P)).LoopsAdvance limit := by
  refine ⟨mark _, fun lBrack => ⟨mark? _, fun rBrack => ?_⟩⟩
  cases rBrack with
  | some rBrack => exact ⟨type, fun _ => trivial⟩
  | none =>
      refine ⟨mark? _, fun ellipsis => ?_⟩
      cases ellipsis with
      | some ellipsis => exact ⟨mark _, fun _ => ⟨type, fun _ => trivial⟩⟩
      | none =>
          refine ⟨expr, ?_⟩
          intro length
          refine ⟨mark _, ?_⟩
          intro rBrack
          exact ⟨type, fun _ => trivial⟩

theorem mapType : (Production.mapType (P := P)).LoopsAdvance limit := by
  refine ⟨mark _, ?_⟩
  intro keyword
  refine ⟨mark _, ?_⟩
  intro lBrack
  refine ⟨type, ?_⟩
  intro key
  refine ⟨mark _, ?_⟩
  intro rBrack
  exact ⟨type, fun value => trivial⟩

theorem chanType : (Production.chanType (P := P)).LoopsAdvance limit := by
  refine ⟨mark? _, fun arrow => ?_⟩
  cases arrow with
  | some arrow => exact ⟨mark _, fun _ => ⟨type, fun _ => trivial⟩⟩
  | none =>
      refine ⟨mark _, ?_⟩
      intro keyword
      refine ⟨mark? _, ?_⟩
      intro arrow
      exact ⟨type, fun _ => trivial⟩

/-! ## Signatures and type parameters -/

theorem paramEntry : (Production.paramEntry (P := P)).LoopsAdvance limit := by
  refine ⟨trivial, fun cursor => choice ⟨ident, fun _ => trivial⟩ (choice ?_ ?_)⟩
  · refine ⟨ident, ?_⟩
    intro _
    refine ⟨mark? _, ?_⟩
    intro _
    exact ⟨type, fun _ => trivial⟩
  · exact ⟨mark? _, fun _ => ⟨type, fun _ => trivial⟩⟩

theorem params (variadic : Bool) : (Production.params (P := P) variadic).LoopsAdvance limit := by
  refine ⟨mark _, fun lParen => ⟨itemsUntil ?_ fun _ => withComma paramEntry, fun entries => ?_⟩⟩
  · intro _ allowance
    exact Gains.first (.of_phrase (readsNonterminals limit allowance).paramEntry trivial)
  · dsimp only
    split
    · trivial
    · exact ⟨mark _, fun _ => trivial⟩

theorem signature : (Production.signature (P := P)).LoopsAdvance limit := by
  refine ⟨params _, ?_⟩
  intro _
  refine ⟨trivial, ?_⟩
  intro cursor
  refine choice ?_ ?_
  · exact ⟨params _, fun _ => trivial⟩
  · exact ⟨type?, fun _ => trivial⟩

theorem funcType : (Production.funcType (P := P)).LoopsAdvance limit := by
  refine ⟨mark _, ?_⟩
  intro keyword
  exact ⟨signature, fun shape => trivial⟩

theorem typeTerm : (Production.typeTerm (P := P)).LoopsAdvance limit := by
  refine ⟨mark? _, fun tilde => ⟨type, fun type => ?_⟩⟩
  cases tilde <;> trivial

theorem typeElem : (Production.typeElem (P := P)).LoopsAdvance limit := by
  refine ⟨typeTerm, fun _ => ⟨many (advances_behind (by decide)) ?_, fun _ => trivial⟩⟩
  exact ⟨eat? _, fun _ => choice ⟨typeTerm, fun _ => trivial⟩ trivial⟩

theorem typeParam : (Production.typeParam (P := P)).LoopsAdvance limit := by
  refine ⟨identList, ?_⟩
  intro names
  exact ⟨typeElem, fun bound => trivial⟩

theorem typeParams : (Production.typeParams (P := P)).LoopsAdvance limit := by
  refine ⟨mark _, fun lBrack => ⟨itemsUntil ?_ fun _ => withComma typeParam, fun entries => ?_⟩⟩
  · intro _ allowance
    exact Gains.first (.of_phrase (readsNonterminals limit allowance).typeParam trivial)
  · exact choice trivial ⟨mark _, fun _ => trivial⟩

/-! ## Structures and interfaces -/

theorem tag? : (Production.tag? (P := P)).LoopsAdvance limit := by
  refine ⟨trivial, ?_⟩
  intro cursor
  exact choice ⟨stringLit, fun tag => trivial⟩ trivial

theorem fieldDecl : (Production.fieldDecl (P := P)).LoopsAdvance limit := by
  refine ⟨trivial, fun cursor => choice ?_ ?_⟩
  · refine ⟨mark? _, ?_⟩
    intro _
    refine ⟨typeName, ?_⟩
    intro _
    exact ⟨tag?, fun _ => trivial⟩
  · refine ⟨identList, ?_⟩
    intro _
    refine ⟨type, ?_⟩
    intro _
    exact ⟨tag?, fun _ => trivial⟩

theorem structType : (Production.structType (P := P)).LoopsAdvance limit := by
  refine ⟨mark _, ?_⟩
  intro keyword
  refine ⟨mark _, ?_⟩
  intro lBrace
  refine ⟨itemsUntil ?_ fun _ => withSemicolon fieldDecl, fun fields => ⟨mark _, fun _ => trivial⟩⟩
  intro _ allowance
  exact Gains.first (.of_phrase (readsNonterminals limit allowance).fieldDecl trivial)

theorem interfaceElem : (Production.interfaceElem (P := P)).LoopsAdvance limit := by
  refine ⟨trivial, ?_⟩
  intro cursor
  refine choice ?_ ?_
  · refine ⟨ident, ?_⟩
    intro _
    exact ⟨signature, fun _ => trivial⟩
  · exact ⟨typeElem, fun _ => trivial⟩

theorem interfaceType : (Production.interfaceType (P := P)).LoopsAdvance limit := by
  refine ⟨mark _, ?_⟩
  intro keyword
  refine ⟨mark _, ?_⟩
  intro lBrace
  refine ⟨itemsUntil ?_ fun _ => withSemicolon interfaceElem, fun elems => ⟨mark _, fun _ => trivial⟩⟩
  intro _ allowance
  exact Gains.first (.of_phrase (readsNonterminals limit allowance).interfaceElem trivial)

theorem pointerType : (Production.pointerType (P := P)).LoopsAdvance limit := by
  refine ⟨mark _, ?_⟩
  intro star
  exact ⟨type, fun elem => trivial⟩

theorem parenType : (Production.parenType (P := P)).LoopsAdvance limit := by
  refine ⟨mark _, ?_⟩
  intro lParen
  refine ⟨type, ?_⟩
  intro inner
  exact ⟨mark _, fun rParen => trivial⟩

theorem typeFrom
    (token : Token)
    (production : Production P (TypeExpr P))
    (found : Production.typeFrom token = some production) :
    production.LoopsAdvance limit := by
  unfold Production.typeFrom at found
  split at found
  case h_1 =>
    cases found
    exact ⟨typeName, fun _ => trivial⟩
  case h_4 =>
    cases found
    exact ⟨funcType, fun _ => trivial⟩
  all_goals cases found
  · exact pointerType
  · exact parenType
  · exact arrayOrSliceType
  · exact mapType
  · exact chanType
  · exact chanType
  · exact structType
  · exact interfaceType

theorem typeRule : (Production.typeRule (P := P)).LoopsAdvance limit := by
  refine ⟨trivial, fun cursor => ?_⟩
  dsimp only
  split
  · next production found => exact ⟨typeFrom _ production found, fun _ => trivial⟩
  · trivial

/-! ## Operands -/

theorem exprList : (Production.exprList (P := P)).LoopsAdvance limit :=
  ⟨commaSeparated expr, fun _ => trivial⟩

theorem block : (Production.block (P := P)).LoopsAdvance limit :=
  trivial

theorem funcOperand : (Production.funcOperand (P := P)).LoopsAdvance limit := by
  refine ⟨funcType, ?_⟩
  intro type
  refine ⟨trivial, ?_⟩
  intro cursor
  exact choice ⟨block, fun body => trivial⟩ trivial

theorem groupExpr : (Production.groupExpr (P := P)).LoopsAdvance limit := by
  refine ⟨mark _, ?_⟩
  intro lParen
  refine ⟨expr, ?_⟩
  intro inner
  exact ⟨mark _, fun rParen => trivial⟩

theorem typeOperand : (Production.typeOperand (P := P)).LoopsAdvance limit := by
  refine ⟨trivial, fun cursor => ⟨type?, fun type => ?_⟩⟩
  cases type <;> trivial

theorem operand : (Production.operand (P := P)).LoopsAdvance limit := by
  refine ⟨trivial, fun cursor => ?_⟩
  dsimp only
  split
  · exact ⟨trivial, fun _ => trivial⟩
  · split
    · exact ⟨ident, fun _ => trivial⟩
    · exact groupExpr
    · exact funcOperand
    · exact typeOperand

/-! ## Suffixes -/

theorem sliceEnd
    (base : Expr P)
    (lBrack colon : Mark P)
    (low : Tree P (.maybe .expr))
    (high : Option (Expr P)) :
    (Production.sliceEnd base lBrack colon low high).LoopsAdvance limit := by
  refine ⟨mark? _, fun second => ?_⟩
  cases second with
  | none => exact ⟨mark _, fun _ => trivial⟩
  | some secondColon =>
      cases high with
      | none => trivial
      | some high =>
          refine ⟨trivial, ?_⟩
          intro _
          refine choice trivial ?_
          refine ⟨expr, ?_⟩
          intro _
          exact ⟨mark _, fun _ => trivial⟩

theorem sliceTail
    (base : Expr P)
    (lBrack : Mark P)
    (low : Tree P (.maybe .expr)) :
    (Production.sliceTail base lBrack low).LoopsAdvance limit := by
  refine ⟨mark _, fun colon => ⟨trivial, fun cursor => choice ?_ ?_⟩⟩
  · exact ⟨trivial, fun _ => sliceEnd _ _ _ _ _⟩
  · exact ⟨expr, fun _ => ⟨trivial, fun _ => sliceEnd _ _ _ _ _⟩⟩

theorem indexOrSlice (base : Expr P) :
    (Production.indexOrSlice base).LoopsAdvance limit := by
  refine ⟨mark _, fun lBrack => ⟨trivial, fun cursor => choice (sliceTail _ _ _) ?_⟩⟩
  refine ⟨expr, fun first => ⟨trivial, fun cursor => ?_⟩⟩
  dsimp only
  split
  · exact sliceTail _ _ _
  · refine ⟨commaTail expr, fun rest => ⟨mark _, fun rBrack => ?_⟩⟩
    dsimp only
    split <;> trivial
  · refine ⟨mark _, fun rBrack => ?_⟩
    dsimp only
    split <;> trivial

theorem argument (isType : Bool) :
    (Production.argument (P := P) isType).LoopsAdvance limit := by
  have behind (arg : Expr P) :
      ((Production.mark? (P := P) .ellipsis).bind fun ellipsis =>
        (Production.eat? .comma).bind fun comma => Production.look.bind fun cursor =>
          if ellipsis.isSome then .pure ((arg, ellipsis), false)
          else if comma.isSome then .pure ((arg, none), true)
          else if cursor.token = .rParen then .pure ((arg, none), false)
          else .refuse .argumentCommaExpected).LoopsAdvance limit := by
    refine ⟨mark? _, ?_⟩
    intro ellipsis
    refine ⟨eat? _, ?_⟩
    intro comma
    refine ⟨trivial, ?_⟩
    intro cursor
    exact choice trivial (choice trivial (choice trivial trivial))
  cases isType with
  | true => exact ⟨type, fun _ => ⟨trivial, fun _ => behind _⟩⟩
  | false => exact ⟨expr, behind⟩

theorem callTail (func : Expr P) :
    (Production.callTail func).LoopsAdvance limit := by
  refine ⟨mark _, ?_⟩
  intro lParen
  refine ⟨itemsUntil ?_ fun _ => argument _, fun args => ⟨mark _, fun _ => trivial⟩⟩
  intro first allowance
  exact .of_phrase ((readsNonterminals limit allowance).argument _) trivial

theorem selectorOrAssertion (base : Expr P) :
    (Production.selectorOrAssertion base).LoopsAdvance limit := by
  refine ⟨mark _, fun dot => ⟨trivial, fun cursor => ?_⟩⟩
  dsimp only
  split
  · exact ⟨ident, fun _ => trivial⟩
  · refine ⟨mark _, fun lParen => ⟨mark? _, fun keyword => ?_⟩⟩
    cases keyword with
    | some keyword => exact ⟨mark _, fun _ => trivial⟩
    | none => exact ⟨type, fun _ => ⟨mark _, fun _ => trivial⟩⟩
  · trivial

theorem literalTail (type : Expr P) :
    (Production.literalTail type).LoopsAdvance limit := by
  unfold Production.literalTail
  split
  · trivial
  · exact ⟨trivial, fun _ => trivial⟩

theorem suffix? (base : Expr P) :
    (Production.suffix? base).LoopsAdvance limit := by
  refine ⟨trivial, fun cursor => ⟨trivial, fun inHeader => ?_⟩⟩
  dsimp only
  split
  · exact ⟨indexOrSlice base, fun _ => trivial⟩
  · exact ⟨callTail base, fun _ => trivial⟩
  · exact choice ⟨literalTail base, fun _ => trivial⟩ trivial
  · exact ⟨selectorOrAssertion base, fun _ => trivial⟩
  · trivial

/-- A suffix begins with a bracket, a brace or a point. -/
theorem suffix?_advances (base : Expr P) :
    (Production.suffix? base).Advances limit := by
  intro allowance
  apply Gains.look
  intro cursor
  apply Gains.second
  intro inHeader
  split
  · exact Gains.first (.inHeader (.mark (by decide)))
  · exact Gains.first (.inHeader (.mark (by decide)))
  · apply Gains.choice
    · intro _
      apply Gains.first
      unfold Production.literalTail
      split
      · exact .refuse _
      · exact Gains.first (.of_phrase (readsNonterminals limit allowance).literalBody trivial)
    · intro _
      exact .pure (by simp)
  · exact Gains.first (.mark (by decide))
  · exact .pure (by simp)

theorem primaryExpr : (Production.primaryExpr (P := P)).LoopsAdvance limit :=
  ⟨operand, fun _ base => ⟨suffix?_advances base, suffix? base⟩⟩

/-! ## Literal values and operators -/

theorem elementExpr : (Production.elementExpr (P := P)).LoopsAdvance limit := by
  refine ⟨trivial, ?_⟩
  intro cursor
  exact choice ⟨trivial, fun body => trivial⟩ expr

theorem element : (Production.element (P := P)).LoopsAdvance limit := by
  have behind (element : Tree P (.one .element)) :
      ((Production.eat? (P := P) .comma).bind fun comma => Production.look.bind fun cursor =>
        if comma.isSome then .pure (element, true)
        else if cursor.token = .rBrace then .pure (element, false)
        else .refuse .elementCommaExpected).LoopsAdvance limit := by
    refine ⟨eat? _, ?_⟩
    intro comma
    refine ⟨trivial, ?_⟩
    intro cursor
    exact choice trivial (choice trivial trivial)
  refine ⟨elementExpr, fun first => ⟨mark? _, fun colon => ?_⟩⟩
  cases colon with
  | some colon => exact ⟨elementExpr, fun _ => ⟨build _, behind⟩⟩
  | none => exact ⟨build _, behind⟩

theorem literalBodyRule : (Production.literalBodyRule (P := P)).LoopsAdvance limit := by
  refine ⟨mark _, ?_⟩
  intro lBrace
  refine ⟨itemsUntil ?_ fun _ => element, fun elements => ⟨mark _, fun _ => trivial⟩⟩
  intro first allowance
  exact .of_phrase ((readsNonterminals limit allowance).element first) trivial

theorem unaryRule : (Production.unaryRule (P := P)).LoopsAdvance limit := by
  refine ⟨trivial, ?_⟩
  intro cursor
  refine choice ?_ primaryExpr
  refine ⟨anyMark, ?_⟩
  intro op
  exact ⟨trivial, fun operand => trivial⟩

/-- What continues an expression ends in a right operand. -/
theorem binaryTail?_advances
    (least : Precedence)
    (left : Expr P) :
    (Production.binaryTail? least left).Advances limit := by
  intro allowance
  apply Gains.look
  intro cursor
  apply Gains.choice
  · intro _
    exact .pure (by simp)
  · intro _
    apply Gains.second
    intro op
    exact Gains.first (.of_phrase ((readsNonterminals limit allowance).exprOf _) trivial)

theorem exprRule (least : Precedence) :
    (Production.exprRule (P := P) least).LoopsAdvance limit := by
  refine ⟨trivial, fun _ left => ⟨binaryTail?_advances least left, trivial, fun cursor => ?_⟩⟩
  exact choice trivial ⟨anyMark, fun _ => ⟨trivial, fun _ => trivial⟩⟩

/-! ## Declarations -/

theorem importSpec : (Production.importSpec (P := P)).LoopsAdvance limit := by
  refine ⟨⟨trivial, fun cursor => ?_⟩, fun _ => ⟨stringLit, fun _ => trivial⟩⟩
  dsimp only
  split
  · exact ⟨ident, fun _ => trivial⟩
  · exact ⟨mark _, fun _ => trivial⟩
  · trivial

theorem constSpec (first : Bool) : (Production.constSpec (P := P) first).LoopsAdvance limit := by
  refine ⟨identList, ?_⟩
  intro names
  refine ⟨type?, ?_⟩
  intro type
  refine ⟨trivial, ?_⟩
  intro cursor
  refine choice ?_ trivial
  refine ⟨expect _, ?_⟩
  intro _
  exact ⟨exprList, fun values => trivial⟩

theorem varSpec : (Production.varSpec (P := P)).LoopsAdvance limit := by
  refine ⟨identList, fun names => ⟨type?, fun type => ⟨eat? _, fun assign => choice ?_ ?_⟩⟩⟩
  · refine ⟨exprList, ?_⟩
    intro _
    refine ⟨trivial, ?_⟩
    intro _
    exact ⟨build _, fun _ => trivial⟩
  · exact ⟨trivial, fun _ => ⟨build _, fun _ => trivial⟩⟩

theorem typeSpec : (Production.typeSpec (P := P)).LoopsAdvance limit := by
  refine ⟨ident, fun name => ⟨mark? _, fun assign => ?_⟩⟩
  cases assign with
  | some assign => exact ⟨type, fun _ => trivial⟩
  | none =>
      refine ⟨trivial, fun cursor => choice ?_ ?_⟩
      · refine ⟨typeParams, ?_⟩
        intro _
        refine ⟨trivial, ?_⟩
        intro _
        exact ⟨type, fun _ => trivial⟩
      · exact ⟨trivial, fun _ => ⟨type, fun _ => trivial⟩⟩

theorem singleSpec
    (kind : SpecKind)
    (first : Bool) :
    (Production.singleSpec (P := P) kind first).LoopsAdvance limit := by
  cases kind with
  | imports => exact importSpec
  | vars => exact varSpec
  | consts => exact constSpec first
  | types => exact typeSpec

theorem spec (kind : SpecKind) : (Production.spec (P := P) kind).LoopsAdvance limit := by
  refine ⟨mark? _, fun lParen => ?_⟩
  cases lParen with
  | none => exact singleSpec kind true
  | some lParen =>
      refine ⟨itemsUntil ?_ fun first => withSemicolon (singleSpec kind first), fun specs => ?_⟩
      · intro first allowance
        exact Gains.first
          (.of_phrase ((readsNonterminals limit allowance).singleSpec kind first) trivial)
      · exact ⟨mark _, fun _ => ⟨build _, fun _ => trivial⟩⟩

theorem specDecl (kind : SpecKind) : (Production.specDecl (P := P) kind).LoopsAdvance limit := by
  refine ⟨mark _, ?_⟩
  intro _
  refine ⟨spec kind, ?_⟩
  intro _
  refine ⟨build _, ?_⟩
  intro _
  exact ⟨semicolon, fun _ => trivial⟩

theorem body? : (Production.body? (P := P)).LoopsAdvance limit := by
  refine ⟨trivial, ?_⟩
  intro cursor
  exact choice ⟨block, fun body => trivial⟩ trivial

theorem funcTail (keyword : Mark P) :
    (Production.funcTail keyword).LoopsAdvance limit := by
  refine ⟨ident, fun name => ⟨trivial, fun cursor => choice ?_ ?_⟩⟩
  · refine ⟨typeParams, ?_⟩
    intro _
    refine ⟨trivial, ?_⟩
    intro _
    refine ⟨signature, ?_⟩
    intro _
    exact ⟨body?, fun _ => trivial⟩
  · refine ⟨trivial, ?_⟩
    intro _
    refine ⟨signature, ?_⟩
    intro _
    exact ⟨body?, fun _ => trivial⟩

theorem methodTail (keyword : Mark P) :
    (Production.methodTail keyword).LoopsAdvance limit := by
  refine ⟨params _, ?_⟩
  intro receiver
  refine ⟨ident, ?_⟩
  intro name
  refine ⟨signature, ?_⟩
  intro shape
  exact ⟨body?, fun body => trivial⟩

theorem funcOrMethod : (Production.funcOrMethod (P := P)).LoopsAdvance limit := by
  refine ⟨mark _, fun keyword => ⟨trivial, fun cursor => choice ?_ ?_⟩⟩
  · exact ⟨methodTail _, fun _ => ⟨semicolon, fun _ => trivial⟩⟩
  · exact ⟨funcTail _, fun _ => ⟨semicolon, fun _ => trivial⟩⟩

theorem specifiedDecl (kind : SpecKind) :
    (Production.specifiedDecl (P := P) kind).LoopsAdvance limit :=
  ⟨specDecl kind, fun _ => trivial⟩

theorem decl : (Production.decl (P := P)).LoopsAdvance limit := by
  refine ⟨trivial, fun cursor => ?_⟩
  dsimp only
  split
  · exact specifiedDecl _
  · exact specifiedDecl _
  · exact specifiedDecl _
  · exact funcOrMethod
  · trivial

/-! ## Simple statements -/

theorem onlyExpr (exprs : ExprList P) :
    (Production.onlyExpr exprs).LoopsAdvance limit := by
  unfold Production.onlyExpr
  split <;> trivial

theorem simpleTail (left : ExprList P) :
    (Production.simpleTail left).LoopsAdvance limit := by
  refine ⟨trivial, fun cursor => choice ?_ (choice ?_ ?_)⟩
  · split
    · trivial
    · exact ⟨mark _, fun _ => ⟨exprList, fun _ => trivial⟩⟩
  · exact ⟨anyMark, fun _ => ⟨exprList, fun _ => trivial⟩⟩
  · refine ⟨onlyExpr left, fun first => ?_⟩
    dsimp only
    split
    · exact ⟨anyMark, fun _ => trivial⟩
    · exact ⟨anyMark, fun _ => trivial⟩
    · exact ⟨mark _, fun _ => ⟨expr, fun _ => trivial⟩⟩
    · trivial

theorem simpleStmt : (Production.simpleStmt (P := P)).LoopsAdvance limit :=
  ⟨exprList, simpleTail⟩

theorem simpleStmtUnless (tokens : List Token) :
    (Production.simpleStmtUnless (P := P) tokens).LoopsAdvance limit := by
  refine ⟨trivial, ?_⟩
  intro cursor
  exact choice trivial ⟨simpleStmt, fun stmt => trivial⟩

theorem callOnly : (Production.callOnly (P := P)).LoopsAdvance limit := by
  refine ⟨expr, fun expr => ?_⟩
  dsimp only
  split <;> trivial

/-! ## Statement lists -/

theorem stmtList : (Production.stmtList (P := P)).LoopsAdvance limit := by
  refine ⟨resuming ?_ ?_ trivial, fun _ => trivial⟩
  · intro cursor isMore atEnd
    simp [Production.moreStmts, Cursor.atAny, atEnd] at isMore
  · intro allowance
    exact .of_phrase (Reads.readsNested (readsNonterminals limit allowance).stmt) (by simp [InBrackets])

theorem blockRule : (Production.blockRule (P := P)).LoopsAdvance limit := by
  refine ⟨mark _, ?_⟩
  intro lBrace
  refine ⟨stmtList, ?_⟩
  intro stmts
  exact ⟨mark _, fun rBrace => trivial⟩

/-! ## Conditional statements and loops -/

theorem headerStmts : (Production.headerStmts (P := P)).LoopsAdvance limit := by
  refine ⟨simpleStmtUnless _, ?_⟩
  intro first
  refine ⟨eat? _, ?_⟩
  intro semi
  exact choice trivial ⟨simpleStmtUnless _, fun second => trivial⟩

theorem headerExpr
    (part : HeaderPart)
    (stmt : SimpleStmt P) :
    (Production.headerExpr part stmt).LoopsAdvance limit := by
  unfold Production.headerExpr
  split <;> trivial

theorem ifHeader : (Production.ifHeader (P := P)).LoopsAdvance limit := by
  refine ⟨headerStmts, ?_⟩
  rintro ⟨init, condition⟩
  cases condition with
  | none => trivial
  | some condition => exact ⟨headerExpr _ condition, fun _ => trivial⟩

theorem elseBody : (Production.elseBody (P := P)).LoopsAdvance limit := by
  refine ⟨trivial, fun cursor => ?_⟩
  dsimp only
  split
  · exact ⟨trivial, fun _ => trivial⟩
  · exact ⟨block, fun _ => trivial⟩
  · trivial

theorem ifStmtRule : (Production.ifStmtRule (P := P)).LoopsAdvance limit := by
  refine ⟨mark _, fun keyword => ⟨ifHeader, fun header => ⟨block, fun body => ⟨mark? _,
    fun elseKeyword => choice ?_ ?_⟩⟩⟩⟩
  · exact ⟨elseBody, fun _ => ⟨trivial, fun _ => build _⟩⟩
  · exact ⟨trivial, fun _ => build _⟩

theorem forClauseTail (init : Option (SimpleStmt P)) :
    (Production.forClauseTail init).LoopsAdvance limit := by
  refine ⟨expect _, fun _ => ⟨trivial, fun cursor => choice ?_ ?_⟩⟩
  · refine ⟨trivial, ?_⟩
    intro _
    refine ⟨expect _, ?_⟩
    intro _
    exact ⟨simpleStmtUnless _, fun _ => trivial⟩
  · refine ⟨expr, ?_⟩
    intro _
    refine ⟨trivial, ?_⟩
    intro _
    refine ⟨expect _, ?_⟩
    intro _
    exact ⟨simpleStmtUnless _, fun _ => trivial⟩

theorem boundNames : (Production.boundNames (P := P)).LoopsAdvance limit := by
  refine ⟨identList, ?_⟩
  intro names
  exact ⟨mark _, fun op => trivial⟩

theorem boundExprs : (Production.boundExprs (P := P)).LoopsAdvance limit := by
  refine ⟨exprList, ?_⟩
  intro exprs
  exact ⟨mark _, fun op => trivial⟩

theorem rangeBinding : (Production.rangeBinding (P := P)).LoopsAdvance limit := by
  refine ⟨trivial, ?_⟩
  intro _
  refine choice trivial ?_
  refine choice ?_ ?_
  · exact ⟨boundNames, fun _ => trivial⟩
  · exact ⟨boundExprs, fun _ => trivial⟩

theorem rangeClause : (Production.rangeClause (P := P)).LoopsAdvance limit := by
  refine ⟨rangeBinding, ?_⟩
  intro binding
  refine ⟨mark _, ?_⟩
  intro keyword
  exact ⟨expr, fun expr => build _⟩

theorem forHeader : (Production.forHeader (P := P)).LoopsAdvance limit := by
  refine ⟨trivial, fun cursor => choice trivial (choice ⟨rangeClause, fun _ => trivial⟩ ?_)⟩
  refine ⟨simpleStmtUnless _, fun init => ⟨trivial, fun cursor => ?_⟩⟩
  cases init with
  | none => exact ⟨forClauseTail _, fun _ => trivial⟩
  | some condition =>
      exact choice ⟨forClauseTail _, fun _ => trivial⟩ ⟨headerExpr _ condition, fun _ => trivial⟩

theorem forStmt : (Production.forStmt (P := P)).LoopsAdvance limit := by
  refine ⟨mark _, ?_⟩
  intro keyword
  refine ⟨forHeader, ?_⟩
  intro iteration
  exact ⟨block, fun body => trivial⟩

/-! ## Switch and select statements -/

/-- A clause begins with a keyword. -/
theorem caseClauses
    {kind : ClauseKind}
    {label : Mark P -> Production P (Tree P (.one (.caseLabel kind)))}
    (inner : ∀ keyword, (label keyword).LoopsAdvance limit) :
    (Production.caseClauses label).LoopsAdvance limit := by
  have behind (label : Tree P (.one (.caseLabel kind))) :
      ((Production.mark .colon).bind fun colon => Production.stmtList.bind fun body =>
        .pure (Tree.caseClause label colon body, true)).LoopsAdvance limit :=
    ⟨mark _, fun _ => ⟨stmtList, fun _ => trivial⟩⟩
  refine ⟨itemsUntil (fun _ allowance => ?_) fun _ => ⟨trivial, fun cursor => ?_⟩, fun _ => trivial⟩
  · apply Gains.look
    intro cursor
    split
    · exact .mark (by decide)
    · exact .mark (by decide)
    · exact Gains.first (.refuse _)
  · dsimp only
    split
    · exact ⟨mark _, fun keyword => ⟨inner keyword, behind⟩⟩
    · exact ⟨mark _, fun keyword => ⟨trivial, behind⟩⟩
    · exact ⟨trivial, behind⟩

theorem switchSubject (last : Option (SimpleStmt P)) :
    (Production.switchSubject last).LoopsAdvance limit := by
  unfold Production.switchSubject
  split
  · trivial
  · split
    · exact choice trivial trivial
    · trivial
  · exact ⟨headerExpr _ _, fun _ => choice trivial trivial⟩

theorem switchHeader : (Production.switchHeader (P := P)).LoopsAdvance limit := by
  refine ⟨headerStmts, ?_⟩
  intro _
  exact ⟨switchSubject _, fun _ => trivial⟩

theorem switchStmt : (Production.switchStmt (P := P)).LoopsAdvance limit := by
  refine ⟨mark _, fun keyword => ⟨switchHeader, ?_⟩⟩
  rintro ⟨init, subject⟩
  refine ⟨mark _, fun lBrace => ?_⟩
  cases subject with
  | values tag =>
      exact ⟨caseClauses fun _ => ⟨exprList, fun _ => trivial⟩, fun _ => ⟨mark _, fun _ => trivial⟩⟩
  | types guard =>
      exact ⟨caseClauses fun _ => ⟨typeList, fun _ => trivial⟩, fun _ => ⟨mark _, fun _ => trivial⟩⟩

theorem commBinding : (Production.commBinding (P := P)).LoopsAdvance limit := by
  refine ⟨trivial, ?_⟩
  intro _
  refine choice ?_ (choice ⟨boundNames, fun _ => trivial⟩ trivial)
  exact ⟨boundExprs, fun _ => trivial⟩

theorem communication : (Production.communication (P := P)).LoopsAdvance limit := by
  refine ⟨commBinding, fun bound => ⟨expr, fun first => ?_⟩⟩
  cases bound with
  | some bound => trivial
  | none =>
      refine ⟨mark? _, fun arrow => ?_⟩
      cases arrow with
      | some arrow => exact ⟨expr, fun _ => trivial⟩
      | none => trivial

theorem selectStmt : (Production.selectStmt (P := P)).LoopsAdvance limit := by
  refine ⟨mark _, ?_⟩
  intro keyword
  refine ⟨mark _, ?_⟩
  intro lBrace
  refine ⟨caseClauses ?_, fun clauses => ⟨mark _, fun _ => trivial⟩⟩
  intro keyword
  exact ⟨communication, fun comm => build _⟩

/-! ## Statements -/

theorem terminated
    {stmt : Production P (Stmt P)}
    (inner : stmt.LoopsAdvance limit) :
    (Production.terminated stmt).LoopsAdvance limit := by
  refine ⟨inner, ?_⟩
  intro _
  exact ⟨semicolon, fun _ => trivial⟩

theorem labeledTail (label : ExprList P) :
    (Production.labeledTail label).LoopsAdvance limit := by
  unfold Production.labeledTail
  split
  · refine ⟨mark _, fun colon => ⟨trivial, fun cursor => choice ?_ ?_⟩⟩
    · exact ⟨trivial, fun _ => trivial⟩
    · exact ⟨trivial, fun _ => trivial⟩
  · trivial

theorem exprLedStmt : (Production.exprLedStmt (P := P)).LoopsAdvance limit := by
  refine ⟨exprList, ?_⟩
  intro exprs
  refine ⟨trivial, ?_⟩
  intro cursor
  refine choice (labeledTail exprs) ?_
  refine ⟨simpleTail exprs, ?_⟩
  intro _
  exact ⟨semicolon, fun _ => trivial⟩

theorem results? : (Production.results? (P := P)).LoopsAdvance limit := by
  refine ⟨trivial, ?_⟩
  intro cursor
  exact choice trivial ⟨exprList, fun results => trivial⟩

theorem keywordStmt
    (token : Token)
    (stmt : Production P (Stmt P))
    (found : Production.keywordStmt token = some stmt) :
    stmt.LoopsAdvance limit := by
  unfold Production.keywordStmt at found
  split at found
  all_goals cases found
  · exact ⟨block, fun _ => trivial⟩
  · exact ⟨trivial, fun _ => trivial⟩
  · exact forStmt
  · exact switchStmt
  · exact selectStmt
  · exact ⟨mark _, fun _ => ⟨callOnly, fun _ => trivial⟩⟩
  · exact ⟨mark _, fun _ => ⟨callOnly, fun _ => trivial⟩⟩
  · exact ⟨mark _, fun _ => ⟨results?, fun _ => trivial⟩⟩
  · exact ⟨mark _, fun _ => ⟨ident, fun _ => trivial⟩⟩
  · exact ⟨mark _, fun _ => ⟨ident?, fun _ => trivial⟩⟩
  · exact ⟨mark _, fun _ => ⟨ident?, fun _ => trivial⟩⟩
  · exact ⟨mark _, fun _ => trivial⟩

theorem stmtRule : (Production.stmtRule (P := P)).LoopsAdvance limit := by
  refine ⟨trivial, fun cursor => ?_⟩
  dsimp only
  split
  · next stmt found => exact terminated (keywordStmt _ stmt found)
  · split
    · exact ⟨decl, fun _ => trivial⟩
    · exact ⟨decl, fun _ => trivial⟩
    · exact ⟨decl, fun _ => trivial⟩
    · exact ⟨trivial, fun _ => trivial⟩
    · exact choice exprLedStmt trivial

/-- The rules of all nonterminals. -/
theorem rule (nonterminal : Nonterminal) :
    (nonterminal.rule (P := P)).LoopsAdvance limit := by
  cases nonterminal with
  | type => exact typeRule
  | expr least => exact exprRule least
  | unary => exact unaryRule
  | literalBody => exact literalBodyRule
  | block => exact blockRule
  | stmt => exact stmtRule
  | ifStmt => exact ifStmtRule

/-! ## Whole texts -/

theorem packageClause : (Production.packageClause (P := P)).LoopsAdvance limit := by
  refine ⟨mark _, ?_⟩
  intro _
  refine ⟨ident, ?_⟩
  intro _
  exact ⟨semicolon, fun _ => trivial⟩

theorem file : (Production.file (P := P)).LoopsAdvance limit := by
  refine ⟨packageClause, fun _ => ⟨resuming ?_ ?_ (specDecl _), fun _ =>
    ⟨resuming ?_ ?_ decl, fun _ => trivial⟩⟩⟩
  · intro cursor isImport atEnd
    simp [atEnd] at isImport
  · intro allowance
    exact .of_phrase ((readsNonterminals limit allowance).specDecl _) (by simp [InBrackets])
  · intro cursor isMore
    exact of_decide_eq_true isMore
  · intro allowance
    exact .of_phrase (readsNonterminals limit allowance).decl (by simp [InBrackets])

theorem singleDecl : (Production.singleDecl (P := P)).LoopsAdvance limit := by
  refine ⟨trivial, fun cursor => choice ?_ ?_⟩
  · refine ⟨specifiedDecl _, ?_⟩
    intro _
    refine ⟨trivial, ?_⟩
    intro _
    exact choice trivial ⟨trivial, fun _ => trivial⟩
  · refine ⟨decl, ?_⟩
    intro _
    refine ⟨trivial, ?_⟩
    intro _
    exact choice trivial ⟨trivial, fun _ => trivial⟩

end LoopsAdvance
end Production
end GoFront
