import GoFront.Proofs.Copies.Types
import GoFront.Proofs.Reading.ParsedTypes
import GoFront.Proofs.Reading.Terminators

/-!
# Expressions in copies

The productions that read expressions repeat on a copy what they do on the text. In the parentheses behind
a point the copy can have the keyword `type` where the text has a name: then the copy asks for the type
that the text asserts.
-/

namespace GoFront

namespace Production

variable {P : Type} {limit : Nat}

/-- What is read behind the point of a selector or of an assertion. -/
def pointTail (base : Expr P) (dot : Mark P) : Production P (Expr P) := do
  let cursor ← .look
  match cursor.token with
  | .ident =>
      let name ← ident
      pure (.selector base dot name)
  | .lParen =>
      .inHeader false do
        let lParen ← mark .lParen
        let keyword ← mark? .kwType
        match keyword with
        | some keyword =>
            let rParen ← mark .rParen
            pure (.typeQuery base dot lParen keyword rParen)
        | none =>
            let type ← type
            let rParen ← mark .rParen
            pure (.typeAssertion base dot lParen type rParen)
  | token => .refuse (.selectorExpected token)

/-- A name between parentheses behind a point is asserted. -/
theorem eq_of_asserted
    {base expr : Expr P}
    {state : ReadState P}
    {dot lParen name rParen : Lexeme P}
    {rest : List (Lexeme P)}
    {final : Cursor P}
    (aheadEq : state.cursor.ahead = dot :: lParen :: name :: rParen :: rest)
    (areTokens : [dot, lParen, name, rParen].map Lexeme.token = [.dot, .lParen, .ident, .rParen])
    (parses : Parses limit (selectorOrAssertion base) state expr final) :
    expr = .typeAssertion base ⟨.dot, dot.pos⟩ ⟨.lParen, lParen.pos⟩
        (.namedType (.typeName none (identOf name) .absent)) ⟨.rParen, rParen.pos⟩
      ∧ final = ⟨state.cursor.consumed + 4, rest, state.cursor.stop⟩ := by
  obtain ⟨⟨consumed, ahead, stop⟩, depth, inHeader, errors⟩ := state
  obtain ⟨dotToken, dotPos, _⟩ := dot
  obtain ⟨lParenToken, lParenPos, _⟩ := lParen
  obtain ⟨nameToken, namePos, nameLit⟩ := name
  obtain ⟨rParenToken, rParenPos, _⟩ := rParen
  obtain rfl : ahead = _ := aheadEq
  simp only [List.map_cons, List.map_nil, List.cons.injEq, and_true] at areTokens
  obtain ⟨rfl, rfl, rfl, rfl⟩ := areTokens
  simp only [selectorOrAssertion, Cursor.token, Cursor.peek, List.headD_eq_head?_getD, bind_eq,
    parses_bind, parses_mark, List.head?_cons, Option.getD_some, Cursor.pos, Cursor.advance, true_and,
    parses_look, ReadState.cursor_moveTo, ReadState.moveTo_moveTo, ↓existsAndEq, and_true, exists_eq_left,
    parses_inHeader, ReadState.cursor_place, ReadState.moveTo_place, parses_mark?, reduceCtorEq,
    ↓reduceIte, parses_pure, exists_eq_right_right'] at parses
  obtain ⟨type, middle, typeParses, ⟨-, rfl⟩, rfl⟩ := parses
  have isPlain : Token.rParen ≠ .dot ∧ Token.rParen ≠ .lBrack := by decide
  obtain ⟨rfl, rfl⟩ := eq_of_plainName typeParses rfl isPlain
  exact ⟨rfl, rfl⟩

/-- The keyword between parentheses behind a point asks for a type. -/
theorem run_typeQuery
    {machine : Machine P}
    {state : ReadState P}
    {base : Expr P}
    {dot lParen keyword rParen : Lexeme P}
    {rest : List (Lexeme P)}
    (aheadEq : state.cursor.ahead = dot :: lParen :: keyword :: rParen :: rest)
    (areTokens : [dot, lParen, keyword, rParen].map Lexeme.token = [.dot, .lParen, .kwType, .rParen]) :
    machine.run (selectorOrAssertion base) state
      = .done (.typeQuery base ⟨.dot, dot.pos⟩ ⟨.lParen, lParen.pos⟩ ⟨.kwType, keyword.pos⟩
          ⟨.rParen, rParen.pos⟩) (state.moved 4 rest) := by
  obtain ⟨⟨consumed, ahead, stop⟩, depth, inHeader, errors⟩ := state
  obtain ⟨dotToken, dotPos, _⟩ := dot
  obtain ⟨lParenToken, lParenPos, _⟩ := lParen
  obtain ⟨keywordToken, keywordPos, _⟩ := keyword
  obtain ⟨rParenToken, rParenPos, _⟩ := rParen
  obtain rfl : ahead = _ := aheadEq
  simp only [List.map_cons, List.map_nil, List.cons.injEq, and_true] at areTokens
  obtain ⟨rfl, rfl, rfl, rfl⟩ := areTokens
  rfl

/-- A type that is asked for is a lone name. -/
theorem exists_of_askedAt?
    {asks : P -> Bool}
    {state : ReadState P}
    {type : TypeExpr P}
    {final : Cursor P}
    {pos : P}
    (parses : Parses limit Production.type state type final)
    (asked : type.askedAt? asks = some pos) :
    ∃ name, state.cursor.ahead = name :: final.ahead ∧ asks name.pos = true := by
  unfold Tree.askedAt? at asked
  split at asked
  · next name =>
      obtain ⟨-, _, _, _, names, ⟨same, rfl⟩ | ⟨_, -, same⟩⟩ := exists_of_namedType (parses_type.1 parses)
      · obtain ⟨rfl, rfl, -⟩ := Tree.typeName.inj same
        cases names with
        | plain atName =>
            obtain ⟨⟨consumed, ahead, stop⟩, depth, inHeader, errors⟩ := state
            cases ahead with
            | nil => cases atName
            | cons first rest =>
                split at asked
                · next asks => exact ⟨first, rfl, asks⟩
                · cases asked
      · cases same
  · cases asked

/-- A text does not begin with a type that is asked for. -/
theorem askedAt?_of_parses
    {asks : P -> Bool}
    {state : ReadState P}
    {type : TypeExpr P}
    {final : Cursor P}
    (only : OnlyAsserted asks state.cursor.ahead)
    (parses : Parses limit Production.type state type final) :
    type.askedAt? asks = none := by
  rw [Option.eq_none_iff_forall_ne_some]
  intro pos asked
  obtain ⟨name, aheadEq, asksName⟩ := exists_of_askedAt? parses asked
  have notAsked := OnlyAsserted.head (aheadEq ▸ only)
  rw [asksName] at notAsked
  cases notAsked

end Production

namespace Copies

variable {P Q : Type} {copier : Copier P Q} {head : Token}

theorem exprList :
    Copies copier head copier.tree Production.exprList Production.exprList := by
  refine (commaSeparated expr).bind fun exprs => pure ?_
  rw [← Tree.copy_ofList]
  rfl

theorem block :
    Copies copier head copier.tree Production.block Production.block :=
  call .block

/-! ## Operands -/

theorem funcOperand :
    Copies copier head copier.tree Production.funcOperand Production.funcOperand := by
  refine funcType.bind fun type => lookToken fun cursor cursor' here there => ?_
  rw [here, there]
  split
  · exact (inHeader block).bind fun body => pure rfl
  · exact pure rfl

theorem groupExpr :
    Copies copier head copier.tree Production.groupExpr Production.groupExpr := by
  refine inHeader ((mark (by decide)).bind fun lParen => expr.bind fun inner => ?_)
  exact (mark (by decide)).bind fun rParen => pure rfl

theorem typeOperand :
    Copies copier head copier.tree Production.typeOperand Production.typeOperand := by
  refine lookToken fun cursor cursor' here there => ?_
  rw [here, there]
  refine type?.bind ?_
  intro type _
  cases type with
  | some type => exact pure rfl
  | none => exact refuse _

theorem operand :
    Copies copier head copier.tree Production.operand Production.operand := by
  refine lookToken fun cursor cursor' here there => ?_
  rw [here, there]
  cases literal : Production.litKind? head with
  | some kind =>
      have notPoint : head ≠ .dot := by
        rintro rfl
        cases literal
      exact (advance notPoint).bind fun lexeme => pure rfl
  | none =>
      cases head
      case ident => exact ident.bind fun name => pure rfl
      case lParen => exact groupExpr
      case kwFunc => exact funcOperand
      all_goals exact typeOperand

/-! ## Suffixes -/

theorem sliceEnd
    (base : Expr P)
    (lBrack colon : Mark P)
    (low : Tree P (.maybe .expr))
    (high : Option (Expr P)) :
    Copies copier head copier.tree (Production.sliceEnd base lBrack colon low high)
      (Production.sliceEnd (copier.tree base) (lBrack.map copier.place)
        (colon.map copier.place) (copier.tree low) (high.map copier.tree)) := by
  refine (mark? (by decide)).bind fun second => ?_
  cases second with
  | none =>
      refine (mark (by decide)).bind fun rBrack => pure ?_
      rw [← Tree.copy_ofOption]
      rfl
  | some secondColon =>
      cases high with
      | none => exact refuse _
      | some high =>
          refine lookToken fun cursor cursor' here there => ?_
          rw [here, there]
          split
          · exact refuse _
          · exact expr.bind fun max => (mark (by decide)).bind fun rBrack => pure rfl

theorem sliceTail
    (base : Expr P)
    (lBrack : Mark P)
    (low : Tree P (.maybe .expr)) :
    Copies copier head copier.tree (Production.sliceTail base lBrack low)
      (Production.sliceTail (copier.tree base) (lBrack.map copier.place)
        (copier.tree low)) := by
  refine (mark (by decide)).bind fun colon => look fun cursor here only => ?_
  rw [Copying.atAny_cursor only]
  refine choice .rfl (pure_bind ?_) (expr.bind fun high => pure_bind ?_)
  · exact sliceEnd base lBrack colon low none
  · exact sliceEnd base lBrack colon low (some high)

theorem copy_instantiate
    (copying : Copying P Q)
    (base : Expr P)
    (lBrack rBrack : Mark P)
    (types : List (TypeExpr P)) :
    copying.tree (Production.instantiate base lBrack types rBrack)
      = Production.instantiate (copying.tree base) (lBrack.map copying.place) (types.map copying.tree)
        (rBrack.map copying.place) := by
  rw [Production.instantiate, Production.instantiate, ← Tree.copy_ofList]
  rfl

/-- The end of brackets with a single part. -/
theorem indexEnd
    (base first : Expr P)
    (lBrack : Mark P) :
    Copies copier head copier.tree
      ((Production.mark .rBrack).bind fun rBrack =>
        match first with
        | .typeOperand type => .pure (Production.instantiate base lBrack [type] rBrack)
        | subscript => .pure (.index base lBrack subscript rBrack))
      ((Production.mark .rBrack).bind fun rBrack =>
        match copier.tree first with
        | .typeOperand type => .pure (Production.instantiate (copier.tree base)
            (lBrack.map copier.place) [type] rBrack)
        | subscript => .pure (.index (copier.tree base) (lBrack.map copier.place) subscript rBrack)) := by
  refine (mark (by decide)).bind ?_
  intro rBrack _
  cases first
  case typeAssertion base dot lParen type rParen =>
    cases keyword : type.askedAt? copier.asks with
    | none =>
        have same := copier.tree_of_not_asked base dot lParen rParen keyword
        rw [same]
        exact pure (by rw [← same]; rfl)
    | some pos =>
        have same := copier.tree_of_asked base dot lParen rParen keyword
        rw [same]
        exact pure (by rw [← same]; rfl)
  all_goals exact pure rfl

theorem indexOrSlice (base : Expr P) :
    Copies copier head copier.tree (Production.indexOrSlice base)
      (Production.indexOrSlice (copier.tree base)) := by
  refine inHeader ((mark (by decide)).bind ?_)
  intro lBrack _
  refine lookToken fun cursor cursor' here there => ?_
  rw [here, there]
  refine choice .rfl (sliceTail base lBrack .absent) ?_
  refine expr.bind ?_
  intro first behind
  refine lookToken fun cursor cursor' here there => ?_
  rw [here, there]
  cases behind
  case colon => exact sliceTail base lBrack (.present first)
  case comma =>
    refine (commaTail expr).bind ?_
    intro rest _
    refine (mark (by decide)).bind ?_
    intro rBrack _
    rw [← List.map_cons, Tree.readTypes_copy]
    cases (first :: rest).mapM Tree.readType? with
    | some types => exact pure (copy_instantiate _ _ _ _ _).symm
    | none => exact refuse _
  all_goals exact indexEnd base first lBrack

theorem takesType_copy (func : Expr P) :
    Production.takesType (copier.tree func) = Production.takesType func := by
  cases func with
  | typeAssertion => exact Tree.assertion_eq Production.takesType (fun _ => rfl) rfl
  | _ => rfl

theorem argument (isType : Bool) :
    Copies copier head
      (Prod.map (Prod.map copier.tree (Option.map (Mark.map copier.place))) id)
      (Production.argument isType) (Production.argument isType) := by
  have behind (arg : Expr P) {next : Token} : Copies copier next
      (Prod.map (Prod.map copier.tree (Option.map (Mark.map copier.place))) id)
      ((Production.mark? .ellipsis).bind fun ellipsis =>
        (Production.eat? .comma).bind fun comma => Production.look.bind fun cursor =>
          if ellipsis.isSome then .pure ((arg, ellipsis), false)
          else if comma.isSome then .pure ((arg, none), true)
          else if cursor.token = .rParen then .pure ((arg, none), false)
          else .refuse .argumentCommaExpected)
      ((Production.mark? .ellipsis).bind fun ellipsis =>
        (Production.eat? .comma).bind fun comma => Production.look.bind fun cursor =>
          if ellipsis.isSome then .pure ((copier.tree arg, ellipsis), false)
          else if comma.isSome then .pure ((copier.tree arg, none), true)
          else if cursor.token = .rParen then .pure ((copier.tree arg, none), false)
          else .refuse .argumentCommaExpected) := by
    refine (mark? (by decide)).bind fun ellipsis => (eat? (by decide)).bind fun comma => ?_
    refine lookToken fun cursor cursor' here there => ?_
    rw [here, there, Option.isSome_map, Option.isSome_map]
    refine choice .rfl (pure rfl) (choice .rfl (pure rfl) (choice .rfl (pure rfl) (refuse _)))
  cases isType with
  | true => exact type.bind fun type => pure_bind (behind (.typeOperand type))
  | false => exact expr.bind fun arg => behind arg

theorem callTail (func : Expr P) :
    Copies copier head copier.tree (Production.callTail func)
      (Production.callTail (copier.tree func)) := by
  refine inHeader ((mark (by decide)).bind fun lParen => ?_)
  rw [takesType_copy]
  refine (itemsUntil _ fun first => argument _).bind ?_
  intro args
  refine (mark (by decide)).bind ?_
  intro rParen
  refine pure ?_
  have exprs : (args.map (Prod.map copier.tree
      (Option.map (Mark.map copier.place)))).map Prod.fst
        = (args.map Prod.fst).map copier.tree := by
    rw [List.map_map, List.map_map]
    rfl
  have last : ((args.map (Prod.map copier.tree
      (Option.map (Mark.map copier.place)))).getLast?.bind Prod.snd)
        = (args.getLast?.bind Prod.snd).map (Mark.map copier.place) := by
    rw [List.getLast?_map]
    cases args.getLast? <;> rfl
  rw [exprs, last, ← Tree.copy_ofList]
  rfl

/-- What follows the point of a selector, or of an assertion whose type is not asked for. -/
theorem pointTail
    (base : Expr P)
    (dot : Mark P) :
    Copies copier head copier.tree (Production.pointTail base dot)
      (Production.pointTail (copier.tree base) (dot.map copier.place)) := by
  refine lookToken fun cursor cursor' here there => ?_
  rw [here, there]
  cases head
  case ident => exact ident.bind fun name => pure rfl
  case lParen =>
    refine inHeader ((mark (by decide)).bind fun lParen => (mark? (by decide)).bind fun keyword => ?_)
    cases keyword with
    | some keyword => exact (mark (by decide)).bind fun rParen => pure rfl
    | none =>
        refine type.bind_known (fun type => type.askedAt? copier.asks = none) ?_ ?_
        · intro state type final only isRead
          exact isRead.elim (Tree.askedAt?_eq_none _ · type) (Production.askedAt?_of_parses only)
        · intro type _ notAsked
          refine (mark (by decide)).bind fun rParen => pure ?_
          exact (copier.tree_of_not_asked base dot lParen rParen notAsked).symm
  all_goals exact refuse _

/-- An assertion whose type is asked for becomes a query. -/
theorem copied_of_asked
    (base : Expr P)
    (state : ReadState P)
    (only : OnlyAsserted copier.asks state.cursor.ahead)
    (inside : ¬OnlyAsserted copier.asks state.cursor.advance.ahead) :
    Outcome.Copied copier.toCopying copier.tree state
      (copier.first.run (Production.selectorOrAssertion base) state)
      (copier.second.run (Production.selectorOrAssertion (copier.tree base)) (copier.state state)) := by
  have unfaithful : ¬copier.Faithful := fun faithful => inside (faithful.onlyAsserted _)
  obtain ⟨⟨consumed, ahead, stop⟩, depth, inHeader, errors⟩ := state
  cases ahead with
  | nil => exact absurd only inside
  | cons point rest =>
      obtain ⟨paren, name, close, behind, rfl, atPoint, atParen, atName, closes, asked, -⟩ :=
        only.exists_of_not_tail inside
      cases run : copier.first.run (Production.selectorOrAssertion base) _ with
      | exhausted => trivial
      | gaveUp final => exact fun faithful => absurd faithful unfaithful
      | done value final =>
          intro clean
          replace clean := clean.resolve_left unfaithful
          obtain ⟨_, reaches⟩ := Machine.reaches_of_done run
          obtain ⟨rfl, finalEq⟩ := Production.eq_of_asserted rfl
            (by simp [atPoint, atParen, atName, closes]) (.of_run run clean)
          rw [reaches.eq_moveTo clean, finalEq]
          have behindOnly : OnlyAsserted copier.asks behind := by
            change OnlyAsserted copier.asks ([point, paren, name] ++ close :: behind) at only
            exact only.behind (closes ▸ by decide) (closes ▸ by decide)
          refine ⟨behindOnly, ?_⟩
          have notClose : copier.asks close.pos = false := by
            rw [← Bool.not_eq_true]
            intro asked
            have isName := only.isName (by simp) asked
            rw [closes] at isName
            cases isName
          have aheadEq : (point :: paren :: name :: close :: behind).map copier.lexeme
              = point.map copier.place :: paren.map copier.place :: ⟨.kwType, copier.place name.pos, none⟩
                :: close.map copier.place :: behind.map copier.lexeme := by
            simp only [List.map_cons, Copying.lexeme_of_not_asked only.head,
              Copying.lexeme_of_not_asked only.second, Copying.lexeme_of_asked asked,
              Copying.lexeme_of_not_asked notClose]
          refine (Production.run_typeQuery aheadEq ?_).trans ?_
          · simp [Lexeme.map, atPoint, atParen, closes]
          · have askedAt : (Tree.namedType (.typeName none (Production.identOf name) .absent)).askedAt?
                copier.asks = some name.pos := if_pos asked
            rw [copier.tree_of_asked _ _ _ _ askedAt]
            refine congrArg (Outcome.done _) ?_
            change (⟨⟨consumed + copier.passed + 4, _, _⟩, _, _, _⟩ : ReadState Q)
              = ⟨⟨consumed + 4 + copier.passed, _, _⟩, _, _, _⟩
            rw [Nat.add_right_comm]
            rfl

theorem selectorOrAssertion (base : Expr P) :
    Copies copier .dot copier.tree (Production.selectorOrAssertion base)
      (Production.selectorOrAssertion (copier.tree base)) := by
  intro state here only
  by_cases goesOn : OnlyAsserted copier.asks state.cursor.advance.ahead
  · have there : (copier.state state).cursor.token = .dot := (Copying.token_cursor only).trans here
    have samePos : (copier.state state).cursor.pos = copier.place state.cursor.pos :=
      Copying.pos_cursor only
    have sameAdvance : (copier.state state).cursor.advance = copier.cursor state.cursor.advance :=
      Copying.advance_cursor state.cursor
    have copied := pointTail base ⟨.dot, state.cursor.pos⟩ { state with cursor := state.cursor.advance }
      rfl goesOn
    change Outcome.Copied _ _ _
      ((copier.first.run (Production.mark .dot) state).bind fun dot =>
        copier.first.run (Production.pointTail base dot))
      ((copier.second.run (Production.mark .dot) (copier.state state)).bind fun dot =>
        copier.second.run (Production.pointTail (copier.tree base) dot))
    rw [Machine.run_mark, Machine.run_mark, if_pos here, if_pos there, samePos, sameAdvance]
    exact copied
  · exact copied_of_asked base state only goesOn

theorem opensLiteral_copy
    (inHeader : Bool)
    (base : Expr P) :
    Production.opensLiteral inHeader (copier.tree base)
      = Production.opensLiteral inHeader base := by
  cases base with
  | typeAssertion => exact Tree.assertion_eq (Production.opensLiteral inHeader) (fun _ => rfl) rfl
  | _ => rfl

theorem literalTail (type : Expr P) :
    Copies copier head copier.tree (Production.literalTail type)
      (Production.literalTail (copier.tree type)) := by
  rw [Production.literalTail, Production.literalTail, Tree.readType?_copy]
  cases type.readType? with
  | none => exact refuse _
  | some type => exact (call .literalBody).bind fun body => pure rfl

theorem suffix? (base : Expr P) :
    Copies copier head (Option.map copier.tree) (Production.suffix? base)
      (Production.suffix? (copier.tree base)) := by
  refine lookToken fun cursor cursor' here there => header fun inside => ?_
  rw [here, there, opensLiteral_copy]
  cases head
  case lBrack => exact (indexOrSlice base).bind fun value => pure rfl
  case lParen => exact (callTail base).bind fun call => pure rfl
  case lBrace => exact choice .rfl ((literalTail base).bind fun value => pure rfl) (pure rfl)
  case dot => exact (selectorOrAssertion base).bind fun value => pure rfl
  all_goals exact pure rfl

theorem primaryExpr :
    Copies copier head copier.tree Production.primaryExpr Production.primaryExpr :=
  operand.bind fun _ => iterate _ rfl fun base => suffix? base

/-! ## Literal values -/

theorem elementExpr :
    Copies copier head copier.tree Production.elementExpr Production.elementExpr := by
  refine lookToken fun cursor cursor' here there => ?_
  rw [here, there]
  split
  · exact (call .literalBody).bind fun body => pure rfl
  · exact expr

theorem element :
    Copies copier head (Prod.map copier.tree id) Production.element
      Production.element := by
  have behind (element : Tree P (.one .element)) {next : Token} : Copies copier next
      (Prod.map copier.tree id)
      ((Production.eat? .comma).bind fun comma => Production.look.bind fun cursor =>
        if comma.isSome then .pure (element, true)
        else if cursor.token = .rBrace then .pure (element, false)
        else .refuse .elementCommaExpected)
      ((Production.eat? .comma).bind fun comma => Production.look.bind fun cursor =>
        if comma.isSome then .pure (copier.tree element, true)
        else if cursor.token = .rBrace then .pure (copier.tree element, false)
        else .refuse .elementCommaExpected) := by
    refine (eat? (by decide)).bind fun comma => lookToken fun cursor cursor' here there => ?_
    rw [here, there, Option.isSome_map]
    exact choice .rfl (pure rfl) (choice .rfl (pure rfl) (refuse _))
  refine elementExpr.bind fun first => (mark? (by decide)).bind fun colon => ?_
  cases colon with
  | some colon =>
      refine elementExpr.bind fun value => bind (build ?_) behind
      exact Tree.element?_copy copier.asks copier.place (some first) (some colon) value
  | none => exact bind (build (Tree.element?_copy copier.asks copier.place none none first)) behind

theorem literalBodyRule :
    Copies copier head (LiteralBody.copy copier.asks copier.place) Production.literalBodyRule
      Production.literalBodyRule := by
  refine nested (inHeader ((mark (by decide)).bind fun lBrace => ?_))
  refine (itemsUntil _ fun _ => element).bind ?_
  intro elements
  refine (mark (by decide)).bind ?_
  intro rBrace
  refine pure ?_
  rw [← Tree.copy_ofList]
  rfl

/-! ## Operators -/

theorem unaryRule :
    Copies copier head copier.tree Production.unaryRule Production.unaryRule := by
  refine nested (lookToken fun cursor cursor' here there => ?_)
  rw [here, there]
  split
  · next isOp =>
      have notPoint : head ≠ .dot := by
        rintro rfl
        cases isOp
      exact (anyMark notPoint).bind fun op => (call .unary).bind fun operand => pure rfl
  · exact primaryExpr

theorem binaryTail?
    (least : Precedence)
    (left : Expr P) :
    Copies copier head (Option.map copier.tree) (Production.binaryTail? least left)
      (Production.binaryTail? least (copier.tree left)) := by
  refine lookToken fun cursor cursor' here there => ?_
  rw [here, there]
  dsimp only
  split
  · exact pure rfl
  · next isOp =>
      have notPoint : head ≠ .dot := by
        rintro rfl
        exact isOp rfl
      exact (anyMark notPoint).bind fun op => (call (.expr _)).bind fun right => pure rfl

theorem exprRule (least : Precedence) :
    Copies copier head copier.tree (Production.exprRule least)
      (Production.exprRule least) :=
  (call .unary).bind fun _ => iterate _ rfl fun left => binaryTail? least left

end Copies
end GoFront
