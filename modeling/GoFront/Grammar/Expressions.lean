import GoFront.Grammar.Types
import GoFront.Tree.TypeReading

/-!
# Expressions

How expressions are read. Binary operators are read by precedence climbing: an operator that binds at
least as tightly as required continues the expression to its left, and its right operand is read one
level tighter. A brace behind an expression opens a composite literal only if the expression can be a
type; a named type is not taken for one in the header of a control statement.
-/

namespace GoFront
namespace Production

variable {P : Type}

/-- Reads one or more expressions. -/
def exprList : Production P (ExprList P) := do
  let exprs ← commaSeparated expr
  pure (.exprList (.ofList exprs))

/-- Reads statements between braces. -/
def block : Production P (Block P) :=
  .call .block

/-! ## Operands -/

/-- The kind of literal that a token stands for. -/
def litKind? : Token -> Option LitKind
  | .intLit => some .int
  | .floatLit => some .float
  | .imagLit => some .imag
  | .runeLit => some .rune
  | .stringLit => some .string
  | .rawStringLit => some .rawString
  | _ => none

/-- Reads a function literal or a function type. -/
def funcOperand : Production P (Expr P) := do
  let type ← funcType
  let cursor ← .look
  if cursor.token = .lBrace then
    let body ← .inHeader false block
    pure (.funcLit type body)
  else pure (.typeOperand (.functionType type))

/-- Reads an expression in parentheses. -/
def groupExpr : Production P (Expr P) :=
  .inHeader false do
    let lParen ← mark .lParen
    let inner ← expr
    let rParen ← mark .rParen
    pure (.group lParen inner rParen)

/-- Reads a type that stands as an operand. -/
def typeOperand : Production P (Expr P) := do
  let cursor ← .look
  let type ← type?
  match type with
  | some type => pure (.typeOperand type)
  | none => .refuse (.operandExpected cursor.token)

/-- Reads an operand. -/
def operand : Production P (Expr P) := do
  let cursor ← .look
  match litKind? cursor.token with
  | some kind =>
      let lexeme ← .advance
      pure (.basicLit ⟨kind, lexeme.literal.getD "", lexeme.pos⟩)
  | none =>
      match cursor.token with
      | .ident =>
          let name ← ident
          pure (.ident name)
      | .lParen => groupExpr
      | .kwFunc => funcOperand
      | _ => typeOperand

/-! ## Suffixes -/

/-- Reads the rest of a slice expression, from its first colon. -/
def sliceTail
    (base : Expr P)
    (lBrack : Mark P)
    (low : Tree P (.maybe .expr)) : Production P (Expr P) := do
  let colon ← mark .colon
  let cursor ← .look
  let high ←
    if cursor.atAny [.colon, .rBrack] then pure none
    else do
      let high ← expr
      pure (some high)
  let second ← mark? .colon
  match second with
  | none =>
      let rBrack ← mark .rBrack
      pure (.simpleSlice base lBrack low colon (.ofOption high) rBrack)
  | some secondColon =>
      match high with
      | none => .refuse .middleIndexMissing
      | some high =>
          let cursor ← .look
          if cursor.token = .rBrack then .refuse .finalIndexMissing
          else
            let max ← expr
            let rBrack ← mark .rBrack
            pure (.fullSlice base lBrack low colon high secondColon max rBrack)

/-- An expression with type arguments. -/
def instantiate
    (base : Expr P)
    (lBrack : Mark P)
    (types : List (TypeExpr P))
    (rBrack : Mark P) : Expr P :=
  .instantiation base (.typeArgs lBrack (.typeList (.ofList types)) rBrack)

/-- Reads an index, a slice or type arguments behind an expression. -/
def indexOrSlice (base : Expr P) : Production P (Expr P) :=
  .inHeader false do
    let lBrack ← mark .lBrack
    let cursor ← .look
    if cursor.token = .colon then sliceTail base lBrack .absent
    else
      let first ← expr
      let cursor ← .look
      match cursor.token with
      | .colon => sliceTail base lBrack (.present first)
      | .comma =>
          let rest ← commaTail .rBrack expr
          let rBrack ← mark .rBrack
          match (first :: rest).mapM Tree.readType? with
          | some types => pure (instantiate base lBrack types rBrack)
          | none => .refuse .typeArgumentExpected
      | _ =>
          let rBrack ← mark .rBrack
          match first with
          | .typeOperand type => pure (instantiate base lBrack [type] rBrack)
          | subscript => pure (.index base lBrack subscript rBrack)

/-- Whether the first argument of a call is a type. -/
def takesType : Expr P -> Bool
  | .ident name => name.name = "make" || name.name = "new"
  | _ => false

/-- Reads an argument with the ellipsis behind it, and whether another argument may follow. -/
def argument (isType : Bool) : Production P ((Expr P × Option (Mark P)) × Bool) := do
  let arg ←
    if isType then do
      let type ← type
      pure (Tree.typeOperand type)
    else expr
  let ellipsis ← mark? .ellipsis
  let comma ← eat? .comma
  let cursor ← .look
  if ellipsis.isSome then pure ((arg, ellipsis), false)
  else if comma.isSome then pure ((arg, none), true)
  else if cursor.token = .rParen then pure ((arg, none), false)
  else .refuse .argumentCommaExpected

/-- Reads the arguments of a call. -/
def callTail (func : Expr P) : Production P (Tree P (.one .call)) :=
  .inHeader false do
    let lParen ← mark .lParen
    let args ← itemsUntil .rParen fun first => argument (takesType func && first)
    let rParen ← mark .rParen
    let ellipsis := args.getLast?.bind Prod.snd
    pure (.call func lParen (.exprList (.ofList (args.map Prod.fst))) ellipsis rParen)

/-- Reads a selector or a type assertion behind an expression. -/
def selectorOrAssertion (base : Expr P) : Production P (Expr P) := do
  let dot ← mark .dot
  let cursor ← .look
  match cursor.token with
  | .ident =>
      let name ← ident
      pure (.selector base dot name)
  | .lParen =>
      .inHeader false do
        let lParen ← mark .lParen
        let keyword ← mark? .kwType
        match keyword with
        | some keyword =>
            let rParen ← mark .rParen
            pure (.typeQuery base dot lParen keyword rParen)
        | none =>
            let type ← type
            let rParen ← mark .rParen
            pure (.typeAssertion base dot lParen type rParen)
  | token => .refuse (.selectorExpected token)

/-- Whether a brace behind an expression opens a composite literal. -/
def opensLiteral (inHeader : Bool) : Expr P -> Bool
  | .typeOperand _ => true
  | .ident _ | .selector .. | .instantiation .. | .index .. => !inHeader
  | _ => false

/-- Reads the braces of a composite literal behind its type. -/
def literalTail (type : Expr P) : Production P (Expr P) :=
  match type.readType? with
  | none => .refuse .literalTypeExpected
  | some type => do
      let (body : LiteralBody P) ← .call .literalBody
      pure (.compositeLit (.present type) body.lBrace body.elements body.rBrace)

/-- Reads one suffix of an expression if there is one. -/
def suffix? (base : Expr P) : Production P (Option (Expr P)) := do
  let cursor ← .look
  let inHeader ← .header
  match cursor.token with
  | .lBrack => some <$> indexOrSlice base
  | .lParen => do
      let call ← callTail base
      pure (some (.callExpr call))
  | .lBrace => if opensLiteral inHeader base then some <$> literalTail base else pure none
  | .dot => some <$> selectorOrAssertion base
  | _ => pure none

/-- Reads an operand and its suffixes. -/
def primaryExpr : Production P (Expr P) := do
  let base ← operand
  .iterate suffix? base

/-! ## Literal values -/

/-- Reads a key or an element of a composite literal, which may be a literal without a type. -/
def elementExpr : Production P (Expr P) := do
  let cursor ← .look
  if cursor.token = .lBrace then
    let (body : LiteralBody P) ← .call .literalBody
    pure (.compositeLit .absent body.lBrace body.elements body.rBrace)
  else expr

/-- Reads an element of a composite literal with its key, and whether another may follow. -/
def element : Production P (Tree P (.one .element) × Bool) := do
  let first ← elementExpr
  let colon ← mark? .colon
  let element ←
    match colon with
    | some colon => do
        let value ← elementExpr
        build (Tree.element? (some first) (some colon) value)
    | none => build (Tree.element? none none first)
  let comma ← eat? .comma
  let cursor ← .look
  if comma.isSome then pure (element, true)
  else if cursor.token = .rBrace then pure (element, false)
  else .refuse .elementCommaExpected

/-- The rule for the braces of a composite literal. -/
def literalBodyRule : Production P (LiteralBody P) :=
  .nested <| .inHeader false do
    let lBrace ← mark .lBrace
    let elements ← itemsUntil .rBrace fun _ => element
    let rBrace ← mark .rBrace
    pure ⟨lBrace, .elementList (.ofList elements), rBrace⟩

/-! ## Operators -/

/-- The rule for an operand with the unary operators before it. -/
def unaryRule : Production P (Expr P) :=
  .nested do
    let cursor ← .look
    if cursor.token.isUnaryOp then
      let op ← anyMark
      let (operand : Expr P) ← .call .unary
      pure (.unary op operand)
    else primaryExpr

/-- Reads a binary operator that binds at least as tightly as required, with its right operand. -/
def binaryTail?
    (least : Precedence)
    (left : Expr P) : Production P (Option (Expr P)) := do
  let cursor ← .look
  let precedence := cursor.token.precedence
  if precedence = .none || precedence.rank < least.rank then pure none
  else
    let op ← anyMark
    let (right : Expr P) ← .call (.expr precedence.next)
    pure (some (.binary left op right))

/-- The rule for expressions whose operators bind at least as tightly as required. -/
def exprRule (least : Precedence) : Production P (Expr P) := do
  let (left : Expr P) ← .call .unary
  .iterate (binaryTail? least) left

end Production
end GoFront
