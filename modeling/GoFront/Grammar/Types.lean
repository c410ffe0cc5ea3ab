import GoFront.Grammar.Production

/-!
# Types and signatures

How types, field lists, parameter lists and type parameters are read. Where a name can begin two kinds
of entry, the lexemes ahead decide: a field is embedded if its name ends it, and a parameter list is
named if one of its entries is a name followed by a type.
-/

namespace GoFront
namespace Production

variable {P : Type}

/-- Reads a type if one comes next. -/
def type? : Production P (Option (TypeExpr P)) :=
  .call .type

/-- Reads a type. -/
def type : Production P (TypeExpr P) := do
  let type ← type?
  match type with
  | some type => pure type
  | none =>
      let cursor ← .look
      .refuse (.typeExpected cursor.token)

/-- Reads an expression. -/
def expr : Production P (Expr P) :=
  .call (.expr .or)

/-- Reads one or more names. -/
def identList : Production P (List (Ident P)) :=
  commaSeparated ident

/-- Reads one or more types. -/
def typeList : Production P (Tree P (.one .typeList)) := do
  let types ← commaSeparated type
  pure (.typeList (.ofList types))

/-- Reads a string literal. -/
def stringLit : Production P (BasicLit P) := do
  let cursor ← .look
  match cursor.token with
  | .stringLit =>
      let lexeme ← .advance
      pure ⟨.string, lexeme.literal.getD "", lexeme.pos⟩
  | .rawStringLit =>
      let lexeme ← .advance
      pure ⟨.rawString, lexeme.literal.getD "", lexeme.pos⟩
  | token => .refuse (.stringExpected token)

/-! ## Named types -/

/-- Reads type arguments in brackets. -/
def typeArgs : Production P (Tree P (.one .typeArgs)) :=
  .inHeader false do
    let lBrack ← mark .lBrack
    let cursor ← .look
    if cursor.token = .rBrack then .refuse .emptyTypeArgs
    else
      let first ← type
      let rest ← commaTail .rBrack type
      let rBrack ← mark .rBrack
      pure (.typeArgs lBrack (.typeList (.ofList (first :: rest))) rBrack)

/-- Reads a name, possibly qualified by a package and possibly with type arguments. -/
def typeName : Production P (Tree P (.one .typeName)) := do
  let first ← ident
  let dot ← eat? .dot
  let (package, name) ←
    if dot.isSome then do
      let name ← ident
      pure (some first, name)
    else pure (none, first)
  let cursor ← .look
  if cursor.token = .lBrack then
    let args ← typeArgs
    pure (.typeName package name (.present args))
  else pure (.typeName package name .absent)

/-! ## Arrays, maps and channels -/

/-- Reads an array or slice type. -/
def arrayOrSliceType : Production P (TypeExpr P) := do
  let lBrack ← mark .lBrack
  let rBrack ← mark? .rBrack
  match rBrack with
  | some rBrack =>
      let elem ← type
      pure (.sliceType lBrack rBrack elem)
  | none =>
      let ellipsis ← mark? .ellipsis
      match ellipsis with
      | some ellipsis =>
          let rBrack ← mark .rBrack
          let elem ← type
          pure (.countedArrayType lBrack ellipsis rBrack elem)
      | none =>
          let length ← .inHeader false expr
          let rBrack ← mark .rBrack
          let elem ← type
          pure (.arrayType lBrack length rBrack elem)

/-- Reads a map type. -/
def mapType : Production P (TypeExpr P) := do
  let keyword ← mark .kwMap
  let lBrack ← mark .lBrack
  let key ← type
  let rBrack ← mark .rBrack
  let value ← type
  pure (.mapType keyword lBrack key rBrack value)

/-- Reads a channel type. An arrow before the keyword makes it receive only, one behind it send
only. -/
def chanType : Production P (TypeExpr P) := do
  let arrow ← mark? .arrow
  match arrow with
  | some arrow =>
      let keyword ← mark .kwChan
      let elem ← type
      pure (.chanType .recv keyword (some arrow) elem)
  | none =>
      let keyword ← mark .kwChan
      let arrow ← mark? .arrow
      let elem ← type
      pure (.chanType (if arrow.isSome then .send else .both) keyword arrow elem)

/-! ## Signatures -/

/-- An entry of a parameter list before names and types are told apart. -/
inductive ParamEntry (P : Type)
  | bare (name : Ident P)
  | unnamed (ellipsis : Option (Mark P)) (type : TypeExpr P)
  | named (name : Ident P) (ellipsis : Option (Mark P)) (type : TypeExpr P)

namespace ParamEntry

/-- Whether an entry is variadic. -/
def hasEllipsis : ParamEntry P -> Bool
  | bare _ => false
  | unnamed ellipsis _ | named _ ellipsis _ => ellipsis.isSome

/-- Whether an entry is a name followed by a type. -/
def isNamed : ParamEntry P -> Bool
  | named .. => true
  | bare _ | unnamed .. => false

/-- The parameter of an entry in a list without names, where a lone name is a type. -/
def unnamedParam : ParamEntry P -> Tree P (.one .param)
  | bare name => .param none none (.namedType (.typeName none name .absent))
  | unnamed ellipsis type | named _ ellipsis type => .param none ellipsis type

/-- The parameters of a list with names, behind some pending names. Names without a type share the
type of the next entry that has one; there must be such an entry, and no type without a name. -/
def namedParams? : (pending : List (Ident P)) -> List (ParamEntry P) ->
    Option (List (Tree P (.one .param)))
  | [], [] => some []
  | _ :: _, [] => none
  | pending, bare name :: rest => namedParams? (pending ++ [name]) rest
  | pending, named name ellipsis type :: rest =>
      (namedParams? [] rest).map (.param (some (pending ++ [name])) ellipsis type :: ·)
  | _, unnamed .. :: _ => none

/-- The parameters that a list of entries declares. -/
def resolve
    (variadic : Bool)
    (entries : List (ParamEntry P)) : Except SyntaxCause (List (Tree P (.one .param))) :=
  let fixed := if variadic then entries.dropLast else entries
  if fixed.any hasEllipsis then .error .misplacedEllipsis
  else if entries.any isNamed then
    match namedParams? [] entries with
    | some params => .ok params
    | none => .error .mixedParams
  else .ok (entries.map unnamedParam)

end ParamEntry

/-- Reads an entry of a parameter list. -/
def paramEntry : Production P (ParamEntry P) := do
  let cursor ← .look
  let follower := cursor.tokenAfter 1
  let startsName := cursor.token = .ident
  if startsName && [Token.comma, .rParen].contains follower then
    let name ← ident
    pure (.bare name)
  else if startsName && follower ≠ .dot
      && !(follower = .lBrack && cursor.brackFollowedBy [.comma, .rParen]) then
    let name ← ident
    let ellipsis ← mark? .ellipsis
    let type ← type
    pure (.named name ellipsis type)
  else
    let ellipsis ← mark? .ellipsis
    let type ← type
    pure (.unnamed ellipsis type)

/-- Reads a parameter list. Only the last parameter can be variadic, and only where the list allows
it. -/
def params (variadic : Bool) : Production P (Tree P (.one .params)) :=
  .inHeader false do
    let lParen ← mark .lParen
    let entries ← itemsUntil .rParen fun _ => withComma paramEntry
    match ParamEntry.resolve variadic entries with
    | .error cause => .refuse cause
    | .ok params =>
        let rParen ← mark .rParen
        pure (.params lParen (.ofList params) rParen)

/-- Reads parameters and results. -/
def signature : Production P (Tree P (.one .signature)) := do
  let inputs ← params true
  let cursor ← .look
  if cursor.token = .lParen then
    let outputs ← params false
    pure (.signature inputs (.present (.resultParams outputs)))
  else
    let output ← type?
    pure (.signature inputs (.ofOption (output.map .resultType)))

/-- Reads a function type. -/
def funcType : Production P (Tree P (.one .funcType)) := do
  let keyword ← mark .kwFunc
  let shape ← signature
  pure (.funcType keyword shape)

/-! ## Type parameters -/

/-- Reads a term of a union of types. -/
def typeTerm : Production P (Tree P (.one .typeTerm)) := do
  let tilde ← mark? .tilde
  let type ← type
  match tilde with
  | some tilde => pure (.underlyingTerm tilde type)
  | none => pure (.exactTerm type)

/-- Reads a union of types. -/
def typeElem : Production P (Tree P (.one .typeElem)) := do
  let first ← typeTerm
  let rest ← many do
    let bar ← eat? .pipe
    if bar.isSome then
      let next ← typeTerm
      pure (some next)
    else pure none
  pure (.typeElem (.ofList (first :: rest)))

/-- Reads names and their constraint. -/
def typeParam : Production P (Tree P (.one .typeParam)) := do
  let names ← identList
  let bound ← typeElem
  pure (.typeParam names bound)

/-- Reads type parameters in brackets. -/
def typeParams : Production P (Tree P (.one .typeParams)) :=
  .inHeader false do
    let lBrack ← mark .lBrack
    let entries ← itemsUntil .rBrack fun _ => withComma typeParam
    if entries.isEmpty then .refuse .emptyTypeParams
    else
      let rBrack ← mark .rBrack
      pure (.typeParams lBrack (.ofList entries) rBrack)

/-! ## Structures and interfaces -/

/-- The tokens that can follow the type of an embedded field. -/
def fieldEnds : List Token :=
  [.semi, .rBrace, .stringLit, .rawStringLit]

/-- Whether an embedded field comes next. -/
def atEmbeddedField (cursor : Cursor P) : Bool :=
  match cursor.token with
  | .star => true
  | .ident =>
      match cursor.tokenAfter 1 with
      | .dot => true
      | .lBrack => cursor.brackFollowedBy fieldEnds
      | token => fieldEnds.contains token
  | _ => false

/-- Reads the tag of a field if there is one. -/
def tag? : Production P (Option (BasicLit P)) := do
  let cursor ← .look
  if cursor.atAny [.stringLit, .rawStringLit] then
    let tag ← stringLit
    pure (some tag)
  else pure none

/-- Reads the fields declared on one line of a structure. -/
def fieldDecl : Production P (Tree P (.one .field)) := do
  let cursor ← .look
  if atEmbeddedField cursor then
    let star ← mark? .star
    let name ← typeName
    let tag ← tag?
    pure (.embeddedField star name tag)
  else
    let names ← identList
    let type ← type
    let tag ← tag?
    pure (.namedField names type tag)

/-- Reads a structure type. -/
def structType : Production P (TypeExpr P) := do
  let keyword ← mark .kwStruct
  let lBrace ← mark .lBrace
  let fields ← itemsUntil .rBrace fun _ => withSemicolon fieldDecl
  let rBrace ← mark .rBrace
  pure (.structType keyword lBrace (.ofList fields) rBrace)

/-- Reads a method or a constraint of an interface. -/
def interfaceElem : Production P (Tree P (.one .interfaceElem)) := do
  let cursor ← .look
  if cursor.token = .ident && cursor.tokenAfter 1 = .lParen then
    let name ← ident
    let shape ← signature
    pure (.method name shape)
  else
    let elem ← typeElem
    pure (.constraint elem)

/-- Reads an interface type. -/
def interfaceType : Production P (TypeExpr P) := do
  let keyword ← mark .kwInterface
  let lBrace ← mark .lBrace
  let elems ← itemsUntil .rBrace fun _ => withSemicolon interfaceElem
  let rBrace ← mark .rBrace
  pure (.interfaceType keyword lBrace (.ofList elems) rBrace)

/-! ## Types -/

/-- Reads a pointer type. -/
def pointerType : Production P (TypeExpr P) := do
  let star ← mark .star
  let elem ← type
  pure (.pointerType star elem)

/-- Reads a type in parentheses. -/
def parenType : Production P (TypeExpr P) :=
  .inHeader false do
    let lParen ← mark .lParen
    let inner ← type
    let rParen ← mark .rParen
    pure (.parenType lParen inner rParen)

/-- Reads a type that starts with the given token, if a type can. -/
def typeFrom : Token -> Option (Production P (TypeExpr P))
  | .ident => some do
      let name ← typeName
      pure (.namedType name)
  | .star => some pointerType
  | .lParen => some parenType
  | .kwFunc => some do
      let type ← funcType
      pure (.functionType type)
  | .lBrack => some arrayOrSliceType
  | .kwMap => some mapType
  | .kwChan | .arrow => some chanType
  | .kwStruct => some structType
  | .kwInterface => some interfaceType
  | _ => none

/-- The rule for types. -/
def typeRule : Production P (Option (TypeExpr P)) :=
  .nested do
    let cursor ← .look
    match typeFrom cursor.token with
    | some production =>
        let type ← production
        pure (some type)
    | none => pure none

end Production
end GoFront
