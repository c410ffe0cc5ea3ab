import GoFront.Lexeme

/-!
# Syntax trees

A syntax tree owns its parts and keeps every keyword, operator and bracket of the text it was read
from, each with its place. Places are a parameter. The kinds of phrase form one family of types: a
slot of the family holds one phrase of a kind, a list of them, or possibly one. Functions on trees are
therefore recursions over a single family.
-/

namespace GoFront

/-! ## Leaves -/

/-- A name. -/
structure Ident (P : Type) where
  name : String
  pos : P
  deriving DecidableEq, Repr

/-- A keyword, an operator or a punctuation mark. -/
structure Mark (P : Type) where
  token : Token
  pos : P
  deriving DecidableEq, Repr

/-- The kinds of basic literal. -/
inductive LitKind
  | int | float | imag | rune | string | rawString
  deriving DecidableEq, Repr

/-- A literal exactly as written, quotes included. -/
structure BasicLit (P : Type) where
  kind : LitKind
  raw : String
  pos : P
  deriving DecidableEq, Repr

/-- A comment exactly as written. -/
structure Comment (P : Type) where
  token : Token
  text : String
  pos : P
  deriving DecidableEq, Repr

/-- The name under which a package is imported; a point imports its names unqualified. -/
inductive ImportName (P : Type)
  | ident (name : Ident P)
  | dot (mark : Mark P)
  deriving DecidableEq, Repr

/-- The name that a type switch binds. -/
structure GuardBinding (P : Type) where
  name : Ident P
  define : Mark P
  deriving DecidableEq, Repr

/-- The directions of a channel. -/
inductive ChanDir
  | both | send | recv
  deriving DecidableEq, Repr

/-- The kinds of declaration that are made of specs. -/
inductive SpecKind
  | imports | vars | consts | types
  deriving DecidableEq, Repr

/-- The kinds of statement that have case clauses: a switch over values, a switch over types, and a
select over communications. -/
inductive ClauseKind
  | values | types | comms
  deriving DecidableEq, Repr

/-! ## Kinds of phrase -/

/-- The kinds of phrase that contain other phrases. -/
inductive Phrase
  -- expressions
  | expr | exprList | call | element | elementKey | elementList
  -- types
  | type | typeList | typeName | typeArgs | funcType | field | interfaceElem | typeElem | typeTerm
  -- signatures and type parameters
  | signature | result | params | param | typeParams | typeParam
  -- statements
  | stmt | stmtList | simpleStmt | block | ifStmt | elseBranch
  | iteration | bindingList | binding | guard
  | caseLabel (kind : ClauseKind) | caseClause (kind : ClauseKind)
  -- declarations
  | decl | specDecl (kind : SpecKind) | spec | varSpec | typeSpec | groupSpec
  deriving DecidableEq, Repr

/-- A slot of the tree: one phrase, many phrases in order, or possibly one. -/
inductive Slot
  | one (phrase : Phrase)
  | many (phrase : Phrase)
  | maybe (phrase : Phrase)
  deriving DecidableEq, Repr

/-! ## Trees -/

/-- Syntax trees with places of type `P`, by the slot that they fill. -/
inductive Tree (P : Type) : Slot -> Type
  -- slots with many phrases, or possibly one
  | nil {phrase : Phrase} : Tree P (.many phrase)
  | cons {phrase : Phrase}
      (head : Tree P (.one phrase))
      (tail : Tree P (.many phrase)) : Tree P (.many phrase)
  | absent {phrase : Phrase} : Tree P (.maybe phrase)
  | present {phrase : Phrase} (tree : Tree P (.one phrase)) : Tree P (.maybe phrase)
  -- expressions
  | ident (name : Ident P) : Tree P (.one .expr)
  | basicLit (literal : BasicLit P) : Tree P (.one .expr)
  | compositeLit
      (type : Tree P (.maybe .type))
      (lBrace : Mark P)
      (elements : Tree P (.one .elementList))
      (rBrace : Mark P) : Tree P (.one .expr)
  | funcLit
      (type : Tree P (.one .funcType))
      (body : Tree P (.one .block)) : Tree P (.one .expr)
  | callExpr (call : Tree P (.one .call)) : Tree P (.one .expr)
  | index
      (base : Tree P (.one .expr))
      (lBrack : Mark P)
      (index : Tree P (.one .expr))
      (rBrack : Mark P) : Tree P (.one .expr)
  | instantiation
      (base : Tree P (.one .expr))
      (args : Tree P (.one .typeArgs)) : Tree P (.one .expr)
  | simpleSlice
      (base : Tree P (.one .expr))
      (lBrack : Mark P)
      (low : Tree P (.maybe .expr))
      (colon : Mark P)
      (high : Tree P (.maybe .expr))
      (rBrack : Mark P) : Tree P (.one .expr)
  | fullSlice
      (base : Tree P (.one .expr))
      (lBrack : Mark P)
      (low : Tree P (.maybe .expr))
      (firstColon : Mark P)
      (high : Tree P (.one .expr))
      (secondColon : Mark P)
      (max : Tree P (.one .expr))
      (rBrack : Mark P) : Tree P (.one .expr)
  | selector
      (base : Tree P (.one .expr))
      (dot : Mark P)
      (name : Ident P) : Tree P (.one .expr)
  | typeAssertion
      (base : Tree P (.one .expr))
      (dot : Mark P)
      (lParen : Mark P)
      (type : Tree P (.one .type))
      (rParen : Mark P) : Tree P (.one .expr)
  | typeQuery
      (base : Tree P (.one .expr))
      (dot : Mark P)
      (lParen : Mark P)
      (keyword : Mark P)
      (rParen : Mark P) : Tree P (.one .expr)
  | group
      (lParen : Mark P)
      (inner : Tree P (.one .expr))
      (rParen : Mark P) : Tree P (.one .expr)
  | binary
      (left : Tree P (.one .expr))
      (op : Mark P)
      (right : Tree P (.one .expr)) : Tree P (.one .expr)
  | unary
      (op : Mark P)
      (operand : Tree P (.one .expr)) : Tree P (.one .expr)
  | typeOperand (type : Tree P (.one .type)) : Tree P (.one .expr)
  | exprList (exprs : Tree P (.many .expr)) : Tree P (.one .exprList)
  | call
      (func : Tree P (.one .expr))
      (lParen : Mark P)
      (args : Tree P (.one .exprList))
      (ellipsis : Option (Mark P))
      (rParen : Mark P) : Tree P (.one .call)
  | element
      (key : Tree P (.maybe .elementKey))
      (value : Tree P (.one .expr)) : Tree P (.one .element)
  | elementKey
      (key : Tree P (.one .expr))
      (colon : Mark P) : Tree P (.one .elementKey)
  | elementList (elements : Tree P (.many .element)) : Tree P (.one .elementList)
  -- types
  | namedType (name : Tree P (.one .typeName)) : Tree P (.one .type)
  | arrayType
      (lBrack : Mark P)
      (length : Tree P (.one .expr))
      (rBrack : Mark P)
      (elem : Tree P (.one .type)) : Tree P (.one .type)
  | countedArrayType
      (lBrack : Mark P)
      (ellipsis : Mark P)
      (rBrack : Mark P)
      (elem : Tree P (.one .type)) : Tree P (.one .type)
  | sliceType
      (lBrack : Mark P)
      (rBrack : Mark P)
      (elem : Tree P (.one .type)) : Tree P (.one .type)
  | mapType
      (keyword : Mark P)
      (lBrack : Mark P)
      (key : Tree P (.one .type))
      (rBrack : Mark P)
      (value : Tree P (.one .type)) : Tree P (.one .type)
  | chanType
      (dir : ChanDir)
      (keyword : Mark P)
      (arrow : Option (Mark P))
      (elem : Tree P (.one .type)) : Tree P (.one .type)
  | functionType (type : Tree P (.one .funcType)) : Tree P (.one .type)
  | structType
      (keyword : Mark P)
      (lBrace : Mark P)
      (fields : Tree P (.many .field))
      (rBrace : Mark P) : Tree P (.one .type)
  | interfaceType
      (keyword : Mark P)
      (lBrace : Mark P)
      (elems : Tree P (.many .interfaceElem))
      (rBrace : Mark P) : Tree P (.one .type)
  | pointerType
      (star : Mark P)
      (elem : Tree P (.one .type)) : Tree P (.one .type)
  | parenType
      (lParen : Mark P)
      (inner : Tree P (.one .type))
      (rParen : Mark P) : Tree P (.one .type)
  | typeList (types : Tree P (.many .type)) : Tree P (.one .typeList)
  | typeName
      (package : Option (Ident P))
      (name : Ident P)
      (args : Tree P (.maybe .typeArgs)) : Tree P (.one .typeName)
  | typeArgs
      (lBrack : Mark P)
      (types : Tree P (.one .typeList))
      (rBrack : Mark P) : Tree P (.one .typeArgs)
  | funcType
      (keyword : Mark P)
      (signature : Tree P (.one .signature)) : Tree P (.one .funcType)
  | namedField
      (names : List (Ident P))
      (type : Tree P (.one .type))
      (tag : Option (BasicLit P)) : Tree P (.one .field)
  | embeddedField
      (star : Option (Mark P))
      (type : Tree P (.one .typeName))
      (tag : Option (BasicLit P)) : Tree P (.one .field)
  | method
      (name : Ident P)
      (signature : Tree P (.one .signature)) : Tree P (.one .interfaceElem)
  | constraint (elem : Tree P (.one .typeElem)) : Tree P (.one .interfaceElem)
  | typeElem (terms : Tree P (.many .typeTerm)) : Tree P (.one .typeElem)
  | exactTerm (type : Tree P (.one .type)) : Tree P (.one .typeTerm)
  | underlyingTerm
      (tilde : Mark P)
      (type : Tree P (.one .type)) : Tree P (.one .typeTerm)
  -- signatures and type parameters
  | signature
      (params : Tree P (.one .params))
      (result : Tree P (.maybe .result)) : Tree P (.one .signature)
  | resultParams (params : Tree P (.one .params)) : Tree P (.one .result)
  | resultType (type : Tree P (.one .type)) : Tree P (.one .result)
  | params
      (lParen : Mark P)
      (params : Tree P (.many .param))
      (rParen : Mark P) : Tree P (.one .params)
  | param
      (names : Option (List (Ident P)))
      (ellipsis : Option (Mark P))
      (type : Tree P (.one .type)) : Tree P (.one .param)
  | typeParams
      (lBrack : Mark P)
      (params : Tree P (.many .typeParam))
      (rBrack : Mark P) : Tree P (.one .typeParams)
  | typeParam
      (names : List (Ident P))
      (constraint : Tree P (.one .typeElem)) : Tree P (.one .typeParam)
  -- statements
  | declStmt (decl : Tree P (.one .decl)) : Tree P (.one .stmt)
  | blockStmt (block : Tree P (.one .block)) : Tree P (.one .stmt)
  | conditional (stmt : Tree P (.one .ifStmt)) : Tree P (.one .stmt)
  | forStmt
      (keyword : Mark P)
      (iteration : Tree P (.maybe .iteration))
      (body : Tree P (.one .block)) : Tree P (.one .stmt)
  | exprSwitch
      (keyword : Mark P)
      (init : Tree P (.maybe .simpleStmt))
      (tag : Tree P (.maybe .expr))
      (lBrace : Mark P)
      (clauses : Tree P (.many (.caseClause .values)))
      (rBrace : Mark P) : Tree P (.one .stmt)
  | typeSwitch
      (keyword : Mark P)
      (init : Tree P (.maybe .simpleStmt))
      (guard : Tree P (.one .guard))
      (lBrace : Mark P)
      (clauses : Tree P (.many (.caseClause .types)))
      (rBrace : Mark P) : Tree P (.one .stmt)
  | selectStmt
      (keyword : Mark P)
      (lBrace : Mark P)
      (clauses : Tree P (.many (.caseClause .comms)))
      (rBrace : Mark P) : Tree P (.one .stmt)
  | labeled
      (label : Ident P)
      (colon : Mark P)
      (stmt : Tree P (.one .stmt)) : Tree P (.one .stmt)
  | goStmt
      (keyword : Mark P)
      (call : Tree P (.one .call)) : Tree P (.one .stmt)
  | deferStmt
      (keyword : Mark P)
      (call : Tree P (.one .call)) : Tree P (.one .stmt)
  | returnStmt
      (keyword : Mark P)
      (results : Tree P (.maybe .exprList)) : Tree P (.one .stmt)
  | gotoStmt
      (keyword : Mark P)
      (label : Ident P) : Tree P (.one .stmt)
  | breakStmt
      (keyword : Mark P)
      (label : Option (Ident P)) : Tree P (.one .stmt)
  | continueStmt
      (keyword : Mark P)
      (label : Option (Ident P)) : Tree P (.one .stmt)
  | fallthroughStmt (keyword : Mark P) : Tree P (.one .stmt)
  | simple (stmt : Tree P (.one .simpleStmt)) : Tree P (.one .stmt)
  | stmtList (stmts : Tree P (.many .stmt)) : Tree P (.one .stmtList)
  | assignment
      (left : Tree P (.one .exprList))
      (op : Mark P)
      (right : Tree P (.one .exprList)) : Tree P (.one .simpleStmt)
  | shortVarDecl
      (names : List (Ident P))
      (define : Mark P)
      (values : Tree P (.one .exprList)) : Tree P (.one .simpleStmt)
  | incDec
      (expr : Tree P (.one .expr))
      (op : Mark P) : Tree P (.one .simpleStmt)
  | send
      (channel : Tree P (.one .expr))
      (arrow : Mark P)
      (value : Tree P (.one .expr)) : Tree P (.one .simpleStmt)
  | receive
      (binding : Tree P (.maybe .binding))
      (expr : Tree P (.one .expr)) : Tree P (.one .simpleStmt)
  | exprStmt (expr : Tree P (.one .expr)) : Tree P (.one .simpleStmt)
  | emptyStmt (pos : P) : Tree P (.one .simpleStmt)
  | block
      (lBrace : Mark P)
      (stmts : Tree P (.one .stmtList))
      (rBrace : Mark P) : Tree P (.one .block)
  | ifStmt
      (keyword : Mark P)
      (init : Tree P (.maybe .simpleStmt))
      (condition : Tree P (.one .expr))
      (body : Tree P (.one .block))
      (elseBranch : Tree P (.maybe .elseBranch)) : Tree P (.one .ifStmt)
  | elseIf
      (keyword : Mark P)
      (stmt : Tree P (.one .ifStmt)) : Tree P (.one .elseBranch)
  | elseBlock
      (keyword : Mark P)
      (block : Tree P (.one .block)) : Tree P (.one .elseBranch)
  | whileTrue (condition : Tree P (.one .expr)) : Tree P (.one .iteration)
  | forClause
      (init : Tree P (.maybe .simpleStmt))
      (condition : Tree P (.maybe .expr))
      (post : Tree P (.maybe .simpleStmt)) : Tree P (.one .iteration)
  | rangeClause
      (binding : Tree P (.maybe .binding))
      (keyword : Mark P)
      (expr : Tree P (.one .expr)) : Tree P (.one .iteration)
  | boundNames (names : List (Ident P)) : Tree P (.one .bindingList)
  | boundExprs (exprs : Tree P (.one .exprList)) : Tree P (.one .bindingList)
  | binding
      (list : Tree P (.one .bindingList))
      (op : Mark P) : Tree P (.one .binding)
  | guard
      (binding : Option (GuardBinding P))
      (expr : Tree P (.one .expr)) : Tree P (.one .guard)
  | defaultCase {kind : ClauseKind} (keyword : Mark P) : Tree P (.one (.caseLabel kind))
  | exprCase
      (keyword : Mark P)
      (exprs : Tree P (.one .exprList)) : Tree P (.one (.caseLabel .values))
  | typeCase
      (keyword : Mark P)
      (types : Tree P (.one .typeList)) : Tree P (.one (.caseLabel .types))
  | commCase
      (keyword : Mark P)
      (stmt : Tree P (.one .simpleStmt)) : Tree P (.one (.caseLabel .comms))
  | caseClause {kind : ClauseKind}
      (label : Tree P (.one (.caseLabel kind)))
      (colon : Mark P)
      (body : Tree P (.one .stmtList)) : Tree P (.one (.caseClause kind))
  -- declarations
  | funcDecl
      (keyword : Mark P)
      (name : Ident P)
      (typeParams : Tree P (.maybe .typeParams))
      (signature : Tree P (.one .signature))
      (body : Tree P (.maybe .block)) : Tree P (.one .decl)
  | methodDecl
      (keyword : Mark P)
      (receiver : Tree P (.one .params))
      (name : Ident P)
      (signature : Tree P (.one .signature))
      (body : Tree P (.maybe .block)) : Tree P (.one .decl)
  | specified (kind : SpecKind) (decl : Tree P (.one (.specDecl kind))) : Tree P (.one .decl)
  | specDecl (kind : SpecKind)
      (keyword : Mark P)
      (spec : Tree P (.one .spec)) : Tree P (.one (.specDecl kind))
  | importSpec
      (name : Option (ImportName P))
      (path : BasicLit P) : Tree P (.one .spec)
  | constSpec
      (names : List (Ident P))
      (type : Tree P (.maybe .type))
      (values : Tree P (.maybe .exprList)) : Tree P (.one .spec)
  | varSpecOf (spec : Tree P (.one .varSpec)) : Tree P (.one .spec)
  | typeSpecOf (spec : Tree P (.one .typeSpec)) : Tree P (.one .spec)
  | groupSpecOf (spec : Tree P (.one .groupSpec)) : Tree P (.one .spec)
  | varSpec
      (names : List (Ident P))
      (type : Tree P (.maybe .type))
      (values : Tree P (.maybe .exprList)) : Tree P (.one .varSpec)
  | typeDef
      (name : Ident P)
      (typeParams : Tree P (.maybe .typeParams))
      (type : Tree P (.one .type)) : Tree P (.one .typeSpec)
  | aliasDecl
      (name : Ident P)
      (assign : Mark P)
      (type : Tree P (.one .type)) : Tree P (.one .typeSpec)
  | groupSpec
      (kind : SpecKind)
      (lParen : Mark P)
      (specs : Tree P (.many .spec))
      (rParen : Mark P) : Tree P (.one .groupSpec)

/-! ## The slots by name -/

/-- An expression. -/
abbrev Expr (P : Type) := Tree P (.one .expr)

/-- A list of expressions. -/
abbrev ExprList (P : Type) := Tree P (.one .exprList)

/-- A type. -/
abbrev TypeExpr (P : Type) := Tree P (.one .type)

/-- A statement. -/
abbrev Stmt (P : Type) := Tree P (.one .stmt)

/-- A simple statement, which can also stand in a header. -/
abbrev SimpleStmt (P : Type) := Tree P (.one .simpleStmt)

/-- Statements between braces. -/
abbrev Block (P : Type) := Tree P (.one .block)

/-- A conditional statement. -/
abbrev IfStmt (P : Type) := Tree P (.one .ifStmt)

/-- A declaration. -/
abbrev Decl (P : Type) := Tree P (.one .decl)

/-- A declaration made of specs of one kind. -/
abbrev SpecDecl (P : Type) (kind : SpecKind) := Tree P (.one (.specDecl kind))

/-- What a declaration declares: one entity, or a group of specs. -/
abbrev Spec (P : Type) := Tree P (.one .spec)

namespace Tree

variable {P : Type}

/-- The tree of a list of phrases. -/
def ofList {phrase : Phrase} : List (Tree P (.one phrase)) -> Tree P (.many phrase)
  | [] => nil
  | head :: tail => cons head (ofList tail)

/-- The tree of a phrase that may be missing. -/
def ofOption {phrase : Phrase} : Option (Tree P (.one phrase)) -> Tree P (.maybe phrase)
  | none => absent
  | some tree => present tree

end Tree

/-! ## Files -/

/-- The clause that names the package of a file. -/
structure PackageClause (P : Type) where
  keyword : Mark P
  name : Ident P
  deriving DecidableEq, Repr

/-- A source file. -/
structure File (P : Type) where
  filename : Option String
  package : PackageClause P
  imports : Tree P (.many (.specDecl .imports))
  decls : Tree P (.many .decl)
  comments : List (Comment P)

end GoFront
