import GoFront.Grammar.Expressions

/-!
# Declarations

How declarations are read. Imports, variables, constants and types are declared by one spec or by a
group of specs in parentheses. A bracket behind the name of a type opens its type parameters if what
follows the next name can start a constraint, and an array type otherwise.
-/

namespace GoFront
namespace Production

variable {P : Type}

/-! ## Specs -/

/-- Reads the name under which a package is imported, if there is one. -/
def importName? : Production P (Option (ImportName P)) := do
  let cursor ← .look
  match cursor.token with
  | .ident =>
      let name ← ident
      pure (some (.ident name))
  | .dot =>
      let dot ← mark .dot
      pure (some (.dot dot))
  | _ => pure none

/-- Reads an imported package. -/
def importSpec : Production P (Spec P) := do
  let name ← importName?
  let path ← stringLit
  pure (.importSpec name path)

/-- Reads constants. Only the first spec of a declaration has to give them values. -/
def constSpec (first : Bool) : Production P (Spec P) := do
  let names ← identList
  let type ← type?
  let cursor ← .look
  if first || cursor.token = .assign then
    let _ ← expect .assign
    let values ← exprList
    pure (.constSpec names (.ofOption type) (.present values))
  else pure (.constSpec names (.ofOption type) .absent)

/-- Reads variables. -/
def varSpec : Production P (Spec P) := do
  let names ← identList
  let type ← type?
  let assign ← eat? .assign
  let values ←
    if assign.isSome then do
      let values ← exprList
      pure (Tree.present values)
    else pure Tree.absent
  let spec ← build (Tree.varSpec? names (.ofOption type) values)
  pure (.varSpecOf spec)

/-- The tokens that can follow the first name of a type parameter list. -/
def typeParamFollowers : List Token :=
  [.ident, .comma, .star, .tilde, .lBrack, .lParen, .arrow, .kwFunc, .kwMap, .kwChan, .kwStruct,
    .kwInterface]

/-- Whether type parameters come next. -/
def atTypeParams (cursor : Cursor P) : Bool :=
  cursor.token = .lBrack && cursor.tokenAfter 1 = .ident
    && typeParamFollowers.contains (cursor.tokenAfter 2)

/-- Reads a defined type or an alias. -/
def typeSpec : Production P (Spec P) := do
  let name ← ident
  let assign ← mark? .assign
  match assign with
  | some assign =>
      let type ← type
      pure (.typeSpecOf (.aliasDecl name assign type))
  | none =>
      let cursor ← .look
      let generics ←
        if atTypeParams cursor then do
          let generics ← typeParams
          pure (Tree.present generics)
        else pure Tree.absent
      let type ← type
      pure (.typeSpecOf (.typeDef name generics type))

/-- Reads one spec of a kind, which may be the first of its declaration. -/
def singleSpec (kind : SpecKind) (first : Bool) : Production P (Spec P) :=
  match kind with
  | .imports => importSpec
  | .consts => constSpec first
  | .vars => varSpec
  | .types => typeSpec

/-- Reads one spec of a kind, or a group of them. -/
def spec (kind : SpecKind) : Production P (Spec P) := do
  let lParen ← mark? .lParen
  match lParen with
  | none => singleSpec kind true
  | some lParen =>
      let specs ← itemsUntil .rParen fun first => withSemicolon (singleSpec kind first)
      let rParen ← mark .rParen
      let group ← build (Tree.groupSpec? kind lParen specs rParen)
      pure (.groupSpecOf group)

/-! ## Declarations -/

/-- Reads a declaration made of specs. -/
def specDecl (kind : SpecKind) : Production P (SpecDecl P kind) := do
  let keyword ← mark kind.keyword
  let spec ← spec kind
  let decl ← build (Tree.specDecl? kind keyword spec)
  semicolon
  pure decl

/-- Reads the body of a function if there is one. -/
def body? : Production P (Tree P (.maybe .block)) := do
  let cursor ← .look
  if cursor.token = .lBrace then
    let body ← block
    pure (.present body)
  else pure .absent

/-- Reads a function, from behind its keyword. -/
def funcTail (keyword : Mark P) : Production P (Decl P) := do
  let name ← ident
  let cursor ← .look
  let generics ←
    if cursor.token = .lBrack then do
      let generics ← typeParams
      pure (Tree.present generics)
    else pure Tree.absent
  let shape ← signature
  let body ← body?
  pure (.funcDecl keyword name generics shape body)

/-- Reads a method, from behind its keyword. -/
def methodTail (keyword : Mark P) : Production P (Decl P) := do
  let receiver ← params false
  let name ← ident
  let shape ← signature
  let body ← body?
  pure (.methodDecl keyword receiver name shape body)

/-- Reads a function, or a method if a receiver follows the keyword. -/
def funcOrMethod : Production P (Decl P) := do
  let keyword ← mark .kwFunc
  let cursor ← .look
  let decl ← if cursor.token = .lParen then methodTail keyword else funcTail keyword
  semicolon
  pure decl

/-- Reads a declaration made of specs as a declaration of any kind. -/
def specifiedDecl (kind : SpecKind) : Production P (Decl P) := do
  let decl ← specDecl kind
  pure (.specified kind decl)

/-- Reads a declaration other than an import. -/
def decl : Production P (Decl P) := do
  let cursor ← .look
  match cursor.token with
  | .kwVar => specifiedDecl .vars
  | .kwConst => specifiedDecl .consts
  | .kwType => specifiedDecl .types
  | .kwFunc => funcOrMethod
  | token => .refuse (.declExpected token)

/-! ## Files -/

/-- Reads the clause that names the package. -/
def packageClause : Production P (PackageClause P) := do
  let keyword ← mark .kwPackage
  let name ← ident
  semicolon
  pure ⟨keyword, name⟩

/-- The parts of a file that come from its significant lexemes. -/
structure FileParts (P : Type) where
  package : Option (PackageClause P)
  imports : List (SpecDecl P .imports)
  decls : List (Decl P)

/-- Reads a whole file. A clause or declaration that fails is left out. -/
def file : Production P (FileParts P) := do
  let package ← .recovering .decl packageClause
  let imports ← resuming .decl (fun cursor => cursor.token = .kwImport) (specDecl .imports)
  let decls ← resuming .decl (fun cursor => cursor.token ≠ .eof) decl
  pure ⟨package, imports, decls⟩

/-- Reads a single declaration of any kind, behind which nothing may follow. -/
def singleDecl : Production P (Decl P) := do
  let cursor ← .look
  let decl ← if cursor.token = .kwImport then specifiedDecl .imports else decl
  let cursor ← .look
  if cursor.token = .eof then pure decl
  else
    .report (.trailing cursor.token)
    pure decl

end Production
end GoFront
