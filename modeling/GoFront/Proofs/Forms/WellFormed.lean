import GoFront.Grammar.Statements
import GoFront.Tree.Access
import Mathlib.Data.List.Basic

/-!
# Well-formed trees

The types of trees leave some combinations open that no text is read as: a receiving statement outside a
select, a composite literal without a type outside another one, a group within a group. A tree is well
formed if the parts of each of its phrases fit together, and if each phrase stands where it can.
-/

namespace GoFront
namespace Tree

variable {P : Type} {slot : Slot}

/-! ## Phrases inside phrases -/

/-- The trees that a tree is made of, with the slots that they fill. -/
def children : {slot : Slot} -> Tree P slot -> List ((slot : Slot) × Tree P slot)
  -- slots with many phrases, or possibly one
  | _, nil | _, absent => []
  | _, cons head tail => [⟨_, head⟩, ⟨_, tail⟩]
  | _, present tree => [⟨_, tree⟩]
  -- expressions
  | _, ident _ | _, basicLit _ => []
  | _, compositeLit type _ elements _ => [⟨_, type⟩, ⟨_, elements⟩]
  | _, funcLit type body => [⟨_, type⟩, ⟨_, body⟩]
  | _, callExpr invocation => [⟨_, invocation⟩]
  | _, index base _ subscript _ => [⟨_, base⟩, ⟨_, subscript⟩]
  | _, instantiation base args => [⟨_, base⟩, ⟨_, args⟩]
  | _, simpleSlice base _ low _ high _ => [⟨_, base⟩, ⟨_, low⟩, ⟨_, high⟩]
  | _, fullSlice base _ low _ high _ max _ => [⟨_, base⟩, ⟨_, low⟩, ⟨_, high⟩, ⟨_, max⟩]
  | _, selector base .. => [⟨_, base⟩]
  | _, typeAssertion base _ _ type _ => [⟨_, base⟩, ⟨_, type⟩]
  | _, typeQuery base .. => [⟨_, base⟩]
  | _, group _ inner _ => [⟨_, inner⟩]
  | _, binary left _ right => [⟨_, left⟩, ⟨_, right⟩]
  | _, unary _ operand => [⟨_, operand⟩]
  | _, typeOperand type => [⟨_, type⟩]
  | _, exprList exprs => [⟨_, exprs⟩]
  | _, call func _ args _ _ => [⟨_, func⟩, ⟨_, args⟩]
  | _, element key value => [⟨_, key⟩, ⟨_, value⟩]
  | _, elementKey key _ => [⟨_, key⟩]
  | _, elementList elements => [⟨_, elements⟩]
  -- types
  | _, namedType name => [⟨_, name⟩]
  | _, arrayType _ length _ elem => [⟨_, length⟩, ⟨_, elem⟩]
  | _, countedArrayType _ _ _ elem => [⟨_, elem⟩]
  | _, sliceType _ _ elem => [⟨_, elem⟩]
  | _, mapType _ _ key _ value => [⟨_, key⟩, ⟨_, value⟩]
  | _, chanType _ _ _ elem => [⟨_, elem⟩]
  | _, functionType type => [⟨_, type⟩]
  | _, structType _ _ fields _ => [⟨_, fields⟩]
  | _, interfaceType _ _ elems _ => [⟨_, elems⟩]
  | _, pointerType _ elem => [⟨_, elem⟩]
  | _, parenType _ inner _ => [⟨_, inner⟩]
  | _, typeList types => [⟨_, types⟩]
  | _, typeName _ _ args => [⟨_, args⟩]
  | _, typeArgs _ types _ => [⟨_, types⟩]
  | _, funcType _ shape => [⟨_, shape⟩]
  | _, namedField _ type _ => [⟨_, type⟩]
  | _, embeddedField _ type _ => [⟨_, type⟩]
  | _, method _ shape => [⟨_, shape⟩]
  | _, constraint elem => [⟨_, elem⟩]
  | _, typeElem terms => [⟨_, terms⟩]
  | _, exactTerm type => [⟨_, type⟩]
  | _, underlyingTerm _ type => [⟨_, type⟩]
  -- signatures and type parameters
  | _, signature entries result => [⟨_, entries⟩, ⟨_, result⟩]
  | _, resultParams entries => [⟨_, entries⟩]
  | _, resultType type => [⟨_, type⟩]
  | _, params _ entries _ => [⟨_, entries⟩]
  | _, param _ _ type => [⟨_, type⟩]
  | _, typeParams _ entries _ => [⟨_, entries⟩]
  | _, typeParam _ bound => [⟨_, bound⟩]
  -- statements
  | _, declStmt decl => [⟨_, decl⟩]
  | _, blockStmt body => [⟨_, body⟩]
  | _, conditional stmt => [⟨_, stmt⟩]
  | _, forStmt _ iteration body => [⟨_, iteration⟩, ⟨_, body⟩]
  | _, exprSwitch _ init tag _ clauses _ => [⟨_, init⟩, ⟨_, tag⟩, ⟨_, clauses⟩]
  | _, typeSwitch _ init subject _ clauses _ => [⟨_, init⟩, ⟨_, subject⟩, ⟨_, clauses⟩]
  | _, selectStmt _ _ clauses _ => [⟨_, clauses⟩]
  | _, labeled _ _ stmt => [⟨_, stmt⟩]
  | _, goStmt _ invocation | _, deferStmt _ invocation => [⟨_, invocation⟩]
  | _, returnStmt _ results => [⟨_, results⟩]
  | _, gotoStmt .. | _, breakStmt .. | _, continueStmt .. | _, fallthroughStmt _ => []
  | _, simple stmt => [⟨_, stmt⟩]
  | _, stmtList stmts => [⟨_, stmts⟩]
  | _, assignment left _ right => [⟨_, left⟩, ⟨_, right⟩]
  | _, shortVarDecl _ _ values => [⟨_, values⟩]
  | _, incDec expr _ => [⟨_, expr⟩]
  | _, send channel _ value => [⟨_, channel⟩, ⟨_, value⟩]
  | _, receive bound expr => [⟨_, bound⟩, ⟨_, expr⟩]
  | _, exprStmt expr => [⟨_, expr⟩]
  | _, emptyStmt _ => []
  | _, block _ stmts _ => [⟨_, stmts⟩]
  | _, ifStmt _ init condition body elseBranch =>
      [⟨_, init⟩, ⟨_, condition⟩, ⟨_, body⟩, ⟨_, elseBranch⟩]
  | _, elseIf _ stmt => [⟨_, stmt⟩]
  | _, elseBlock _ body => [⟨_, body⟩]
  | _, whileTrue condition => [⟨_, condition⟩]
  | _, forClause init condition post => [⟨_, init⟩, ⟨_, condition⟩, ⟨_, post⟩]
  | _, rangeClause bound _ expr => [⟨_, bound⟩, ⟨_, expr⟩]
  | _, boundNames _ => []
  | _, boundExprs exprs => [⟨_, exprs⟩]
  | _, binding list _ => [⟨_, list⟩]
  | _, guard _ expr => [⟨_, expr⟩]
  | _, defaultCase _ => []
  | _, exprCase _ exprs => [⟨_, exprs⟩]
  | _, typeCase _ types => [⟨_, types⟩]
  | _, commCase _ stmt => [⟨_, stmt⟩]
  | _, caseClause label _ body => [⟨_, label⟩, ⟨_, body⟩]
  -- declarations
  | _, funcDecl _ _ generics shape body => [⟨_, generics⟩, ⟨_, shape⟩, ⟨_, body⟩]
  | _, methodDecl _ receiver _ shape body => [⟨_, receiver⟩, ⟨_, shape⟩, ⟨_, body⟩]
  | _, specified _ decl => [⟨_, decl⟩]
  | _, specDecl _ _ spec => [⟨_, spec⟩]
  | _, importSpec .. => []
  | _, constSpec _ type values => [⟨_, type⟩, ⟨_, values⟩]
  | _, varSpecOf spec => [⟨_, spec⟩]
  | _, typeSpecOf spec => [⟨_, spec⟩]
  | _, groupSpecOf spec => [⟨_, spec⟩]
  | _, varSpec _ type values => [⟨_, type⟩, ⟨_, values⟩]
  | _, typeDef _ generics type => [⟨_, generics⟩, ⟨_, type⟩]
  | _, aliasDecl _ _ type => [⟨_, type⟩]
  | _, groupSpec _ _ specs _ => [⟨_, specs⟩]

/-- A tree occurs in another one, or is that tree. -/
inductive Occurs : {inner outer : Slot} -> Tree P inner -> Tree P outer -> Prop
  | refl {slot : Slot} (tree : Tree P slot) : Occurs tree tree
  | inside {inner middle outer : Slot}
      {node : Tree P inner}
      {child : Tree P middle}
      {tree : Tree P outer}
      (isChild : ⟨middle, child⟩ ∈ tree.children)
      (occurs : Occurs node child) : Occurs node tree

/-! ## Parts that fit -/

/-- Whether constants have values; other specs need none. -/
def hasValues : Spec P -> Bool
  | constSpec _ _ values => values.toOption.isSome
  | _ => true

/-- Whether a parameter has names. -/
def isNamedParam : Tree P (.one .param) -> Bool
  | param names _ _ => names.isSome

/-- The parameters of a list. -/
def entries : Tree P (.one .params) -> List (Tree P (.one .param))
  | params _ entries _ => entries.toList

/-- Whether an expression is a type. -/
def isTypeOperand : Expr P -> Bool
  | typeOperand _ => true
  | _ => false

/-- Whether a declaration can stand among statements. -/
def isLocalDecl : Decl P -> Bool
  | specified kind _ => kind ≠ .imports
  | _ => false

/-- Whether a declaration is an import. -/
def isImportDecl : Decl P -> Bool
  | specified kind _ => kind = .imports
  | _ => false

/-- Whether a statement sends or receives. -/
def isCommunication : SimpleStmt P -> Bool
  | send .. | receive .. => true
  | _ => false

/-- A list of parameters has names throughout or not at all. -/
def NamesAgree (entries : List (Tree P (.one .param))) : Prop :=
  (∀ entry ∈ entries, entry.isNamedParam = true) ∨ ∀ entry ∈ entries, entry.isNamedParam = false

/-- Names are bound by a definition, expressions by an assignment. -/
def BindsBy (op : Token) : Tree P (.one .bindingList) -> Prop
  | boundNames names => names ≠ [] ∧ op = .define
  | boundExprs exprs => exprs.exprs ≠ [] ∧ op = .assign

/-- The parts of a phrase fit together. -/
def Fits : {slot : Slot} -> Tree P slot -> Prop
  | _, call func _ args _ _ =>
      ∀ name, func = ident name -> name.name = "make" ∨ name.name = "new" ->
        ∀ first ∈ args.exprs.head?, first.isTypeOperand = true
  | _, chanType dir _ arrow _ => dir = .both ↔ arrow = none
  | _, typeList types => types.toList ≠ []
  | _, typeElem terms => terms.toList ≠ []
  | _, namedField names .. => names ≠ []
  | _, params _ entries _ =>
      NamesAgree entries.toList
        ∧ ∀ entry ∈ entries.toList.dropLast, entry.isVariadicParam = false
  | _, param names .. => ∀ list ∈ names, list ≠ []
  | _, resultParams results => ∀ entry ∈ results.entries, entry.isVariadicParam = false
  | _, typeParams _ entries _ => entries.toList ≠ []
  | _, typeParam names _ => names ≠ []
  | _, declStmt decl => decl.isLocalDecl = true
  | _, exprSwitch _ _ tag .. => ∀ expr ∈ tag.toOption, Production.isTypeQuery expr = false
  | _, guard _ expr => Production.isTypeQuery expr = true
  | _, shortVarDecl names .. => names ≠ []
  | _, binding list op => list.BindsBy op.token
  | _, commCase _ stmt => stmt.isCommunication = true
  | _, methodDecl _ receiver .. => ∀ entry ∈ receiver.entries, entry.isVariadicParam = false
  | _, specDecl kind keyword spec =>
      keyword.token = kind.keyword ∧ spec.specKind = kind ∧ spec.hasValues = true
  | _, groupSpec kind _ specs _ =>
      (∀ spec ∈ specs.toList, spec.specKind = kind ∧ spec.isGroup = false)
        ∧ ∀ first ∈ specs.toList.head?, first.hasValues = true
  | _, constSpec names .. => names ≠ []
  | _, varSpec names type values =>
      names ≠ [] ∧ (type.toOption.isSome = true ∨ values.toOption.isSome = true)
  | _, _ => True

/-! ## Phrases that stand where they can -/

/-- Whether a tree is the case of a select statement. -/
def isCommCase : {slot : Slot} -> Tree P slot -> Bool
  | _, commCase .. => true
  | _, _ => false

/-- Whether a tree is an element of a composite literal or the key of one. -/
def isElementPart : {slot : Slot} -> Tree P slot -> Bool
  | _, element .. | _, elementKey .. => true
  | _, _ => false

/-- Whether a tree is a call. -/
def isCall : {slot : Slot} -> Tree P slot -> Bool
  | _, call .. => true
  | _, _ => false

/-- A tree can have another one as a part: only a case of a select receives, only an element or its key
is a composite literal without a type, and only the arguments of a call can be no expressions at all. -/
def Admits (tree : Tree P slot) : {inner : Slot} -> Tree P inner -> Prop
  | _, receive .. => tree.isCommCase = true
  | _, compositeLit absent .. => tree.isElementPart = true
  | _, exprList nil => tree.isCall = true
  | _, _ => True

/-- The parts of a phrase fit together, and each of them can stand there. -/
structure Sound (tree : Tree P slot) : Prop where
  fits : tree.Fits
  admits : ∀ child ∈ tree.children, tree.Admits child.2

/-- Every phrase of a tree is sound. -/
structure WellFormed (tree : Tree P slot) : Prop where
  sound_of_occurs : ∀ {inner : Slot} {node : Tree P inner}, Occurs node tree -> node.Sound

end Tree

/-- Every phrase of a file is sound, and imports stand before all other declarations. -/
structure File.WellFormed {P : Type} (file : File P) : Prop where
  imports : file.imports.WellFormed
  decls : file.decls.WellFormed
  notImport : ∀ decl ∈ file.decls.toList, decl.isImportDecl = false

namespace Tree

variable {P : Type} {slot inner : Slot}

/-! ## Putting well-formed trees together -/

namespace WellFormed

variable {tree : Tree P slot}

theorem sound (wellFormed : tree.WellFormed) : tree.Sound :=
  wellFormed.sound_of_occurs (.refl tree)

theorem child
    {child : Tree P inner}
    (wellFormed : tree.WellFormed)
    (isChild : ⟨inner, child⟩ ∈ tree.children) :
    child.WellFormed := by
  constructor
  intro slot node occurs
  exact wellFormed.sound_of_occurs (.inside isChild occurs)

theorem of_parts
    (fits : tree.Fits)
    (parts : tree.children.Forall fun part => tree.Admits part.2 ∧ part.2.WellFormed) :
    tree.WellFormed := by
  have each := List.forall_iff_forall_mem.1 parts
  constructor
  intro inner node occurs
  cases occurs with
  | refl => exact ⟨fits, fun part isPart => (each part isPart).1⟩
  | inside isChild occurs => exact (each _ isChild).2.sound_of_occurs occurs

end WellFormed

/-- Whether a tree can stand only in some places. -/
def isRestricted : {slot : Slot} -> Tree P slot -> Bool
  | _, receive .. => true
  | _, compositeLit absent .. => true
  | _, exprList nil => true
  | _, _ => false

/-- A tree admits whatever can stand anywhere. -/
theorem admits_of_unrestricted
    (tree : Tree P slot)
    {part : Tree P inner}
    (free : part.isRestricted = false) :
    tree.Admits part := by
  cases part with
  | receive _ _ => cases free
  | compositeLit type _ _ _ =>
      cases type with
      | absent => cases free
      | present _ => trivial
  | exprList exprs =>
      cases exprs with
      | nil => cases free
      | cons _ _ => trivial
  | _ => trivial

end Tree
end GoFront
