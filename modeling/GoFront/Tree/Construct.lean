import GoFront.Tree.Node

/-!
# Checked construction

Some parts of a phrase constrain each other. The functions of this module put such parts together, or
say why they do not fit.
-/

namespace GoFront

/-- Why parts do not form a phrase. -/
inductive InvalidNode
  | namesExpected
  | declMismatch (kind : SpecKind) (keyword : Token) (spec : SpecKind)
  | groupMismatch (kind : SpecKind) (member : SpecKind)
  | varWithoutTypeOrValue
  | halfElse
  | halfBinding
  | notCommunication
  | halfKey
  deriving DecidableEq, Repr

namespace InvalidNode

/-- The wording of a refusal. -/
def message : InvalidNode -> String
  | namesExpected => "cannot create an identifier list from an arbitrary expression list"
  | declMismatch kind keyword spec =>
      s!"cannot create a {kind.declName} from {keyword.display} with a spec of type {spec.name}"
  | groupMismatch kind member =>
      s!"a {kind.name} group cannot contain a {member.name} spec"
  | varWithoutTypeOrValue => "var must have either type or init value"
  | halfElse => "both \"else\" keyword and the body must be present or neither"
  | halfBinding => "range clause must have both a binding list and its operator or neither"
  | notCommunication => "communication case must hold a send or receive statement"
  | halfKey => "keyed element must have both key and colon or neither"

end InvalidNode

/-- The keyword that opens a declaration made of a kind of spec. -/
def SpecKind.keyword : SpecKind -> Token
  | imports => .kwImport
  | vars => .kwVar
  | consts => .kwConst
  | types => .kwType

namespace Slot

/-- The list of phrases of a slot with many, and nothing for any other slot. -/
def Phrases (P : Type) : Slot -> Type
  | many phrase => List (Tree P (.one phrase))
  | one _ | maybe _ => Unit

/-- No phrases. -/
def noPhrases {P : Type} : (slot : Slot) -> slot.Phrases P
  | many _ => ([] : List _)
  | one _ | maybe _ => ()

end Slot

namespace Tree

variable {P : Type}

/-! ## Reading slots -/

/-- The phrases of a tree. -/
def phrases : {slot : Slot} -> Tree P slot -> slot.Phrases P
  | _, cons head tail => (head :: tail.phrases : List _)
  | slot, _ => slot.noPhrases

/-- The phrases of a slot with many. -/
def toList {phrase : Phrase} (tree : Tree P (.many phrase)) : List (Tree P (.one phrase)) :=
  tree.phrases

@[simp] theorem toList_nil {phrase : Phrase} :
    (nil : Tree P (.many phrase)).toList = [] := rfl

@[simp] theorem toList_cons {phrase : Phrase}
    (head : Tree P (.one phrase))
    (tail : Tree P (.many phrase)) :
    (cons head tail).toList = head :: tail.toList := rfl

@[simp] theorem toList_ofList {phrase : Phrase} (trees : List (Tree P (.one phrase))) :
    (ofList trees).toList = trees := by
  induction trees with
  | nil => rfl
  | cons head tail ih => simp [ofList, ih]

/-- The phrase of a slot with possibly one. -/
def toOption {phrase : Phrase} : Tree P (.maybe phrase) -> Option (Tree P (.one phrase))
  | absent => none
  | present tree => some tree

/-- The expressions of a list. -/
def exprs : Tree P (.one .exprList) -> List (Expr P)
  | exprList exprs => exprs.toList

/-- The name that an expression consists of. -/
def identOfExpr? : Expr P -> Option (Ident P)
  | ident name => some name
  | _ => none

/-- The kind of a spec; a group has the kind of its members. -/
def specKind : Spec P -> SpecKind
  | importSpec .. => .imports
  | constSpec .. => .consts
  | varSpecOf _ => .vars
  | typeSpecOf _ => .types
  | groupSpecOf (groupSpec kind ..) => kind

/-- Whether a spec is a group. -/
def isGroup : Spec P -> Bool
  | groupSpecOf _ => true
  | _ => false

end Tree

/-! ## Constructors -/

variable {P : Type}

/-- A list of names, read as expressions. -/
def Ident.listOfExprs? (list : ExprList P) : Except InvalidNode (List (Ident P)) :=
  match list.exprs.mapM Tree.identOfExpr? with
  | some names => .ok names
  | none => .error .namesExpected

namespace Tree

/-- An element of a composite literal; key and colon come together. -/
def element?
    (key : Option (Expr P))
    (colon : Option (Mark P))
    (value : Expr P) : Except InvalidNode (Tree P (.one .element)) :=
  match key, colon with
  | some key, some colon => .ok (element (present (elementKey key colon)) value)
  | none, none => .ok (element absent value)
  | _, _ => .error .halfKey

/-- A variable spec, which has a type or values. -/
def varSpec?
    (names : List (Ident P))
    (type : Tree P (.maybe .type))
    (values : Tree P (.maybe .exprList)) : Except InvalidNode (Tree P (.one .varSpec)) :=
  match type, values with
  | absent, absent => .error .varWithoutTypeOrValue
  | type, values => .ok (varSpec names type values)

/-- A group of specs of one kind, none of which is a group. -/
def groupSpec?
    (kind : SpecKind)
    (lParen : Mark P)
    (specs : List (Spec P))
    (rParen : Mark P) : Except InvalidNode (Tree P (.one .groupSpec)) :=
  match specs.find? fun spec => spec.isGroup || spec.specKind ≠ kind with
  | some member => .error (.groupMismatch kind member.specKind)
  | none => .ok (groupSpec kind lParen (ofList specs) rParen)

/-- A declaration made of specs; the keyword and the spec are of its kind. -/
def specDecl?
    (kind : SpecKind)
    (keyword : Mark P)
    (spec : Spec P) : Except InvalidNode (SpecDecl P kind) :=
  if keyword.token = kind.keyword && spec.specKind = kind then
    .ok (specDecl kind keyword spec)
  else .error (.declMismatch kind keyword.token spec.specKind)

/-- What stands behind `else`. -/
inductive ElseBody (P : Type)
  | conditional (stmt : IfStmt P)
  | block (body : Block P)

/-- The branch behind an `else`. -/
def elseBranch (keyword : Mark P) : ElseBody P -> Tree P (.one .elseBranch)
  | .conditional stmt => elseIf keyword stmt
  | .block body => elseBlock keyword body

/-- A conditional statement; `else` and its body come together. -/
def ifStmt?
    (keyword : Mark P)
    (init : Tree P (.maybe .simpleStmt))
    (condition : Expr P)
    (body : Block P)
    (elseKeyword : Option (Mark P))
    (elseBody : Option (ElseBody P)) : Except InvalidNode (IfStmt P) :=
  match elseKeyword, elseBody with
  | some elseKeyword, some elseBody =>
      .ok (ifStmt keyword init condition body (present (elseBranch elseKeyword elseBody)))
  | none, none => .ok (ifStmt keyword init condition body absent)
  | _, _ => .error .halfElse

/-- A range clause; the bound list and its operator come together. -/
def rangeClause?
    (list : Option (Tree P (.one .bindingList)))
    (op : Option (Mark P))
    (keyword : Mark P)
    (expr : Expr P) : Except InvalidNode (Tree P (.one .iteration)) :=
  match list, op with
  | some list, some op => .ok (rangeClause (present (binding list op)) keyword expr)
  | none, none => .ok (rangeClause absent keyword expr)
  | _, _ => .error .halfBinding

/-- A case of a select statement, which sends or receives. -/
def commCase?
    (keyword : Mark P) :
    SimpleStmt P -> Except InvalidNode (Tree P (.one (.caseLabel .comms)))
  | send channel arrow value => .ok (commCase keyword (send channel arrow value))
  | receive bound expr => .ok (commCase keyword (receive bound expr))
  | _ => .error .notCommunication

end Tree
end GoFront
