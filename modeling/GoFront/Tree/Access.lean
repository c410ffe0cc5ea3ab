import GoFront.Tree.Construct

/-!
# Reading trees

Questions that tools ask about phrases: what a literal holds between its quotes, whether a parameter
list is variadic, which specs a declaration has.
-/

namespace GoFront

variable {P : Type}

namespace LitKind

/-- Whether literals of a kind are written between quotes. -/
def isQuoted : LitKind -> Bool
  | rune | string | rawString => true
  | int | float | imag => false

end LitKind

namespace BasicLit

/-- The text of a literal without its quotes. Escapes are left as they are. -/
def unquoted (literal : BasicLit P) : String :=
  if literal.kind.isQuoted && 2 ≤ literal.raw.utf8ByteSize then
    String.ofList literal.raw.toList.tail.dropLast
  else literal.raw

end BasicLit

namespace Tree

/-- Whether an expression needs no parentheses as an operand. -/
def isPrimary : Expr P -> Bool
  | binary .. | unary .. => false
  | _ => true

/-- The specs of a group, or the spec alone. -/
def members : Spec P -> List (Spec P)
  | groupSpecOf (groupSpec _ _ specs _) => specs.toList
  | spec => [spec]

/-- Whether a parameter has an ellipsis. -/
def isVariadicParam : Tree P (.one .param) -> Bool
  | param _ ellipsis _ => ellipsis.isSome

/-- Whether a parameter list ends in a variadic parameter. -/
def isVariadic : Tree P (.one .params) -> Bool
  | params _ entries _ => (entries.toList.getLast?).any isVariadicParam

/-- The number of names or expressions that are bound. -/
def boundCount : Tree P (.one .bindingList) -> Nat
  | boundNames names => names.length
  | boundExprs exprs => exprs.exprs.length

end Tree
end GoFront
