import GoFront.Tree.Basic

/-!
# Types read as expressions

Where an expression is expected, a type may stand as well, and some types look like expressions: names,
qualified names, instantiations, pointers and types in parentheses. Such an expression can be read as
the type that the same lexemes would form.
-/

namespace GoFront
namespace Tree

variable {P : Type}

/-- A named type with arguments, if it has none yet. -/
def withTypeArgs? (args : Tree P (.one .typeArgs)) : TypeExpr P -> Option (TypeExpr P)
  | namedType (typeName package name absent) =>
      some (namedType (typeName package name (present args)))
  | _ => none

/-- A phrase read as a type, which only an expression can be. -/
def readType? : {slot : Slot} -> Tree P slot -> Option (TypeExpr P)
  | _, typeOperand type => some type
  | _, ident name => some (namedType (typeName none name absent))
  | _, selector (ident package) _ name => some (namedType (typeName (some package) name absent))
  | _, index base lBrack arg rBrack => do
      let arg ← arg.readType?
      let base ← base.readType?
      withTypeArgs? (typeArgs lBrack (typeList (cons arg nil)) rBrack) base
  | _, instantiation base args => do
      let base ← base.readType?
      withTypeArgs? args base
  | _, unary op operand =>
      if op.token = .star then do
        let elem ← operand.readType?
        some (pointerType op elem)
      else none
  | _, group lParen inner rParen => do
      let inner ← inner.readType?
      some (parenType lParen inner rParen)
  | _, _ => none

end Tree
end GoFront
