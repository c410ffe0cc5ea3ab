import GoFront.Tree.Construct

/-!
# Syntax errors

A syntax error is a cause at the place of the lexeme where the grammar gave up.
-/

namespace GoFront

/-- The parts of a header that have to be expressions. -/
inductive HeaderPart
  | ifCondition | forCondition | switchTag
  deriving DecidableEq, Repr

namespace HeaderPart

/-- The name of a part of a header. -/
def name : HeaderPart -> String
  | ifCondition => "if condition"
  | forCondition => "for condition"
  | switchTag => "switch tag"

end HeaderPart

/-- What can be wrong with a sequence of lexemes. -/
inductive SyntaxCause
  | unexpected (found expected : Token)
  | trailing (found : Token)
  | declExpected (found : Token)
  | nestingTooDeep (limit : Nat)
  | typeExpected (found : Token)
  | stringExpected (found : Token)
  | operandExpected (found : Token)
  | literalTypeExpected
  | elementCommaExpected
  | argumentCommaExpected
  | typeArgumentExpected
  | middleIndexMissing
  | finalIndexMissing
  | selectorExpected (found : Token)
  | emptyTypeArgs
  | misplacedEllipsis
  | mixedParams
  | emptyTypeParams
  | stmtExpected (found : Token)
  | labelExpected
  | nameExpectedInDefinition
  | singleExprExpected
  | callExpected
  | conditionMissing
  | notAnExpr (part : HeaderPart)
  | malformedElse
  | typeGuardExpected
  | caseExpected (found : Token)
  | invalidNode (reason : InvalidNode)
  deriving DecidableEq, Repr

namespace SyntaxCause

/-- The wording of a cause. -/
def message : SyntaxCause -> String
  | unexpected found expected =>
      s!"unexpected {found.display}, expected {expected.display}"
  | trailing found => s!"unexpected {found.display} after declaration"
  | declExpected found => s!"declaration expected, got {found.display}"
  | nestingTooDeep limit => s!"nesting too deep (maximum {limit} levels)"
  | typeExpected found => s!"type expected, got {found.display}"
  | stringExpected found => s!"unexpected {found.display}, expected string literal"
  | operandExpected found => s!"unexpected {found.display} in operand expression"
  | literalTypeExpected => "composite literal type expected"
  | elementCommaExpected => "comma expected in element list"
  | argumentCommaExpected => "comma expected in argument list"
  | typeArgumentExpected => "type argument expected"
  | middleIndexMissing => "middle index required in 3-index slice"
  | finalIndexMissing => "final index required in 3-index slice"
  | selectorExpected found =>
      s!"expected selector or type assertion, got {found.display}"
  | emptyTypeArgs => "type arguments cannot be empty"
  | misplacedEllipsis => "can only use ... with final parameter in list"
  | mixedParams => "mixed named and unnamed parameters"
  | emptyTypeParams => "empty type parameter list"
  | stmtExpected found => s!"unrecognised statement {found.display}"
  | labelExpected => "label expected"
  | nameExpectedInDefinition => "non-name on left side of \":=\""
  | singleExprExpected => "expected single expression instead of an expression list"
  | callExpected => "call expression expected"
  | conditionMissing => "missing condition in if statement"
  | notAnExpr part => s!"{part.name} must be an expression"
  | malformedElse => "malformed else branch"
  | typeGuardExpected => "type switch guard expected"
  | caseExpected found => s!"case expected, got {found.display}"
  | invalidNode reason => reason.message

end SyntaxCause

/-- A cause at a place. -/
structure SyntaxError (P : Type) where
  cause : SyntaxCause
  pos : P
  deriving DecidableEq, Repr

namespace SyntaxError

variable {P : Type}

/-- The same error at another place. -/
def map {Q : Type} (move : P -> Q) (error : SyntaxError P) : SyntaxError Q :=
  ⟨error.cause, move error.pos⟩

/-- Position and wording. -/
def display (error : SyntaxError Position) : String :=
  s!"{error.pos.text} ParseError: {error.cause.message}"

end SyntaxError
end GoFront
