import GoFront.Grammar.Error
import GoFront.Lexer.Error

/-!
# Diagnostics

What reading a source text complains about: lexical errors, or, if there are none, syntax errors.
-/

namespace GoFront

/-- A complaint about a source text. -/
inductive Diagnostic
  | lexical (error : LexError Position)
  | grammatical (error : SyntaxError Position)
  deriving DecidableEq, Repr

namespace Diagnostic

/-- The name of the kind of complaint. -/
def kindName : Diagnostic -> String
  | lexical _ => "Lex"
  | grammatical _ => "Parse"

/-- Where the complaint stands. -/
def pos : Diagnostic -> Position
  | lexical error => error.pos
  | grammatical error => error.pos

/-- The wording of the complaint. -/
def message : Diagnostic -> String
  | lexical error => error.cause.message
  | grammatical error => error.cause.message

/-- Position, kind and wording. -/
def display : Diagnostic -> String
  | lexical error => error.display
  | grammatical error => error.display

/-- Complaints on lines of their own. -/
def report (diagnostics : List Diagnostic) : String :=
  String.join (diagnostics.map fun diagnostic => diagnostic.display ++ "\n")

end Diagnostic
end GoFront
