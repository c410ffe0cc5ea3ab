import GoFront.Position
import GoFront.Text.Digit
import GoFront.Text.Escape

/-!
# Lexical errors

A lexical error is a cause at a place. Most errors stand where the faulty text begins. A literal or
comment that is never closed is reported where the search for its end gave up.
-/

namespace GoFront

/-- What can be wrong with a piece of text. -/
inductive LexCause
  | invalidToken
  | unknownCharacter (character : Char)
  | unterminatedString
  | unclosedComment
  | invalidEscape
  | invalidRune
  | misplacedSeparator
  | invalidDigit (digit : Char) (base : Text.Base)
  | missingDigits (base : Text.Base)
  | missingExponent
  | missingHexExponent
  deriving DecidableEq, Repr

namespace LexCause

/-- Whether the error stands at the end of the faulty text and not at its start. -/
def reportedAtEnd : LexCause -> Bool
  | unterminatedString | unclosedComment => true
  | _ => false

/-- The wording of a cause. -/
def message : LexCause -> String
  | invalidToken => "invalid token"
  | unknownCharacter character => s!"unknown character {Text.quotedChar character}"
  | unterminatedString => "unterminated string"
  | unclosedComment => "unclosed comment"
  | invalidEscape => "invalid escape sequence"
  | invalidRune => "rune literal must contain exactly one character"
  | misplacedSeparator => "'_' must separate successive digits"
  | invalidDigit digit base =>
      s!"invalid digit {Text.quotedChar digit} in {base.name} literal"
  | missingDigits base => s!"{base.name} literal has no digits"
  | missingExponent => "exponent has no digits"
  | missingHexExponent => "hexadecimal mantissa requires a 'p' exponent"

end LexCause

/-- A cause at a place. -/
structure LexError (P : Type) where
  cause : LexCause
  pos : P
  deriving DecidableEq, Repr

namespace LexError

variable {P : Type}

/-- The same error at another place. -/
def map {Q : Type} (move : P -> Q) (error : LexError P) : LexError Q :=
  ⟨error.cause, move error.pos⟩

/-- Position and wording. -/
def display (error : LexError Position) : String :=
  s!"{error.pos.text} LexError: {error.cause.message}"

end LexError
end GoFront
