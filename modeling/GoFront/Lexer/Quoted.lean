import GoFront.Lexer.Error

/-!
# Quoted literals

An interpreted string or a rune is read up to its closing quote. Each character and each escape
sequence between the quotes counts as one unit. A line break is never part of such a literal: reading
stops before it. After a malformed escape, reading goes on behind the part of it that was well formed.
-/

namespace GoFront

open Text

/-- What follows a backslash: how many characters belong to the escape, and whether it is valid. -/
structure EscapeSequence where
  width : Nat
  valid : Bool
  deriving DecidableEq, Repr

namespace EscapeSequence

/-- Whether a number is a Unicode scalar value. -/
def isScalar (value : Nat) : Bool :=
  value < 0xD800 || 0xDFFF < value && value < 0x110000

/-- A numeric escape: `start` characters that announce it, then exactly `count` digits of the base,
whose value must be allowed. -/
def numeric
    (start count : Nat)
    (base : Base)
    (allowed : Nat -> Bool)
    (text : List Char) : EscapeSequence :=
  let digits := ((text.drop start).take count).takeWhile (isDigitOf base)
  ⟨start + digits.length, digits.length = count && allowed (digitsValue base digits)⟩

/-- The characters that form an escape on their own. -/
def letters : List Char := ['a', 'b', 'f', 'n', 'r', 't', 'v', '\\']

/-- The escape after a backslash, in a literal with the given quote. -/
def read (quote : Char) : List Char -> EscapeSequence
  | [] => ⟨0, false⟩
  | character :: rest =>
      if letters.contains character || character = quote then ⟨1, true⟩
      else if isDigitOf .octal character then
        numeric 0 3 .octal (fun value => value ≤ 255) (character :: rest)
      else if character = 'x' then numeric 1 2 .hexadecimal (fun _ => true) (character :: rest)
      else if character = 'u' then numeric 1 4 .hexadecimal isScalar (character :: rest)
      else if character = 'U' then numeric 1 8 .hexadecimal isScalar (character :: rest)
      else if character = '\n' then ⟨0, false⟩
      else ⟨1, false⟩

end EscapeSequence

/-- A literal read from behind its opening quote. -/
structure Quoted where
  text : List Char
  units : Nat
  closed : Bool
  escapesValid : Bool
  deriving DecidableEq, Repr

namespace Quoted

/-- A literal with one more character in front, which belongs to an escape. -/
def behind (character : Char) (literal : Quoted) : Quoted :=
  { literal with text := character :: literal.text }

/-- A literal with one more unit in front, of which the first character is given. -/
def behindUnit
    (character : Char)
    (valid : Bool)
    (literal : Quoted) : Quoted :=
  ⟨character :: literal.text, literal.units + 1, literal.closed, valid && literal.escapesValid⟩

/-- Reads a literal up to its closing quote, a line break or the end of the text. The first `escaped`
characters belong to an escape that has been counted already. -/
def read (quote : Char) : (escaped : Nat) -> List Char -> Quoted
  | _, [] => ⟨[], 0, false, true⟩
  | escaped + 1, character :: rest => (read quote escaped rest).behind character
  | 0, character :: rest =>
      if character = quote then ⟨[character], 0, true, true⟩
      else if character = '\n' then ⟨[], 0, false, true⟩
      else if character = '\\' then
        let escape := EscapeSequence.read quote rest
        (read quote escape.width rest).behindUnit character escape.valid
      else (read quote 0 rest).behindUnit character true

/-- The first fault of a literal. -/
def fault? (literal : Quoted) : Option LexCause :=
  if !literal.closed then some .unterminatedString
  else if !literal.escapesValid then some .invalidEscape
  else none

/-- The first fault of a rune, which holds exactly one unit. -/
def runeFault? (literal : Quoted) : Option LexCause :=
  literal.fault? <|> if literal.units = 1 then none else some .invalidRune

end Quoted
end GoFront
