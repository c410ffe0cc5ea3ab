import GoFront.Lexer.Error
import GoFront.Token

/-!
# Numeric literals

The longest start of a text that has the outline of a number is split into its parts: base, digits,
fraction, exponent and the mark of an imaginary number. The outline tolerates every run of digits and
separators. Whether the parts form a literal is decided afterwards, and the first fault in reading
order is the one reported.
-/

namespace GoFront

open Text

/-- An exponent as written: its letter, at most one sign, and digits. -/
structure Exponent where
  letter : Char
  sign : List Char
  digits : List Char
  deriving DecidableEq, Repr

namespace Exponent

/-- The characters of an exponent. -/
def text (exponent : Exponent) : List Char :=
  exponent.letter :: exponent.sign ++ exponent.digits

end Exponent

/-- The parts of a number as written. Digits stand together with the separators among them. -/
structure Number where
  base : Base
  lead : List Char
  whole : List Char
  fraction : Option (List Char)
  exponent : Option Exponent
  imaginary : Bool
  deriving DecidableEq, Repr

namespace Number

/-- The characters of a number. -/
def text (number : Number) : List Char :=
  number.lead ++ number.whole
    ++ (number.fraction.map fun digits => '.' :: digits).getD []
    ++ (number.exponent.map Exponent.text).getD []
    ++ if number.imaginary then ['i'] else []

/-! ## Splitting -/

/-- The characters that continue a run of digits. The digits of a small base are judged later, so
every decimal digit continues its runs. -/
def continuesRun (base : Base) (character : Char) : Bool :=
  character == '_'
    || isDigitOf (if base = .hexadecimal then .hexadecimal else .decimal) character

/-- The longest run of digits and separators, and what follows it. -/
def run (base : Base) (text : List Char) : List Char × List Char :=
  text.span (continuesRun base)

/-- The fraction at the start of a text. A second point is left alone where `lonePoint` holds. -/
def splitFraction
    (base : Base)
    (lonePoint : Bool) :
    List Char -> Option (List Char) × List Char
  | '.' :: rest =>
      if lonePoint && rest.head? == some '.' then (none, '.' :: rest)
      else
        let (digits, rest) := run base rest
        (some digits, rest)
  | text => (none, text)

/-- The sign at the start of a text. -/
def splitSign : List Char -> List Char × List Char
  | '+' :: rest => (['+'], rest)
  | '-' :: rest => (['-'], rest)
  | text => ([], text)

/-- The exponent at the start of a text, opened by one of two letters. -/
def splitExponent (lower upper : Char) : List Char -> Option Exponent × List Char
  | letter :: rest =>
      if letter = lower || letter = upper then
        let (sign, rest) := splitSign rest
        let (digits, rest) := run .decimal rest
        (some ⟨letter, sign, digits⟩, rest)
      else (none, letter :: rest)
  | [] => (none, [])

/-- The mark of an imaginary number at the start of a text. -/
def splitImaginary : List Char -> Bool × List Char
  | 'i' :: rest => (true, rest)
  | text => (false, text)

/-- The base announced at the start of a text, with the characters that announce it. -/
def splitBase : List Char -> Base × List Char × List Char
  | '0' :: letter :: rest =>
      if letter = 'x' || letter = 'X' then (.hexadecimal, ['0', letter], rest)
      else if letter = 'b' || letter = 'B' then (.binary, ['0', letter], rest)
      else if letter = 'o' || letter = 'O' then (.octal, ['0', letter], rest)
      else (.decimal, [], '0' :: letter :: rest)
  | text => (.decimal, [], text)

/-- The number at the start of a text, and what follows it. -/
def split (text : List Char) : Number × List Char :=
  let (base, lead, rest) := splitBase text
  let (whole, rest) := run base rest
  let (fraction, rest) :=
    match base with
    | .decimal => splitFraction .decimal true rest
    | .hexadecimal => splitFraction .hexadecimal false rest
    | .binary | .octal => (none, rest)
  let (exponent, rest) :=
    match base with
    | .decimal => splitExponent 'e' 'E' rest
    | .hexadecimal => splitExponent 'p' 'P' rest
    | .binary | .octal => (none, rest)
  let (imaginary, rest) := splitImaginary rest
  (⟨base, lead, whole, fraction, exponent, imaginary⟩, rest)

/-! ## Judging -/

/-- Whether a number is written without fraction, exponent and imaginary mark. -/
def isInteger (number : Number) : Bool :=
  number.fraction.isNone && number.exponent.isNone && !number.imaginary

/-- The token of a number. -/
def token (number : Number) : Token :=
  if number.imaginary then .imagLit
  else if number.isInteger then .intLit
  else .floatLit

/-- The base in which the whole digits count: an integer with a leading zero is octal. -/
def digitBase (number : Number) : Base :=
  if number.base = .decimal && number.isInteger && number.whole.head? == some '0' then .octal
  else number.base

/-- Whether a separator stands last or before another separator. -/
def hasLooseSeparator : List Char -> Bool
  | [] => false
  | '_' :: [] => true
  | '_' :: '_' :: _ => true
  | _ :: rest => hasLooseSeparator rest

/-- Whether a separator stands first, last or before another separator. -/
def hasOuterSeparator (digits : List Char) : Bool :=
  digits.head? == some '_' || hasLooseSeparator digits

/-- The number of digits in a run, separators left out. -/
def digitCount (digits : List Char) : Nat :=
  digits.countP fun character => character ≠ '_'

/-- The first character of a run that is no digit of the base. -/
def strayDigit? (base : Base) (digits : List Char) : Option Char :=
  digits.find? fun character => character ≠ '_' && !isDigitOf base character

/-- What can be wrong with a number, in reading order. -/
def faults (number : Number) : List (Option LexCause) :=
  let fraction := number.fraction.getD []
  let exponent := (number.exponent.map Exponent.digits).getD []
  [ if hasLooseSeparator number.whole then some .misplacedSeparator else none,
    (strayDigit? number.digitBase number.whole).map (.invalidDigit · number.digitBase),
    if hasOuterSeparator fraction then some .misplacedSeparator else none,
    if hasOuterSeparator exponent then some .misplacedSeparator else none,
    if number.exponent.isSome && digitCount exponent = 0 then some .missingExponent else none,
    if number.base = .hexadecimal && number.fraction.isSome && number.exponent.isNone then
      some .missingHexExponent
    else none,
    if digitCount number.whole + digitCount fraction = 0 then some (.missingDigits number.base)
    else none ]

/-- The first fault of a number. -/
def fault? (number : Number) : Option LexCause :=
  number.faults.findSome? id

end Number
end GoFront
