/-!
# Digits of a base

Numeric literals and escape sequences are written with ASCII digits. A base fixes which characters are
digits and what they are worth.
-/

namespace GoFront
namespace Text

/-- The bases in which numbers are written. -/
inductive Base
  | binary | octal | decimal | hexadecimal
  deriving DecidableEq, Repr

namespace Base

/-- The number of digits of a base. -/
def radix : Base -> Nat
  | binary => 2
  | octal => 8
  | decimal => 10
  | hexadecimal => 16

/-- The name of a base. -/
def name : Base -> String
  | binary => "binary"
  | octal => "octal"
  | decimal => "decimal"
  | hexadecimal => "hexadecimal"

end Base

/-- The worth of a hexadecimal digit. -/
def hexValue? (character : Char) : Option Nat :=
  if '0' ≤ character && character ≤ '9' then some (character.toNat - '0'.toNat)
  else if 'a' ≤ character && character ≤ 'f' then some (character.toNat - 'a'.toNat + 10)
  else if 'A' ≤ character && character ≤ 'F' then some (character.toNat - 'A'.toNat + 10)
  else none

/-- The worth of a digit in a base. -/
def digitValue? (base : Base) (character : Char) : Option Nat :=
  (hexValue? character).filter fun value => value < base.radix

/-- Whether a character is a digit of a base. -/
def isDigitOf (base : Base) (character : Char) : Bool :=
  (digitValue? base character).isSome

/-- The number written by digits of a base, most significant first. -/
def digitsValue (base : Base) (digits : List Char) : Nat :=
  digits.foldl (fun value digit => value * base.radix + (digitValue? base digit).getD 0) 0

end Text
end GoFront
