import GoFront.Text.GraphemeExtend
import GoFront.Text.Printable

/-!
# Escaped text

Diagnostics show characters and strings between quotes. The quote itself, the backslash and a few
control characters have short escapes. A character that is not printable, or that would combine with
its neighbour, is written by its code point in lowercase hexadecimal. All others stand for themselves.
-/

namespace GoFront
namespace Text

/-- A character written by its code point, such as `\u{301}`. -/
def codePointEscape (character : Char) : List Char :=
  ['\\', 'u', '\x7b'] ++ Nat.toDigits 16 character.toNat ++ ['\x7d']

/-- A character as it stands between two of the given quotes. -/
def escape (quote character : Char) : List Char :=
  if character = quote then ['\\', character]
  else match character with
    | '\x00' => ['\\', '0']
    | '\t' => ['\\', 't']
    | '\r' => ['\\', 'r']
    | '\n' => ['\\', 'n']
    | '\\' => ['\\', '\\']
    | _ =>
        if isPrintable character && !isGraphemeExtend character then [character]
        else codePointEscape character

/-- A character between single quotes. -/
def quotedChar (character : Char) : String :=
  String.ofList ('\'' :: escape '\'' character ++ ['\''])

/-- A string between double quotes. -/
def quotedString (text : String) : String :=
  String.ofList ('"' :: text.toList.flatMap (escape '"') ++ ['"'])

end Text
end GoFront
