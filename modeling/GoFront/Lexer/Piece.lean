import GoFront.Lexer.Number
import GoFront.Lexer.Quoted
import GoFront.Text.DecimalDigit
import GoFront.Text.Letter

/-!
# Cutting a text into pieces

A text is cut into pieces from left to right: blanks, line breaks, comments, tokens and faulty
stretches. Each piece is as long as it can be, and the pieces together are the text. Positions and
inserted semicolons are the business of the lexeme stream.
-/

namespace GoFront

open Text

/-- What a piece of text is. -/
inductive PieceKind
  | blank
  | newline
  | byteOrderMark
  | token (token : Token)
  | fault (cause : LexCause)
  deriving DecidableEq, Repr

/-- A stretch of text and what it is. -/
structure Piece where
  kind : PieceKind
  text : List Char
  deriving DecidableEq, Repr

namespace Piece

/-- The byte order mark. -/
def byteOrderMark : Char := '\uFEFF'

/-- Whether a character separates lexemes without ending a line. -/
def isBlank (character : Char) : Bool :=
  character = ' ' || character = '\t' || character = '\r'

/-- Whether a character can start an identifier. -/
def startsWord (character : Char) : Bool :=
  character = '_' || isLetter character

/-- Whether a character can continue an identifier. -/
def continuesWord (character : Char) : Bool :=
  startsWord character || isDecimalDigit character

/-- A token, unless there is a fault. -/
def ofFault? (token : Token) (text : List Char) : Option LexCause -> Piece
  | none => ⟨.token token, text⟩
  | some cause => ⟨.fault cause, text⟩

/-- A word: a keyword if it is spelled like one, an identifier otherwise. -/
def word (text : List Char) : Piece :=
  ⟨.token ((Token.keyword? (String.ofList text)).getD .ident), text⟩

/-- A number at the start of a text. -/
def number (text : List Char) : Piece :=
  let number := (Number.split text).1
  ofFault? number.token number.text number.fault?

/-- The text of a comment behind its opening, up to the first closing mark. -/
def commentBody? : List Char -> Option (List Char)
  | [] => none
  | '*' :: '/' :: _ => some ['*', '/']
  | character :: rest => (commentBody? rest).map (character :: ·)

/-- A comment between marks, from behind its opening. -/
def blockComment (text : List Char) : Piece :=
  match commentBody? text with
  | some body => ⟨.token .blockComment, '/' :: '*' :: body⟩
  | none => ⟨.fault .unclosedComment, '/' :: '*' :: text⟩

/-- A raw string, from behind its opening quote: everything up to the next such quote. -/
def rawString (text : List Char) : Piece :=
  let body := text.takeWhile (· ≠ '\x60')
  if body.length < text.length then ⟨.token .rawStringLit, '\x60' :: body ++ ['\x60']⟩
  else ⟨.fault .unterminatedString, '\x60' :: body⟩

/-- An interpreted string, from behind its opening quote. -/
def interpretedString (text : List Char) : Piece :=
  let literal := Quoted.read '"' 0 text
  ofFault? .stringLit ('"' :: literal.text) literal.fault?

/-- A rune, from behind its opening quote. -/
def rune (text : List Char) : Piece :=
  let literal := Quoted.read '\'' 0 text
  ofFault? .runeLit ('\'' :: literal.text) literal.runeFault?

/-- The operator with the longest spelling that starts a text. -/
def operator? (text : List Char) : Option Token :=
  Token.operators.find? fun token => token.spelling.toList.isPrefixOf text

/-- An operator, or else a single character that has no meaning. -/
def operator (first : Char) (rest : List Char) : Piece :=
  match operator? (first :: rest) with
  | some token => ⟨.token token, token.spelling.toList⟩
  | none => ⟨.fault (.unknownCharacter first), [first]⟩

/-- The piece at the start of a text with the given first character. -/
def cut (first : Char) (rest : List Char) : Piece :=
  if first = byteOrderMark then ⟨.byteOrderMark, [first]⟩
  else if first = '\n' then ⟨.newline, [first]⟩
  else if isBlank first then ⟨.blank, first :: rest.takeWhile isBlank⟩
  else if first = '/' && rest.head? = some '/' then
    ⟨.token .lineComment, first :: rest.takeWhile (· ≠ '\n')⟩
  else if first = '/' && rest.head? = some '*' then blockComment rest.tail
  else if startsWord first then word (first :: rest.takeWhile continuesWord)
  else if first.isDigit || (first = '.' && rest.head?.any Char.isDigit) then
    number (first :: rest)
  else if first = '\x60' then rawString rest
  else if first = '"' then interpretedString rest
  else if first = '\'' then rune rest
  else operator first rest

/-- The pieces of a text, from behind the first `covered` characters, which belong to a piece that
has been cut already. -/
def cutFrom : (covered : Nat) -> List Char -> List Piece
  | _, [] => []
  | covered + 1, _ :: rest => cutFrom covered rest
  | 0, first :: rest =>
      let piece := cut first rest
      piece :: cutFrom (piece.text.length - 1) rest

/-- The pieces of a text. -/
def all (text : List Char) : List Piece :=
  cutFrom 0 text

end Piece
end GoFront
