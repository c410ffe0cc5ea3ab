import GoFront.Lexeme
import GoFront.Lexer.Piece

/-!
# The lexeme stream

The pieces of a text become a stream of lexemes and errors in source order. A line break after a
lexeme that ends a statement becomes a semicolon, and so does the end of the text. Blanks and comments
leave that pending; an error cancels it. A comment that spans lines counts as a line break, and its
semicolon follows the comment.
-/

namespace GoFront

/-- The number of bytes of a stretch of text. -/
def byteCount : List Char -> Nat
  | [] => 0
  | character :: rest => character.utf8Size + byteCount rest

/-- A byte of the text, by its offset and its line. -/
structure Place where
  offset : Nat
  line : Nat
  deriving DecidableEq, Repr

namespace Place

/-- The start of a text. -/
def start : Place := ⟨0, 1⟩

/-- The place behind a stretch of text. -/
def after (place : Place) (text : List Char) : Place :=
  ⟨place.offset + byteCount text, place.line + text.count '\n'⟩

/-- A place as a source position. -/
def position (filename : Option String) (place : Place) : Position :=
  .clamped place.offset place.line filename

end Place

/-- What the lexer reports: lexemes and errors. -/
inductive Event (P : Type)
  | lexeme (lexeme : Lexeme P)
  | error (error : LexError P)
  deriving DecidableEq, Repr

namespace Event

variable {P : Type}

/-- The same event at another place. -/
def map {Q : Type} (move : P -> Q) : Event P -> Event Q
  | lexeme it => lexeme (it.map move)
  | error it => error (it.map move)

/-- The lexeme of an event. -/
def lexeme? : Event P -> Option (Lexeme P)
  | lexeme it => some it
  | error _ => none

/-- The error of an event. -/
def error? : Event P -> Option (LexError P)
  | lexeme _ => none
  | error it => some it

/-- An inserted semicolon. -/
def semicolon (place : P) : Event P :=
  lexeme ⟨.semi, place, none⟩

/-- The end of the text. -/
def stop (place : P) : Event P :=
  lexeme ⟨.eof, place, none⟩

end Event

namespace Piece

/-- A token as it enters the stream; only identifiers, literals and comments carry their text. -/
def lexeme (place : Place) (token : Token) (text : List Char) : Lexeme Place :=
  let literal :=
    if token.isLiteral || token.isComment then some (String.ofList text) else none
  ⟨token, place, literal⟩

/-- An error in a piece that starts at the given place. -/
def error (place : Place) (cause : LexCause) (text : List Char) : LexError Place :=
  ⟨cause, if cause.reportedAtEnd then place.after text else place⟩

/-- What a piece at a place adds to the stream, and whether a line break behind it would end a
statement. `due` tells whether one in front of it would have. -/
def events (place : Place) (due : Bool) (piece : Piece) : List (Event Place) × Bool :=
  match piece.kind with
  | .blank => ([], due)
  | .newline => (if due then [.semicolon place] else [], false)
  | .byteOrderMark =>
      if place.offset = 0 then ([], due)
      else ([.error ⟨.unknownCharacter byteOrderMark, place⟩], false)
  | .fault cause => ([.error (error place cause piece.text)], false)
  | .token token =>
      let written := [Event.lexeme (lexeme place token piece.text)]
      if token.isComment then
        if due && piece.text.contains '\n' then
          (written ++ [.semicolon (place.after (piece.text.takeWhile (· ≠ '\n')))], false)
        else (written, due)
      else (written, token.endsStatement)

/-- The stream of consecutive pieces, without the end of the text. -/
def stream : (place : Place) -> (due : Bool) -> List Piece -> List (Event Place)
  | place, due, [] => if due then [.semicolon place] else []
  | place, due, piece :: rest =>
      let (events, due) := piece.events place due
      events ++ stream (place.after piece.text) due rest

end Piece

/-! ## Lexing a text -/

/-- The result of lexing a whole text. The end of the text is not among the lexemes. -/
structure Lexed (P : Type) where
  lexemes : List (Lexeme P)
  stop : P
  errors : List (LexError P)
  deriving DecidableEq, Repr

namespace Lexed

variable {P : Type}

/-- Whether the text has lexical errors. -/
def hasErrors (lexed : Lexed P) : Bool :=
  !lexed.errors.isEmpty

/-- The lexemes with the end of the text behind them. -/
def stream (lexed : Lexed P) : List (Lexeme P) :=
  lexed.lexemes ++ [⟨.eof, lexed.stop, none⟩]

/-- The lexemes that the grammar sees. -/
def significant (lexed : Lexed P) : List (Lexeme P) :=
  lexed.lexemes.filter fun lexeme => !lexeme.token.isComment

/-- The comments of the text. -/
def comments (lexed : Lexed P) : List (Lexeme P) :=
  lexed.lexemes.filter fun lexeme => lexeme.token.isComment

end Lexed

/-- The stream of a text, without its end. -/
def streamOf (text : List Char) : List (Event Place) :=
  Piece.stream .start false (Piece.all text)

/-- The lexemes and errors of a text. -/
def lex (source : String) (filename : Option String) : Lexed Position :=
  let text := source.toList
  let position := Place.position filename
  let events := (streamOf text).map (Event.map position)
  { lexemes := events.filterMap Event.lexeme?
    stop := position (Place.start.after text)
    errors := events.filterMap Event.error? }

/-! ## Lexing step by step -/

/-- A lexer that has given out a part of the stream. Errors are collected as they are passed over. -/
structure Lexer where
  ahead : List (Event Position)
  errors : List (LexError Position)
  deriving DecidableEq, Repr

namespace Lexer

/-- A lexer at the start of a text. -/
def ofSource (source : String) (filename : Option String) : Lexer :=
  let text := source.toList
  let events := streamOf text ++ [.stop (Place.start.after text)]
  ⟨events.map (Event.map (Place.position filename)), []⟩

/-- Passes over events up to the next lexeme. -/
def nextFrom :
    List (LexError Position) -> List (Event Position) -> Option (Lexeme Position) × Lexer
  | errors, [] => (none, ⟨[], errors⟩)
  | errors, .lexeme lexeme :: ahead => (some lexeme, ⟨ahead, errors⟩)
  | errors, .error error :: ahead => nextFrom (errors ++ [error]) ahead

/-- The next lexeme; there is none behind the end of the text. -/
def next (lexer : Lexer) : Option (Lexeme Position) × Lexer :=
  nextFrom lexer.errors lexer.ahead

/-- All remaining lexemes. -/
def rest (lexer : Lexer) : List (Lexeme Position) × Lexer :=
  (lexer.ahead.filterMap Event.lexeme?,
    ⟨[], lexer.errors ++ lexer.ahead.filterMap Event.error?⟩)

/-- Whether errors have been collected. -/
def hasErrors (lexer : Lexer) : Bool :=
  !lexer.errors.isEmpty

/-- The collected errors, which are then forgotten. -/
def takeErrors (lexer : Lexer) : List (LexError Position) × Lexer :=
  (lexer.errors, { lexer with errors := [] })

end Lexer
end GoFront
