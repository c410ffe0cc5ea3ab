import GoFront.Lexeme

/-!
# Cursors

A cursor stands between the lexemes that have been consumed and those ahead. Behind the last lexeme it
sees the end of the input for ever. Comments are not among the lexemes.
-/

namespace GoFront

/-- The lexemes ahead, the number of lexemes consumed, and the place of the end. -/
structure Cursor (P : Type) where
  consumed : Nat
  ahead : List (Lexeme P)
  stop : P
  deriving DecidableEq, Repr

namespace Cursor

variable {P : Type}

/-- The cursor in front of all lexemes. -/
def start (lexemes : List (Lexeme P)) (stop : P) : Cursor P :=
  ⟨0, lexemes, stop⟩

/-- The lexeme that stands for the end of the input. -/
def finalLexeme (cursor : Cursor P) : Lexeme P :=
  ⟨.eof, cursor.stop, none⟩

/-- The next lexeme. -/
def peek (cursor : Cursor P) : Lexeme P :=
  cursor.ahead.headD cursor.finalLexeme

/-- The token of the next lexeme. -/
def token (cursor : Cursor P) : Token :=
  cursor.peek.token

/-- The place of the next lexeme. -/
def pos (cursor : Cursor P) : P :=
  cursor.peek.pos

/-- The token of the lexeme behind `count` others. -/
def tokenAfter (cursor : Cursor P) (count : Nat) : Token :=
  (cursor.ahead[count]?.getD cursor.finalLexeme).token

/-- Whether the next token is one of several. -/
def atAny (cursor : Cursor P) (tokens : List Token) : Bool :=
  tokens.contains cursor.token

/-- Moves past a number of lexemes. -/
def skip (cursor : Cursor P) (count : Nat) : Cursor P :=
  { cursor with
    consumed := cursor.consumed + min count cursor.ahead.length
    ahead := cursor.ahead.drop count }

/-- Moves past the next lexeme; the end of the input stays ahead. -/
def advance (cursor : Cursor P) : Cursor P :=
  match cursor.ahead with
  | [] => cursor
  | _ :: rest => { cursor with consumed := cursor.consumed + 1, ahead := rest }

/-! ## Looking further ahead -/

/-- The number of open brackets behind a token: an opening one adds to it, a closing one takes away
from it, and it never falls below zero. -/
def bracketDepth (depth : Nat) : Token -> Nat
  | .lParen | .lBrack | .lBrace => depth + 1
  | .rParen | .rBrack | .rBrace => depth - 1
  | _ => depth

/-- The number of open braces behind a token. -/
def braceDepth (depth : Nat) : Token -> Nat
  | .lBrace => depth + 1
  | .rBrace => depth - 1
  | _ => depth

/-- Whether the needles occur in their order, outside braces, before a terminator that stands outside
brackets. -/
def occurIn
    (terminator : Token) : (needles : List Token) -> (depth braces : Nat) -> List (Lexeme P) -> Bool
  | [], _, _, _ => true
  | _ :: _, _, _, [] => false
  | needle :: needles, depth, braces, lexeme :: rest =>
      if lexeme.token = terminator && depth = 0 then false
      else
        let remaining :=
          if lexeme.token = needle && braces = 0 then needles else needle :: needles
        occurIn terminator remaining (bracketDepth depth lexeme.token)
          (braceDepth braces lexeme.token) rest

/-- Whether the needles lie ahead, in their order and outside braces, before the terminator. -/
def occurBefore
    (cursor : Cursor P)
    (terminator : Token)
    (needles : List Token) : Bool :=
  occurIn terminator needles 0 0 cursor.ahead

/-- Whether a token in `followers` comes right behind the bracket that closes the first bracket of its
kind. Only brackets of that kind are counted. -/
def closesBefore
    (opener closer : Token)
    (followers : List Token) : (depth : Nat) -> List (Lexeme P) -> Bool
  | _, [] => false
  | depth, lexeme :: rest =>
      if lexeme.token = opener then closesBefore opener closer followers (depth + 1) rest
      else if lexeme.token = closer then
        if depth ≤ 1 then
          followers.contains ((rest.head?.map Lexeme.token).getD .eof)
        else closesBefore opener closer followers (depth - 1) rest
      else closesBefore opener closer followers depth rest

/-- Whether a token in `followers` comes right behind the square bracket that closes the next one. -/
def brackFollowedBy (cursor : Cursor P) (followers : List Token) : Bool :=
  closesBefore .lBrack .rBrack followers 0 cursor.ahead

end Cursor
end GoFront
