import GoFront.Position
import GoFront.Text.Escape
import GoFront.Token

/-!
# Lexemes

A lexeme is a token at a place. Places are a parameter: the lexer uses source positions, and the
grammar never looks at them.
-/

namespace GoFront

/-- A token at a place, with its own text when the token does not determine it. -/
structure Lexeme (P : Type) where
  token : Token
  pos : P
  literal : Option String
  deriving DecidableEq, Repr

namespace Lexeme

variable {P : Type}

/-- The text of a lexeme: its own text, or else the spelling of its token. -/
def text (lexeme : Lexeme P) : String :=
  lexeme.literal.getD lexeme.token.spelling

/-- The same lexeme at another place. -/
def map {Q : Type} (move : P -> Q) (lexeme : Lexeme P) : Lexeme Q :=
  ⟨lexeme.token, move lexeme.pos, lexeme.literal⟩

/-- Position and token name, then the escaped text if the lexeme has its own, or the spelling of an
operator. -/
def display (lexeme : Lexeme Position) : String :=
  let head := s!"{lexeme.pos.text} {lexeme.token.name}"
  match lexeme.literal with
  | some literal => s!"{head} {Text.quotedString literal}"
  | none =>
      if lexeme.token.isOperator then s!"{head} {lexeme.token.spelling}" else head

end Lexeme
end GoFront
