import GoFront.Grammar.Cursor

/-!
# Resuming after an error

When a declaration or a statement fails, reading resumes at a later lexeme. Between declarations that is
the next keyword that starts one. Between statements, regions in braces are skipped whole: a semicolon
or a closing brace counts only outside braces, a keyword only outside all brackets.
-/

namespace GoFront

/-- What is read when an error occurs. -/
inductive Recovery
  | decl
  | stmt
  deriving DecidableEq, Repr

namespace Recovery

variable {P : Type}

/-- The number of lexemes before the next one that can start a declaration. -/
def lexemesToDecl : List (Lexeme P) -> Nat
  | [] => 0
  | lexeme :: rest =>
      if lexeme.token = .kwImport || lexeme.token.startsDecl then 0
      else lexemesToDecl rest + 1

/-- The number of lexemes to pass before the next statement, inside a number of open braces and of
other open brackets. -/
def lexemesToStmt : (braces parens : Nat) -> List (Lexeme P) -> Nat
  | _, _, [] => 0
  | braces + 1, parens, lexeme :: rest =>
      match lexeme.token with
      | .lBrace => lexemesToStmt (braces + 2) parens rest + 1
      | .rBrace => lexemesToStmt braces parens rest + 1
      | _ => lexemesToStmt (braces + 1) parens rest + 1
  | 0, parens, lexeme :: rest =>
      match lexeme.token with
      | .lBrace => lexemesToStmt 1 parens rest + 1
      | .lParen | .lBrack => lexemesToStmt 0 (parens + 1) rest + 1
      | .rParen | .rBrack => lexemesToStmt 0 (parens - 1) rest + 1
      | .rBrace => 0
      | .semi => 1
      | token =>
          if parens = 0 && (token.startsDecl || token.startsStmt) then 0
          else lexemesToStmt 0 parens rest + 1

/-- The number of lexemes to pass before reading resumes. -/
def distance : Recovery -> List (Lexeme P) -> Nat
  | decl, lexemes => lexemesToDecl lexemes
  | stmt, lexemes => lexemesToStmt 0 0 lexemes

/-- The cursor where reading resumes after a failure of what began behind `start` lexemes. If nothing
was consumed, one lexeme is passed in any case. -/
def resume (recovery : Recovery) (start : Nat) (cursor : Cursor P) : Cursor P :=
  let cursor := if cursor.consumed = start then cursor.advance else cursor
  cursor.skip (recovery.distance cursor.ahead)

end Recovery
end GoFront
