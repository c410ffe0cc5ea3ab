import GoFront.Grammar.Statements

/-!
# Reading nonterminals

Each nonterminal is read by its rule. Since rules refer to nonterminals, reading needs an allowance: it
bounds how deep rules refer to each other and how often a rule repeats a step. Eight units for each
lexeme, and eight for the end of the input, are enough.
-/

namespace GoFront

variable {P : Type}

/-- The rule of a nonterminal. -/
def Nonterminal.rule : (nonterminal : Nonterminal) -> Production P (nonterminal.Result P)
  | type => Production.typeRule
  | expr least => Production.exprRule least
  | unary => Production.unaryRule
  | literalBody => Production.literalBodyRule
  | block => Production.blockRule
  | stmt => Production.stmtRule
  | ifStmt => Production.ifStmtRule

/-- Reads a nonterminal, with phrases nested up to `limit` levels, on an allowance. -/
def Nonterminal.read (limit : Nat) : (allowance : Nat) -> Reader P
  | 0, _, _ => .exhausted
  | allowance + 1, nonterminal, state =>
      nonterminal.rule.run limit allowance (Nonterminal.read limit allowance) state

namespace Production

/-- The allowance for a number of lexemes. -/
def allowance (lexemes : Nat) : Nat :=
  8 * (lexemes + 1)

/-- Reads a phrase from the start of a sequence of lexemes. -/
def readFrom {α : Type}
    (limit : Nat)
    (production : Production P α)
    (lexemes : List (Lexeme P))
    (stop : P) : Outcome P α :=
  let allowance := allowance lexemes.length
  production.run limit allowance (Nonterminal.read limit allowance) (.start lexemes stop)

end Production
end GoFront
