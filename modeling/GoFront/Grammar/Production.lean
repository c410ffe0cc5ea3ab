import GoFront.Grammar.Error
import GoFront.Grammar.Recovery

/-!
# Productions

A production is a description of how to read a phrase: what to look at, what to consume, what to
complain about and which other phrases to read. The phrases that can contain phrases of their own kind
are named by nonterminals, so that productions are finite values. Running a production threads a state
through its steps. A production that gives up has recorded an error before.
-/

namespace GoFront

/-- The braces of a literal and the elements between them. -/
structure LiteralBody (P : Type) where
  lBrace : Mark P
  elements : Tree P (.one .elementList)
  rBrace : Mark P

/-- The phrases that can contain phrases of their own kind. An expression is read down to a level of
binding. -/
inductive Nonterminal
  | type
  | expr (least : Precedence)
  | unary
  | literalBody
  | block
  | stmt
  | ifStmt
  deriving DecidableEq, Repr

/-- What reading a nonterminal yields. A type may be missing without an error. -/
def Nonterminal.Result (P : Type) : Nonterminal -> Type
  | type => Option (TypeExpr P)
  | expr _ | unary => Expr P
  | literalBody => LiteralBody P
  | block => Block P
  | stmt => Stmt P
  | ifStmt => IfStmt P

/-- A description of how to read a phrase. -/
inductive Production (P : Type) : Type -> Type 1
  /-- Yields a value and reads nothing. -/
  | pure {α : Type} (value : α) : Production P α
  /-- Reads one phrase and then another that depends on it. -/
  | bind {α β : Type}
      (first : Production P α)
      (next : α -> Production P β) : Production P β
  /-- Looks at the lexemes ahead. -/
  | look : Production P (Cursor P)
  /-- Tells whether the phrase stands in the header of a control statement. -/
  | header : Production P Bool
  /-- Consumes the next lexeme. -/
  | advance : Production P (Lexeme P)
  /-- Records an error at the next lexeme and goes on. -/
  | report (cause : SyntaxCause) : Production P Unit
  /-- Records an error at the next lexeme and gives up. -/
  | refuse {α : Type} (cause : SyntaxCause) : Production P α
  /-- Reads a phrase one level deeper. -/
  | nested {α : Type} (body : Production P α) : Production P α
  /-- Reads a phrase inside or outside the header of a control statement. -/
  | inHeader {α : Type} (inside : Bool) (body : Production P α) : Production P α
  /-- Reads a phrase; if it gives up, resumes behind it and yields nothing. -/
  | recovering {α : Type}
      (recovery : Recovery)
      (body : Production P α) : Production P (Option α)
  /-- Repeats a step from a starting value until it yields nothing. -/
  | iterate {α : Type}
      (step : α -> Production P (Option α))
      (start : α) : Production P α
  /-- Reads a nonterminal. -/
  | call (nonterminal : Nonterminal) : Production P (nonterminal.Result P)

instance {P : Type} : Monad (Production P) where
  pure := .pure
  bind := .bind

/-! ## Running productions -/

/-- What changes while lexemes are read. The latest error comes first. -/
structure ReadState (P : Type) where
  cursor : Cursor P
  depth : Nat
  inHeader : Bool
  errors : List (SyntaxError P)
  deriving DecidableEq, Repr

namespace ReadState

variable {P : Type}

/-- The state in front of all lexemes. -/
def start (lexemes : List (Lexeme P)) (stop : P) : ReadState P :=
  ⟨.start lexemes stop, 0, false, []⟩

/-- The state with one more error, at the next lexeme. -/
def record (state : ReadState P) (cause : SyntaxCause) : ReadState P :=
  { state with errors := ⟨cause, state.cursor.pos⟩ :: state.errors }

end ReadState

/-- How a run ends: with a value, by giving up, or because its allowance was used up. -/
inductive Outcome (P : Type) (α : Type)
  | done (value : α) (state : ReadState P)
  | gaveUp (state : ReadState P)
  | exhausted

namespace Outcome

variable {P α β : Type}

/-- Goes on with a value. -/
def bind (outcome : Outcome P α) (next : α -> ReadState P -> Outcome P β) : Outcome P β :=
  match outcome with
  | done value state => next value state
  | gaveUp state => gaveUp state
  | exhausted => exhausted

/-- Changes the state in which a run ends. -/
def mapState (outcome : Outcome P α) (change : ReadState P -> ReadState P) : Outcome P α :=
  match outcome with
  | done value state => done value (change state)
  | gaveUp state => gaveUp (change state)
  | exhausted => exhausted

end Outcome

/-- How nonterminals are read. -/
abbrev Reader (P : Type) :=
  (nonterminal : Nonterminal) -> ReadState P -> Outcome P (nonterminal.Result P)

/-- Repeats a step until it yields nothing, at most `allowance` times. -/
def Outcome.iterate {P α : Type} (step : α -> ReadState P -> Outcome P (Option α)) :
    (allowance : Nat) -> α -> ReadState P -> Outcome P α
  | 0, _, _ => .exhausted
  | allowance + 1, value, state =>
      (step value state).bind fun next state =>
        match next with
        | some value => iterate step allowance value state
        | none => .done value state

namespace Production

variable {P : Type}

/-- Runs a production. Phrases nest up to `limit` levels, a step is repeated at most `allowance`
times, and nonterminals are left to a reader. -/
def run (limit allowance : Nat) (reader : Reader P) :
    {α : Type} -> Production P α -> ReadState P -> Outcome P α
  | _, .pure value, state => .done value state
  | _, .bind first next, state =>
      (run limit allowance reader first state).bind fun value state =>
        run limit allowance reader (next value) state
  | _, .look, state => .done state.cursor state
  | _, .header, state => .done state.inHeader state
  | _, .advance, state =>
      .done state.cursor.peek { state with cursor := state.cursor.advance }
  | _, .report cause, state => .done () (state.record cause)
  | _, .refuse cause, state => .gaveUp (state.record cause)
  | _, .nested body, state =>
      if limit ≤ state.depth then .gaveUp (state.record (.nestingTooDeep limit))
      else
        (run limit allowance reader body { state with depth := state.depth + 1 }).mapState
          fun state => { state with depth := state.depth - 1 }
  | _, .inHeader inside body, state =>
      (run limit allowance reader body { state with inHeader := inside }).mapState
        fun final => { final with inHeader := state.inHeader }
  | _, .recovering recovery body, state =>
      match run limit allowance reader body state with
      | .done value state => .done (some value) state
      | .gaveUp final =>
          .done none
            { final with cursor := recovery.resume state.cursor.consumed final.cursor }
      | .exhausted => .exhausted
  | _, .iterate step start, state =>
      Outcome.iterate (fun value => run limit allowance reader (step value)) allowance start state
  | _, .call nonterminal, state => reader nonterminal state

/-! ## Terminals -/

/-- Consumes the next lexeme, which must have the given token. -/
def expect (token : Token) : Production P (Lexeme P) := do
  let cursor ← .look
  if cursor.token = token then .advance else .refuse (.unexpected cursor.token token)

/-- Consumes the next lexeme if it has the given token. -/
def eat? (token : Token) : Production P (Option (Lexeme P)) := do
  let cursor ← .look
  if cursor.token = token then
    let lexeme ← .advance
    pure (some lexeme)
  else pure none

/-- Reads a fixed token. -/
def mark (token : Token) : Production P (Mark P) := do
  let lexeme ← expect token
  pure ⟨token, lexeme.pos⟩

/-- Reads a fixed token if it comes next. -/
def mark? (token : Token) : Production P (Option (Mark P)) := do
  let lexeme ← eat? token
  pure (lexeme.map fun lexeme => ⟨token, lexeme.pos⟩)

/-- Reads the next token, whatever it is, as an operator. -/
def anyMark : Production P (Mark P) := do
  let lexeme ← .advance
  pure ⟨lexeme.token, lexeme.pos⟩

/-- A lexeme as a name. -/
def identOf (lexeme : Lexeme P) : Ident P :=
  ⟨lexeme.literal.getD "", lexeme.pos⟩

/-- Reads a name. -/
def ident : Production P (Ident P) := do
  let lexeme ← expect .ident
  pure (identOf lexeme)

/-- Reads a name if one comes next. -/
def ident? : Production P (Option (Ident P)) := do
  let lexeme ← eat? .ident
  pure (lexeme.map identOf)

/-- Reads the end of a statement, which may be missing before a closing parenthesis or brace. -/
def semicolon : Production P Unit := do
  let cursor ← .look
  if cursor.atAny [.rParen, .rBrace] then pure ()
  else
    let _ ← expect .semi
    pure ()

/-- Yields a constructed phrase, or records why its parts do not fit. -/
def build {α : Type} : Except InvalidNode α -> Production P α
  | .ok node => pure node
  | .error reason => .refuse (.invalidNode reason)

/-! ## Lists -/

/-- Repeats a step and collects what it yields until it yields nothing. -/
def many {α : Type} (step : Production P (Option α)) : Production P (List α) := do
  let items ← .iterate (fun items => do
    let item ← step
    pure (item.map (· :: items))) []
  pure items.reverse

/-- One or more items with commas between them. -/
def commaSeparated {α : Type} (item : Production P α) : Production P (List α) := do
  let first ← item
  let rest ← many do
    let comma ← eat? .comma
    if comma.isSome then
      let next ← item
      pure (some next)
    else pure none
  pure (first :: rest)

/-- More items, each behind a comma; the last comma may stand right before the closing token. -/
def commaTail {α : Type} (closer : Token) (item : Production P α) : Production P (List α) :=
  many do
    let comma ← eat? .comma
    let cursor ← .look
    if comma.isSome && cursor.token ≠ closer then
      let next ← item
      pure (some next)
    else pure none

/-- Items up to a closing token or the end of the input. An item is told whether it is the first, and
tells whether another may follow. -/
def itemsUntil {α : Type}
    (closer : Token)
    (item : (first : Bool) -> Production P (α × Bool)) : Production P (List α) := do
  let (items, _) ← .iterate (fun ((items, more) : List α × Bool) => do
    let cursor ← .look
    if more && !cursor.atAny [closer, .eof] then
      let (next, more) ← item items.isEmpty
      pure (some (next :: items, more))
    else pure none) ([], true)
  pure items.reverse

/-- An item and whether a comma follows it. -/
def withComma {α : Type} (item : Production P α) : Production P (α × Bool) := do
  let value ← item
  let comma ← eat? .comma
  pure (value, comma.isSome)

/-- An item and the end of its line, behind which another may follow. -/
def withSemicolon {α : Type} (item : Production P α) : Production P (α × Bool) := do
  let value ← item
  semicolon
  pure (value, true)

/-- Items for as long as a condition on what lies ahead holds. Failed items are left out. -/
def resuming {α : Type}
    (recovery : Recovery)
    (goesOn : Cursor P -> Bool)
    (item : Production P α) : Production P (List α) := do
  let items ← .iterate (fun items => do
    let cursor ← .look
    if goesOn cursor then
      let next ← .recovering recovery item
      pure (some (next.toList ++ items))
    else pure none) []
  pure items.reverse

end Production
end GoFront
