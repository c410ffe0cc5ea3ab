import GoFront.Proofs.Reading.Contexts

/-!
# First tokens

A phrase that is read without errors begins with one of the tokens that can start it. None of them
separates phrases or closes a bracket, but for the semicolon that is an empty statement.
-/

namespace GoFront

variable {P : Type}

namespace Production

variable {α β : Type} {limit : Nat} {state : ReadState P} {final : Cursor P}

/-! ## Expressions -/

theorem parses_typeOperand_token
    {expr : Expr P}
    (parses : Parses limit typeOperand state expr final) :
    ∃ production, typeFrom (P := P) state.cursor.token = some production := by
  obtain ⟨type, middle, parses, rest⟩ := parses_bind.1 (parses_bind_look.1 parses)
  cases type with
  | none => exact absurd rest not_parses_refuse
  | some type => exact (parses_type?.1 parses).2.imp fun _ found => found.1

/-- An operand begins with a literal or with what a type can begin with. -/
theorem token_of_operand
    {expr : Expr P}
    (parses : Parses limit operand state expr final) :
    (∃ kind, litKind? state.cursor.token = some kind)
      ∨ ∃ production, typeFrom (P := P) state.cursor.token = some production := by
  have parses := parses_bind_look.1 parses
  split at parses
  · next kind found => exact .inl ⟨kind, found⟩
  · split at parses
    · next atName => exact .inr ⟨_, congrArg typeFrom atName⟩
    · next atParen => exact .inr ⟨_, congrArg typeFrom atParen⟩
    · next atFunc => exact .inr ⟨_, congrArg typeFrom atFunc⟩
    · exact .inr (parses_typeOperand_token parses)

theorem exists_operand_of_unaryRule
    {expr : Expr P}
    (parses : Parses limit unaryRule state expr final) :
    state.cursor.token.isUnaryOp = true
      ∨ ∃ base middle, Parses limit operand (state.deeper 1) base middle := by
  have parses := parses_bind_look.1 (parses_nested.1 parses).2
  split at parses
  · next isUnary => exact .inl isUnary
  · obtain ⟨base, middle, parses, -⟩ := parses_bind.1 parses
    exact .inr ⟨base, middle, parses⟩

/-- Where an expression comes next, so does a token that can start one. -/
theorem startsExprStmt_of_parses
    {expr : Expr P}
    (parses : Parses limit Production.expr state expr final) :
    startsExprStmt state.cursor.token = true := by
  have starts : ∀ token : Token, startsExprStmt token = false ->
      token.isUnaryOp = false ∧ litKind? token = none ∧ typeFrom (P := P) token = none := by
    intro token
    cases token <;> simp [startsExprStmt, Token.isUnaryOp, litKind?, typeFrom]
  by_contra notStart
  obtain ⟨notUnary, notLiteral, notType⟩ := starts _ (Bool.eq_false_iff.2 notStart)
  obtain ⟨_, _, parses, -⟩ := parses_bind.1 (parses_call.1 parses)
  rcases exists_operand_of_unaryRule (parses_call.1 parses) with isUnary | ⟨_, _, parses⟩
  · exact absurd (notUnary.symm.trans isUnary) Bool.false_ne_true
  rcases token_of_operand parses with ⟨_, found⟩ | ⟨_, found⟩
  · cases found.symm.trans notLiteral
  · cases found.symm.trans notType

theorem startsExprStmt_of_exprList
    {exprs : ExprList P}
    (parses : Parses limit exprList state exprs final) :
    startsExprStmt state.cursor.token = true := by
  obtain ⟨values, _, parses, -⟩ := parses_bind.1 parses
  obtain ⟨_, _, parses, -⟩ := parses_bind.1 parses
  exact startsExprStmt_of_parses parses

theorem startsExprStmt_of_simpleStmt
    {stmt : SimpleStmt P}
    (parses : Parses limit simpleStmt state stmt final) :
    startsExprStmt state.cursor.token = true := by
  obtain ⟨_, _, parses, -⟩ := parses_bind.1 parses
  exact startsExprStmt_of_exprList parses

theorem ne_of_startsExprStmt
    {token other : Token}
    (starts : startsExprStmt token = true)
    (notStart : startsExprStmt other = false) :
    token ≠ other := by
  rintro rfl
  exact Bool.false_ne_true (notStart.symm.trans starts)

end Production

/-! ## Pauses -/

/-- Whether a token separates phrases or closes a bracket. -/
def Token.isPause : Token -> Bool
  | .comma | .semi | .rParen | .rBrack | .rBrace => true
  | _ => false

/-- What a production reads without errors begins with no pause. -/
def Begins {α : Type} (limit : Nat) (production : Production P α) : Prop :=
  ∀ ⦃state : ReadState P⦄ ⦃value final⦄, Production.Parses limit production state value final ->
    state.cursor.token.isPause = false

namespace Begins

variable {α β : Type} {limit : Nat} {token : Token} {production : Production P α}
  {next : α -> Production P β}

open Production

theorem bind (first : Begins limit production) : Begins limit (production.bind next) := by
  intro state value final parses
  obtain ⟨_, _, parses, -⟩ := parses_bind.1 parses
  exact first parses

theorem inHeader {inside : Bool} (inner : Begins limit production) :
    Begins limit (.inHeader inside production) := by
  intro state value final parses
  have begins := inner (parses_inHeader.1 parses)
  exact begins

theorem expect (noPause : token.isPause = false) : Begins limit (Production.expect (P := P) token) := by
  intro state value final parses
  exact (parses_expect.1 parses).1 ▸ noPause

theorem ident : Begins limit (Production.ident (P := P)) := .bind (.expect rfl)

/-- What comes behind a token that may be missing decides where the token is missing. -/
theorem mark?_bind
    {next : Option (Mark P) -> Production P β}
    (noPause : token.isPause = false)
    (rest : Begins limit (next none)) :
    Begins limit ((Production.mark? token).bind next) := by
  intro state value final parses
  obtain ⟨found, middle, markParses, parses⟩ := parses_bind.1 parses
  rw [parses_mark?] at markParses
  split at markParses
  · next isToken => exact isToken ▸ noPause
  · obtain ⟨rfl, rfl⟩ := markParses
    exact rest parses

theorem commaSeparated (item : Begins limit production) :
    Begins limit (Production.commaSeparated production) := .bind item

theorem withComma (item : Begins limit production) : Begins limit (Production.withComma production) :=
  .bind item

theorem withSemicolon (item : Begins limit production) :
    Begins limit (Production.withSemicolon production) := .bind item

/-! ## Phrases -/

theorem expr : Begins limit (Production.expr (P := P)) := by
  intro state value final parses
  have starts := startsExprStmt_of_parses parses
  revert starts
  cases state.cursor.token <;> simp [startsExprStmt, Token.isPause]

theorem type : Begins limit (Production.type (P := P)) := by
  intro state value final parses
  obtain ⟨-, production, found, -⟩ := parses_type?.1 (parses_type.1 parses)
  revert found
  cases state.cursor.token <;> simp [typeFrom, Token.isPause]

theorem operand : Begins limit (Production.operand (P := P)) := by
  intro state value final parses
  rcases token_of_operand parses with ⟨_, found⟩ | ⟨_, found⟩ <;> revert found <;>
    cases state.cursor.token <;> simp [litKind?, typeFrom, Token.isPause]

theorem exprList : Begins limit (Production.exprList (P := P)) := .bind expr.commaSeparated

theorem identList : Begins limit (Production.identList (P := P)) := ident.commaSeparated

theorem simpleStmt : Begins limit (Production.simpleStmt (P := P)) := .bind exprList

/-- What is told from the lexemes ahead begins with no pause if that holds of each choice. -/
theorem look
    {next : Cursor P -> Production P β}
    (rest : ∀ cursor : Cursor P, (∀ state : ReadState P, state.cursor = cursor -> ∀ value final,
      Production.Parses limit (next cursor) state value final -> cursor.token.isPause = false)) :
    Begins limit (Production.look.bind next) := by
  intro state value final parses
  exact rest state.cursor state rfl value final (parses_bind_look.1 parses)

theorem choice
    {condition : Prop}
    [Decidable condition]
    {yes no : Production P α}
    (whenTrue : Begins limit yes)
    (whenFalse : Begins limit no) :
    Begins limit (if condition then yes else no) := by
  split
  · exact whenTrue
  · exact whenFalse

/-- The choice from the lexemes ahead does not matter if every choice begins with no pause. -/
theorem look_any
    {next : Cursor P -> Production P β}
    (rest : ∀ cursor, Begins limit (next cursor)) :
    Begins limit (Production.look.bind next) := by
  intro state value final parses
  exact rest state.cursor (parses_bind_look.1 parses)

theorem paramEntry : Begins limit (Production.paramEntry (P := P)) := by
  have dotted {next : Option (Mark P) -> TypeExpr P -> Production P (ParamEntry P)} :
      Begins limit ((Production.mark? .ellipsis).bind fun ellipsis =>
        Production.type.bind fun type => next ellipsis type) :=
    .mark?_bind rfl (.bind type)
  exact .look_any fun cursor => .choice (.bind ident) (.choice (.bind ident) dotted)

theorem argument (isType : Bool) : Begins limit (Production.argument (P := P) isType) := by
  unfold Production.argument
  cases isType
  · exact .bind expr
  · exact .bind type

theorem element : Begins limit (Production.element (P := P)) := by
  refine .bind (.look fun cursor state atCursor value final parses => ?_)
  split at parses
  · next opens => exact opens ▸ rfl
  · exact atCursor ▸ expr parses

theorem typeElem : Begins limit (Production.typeElem (P := P)) :=
  .bind (.mark?_bind rfl (.bind type))

theorem typeParam : Begins limit (Production.typeParam (P := P)) := .bind identList

theorem fieldDecl : Begins limit (Production.fieldDecl (P := P)) := by
  refine .look fun cursor state atCursor value final parses => ?_
  split at parses
  · next isEmbedded =>
      revert isEmbedded
      unfold atEmbeddedField
      cases cursor.token <;> simp [Token.isPause]
  · exact atCursor ▸ identList.bind parses

theorem interfaceElem : Begins limit (Production.interfaceElem (P := P)) :=
  .look_any fun _ => .choice (.bind ident) (.bind typeElem)

theorem stringLit : Begins limit (Production.stringLit (P := P)) := by
  refine .look fun cursor state atCursor value final parses => ?_
  split at parses
  · next atToken => exact atToken ▸ rfl
  · next atToken => exact atToken ▸ rfl
  · exact absurd parses not_parses_refuse

theorem importSpec : Begins limit (Production.importSpec (P := P)) := by
  intro state value final parses
  obtain ⟨_, middle, nameParses, parses⟩ := parses_bind.1 parses
  have nameParses := parses_bind_look.1 nameParses
  split at nameParses
  · next atName => exact atName ▸ rfl
  · next atDot => exact atDot ▸ rfl
  · obtain ⟨-, rfl⟩ := parses_pure.1 nameParses
    exact stringLit.bind parses

theorem singleSpec (kind : SpecKind) (first : Bool) :
    Begins limit (Production.singleSpec (P := P) kind first) := by
  cases kind with
  | imports => exact importSpec
  | consts => exact .bind identList
  | vars => exact .bind identList
  | types => exact .bind ident

end Begins

/-! ## Statements -/

namespace Production

/-- Of the pauses only a semicolon begins a statement, and the statement is empty then. -/
theorem stmt_of_pause
    {stmt : Stmt P}
    (parses : Parses limit (.call .stmt) state stmt final)
    (isPause : state.cursor.token.isPause = true) :
    state.cursor.token = .semi ∧ stmt = .simple (.emptyStmt state.cursor.pos) := by
  have parses := parses_bind_look.1 (parses_call.1 parses)
  have noKeyword : keywordStmt (P := P) state.cursor.token = none := by
    revert isPause
    cases state.cursor.token <;> simp [keywordStmt, Token.isPause]
  rw [noKeyword] at parses
  dsimp only at parses
  split at parses
  · next atVar => exact nomatch (congrArg Token.isPause atVar).symm.trans isPause
  · next atConst => exact nomatch (congrArg Token.isPause atConst).symm.trans isPause
  · next atType => exact nomatch (congrArg Token.isPause atType).symm.trans isPause
  · next atSemi =>
    obtain ⟨_, _, advanced, parses⟩ := parses_bind.1 parses
    obtain ⟨rfl, rfl⟩ := parses_advance.1 advanced
    exact ⟨atSemi, (parses_pure.1 parses).1⟩
  · split at parses
    · next starts =>
      revert isPause starts
      cases state.cursor.token <;> simp [startsExprStmt, Token.isPause]
    · exact absurd parses not_parses_refuse

end Production
end GoFront
