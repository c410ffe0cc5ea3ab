import GoFront.Proofs.Reading.Expressions
import GoFront.Proofs.Reading.ParsedTypes
import GoFront.Proofs.Reading.Terminators

/-!
# How expressions were read

What is known about the lexemes from which an expression was read without errors. An expression without
operators was read as an operand with suffixes, and what is read last tells which suffix that was. So
nothing stands behind the parenthesis that closes an assertion.
-/

namespace GoFront

variable {P : Type}

namespace Tree

/-- Whether an expression is an operand with something in brackets behind it. -/
def isApplied : Expr P -> Bool
  | index .. | instantiation .. | simpleSlice .. | fullSlice .. | callExpr _ | compositeLit .. => true
  | _ => false

/-- Whether an expression is an operand, and not one in parentheses. -/
def isAtom : Expr P -> Bool
  | ident _ | basicLit _ | funcLit .. | typeOperand _ => true
  | _ => false

end Tree

/-! ## Operands and suffixes in brackets -/

namespace Yields

open GoFront.Tree (isApplied isAtom)

variable {inside : Bool} {machine : Machine P} {base : Expr P}

theorem applied_sliceEnd
    {lBrack colon : Mark P}
    {low : Tree P (.maybe .expr)}
    {high : Option (Expr P)} :
    Yields inside machine (Production.sliceEnd base lBrack colon low high)
      fun expr => expr.isApplied = true := by
  refine skip fun second => ?_
  split
  · exact skip fun rBrack => done rfl
  · split
    · exact refuse _
    · refine skip fun cursor => choice (fun _ => refuse _) fun _ => ?_
      exact skip fun max => skip fun rBrack => done rfl

theorem applied_sliceTail
    {lBrack : Mark P}
    {low : Tree P (.maybe .expr)} :
    Yields inside machine (Production.sliceTail base lBrack low) fun expr => expr.isApplied = true := by
  refine skip fun colon => skip fun cursor => choice (fun _ => ?_) fun _ => ?_
  · exact pure_bind applied_sliceEnd
  · exact skip fun high => pure_bind applied_sliceEnd

theorem applied_indexOrSlice :
    Yields inside machine (Production.indexOrSlice base) fun expr => expr.isApplied = true := by
  refine inHeader (skip fun lBrack => skip fun cursor => choice (fun _ => applied_sliceTail) fun _ => ?_)
  refine skip fun first => skip fun cursor => ?_
  split
  · exact applied_sliceTail
  · refine skip fun rest => skip fun rBrack => ?_
    split
    · exact done rfl
    · exact refuse _
  · refine skip fun rBrack => ?_
    split
    · exact done rfl
    · exact done rfl

theorem applied_literalTail :
    Yields inside machine (Production.literalTail base) fun expr => expr.isApplied = true := by
  unfold Production.literalTail
  split
  · exact refuse _
  · exact skip fun body => done rfl

/-- The tag of a switch over values is no query. -/
theorem notQuery_switchHeader :
    Yields inside machine (Production.switchHeader (P := P)) fun header =>
      ∀ tag, header.2 = .values (some tag) -> Production.isTypeQuery tag = false := by
  refine inHeader (skip ?_)
  rintro ⟨init, last⟩
  have isSubject : Yields true machine (Production.switchSubject last) fun subject =>
      ∀ tag, subject = .values (some tag) -> Production.isTypeQuery tag = false := by
    unfold Production.switchSubject
    split
    · exact done nofun
    · split
      · exact choice (fun _ => done nofun) fun _ => refuse _
      · exact refuse _
    · refine skip fun tag => choice (fun _ => done nofun) fun notQuery => done ?_
      rintro _ ⟨⟩
      exact Bool.eq_false_iff.2 notQuery
  exact bind isSubject fun _ holds => done holds

end Yields

namespace Production

variable {α : Type} {limit : Nat} {state : ReadState P} {base value : Expr P} {final : Cursor P}

theorem isAtom_or_group_of_operand (parses : Parses limit operand state value final) :
    value.isAtom = true ∨ Parses limit groupExpr state value final := by
  replace parses := parses_bind_look.1 parses
  split at parses
  · obtain ⟨_, _, -, parses⟩ := parses_bind.1 parses
    obtain ⟨rfl, -⟩ := parses_pure.1 parses
    exact .inl rfl
  split at parses
  · obtain ⟨_, _, -, parses⟩ := parses_bind.1 parses
    obtain ⟨rfl, -⟩ := parses_pure.1 parses
    exact .inl rfl
  · exact .inr parses
  · obtain ⟨_, _, -, parses⟩ := parses_bind.1 parses
    replace parses := parses_bind_look.1 parses
    split at parses
    · obtain ⟨_, _, -, parses⟩ := parses_bind.1 parses
      obtain ⟨rfl, -⟩ := parses_pure.1 parses
      exact .inl rfl
    · obtain ⟨rfl, -⟩ := parses_pure.1 parses
      exact .inl rfl
  · obtain ⟨type, _, -, parses⟩ := parses_bind.1 (parses_bind_look.1 parses)
    cases type with
    | none => exact absurd parses not_parses_refuse
    | some type =>
        obtain ⟨rfl, -⟩ := parses_pure.1 parses
        exact .inl rfl

/-- What is in parentheses is an expression by itself. -/
theorem exists_of_groupExpr (parses : Parses limit groupExpr state value final) :
    ∃ lParen inner rParen middle, value = .group lParen inner rParen
      ∧ Parses limit expr ((state.moveTo state.cursor.advance).place false) inner middle := by
  obtain ⟨lParen, _, opens, parses⟩ := parses_bind.1 (parses_inHeader.1 parses)
  obtain ⟨inner, middle, isInner, parses⟩ := parses_bind.1 parses
  obtain ⟨rParen, _, -, parses⟩ := parses_bind.1 parses
  obtain ⟨-, -, rfl⟩ := parses_mark.1 opens
  exact ⟨lParen, inner, rParen, middle, (parses_pure.1 parses).1, isInner⟩

/-- A suffix that is there is in brackets, or it follows a point. -/
theorem cases_of_suffix?
    {found : Option (Expr P)}
    (parses : Parses limit (suffix? base) state found final) :
    (found = none ∧ final = state.cursor)
      ∨ ∃ value, found = some value
        ∧ (value.isApplied = true ∨ Parses limit (selectorOrAssertion base) state value final) := by
  have applied {production : Production P (Expr P)}
      (yields : ∀ allowance, Yields state.inHeader (ruleMachine limit allowance) production
        fun expr => expr.isApplied = true)
      (parses : Parses limit (some <$> production) state found final) :
      ∃ value, found = some value
        ∧ (value.isApplied = true ∨ Parses limit (selectorOrAssertion base) state value final) := by
    obtain ⟨value, _, ⟨allowance, run⟩, parses⟩ := parses_bind.1 parses
    obtain ⟨rfl, -⟩ := parses_pure.1 parses
    exact ⟨value, rfl, .inl ((yields allowance).of_run rfl run)⟩
  obtain ⟨_, _, isHeader, parses⟩ := parses_bind.1 (parses_bind_look.1 parses)
  obtain ⟨rfl, rfl⟩ := parses_header.1 isHeader
  split at parses
  · exact .inr (applied (fun _ => Yields.applied_indexOrSlice) parses)
  · obtain ⟨invocation, _, -, parses⟩ := parses_bind.1 parses
    obtain ⟨rfl, -⟩ := parses_pure.1 parses
    exact .inr ⟨.callExpr invocation, rfl, .inl rfl⟩
  · split at parses
    · exact .inr (applied (fun _ => Yields.applied_literalTail) parses)
    · exact .inl (parses_pure.1 parses)
  · obtain ⟨value, _, parses, rest⟩ := parses_bind.1 parses
    obtain ⟨rfl, rfl⟩ := parses_pure.1 rest
    exact .inr ⟨value, rfl, .inr parses⟩
  · exact .inl (parses_pure.1 parses)

/-- What follows a point is a name, a query or an assertion. -/
theorem cases_of_selectorOrAssertion (parses : Parses limit (selectorOrAssertion base) state value final) :
    (∃ dot name, value = .selector base dot name)
      ∨ (∃ dot lParen keyword rParen, value = .typeQuery base dot lParen keyword rParen)
      ∨ ∃ dot lParen type rParen middle, value = .typeAssertion base dot lParen type rParen
        ∧ Parses limit Production.type ((state.moveTo state.cursor.advance.advance).place false) type middle
        ∧ middle.token = .rParen ∧ final = middle.advance := by
  obtain ⟨dot, _, isDot, parses⟩ := parses_bind.1 parses
  obtain ⟨-, -, rfl⟩ := parses_mark.1 isDot
  replace parses := parses_bind_look.1 parses
  split at parses
  · obtain ⟨name, _, -, parses⟩ := parses_bind.1 parses
    obtain ⟨rfl, -⟩ := parses_pure.1 parses
    exact .inl ⟨dot, name, rfl⟩
  · obtain ⟨lParen, _, isParen, parses⟩ := parses_bind.1 (parses_inHeader.1 parses)
    obtain ⟨-, -, rfl⟩ := parses_mark.1 isParen
    obtain ⟨keyword, _, isKeyword, parses⟩ := parses_bind.1 parses
    cases keyword with
    | some keyword =>
        obtain ⟨rParen, _, -, parses⟩ := parses_bind.1 parses
        obtain ⟨rfl, -⟩ := parses_pure.1 parses
        exact .inr (.inl ⟨dot, lParen, keyword, rParen, rfl⟩)
    | none =>
        rw [parses_mark?] at isKeyword
        split at isKeyword
        · cases isKeyword.1
        obtain ⟨-, rfl⟩ := isKeyword
        obtain ⟨type, middle, isType, parses⟩ := parses_bind.1 parses
        obtain ⟨rParen, _, closes, parses⟩ := parses_bind.1 parses
        obtain ⟨rfl, rfl⟩ := parses_pure.1 parses
        obtain ⟨closes, -, atEnd⟩ := parses_mark.1 closes
        exact .inr (.inr ⟨dot, lParen, type, rParen, middle, rfl, isType, closes, atEnd⟩)
  · exact absurd parses not_parses_refuse

/-! ## Expressions without operators -/

/-- A repetition whose last step takes nothing ends at its start, or behind a step with a value. -/
theorem Repeats.exists_last
    {step : α -> Production P (Option α)}
    {start result : α}
    (repeats : Repeats limit step state start result final)
    (stops : ∀ {state : ReadState P} {value : α} {final : Cursor P},
      Parses limit (step value) state none final -> final = state.cursor) :
    (result = start ∧ final = state.cursor)
      ∨ ∃ value middle, middle.ahead <:+ state.cursor.ahead
        ∧ Parses limit (step value) (state.moveTo middle) (some result) final := by
  induction repeats with
  | stop last => exact .inl ⟨rfl, stops last⟩
  | @more state value next result middle final first _ inductionHypothesis =>
      right
      obtain ⟨rfl, rfl⟩ | ⟨last, behind, isSuffix, parses⟩ := inductionHypothesis
      · exact ⟨value, state.cursor, List.suffix_rfl, first⟩
      · exact ⟨last, behind, isSuffix.trans first.ahead_suffix, parses⟩

/-- An expression without binary operators is read as one. -/
theorem parses_unaryRule_of_expr
    (parses : Parses limit expr state value final)
    (notBinary : ∀ left op right, value ≠ .binary left op right) :
    Parses limit unaryRule state value final := by
  obtain ⟨operand, middle, parses, repeats⟩ := parses_bind.1 (parses_call.1 parses)
  have cases_of_tail {state : ReadState P} {left : Expr P} {found : Option (Expr P)} {final : Cursor P}
      (parses : Parses limit (binaryTail? .or left) state found final) :
      (found = none ∧ final = state.cursor) ∨ ∃ op right, found = some (.binary left op right) := by
    replace parses := parses_bind_look.1 parses
    dsimp only at parses
    split at parses
    · exact .inl (parses_pure.1 parses)
    · obtain ⟨op, _, -, parses⟩ := parses_bind.1 parses
      obtain ⟨right, _, -, parses⟩ := parses_bind.1 parses
      exact .inr ⟨op, right, (parses_pure.1 parses).1⟩
  obtain ⟨rfl, rfl⟩ | ⟨left, _, -, parses⟩ := (parses_iterate.1 repeats).exists_last fun parses => by
    obtain ⟨-, stays⟩ | ⟨_, _, isSome⟩ := cases_of_tail parses
    · exact stays
    · cases isSome
  · exact parses_call.1 parses
  · obtain ⟨isNone, -⟩ | ⟨op, right, isBinary⟩ := cases_of_tail parses
    · cases isNone
    · exact absurd (Option.some.inj isBinary) (notBinary left op right)

/-- An expression without operators is an operand, or the last thing read of it is a suffix. -/
theorem operand_or_suffix?_of_expr
    (parses : Parses limit expr state value final)
    (notBinary : ∀ left op right, value ≠ .binary left op right)
    (notUnary : ∀ op operand, value ≠ .unary op operand) :
    Parses limit operand (state.deeper 1) value final
      ∨ ∃ base middle, middle.ahead <:+ state.cursor.ahead
        ∧ Parses limit (suffix? base) ((state.moveTo middle).deeper 1) (some value) final := by
  obtain ⟨-, parses⟩ := parses_nested.1 (parses_unaryRule_of_expr parses notBinary)
  replace parses := parses_bind_look.1 parses
  split at parses
  · obtain ⟨op, _, -, parses⟩ := parses_bind.1 parses
    obtain ⟨operand, _, -, parses⟩ := parses_bind.1 parses
    exact absurd (parses_pure.1 parses).1 (notUnary op operand)
  obtain ⟨start, behind, parses, repeats⟩ := parses_bind.1 parses
  obtain ⟨rfl, rfl⟩ | ⟨base, middle, isSuffix, suffix⟩ :=
    (parses_iterate.1 repeats).exists_last fun parses => by
      obtain ⟨-, stays⟩ | ⟨_, isSome, -⟩ := cases_of_suffix? parses
      · exact stays
      · cases isSome
  · exact .inl parses
  · exact .inr ⟨base, middle, isSuffix.trans parses.ahead_suffix, suffix⟩

/-- Nothing stands behind an assertion but the parenthesis that closes it. -/
theorem exists_of_assertion
    {dot lParen rParen : Mark P}
    {type : TypeExpr P}
    (parses : Parses limit expr state (.typeAssertion base dot lParen type rParen) final) :
    ∃ (opened : ReadState P) (middle : Cursor P),
      opened.cursor.ahead <:+ state.cursor.ahead
        ∧ Parses limit Production.type opened type middle
        ∧ middle.token = .rParen ∧ final = middle.advance := by
  obtain parses | ⟨_, behind, isSuffix, parses⟩ := operand_or_suffix?_of_expr parses nofun nofun
  · obtain isAtom | parses := isAtom_or_group_of_operand parses
    · cases isAtom
    · obtain ⟨_, _, _, _, isGroup, -⟩ := exists_of_groupExpr parses
      cases isGroup
  obtain ⟨isNone, -⟩ | ⟨_, isSome, isApplied | parses⟩ := cases_of_suffix? parses
  · cases isNone
  · obtain rfl := Option.some.inj isSome
    cases isApplied
  obtain rfl := Option.some.inj isSome
  obtain ⟨_, _, isSelector⟩ | ⟨_, _, _, _, isQuery⟩
    | ⟨_, _, _, _, middle, isAssertion, isType, closes, rfl⟩ := cases_of_selectorOrAssertion parses
  · cases isSelector
  · cases isQuery
  obtain ⟨rfl, rfl, rfl, rfl, rfl⟩ := Tree.typeAssertion.inj isAssertion
  refine ⟨_, middle, ?_, isType, closes, rfl⟩
  change behind.advance.advance.ahead <:+ _
  rw [Cursor.ahead_advance, Cursor.ahead_advance]
  exact ((List.tail_suffix _).trans (List.tail_suffix _)).trans isSuffix

/-! ## Simple statements -/

/-- A list with a single item is read as that item. -/
theorem parses_of_commaSeparated
    {item : Production P α}
    {value : α}
    (parses : Parses limit (commaSeparated item) state [value] final) :
    Parses limit item state value final := by
  obtain ⟨first, middle, firstParses, rest⟩ := parses_bind.1 parses
  obtain ⟨items, last, collected, rest⟩ := parses_bind.1 rest
  obtain ⟨isSingle, rfl⟩ := parses_pure.1 rest
  obtain ⟨rfl, rfl⟩ := List.cons.inj isSingle
  have noMore : final = middle := by
    have stops := parses_many.1 collected
    by_cases atComma : middle.token = .comma <;> simp [Collects, atComma] at stops
    exact stops
  exact noMore ▸ firstParses

theorem parses_of_exprList
    {exprs : ExprList P}
    (parses : Parses limit exprList state exprs final)
    (isSingle : exprs.exprs = [value]) :
    Parses limit expr state value final := by
  obtain ⟨items, middle, exprsParse, rest⟩ := parses_bind.1 parses
  obtain ⟨rfl, rfl⟩ := parses_pure.1 rest
  obtain rfl : items = [value] := (Tree.toList_ofList items).symm.trans isSingle
  exact parses_of_commaSeparated exprsParse

/-- A statement that is an expression ends with it. -/
theorem parses_expr_of_simpleStmt (parses : Parses limit simpleStmt state (.exprStmt value) final) :
    Parses limit expr state value final := by
  obtain ⟨left, middle, areExprs, parses⟩ := parses_bind.1 parses
  replace parses := parses_bind_look.1 parses
  split at parses
  · split at parses
    · exact absurd parses not_parses_refuse
    · obtain ⟨_, _, -, parses⟩ := parses_bind.1 parses
      obtain ⟨_, _, -, parses⟩ := parses_bind.1 parses
      cases (parses_pure.1 parses).1
  split at parses
  · obtain ⟨_, _, -, parses⟩ := parses_bind.1 parses
    obtain ⟨_, _, -, parses⟩ := parses_bind.1 parses
    cases (parses_pure.1 parses).1
  obtain ⟨first, behind, isOnly, parses⟩ := parses_bind.1 parses
  split at parses
  · obtain ⟨_, _, -, parses⟩ := parses_bind.1 parses
    cases (parses_pure.1 parses).1
  · obtain ⟨_, _, -, parses⟩ := parses_bind.1 parses
    cases (parses_pure.1 parses).1
  · obtain ⟨_, _, -, parses⟩ := parses_bind.1 parses
    obtain ⟨_, _, -, parses⟩ := parses_bind.1 parses
    cases (parses_pure.1 parses).1
  obtain ⟨same, rfl⟩ := parses_pure.1 parses
  obtain rfl := Tree.exprStmt.inj same
  unfold onlyExpr at isOnly
  split at isOnly
  · next isSingle =>
      obtain ⟨rfl, rfl⟩ := parses_pure.1 isOnly
      exact parses_of_exprList areExprs isSingle
  · exact absurd isOnly not_parses_refuse

theorem parses_simpleStmt_of_unless
    {tokens : List Token}
    {stmt : SimpleStmt P}
    (parses : Parses limit (simpleStmtUnless tokens) state (some stmt) final) :
    Parses limit simpleStmt state stmt final := by
  replace parses := parses_bind_look.1 parses
  split at parses
  · cases (parses_pure.1 parses).1
  · obtain ⟨_, _, parses, rest⟩ := parses_bind.1 parses
    obtain ⟨same, rfl⟩ := parses_pure.1 rest
    exact Option.some.inj same ▸ parses

/-- The last statement of a header is a statement by itself. -/
theorem exists_of_headerStmts
    {init : Option (SimpleStmt P)}
    {stmt : SimpleStmt P}
    (parses : Parses limit headerStmts state (init, some stmt) final) :
    ∃ opened : ReadState P, opened.cursor.ahead <:+ state.cursor.ahead
      ∧ Parses limit simpleStmt opened stmt final := by
  obtain ⟨first, middle, isFirst, parses⟩ := parses_bind.1 parses
  obtain ⟨semi, behind, isSemi, parses⟩ := parses_bind.1 parses
  have passed : behind.ahead <:+ state.cursor.ahead := isSemi.ahead_suffix.trans isFirst.ahead_suffix
  rw [parses_eat?] at isSemi
  split at parses
  · next noSemi =>
      obtain ⟨same, rfl⟩ := parses_pure.1 parses
      obtain ⟨-, rfl⟩ := Prod.mk.inj same
      split at isSemi
      · obtain ⟨rfl, -⟩ := isSemi
        cases noSemi
      · obtain ⟨-, rfl⟩ := isSemi
        exact ⟨state, List.suffix_rfl, parses_simpleStmt_of_unless isFirst⟩
  · obtain ⟨second, _, isSecond, parses⟩ := parses_bind.1 parses
    obtain ⟨same, rfl⟩ := parses_pure.1 parses
    obtain ⟨-, rfl⟩ := Prod.mk.inj same
    exact ⟨_, passed, parses_simpleStmt_of_unless isSecond⟩

/-- The tag of a switch is an expression by itself, in front of the brace. -/
theorem exists_of_switchHeader
    {init : Option (SimpleStmt P)}
    {tag : Expr P}
    (parses : Parses limit switchHeader state (init, .values (some tag)) final) :
    ∃ opened : ReadState P, opened.cursor.ahead <:+ state.cursor.ahead
      ∧ Parses limit expr opened tag final := by
  obtain ⟨⟨first, last⟩, middle, areStmts, parses⟩ := parses_bind.1 (parses_inHeader.1 parses)
  obtain ⟨subject, _, isSubject, rest⟩ := parses_bind.1 parses
  obtain ⟨same, rfl⟩ := parses_pure.1 rest
  obtain ⟨rfl, rfl⟩ := Prod.mk.inj same
  unfold switchSubject at isSubject
  split at isSubject
  · cases (parses_pure.1 isSubject).1
  · split at isSubject
    · split at isSubject
      · cases (parses_pure.1 isSubject).1
      · exact absurd isSubject not_parses_refuse
    · exact absurd isSubject not_parses_refuse
  obtain ⟨expr, behind, isExpr, rest⟩ := parses_bind.1 isSubject
  unfold headerExpr at isExpr
  split at isExpr
  · obtain ⟨rfl, rfl⟩ := parses_pure.1 isExpr
    split at rest
    · cases (parses_pure.1 rest).1
    obtain ⟨same, rfl⟩ := parses_pure.1 rest
    obtain rfl := Option.some.inj (SwitchSubject.values.inj same)
    obtain ⟨opened, isSuffix, isStmt⟩ := exists_of_headerStmts areStmts
    exact ⟨opened, isSuffix, parses_expr_of_simpleStmt isStmt⟩
  · exact absurd isExpr not_parses_refuse

/-- What stands between the braces of a switch begins with a case, or there is nothing. -/
theorem token_of_caseClauses
    {kind : ClauseKind}
    {label : Mark P -> Production P (Tree P (.one (.caseLabel kind)))}
    {clauses : Tree P (.many (.caseClause kind))}
    (parses : Parses limit (caseClauses label) state clauses final)
    (closes : final.token = .rBrace) :
    state.cursor.token = .kwCase ∨ state.cursor.token = .kwDefault ∨ state.cursor.token = .rBrace := by
  obtain ⟨_, _, parses, rest⟩ := parses_bind.1 parses
  obtain ⟨-, rfl⟩ := parses_pure.1 rest
  obtain ⟨⟨_, _⟩, _, repeats, rest⟩ := parses_bind.1 parses
  obtain ⟨-, rfl⟩ := parses_pure.1 rest
  cases parses_iterate.1 repeats with
  | stop last =>
      replace last := parses_bind_look.1 last
      split at last
      · obtain ⟨_, _, -, last⟩ := parses_bind.1 last
        cases (parses_pure.1 last).1
      · obtain ⟨-, rfl⟩ := parses_pure.1 last
        exact .inr (.inr closes)
  | more first =>
      replace first := parses_bind_look.1 first
      split at first
      · obtain ⟨_, _, item, -⟩ := parses_bind.1 first
        replace item := parses_bind_look.1 item
        dsimp only at item
        split at item
        · next atCase => exact .inl atCase
        · next atDefault => exact .inr (.inl atDefault)
        · obtain ⟨_, _, refused, -⟩ := parses_bind.1 item
          exact absurd refused not_parses_refuse
      · cases (parses_pure.1 first).1

end Production
end GoFront
