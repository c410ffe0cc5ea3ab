import GoFront.Proofs.Reading.FirstTokens
import GoFront.Proofs.Reading.Parameters
import GoFront.Proofs.Reading.Shields

/-!
# Headers of loops

A loop header is empty, a condition, three parts between semicolons, or a range clause. Which of these it
is, two searches decide in advance: one for the keyword of a range clause in front of the brace of the
body, and one for the operator of a definition in front of that keyword. The first search takes any brace
outside brackets for that of the body, so the expressions that a range clause assigns to must have none.
-/

namespace GoFront

variable {P : Type}

namespace Production

/-! ## Headers as they are written -/

/-- What a range clause binds, as it is written. What the lexemes are read as is kept with them. -/
inductive WrittenBinding (P : Type)
  | names (text : List (Lexeme P)) (idents : List (Ident P)) (define : Lexeme P)
  | exprs (text : List (Lexeme P)) (values : ExprList P) (assign : Lexeme P)

/-- The header of a loop as it is written. What the lexemes of its parts are read as is kept with them. -/
inductive WrittenHeader (P : Type)
  | none
  | condition (text : List (Lexeme P)) (expr : Expr P)
  | clause
      (init : Option (List (Lexeme P) × SimpleStmt P))
      (first : Lexeme P)
      (test : Option (List (Lexeme P) × Expr P))
      (second : Lexeme P)
      (post : Option (List (Lexeme P) × SimpleStmt P))
  | range
      (binding : Option (WrittenBinding P))
      (keyword : Lexeme P)
      (text : List (Lexeme P))
      (expr : Expr P)

/-- The lexemes of a part that may be missing. -/
def partLexemes {α : Type} (part : Option (List (Lexeme P) × α)) : List (Lexeme P) :=
  (part.map Prod.fst).getD []

namespace WrittenBinding

def lexemes : WrittenBinding P -> List (Lexeme P)
  | names text _ operator | exprs text _ operator => text ++ [operator]

/-- What the lexemes in front of the operator are read as. -/
def list : WrittenBinding P -> Tree P (.one .bindingList)
  | names _ idents _ => .boundNames idents
  | exprs _ values _ => .boundExprs values

def operator : WrittenBinding P -> Mark P
  | names _ _ define => ⟨.define, define.pos⟩
  | exprs _ _ assign => ⟨.assign, assign.pos⟩

/-- What a binding is read as. -/
def tree (binding : WrittenBinding P) : Tree P (.one .binding) :=
  .binding binding.list binding.operator

/-- Whether the parts of a binding are what they should be. -/
def IsValid (limit depth : Nat) : WrittenBinding P -> Prop
  | names text idents define => define.token = .define
      ∧ ReadsBefore limit depth true identList text idents define
  | exprs text values assign => assign.token = .assign
      ∧ ReadsBefore limit depth true exprList text values assign

/-- Whether no brace opens outside brackets in the expressions that are assigned to. -/
def BracesInBrackets : WrittenBinding P -> Prop
  | names .. => True
  | exprs text _ _ => Cursor.standsOutside .lBrace 0 text = false

end WrittenBinding

namespace WrittenHeader

def lexemes : WrittenHeader P -> List (Lexeme P)
  | none => []
  | condition text _ => text
  | clause init first test second post =>
      partLexemes init ++ first :: (partLexemes test ++ second :: partLexemes post)
  | range binding keyword text _ => (binding.map WrittenBinding.lexemes).getD [] ++ keyword :: text

/-- What a header is read as. -/
def tree : WrittenHeader P -> Tree P (.maybe .iteration)
  | none => .absent
  | condition _ expr => .present (.whileTrue expr)
  | clause init _ test _ post =>
      .present (.forClause (.ofOption (init.map Prod.snd)) (.ofOption (test.map Prod.snd))
        (.ofOption (post.map Prod.snd)))
  | range binding keyword _ expr =>
      .present (.rangeClause (.ofOption (binding.map WrittenBinding.tree)) ⟨.kwRange, keyword.pos⟩ expr)

/-- Whether the parts of a header in front of a brace are what they should be. -/
def IsValid (limit depth : Nat) (lBrace : Lexeme P) : WrittenHeader P -> Prop
  | none => True
  | condition text expr => ReadsBefore limit depth true Production.expr text expr lBrace
  | clause init first test second post => first.token = .semi ∧ second.token = .semi
      ∧ (∀ part ∈ init, ReadsBefore limit depth true simpleStmt part.1 part.2 first)
      ∧ (∀ part ∈ test, ReadsBefore limit depth true Production.expr part.1 part.2 second)
      ∧ ∀ part ∈ post, ReadsBefore limit depth true simpleStmt part.1 part.2 lBrace
  | range binding keyword text expr => keyword.token = .kwRange
      ∧ (∀ bound ∈ binding, bound.IsValid limit depth)
      ∧ ReadsBefore limit depth true Production.expr text expr lBrace

/-- Whether no brace opens outside brackets in the expressions that a range clause assigns to. -/
def BracesInBrackets : WrittenHeader P -> Prop
  | range binding _ _ _ => ∀ bound ∈ binding, bound.BracesInBrackets
  | _ => True

end WrittenHeader

section

variable {α : Type} {limit : Nat} {state : ReadState P} {final : Cursor P} {text rest : List (Lexeme P)}
  {follower lexeme : Lexeme P} {production : Production P α} {value : α}

/-! ## Searches -/

/-- What is read by itself is nested, and shielded as everything is that its production reads. -/
theorem ReadsBefore.shielded
    {depth need : Nat}
    {inside : Bool}
    {banned : List Token}
    {result : α -> Nat -> Nat -> List (Mention P) -> Prop}
    (reads : ReadsBefore limit depth inside production text value follower)
    (regular : ∀ lexeme ∈ text ++ [follower], lexeme.Regular)
    (shields : ∀ allowance, Shields banned (ruleMachine limit allowance) production)
    (isPhrase : ∀ allowance, ReadsPhrase (ruleMachine limit allowance) Anywhere need production result) :
    Shielded banned text ∧ Brackets.Nested text := by
  obtain ⟨stop, parses⟩ := reads
  obtain ⟨allowance, cleanRun⟩ := parses.exists_cleanRun regular rfl
  exact ⟨shields allowance _ cleanRun, (isPhrase allowance).closesBrackets trivial cleanRun⟩

/-- A search passes over a part of a header, unless it ends there. -/
theorem occurIn_part
    {terminator needle : Token}
    {needles banned : List Token}
    (isPart : Shielded banned text ∧ Brackets.Nested text)
    (isBanned : needle ∈ banned)
    (notBrace : needle ≠ .lBrace) :
    Cursor.occurIn terminator (needle :: needles) 0 0 (text ++ rest)
      = (!Cursor.standsOutside terminator 0 text
          && Cursor.occurIn terminator (needle :: needles) 0 0 rest) :=
  Cursor.occurIn_shielded isBanned notBrace isPart.1 rfl isPart.2

/-- A part of a clause that may be missing has no range keyword. -/
theorem occurIn_part_eq_false
    {depth need : Nat}
    {part : Option (List (Lexeme P) × α)}
    {result : α -> Nat -> Nat -> List (Mention P) -> Prop}
    (isPart : ∀ each ∈ part, ReadsBefore limit depth true production each.1 each.2 follower)
    (regular : ∀ lexeme ∈ partLexemes part ++ [follower], lexeme.Regular)
    (shields : ∀ allowance, Shields [.kwRange] (ruleMachine limit allowance) production)
    (isPhrase : ∀ allowance, ReadsPhrase (ruleMachine limit allowance) Anywhere need production result)
    (restFalse : Cursor.occurIn .lBrace [.kwRange] 0 0 rest = false) :
    Cursor.occurIn .lBrace [.kwRange] 0 0 (partLexemes part ++ rest) = false := by
  cases part with
  | none => exact restFalse
  | some part =>
      refine (occurIn_part ((isPart part rfl).shielded regular shields isPhrase)
        (by decide) (by decide)).trans ?_
      rw [restFalse, Bool.and_false]

/-- A search ends where its terminator stands. -/
theorem occurIn_terminator
    {terminator needle : Token}
    {needles : List Token}
    (isTerminator : lexeme.token = terminator) :
    Cursor.occurIn terminator (needle :: needles) 0 0 (lexeme :: rest) = false := by
  simp [Cursor.occurIn, isTerminator]

/-- A search passes over a token that is no bracket. -/
theorem occurIn_other
    {terminator needle : Token}
    {needles : List Token}
    (notTerminator : lexeme.token ≠ terminator)
    (notNeedle : lexeme.token ≠ needle)
    (isOperator : lexeme.token ∈ [.semi, .define, .assign]) :
    Cursor.occurIn terminator (needle :: needles) 0 0 (lexeme :: rest)
      = Cursor.occurIn terminator (needle :: needles) 0 0 rest := by
  have noBracket : Cursor.bracketDepth 0 lexeme.token = 0 ∧ Cursor.braceDepth 0 lexeme.token = 0 := by
    revert isOperator
    generalize lexeme.token = token
    revert token
    decide
  simp [Cursor.occurIn, notTerminator, notNeedle, noBracket]

theorem regular_of_ahead
    (regular : state.Regular)
    (aheadEq : state.cursor.ahead = text ++ follower :: rest) :
    ∀ lexeme ∈ text ++ [follower], lexeme.Regular := by
  intro lexeme member
  refine regular lexeme ?_
  rw [aheadEq, List.append_cons]
  exact List.mem_append_left rest member

/-! ## Parts -/

/-- An expression in front of a brace is a statement. -/
theorem parses_exprStmt
    {expr : Expr P}
    (parses : Parses limit Production.expr state expr final)
    (opens : final.token = .lBrace) :
    Parses limit simpleStmt state (.exprStmt expr) final := by
  have list : Parses limit exprList state (.exprList (.ofList [expr])) final := by
    refine parses_bind.2 ⟨[expr], final, parses_commaSeparated.2 ⟨final, parses, ?_⟩,
      parses_pure.2 ⟨rfl, rfl⟩⟩
    exact collects_behindComma_nil.2 ⟨by simp [opens], rfl⟩
  refine parses_bind.2 ⟨_, _, list, parses_bind_look.2 ?_⟩
  rw [ReadState.cursor_moveTo, opens]
  exact parses_bind.2 ⟨expr, final, parses_pure.2 ⟨rfl, rfl⟩, parses_pure.2 ⟨rfl, rfl⟩⟩

theorem parses_simpleStmtUnless
    {stmt : SimpleStmt P}
    {ends : List Token}
    (parses : Parses limit simpleStmt state stmt final)
    (areEnds : ∀ token ∈ ends, startsExprStmt token = false) :
    Parses limit (simpleStmtUnless ends) state (some stmt) final := by
  have goesOn : state.cursor.atAny ends = false := by
    refine Bool.eq_false_iff.2 fun atEnd => ?_
    have isEnd := areEnds _ (List.contains_iff_mem.1 atEnd)
    exact Bool.false_ne_true (isEnd.symm.trans (startsExprStmt_of_simpleStmt parses))
  refine parses_bind_look.2 ?_
  rw [goesOn]
  exact parses_bind.2 ⟨_, _, parses, parses_pure.2 ⟨rfl, rfl⟩⟩

theorem starts_of_simpleStmtUnless
    {stmt : Option (SimpleStmt P)}
    {ends : List Token}
    (parses : Parses limit (simpleStmtUnless ends) state stmt final) :
    state.cursor.token ∈ ends ∨ startsExprStmt state.cursor.token = true := by
  have parses := parses_bind_look.1 parses
  split at parses
  · next atEnd => exact .inl (List.contains_iff_mem.1 atEnd)
  · obtain ⟨_, _, parses, -⟩ := parses_bind.1 parses
    exact .inr (startsExprStmt_of_simpleStmt parses)

/-- A statement that may be missing is read in front of what ends it. -/
theorem parses_statementPart
    {part : Option (List (Lexeme P) × SimpleStmt P)}
    {ends : List Token}
    (isPart : ∀ each ∈ part,
      ReadsBefore limit state.depth state.inHeader simpleStmt each.1 each.2 follower)
    (isEnd : follower.token ∈ ends)
    (areEnds : ∀ token ∈ ends, startsExprStmt token = false)
    (regular : state.Regular)
    (aheadEq : state.cursor.ahead = partLexemes part ++ follower :: rest) :
    Parses limit (simpleStmtUnless ends) state (part.map Prod.snd)
      (state.moved (partLexemes part).length (follower :: rest)).cursor := by
  cases part with
  | none =>
      have atEnd : state.cursor.atAny ends = true := by
        rw [Cursor.atAny, Cursor.token_of_ahead aheadEq]
        exact List.contains_iff_mem.2 isEnd
      refine parses_bind_look.2 ?_
      rw [if_pos atEnd]
      exact parses_pure.2 ⟨rfl, congrArg ReadState.cursor (ReadState.moved_zero aheadEq)⟩
  | some part =>
      have parses := (isPart part rfl).parses
        (fun allowance => (readsNonterminals limit allowance).simpleStmt.repeats trivial) regular aheadEq
      exact parses_simpleStmtUnless parses areEnds

/-- An expression that may be missing is read in front of the semicolon behind it, and then the rest. -/
theorem parses_exprPart
    {part : Option (List (Lexeme P) × Expr P)}
    {next : Option (Expr P) -> Production P α}
    (isPart : ∀ each ∈ part,
      ReadsBefore limit state.depth state.inHeader Production.expr each.1 each.2 follower)
    (isSemi : follower.token = .semi)
    (regular : state.Regular)
    (aheadEq : state.cursor.ahead = partLexemes part ++ follower :: rest)
    (restParses : Parses limit (next (part.map Prod.snd))
      (state.moved (partLexemes part).length (follower :: rest)) value final) :
    Parses limit
      (if state.cursor.token = .semi then (Production.pure none).bind next
        else Production.expr.bind fun condition => (Production.pure (some condition)).bind next)
      state value final := by
  cases part with
  | none =>
      have stays : state.moved 0 (follower :: rest) = state := ReadState.moved_zero aheadEq
      rw [if_pos ((Cursor.token_of_ahead aheadEq).trans isSemi)]
      exact parses_bind.2 ⟨none, state.cursor, parses_pure.2 ⟨rfl, rfl⟩, stays ▸ restParses⟩
  | some part =>
      have parses := (isPart part rfl).parses
        (fun allowance => (readsNonterminals limit allowance).expr.repeats trivial) regular aheadEq
      rw [if_neg (ne_of_startsExprStmt (startsExprStmt_of_parses parses) rfl)]
      refine parses_bind.2 ⟨_, _, parses, parses_bind.2 ⟨_, _, parses_pure.2 ⟨rfl, rfl⟩, ?_⟩⟩
      exact restParses

/-! ## Clauses of three parts -/

section

variable {init post : Option (List (Lexeme P) × SimpleStmt P)} {test : Option (List (Lexeme P) × Expr P)}
  {first second lBrace : Lexeme P} {stmt : Option (SimpleStmt P)}

theorem parses_forClauseTail
    (isFirst : first.token = .semi)
    (isSecond : second.token = .semi)
    (isTest : ∀ each ∈ test,
      ReadsBefore limit state.depth state.inHeader Production.expr each.1 each.2 second)
    (isPost : ∀ each ∈ post,
      ReadsBefore limit state.depth state.inHeader simpleStmt each.1 each.2 lBrace)
    (opens : lBrace.token = .lBrace)
    (regular : state.Regular)
    (aheadEq : state.cursor.ahead
      = first :: (partLexemes test ++ second :: (partLexemes post ++ lBrace :: rest))) :
    Parses limit (forClauseTail stmt) state
      (.forClause (.ofOption stmt) (.ofOption (test.map Prod.snd)) (.ofOption (post.map Prod.snd)))
      (state.moved (1 + (partLexemes test).length + 1 + (partLexemes post).length)
        (lBrace :: rest)).cursor := by
  let behindFirst := state.moved 1 (partLexemes test ++ second :: (partLexemes post ++ lBrace :: rest))
  let behindTest := behindFirst.moved (partLexemes test).length
    (second :: (partLexemes post ++ lBrace :: rest))
  let behindSecond := behindTest.moved 1 (partLexemes post ++ lBrace :: rest)
  have firstRegular : behindFirst.Regular := regular_of_suffix regular ⟨[first], aheadEq.symm⟩
  have secondRegular : behindSecond.Regular :=
    regular_of_suffix firstRegular ⟨partLexemes test ++ [second], by simp [behindFirst, behindSecond]⟩
  have postParses : Parses limit (simpleStmtUnless [.lBrace]) behindSecond (post.map Prod.snd) _ :=
    parses_statementPart isPost (by rw [opens]; exact List.mem_singleton_self _) (by decide)
      secondRegular rfl
  refine parses_bind.2 ⟨_, behindFirst.cursor, parses_expect.2 ⟨?_, rfl, ?_⟩, parses_bind_look.2 ?_⟩
  · exact (Cursor.token_of_ahead aheadEq).trans isFirst
  · exact congrArg ReadState.cursor (ReadState.advance_eq_moved aheadEq).symm
  refine @parses_exprPart _ _ _ behindFirst _ _ _ _ _ _ isTest isSecond firstRegular rfl ?_
  refine parses_bind.2 ⟨_, behindSecond.cursor, parses_expect.2 ⟨isSecond, rfl, rfl⟩, ?_⟩
  refine parses_bind.2 ⟨_, _, postParses, parses_pure.2 ⟨rfl, ?_⟩⟩
  simp [behindSecond, behindTest, behindFirst, ReadState.moved, Nat.add_assoc]

end

/-! ## Headers -/

section

variable {lBrace : Lexeme P} (opens : lBrace.token = .lBrace) (regular : state.Regular)

include opens regular

theorem parses_forHeader_condition
    {expr : Expr P}
    (reads : ReadsBefore limit state.depth true Production.expr text expr lBrace)
    (aheadEq : state.cursor.ahead = text ++ lBrace :: rest) :
    Parses limit forHeader state (.present (.whileTrue expr))
      (state.moved text.length (lBrace :: rest)).cursor := by
  have parses : Parses limit Production.expr (state.place true) expr
      (state.moved text.length (lBrace :: rest)).cursor :=
    reads.parses (fun allowance => (readsNonterminals limit allowance).expr.repeats trivial) regular
      aheadEq
  have noRange : state.cursor.occurBefore .lBrace [.kwRange] = false := by
    have isPart := reads.shielded (regular_of_ahead regular aheadEq)
      (fun allowance => (shieldsNonterminals limit allowance).expr)
      (fun allowance => (readsNonterminals limit allowance).expr)
    rw [Cursor.occurBefore, aheadEq, occurIn_part isPart (by decide) (by decide), occurIn_terminator opens,
      Bool.and_false]
  refine parses_inHeader.2 (parses_bind_look.2 ?_)
  rw [if_neg (ne_of_startsExprStmt (startsExprStmt_of_parses parses) rfl), ReadState.cursor_place, noRange,
    if_neg Bool.false_ne_true]
  refine parses_bind.2 ⟨_, _, parses_simpleStmtUnless (parses_exprStmt parses opens) (by decide),
    parses_bind_look.2 ?_⟩
  have notSemi : lBrace.token ≠ .semi := by rw [opens]; decide
  change Parses limit (if lBrace.token = .semi then _ else _) _ _ _
  rw [if_neg notSemi]
  exact parses_bind.2 ⟨expr, _, parses_pure.2 ⟨rfl, rfl⟩, parses_pure.2 ⟨rfl, rfl⟩⟩

theorem parses_forHeader_clause
    {init post : Option (List (Lexeme P) × SimpleStmt P)}
    {test : Option (List (Lexeme P) × Expr P)}
    {first second : Lexeme P}
    (isFirst : first.token = .semi)
    (isSecond : second.token = .semi)
    (isInit : ∀ each ∈ init, ReadsBefore limit state.depth true simpleStmt each.1 each.2 first)
    (isTest : ∀ each ∈ test, ReadsBefore limit state.depth true Production.expr each.1 each.2 second)
    (isPost : ∀ each ∈ post, ReadsBefore limit state.depth true simpleStmt each.1 each.2 lBrace)
    (aheadEq : state.cursor.ahead = partLexemes init
      ++ first :: (partLexemes test ++ second :: (partLexemes post ++ lBrace :: rest))) :
    Parses limit forHeader state
      (.present (.forClause (.ofOption (init.map Prod.snd)) (.ofOption (test.map Prod.snd))
        (.ofOption (post.map Prod.snd))))
      (state.moved ((partLexemes init).length
        + (1 + (partLexemes test).length + 1 + (partLexemes post).length)) (lBrace :: rest)).cursor := by
  have areRegular := fun each (member : each ∈ partLexemes init
    ++ first :: (partLexemes test ++ second :: (partLexemes post ++ lBrace :: rest))) =>
      regular each (aheadEq ▸ member)
  let behindInit := (state.place true).moved (partLexemes init).length
    (first :: (partLexemes test ++ second :: (partLexemes post ++ lBrace :: rest)))
  have initParses : Parses limit (simpleStmtUnless [.semi]) (state.place true) (init.map Prod.snd)
      behindInit.cursor :=
    parses_statementPart isInit (by rw [isFirst]; exact List.mem_singleton_self _) (by decide) regular
      aheadEq
  have tailParses : Parses limit (forClauseTail (init.map Prod.snd)) behindInit _ _ :=
    parses_forClauseTail isFirst isSecond isTest isPost opens
      (regular_of_suffix regular ⟨partLexemes init, aheadEq.symm⟩) rfl
  rw [ReadState.moved_moved] at tailParses
  have notBody : state.cursor.token ≠ .lBrace := by
    rcases starts_of_simpleStmtUnless initParses with isSemi | starts
    · exact fun atBrace => nomatch (List.mem_singleton.1 isSemi).symm.trans atBrace
    · exact ne_of_startsExprStmt starts rfl
  have noRange : state.cursor.occurBefore .lBrace [.kwRange] = false := by
    rw [Cursor.occurBefore, aheadEq]
    refine occurIn_part_eq_false isInit (fun each member => areRegular each (by grind))
      (fun allowance => (shieldsNonterminals limit allowance).simpleStmt)
      (fun allowance => (readsNonterminals limit allowance).simpleStmt) ?_
    rw [occurIn_other (by simp [isFirst]) (by simp [isFirst]) (by simp [isFirst])]
    refine occurIn_part_eq_false isTest (fun each member => areRegular each (by grind))
      (fun allowance => (shieldsNonterminals limit allowance).expr.mono (by decide))
      (fun allowance => (readsNonterminals limit allowance).expr) ?_
    rw [occurIn_other (by simp [isSecond]) (by simp [isSecond]) (by simp [isSecond])]
    exact occurIn_part_eq_false isPost (fun each member => areRegular each (by grind))
      (fun allowance => (shieldsNonterminals limit allowance).simpleStmt)
      (fun allowance => (readsNonterminals limit allowance).simpleStmt) (occurIn_terminator opens)
  refine parses_inHeader.2 (parses_bind_look.2 ?_)
  rw [ReadState.cursor_place, if_neg notBody, noRange, if_neg Bool.false_ne_true]
  refine parses_bind.2 ⟨_, _, initParses, parses_bind_look.2 ?_⟩
  cases init with
  | none => exact parses_bind.2 ⟨_, _, tailParses, parses_pure.2 ⟨rfl, rfl⟩⟩
  | some init =>
      change Parses limit (if first.token = .semi then _ else _) _ _ _
      rw [if_pos isFirst]
      exact parses_bind.2 ⟨_, _, tailParses, parses_pure.2 ⟨rfl, rfl⟩⟩

end

/-! ## Range clauses -/

theorem isName_of_collects
    {names : List (Ident P)}
    (collects : Collects limit (behindComma ident) names state final)
    (aheadEq : state.cursor.ahead = text ++ final.ahead) :
    ∀ lexeme ∈ text, lexeme.token ∈ [.ident, .comma] := by
  induction names generalizing state text with
  | nil =>
      obtain ⟨-, rfl⟩ := collects_behindComma_nil.1 collects
      obtain rfl := List.append_left_eq_self.1 aheadEq.symm
      exact List.forall_mem_nil _
  | cons name names inductionHypothesis =>
      obtain ⟨atComma, middle, parses, collects⟩ := collects_behindComma_cons.1 collects
      obtain ⟨atName, -, rfl⟩ := parses_ident.1 parses
      obtain ⟨comma, commaEq, isComma⟩ := exists_of_atToken atComma (by decide)
      obtain ⟨name, nameEq, isName⟩ := exists_of_atToken atName (by decide)
      obtain ⟨taken, takenEq⟩ := (parses_many.2 collects).exists_taken
      obtain rfl : text = comma :: name :: taken := by
        refine List.append_cancel_right (aheadEq.symm.trans ?_)
        rw [commaEq]
        exact congrArg (comma :: ·) (nameEq.trans (congrArg (name :: ·) takenEq))
      refine List.forall_mem_cons.2 ⟨by simp [isComma], List.forall_mem_cons.2 ⟨by simp [isName], ?_⟩⟩
      exact inductionHypothesis collects takenEq

/-- Names between commas begin with a name, and there is nothing else among them. -/
theorem isName_of_identList
    {names : List (Ident P)}
    (parses : Parses limit identList state names final)
    (aheadEq : state.cursor.ahead = text ++ final.ahead) :
    state.cursor.token = .ident ∧ ∀ lexeme ∈ text, lexeme.token ∈ [.ident, .comma] := by
  obtain ⟨_, _, firstParses, parses⟩ := parses_bind.1 parses
  obtain ⟨_, _, manyParses, parses⟩ := parses_bind.1 parses
  obtain ⟨atName, -, rfl⟩ := parses_ident.1 firstParses
  obtain ⟨-, rfl⟩ := parses_pure.1 parses
  obtain ⟨name, nameEq, isName⟩ := exists_of_atToken atName (by decide)
  obtain ⟨taken, takenEq⟩ := manyParses.exists_taken
  obtain rfl : text = name :: taken :=
    List.append_cancel_right (aheadEq.symm.trans (nameEq.trans (congrArg (name :: ·) takenEq)))
  exact ⟨atName, List.forall_mem_cons.2
    ⟨by simp [isName], isName_of_collects (parses_many.1 manyParses) takenEq⟩⟩

/-- What a range clause binds is found by the two searches, and read. -/
structure FindsBinding
    (limit : Nat)
    (state : ReadState P)
    (binding : WrittenBinding P)
    (behind : List (Lexeme P)) : Prop where
  notBody : state.cursor.token ≠ .lBrace
  hasRange : state.cursor.occurBefore .lBrace [.kwRange] = true
  parses : Parses limit rangeBinding state (some (binding.list, binding.operator))
    (state.moved binding.lexemes.length behind).cursor

section

variable {keyword : Lexeme P} (isRange : keyword.token = .kwRange) (regular : state.Regular)
  (inside : state.inHeader = true)

include isRange regular inside

theorem findsBinding_names
    {names : List (Ident P)}
    {define : Lexeme P}
    (isDefine : define.token = .define)
    (reads : ReadsBefore limit state.depth true identList text names define)
    (aheadEq : state.cursor.ahead = text ++ define :: keyword :: rest) :
    FindsBinding limit state (.names text names define) (keyword :: rest) := by
  have parses : Parses limit identList state names
      (state.moved text.length (define :: keyword :: rest)).cursor :=
    (inside.symm ▸ reads : ReadsBefore limit state.depth state.inHeader identList text names define).parses
      (fun _ => ReadsNonterminals.identList.repeats trivial) regular aheadEq
  obtain ⟨atName, areNames⟩ := isName_of_identList parses aheadEq
  have isPart := reads.shielded (regular_of_ahead regular aheadEq)
    (fun _ => ShieldsNonterminals.identList) (fun _ => ReadsNonterminals.identList)
  have outside (token : Token) (other : token ∉ [.ident, .comma]) :
      Cursor.standsOutside token 0 text = false :=
    Cursor.standsOutside_eq_false 0 fun lexeme member isToken => other (isToken ▸ areNames lexeme member)
  have isDefinition : state.cursor.occurBefore .kwRange [.define] = true := by
    rw [Cursor.occurBefore, aheadEq, occurIn_part isPart (by decide) (by decide), outside _ (by decide)]
    simp [Cursor.occurIn, isDefine]
  refine ⟨by rw [atName]; decide, ?_, parses_bind_look.2 ?_⟩
  · rw [Cursor.occurBefore, aheadEq, occurIn_part isPart (by decide) (by decide), outside _ (by decide),
      occurIn_other (by simp [isDefine]) (by simp [isDefine]) (by simp [isDefine])]
    simp [Cursor.occurIn, isRange]
  · rw [if_neg (by rw [atName]; decide), isDefinition, if_pos rfl]
    refine parses_bind.2 ⟨_, _, parses_bind.2 ⟨_, _, parses, ?_⟩, parses_pure.2 ⟨rfl, rfl⟩⟩
    refine parses_bind.2 ⟨_, _, parses_mark.2 ⟨isDefine, rfl, rfl⟩, parses_pure.2 ⟨rfl, ?_⟩⟩
    simp [WrittenBinding.lexemes, ReadState.moved, Cursor.advance, Nat.add_assoc]

theorem findsBinding_exprs
    {values : ExprList P}
    {assign : Lexeme P}
    (isAssign : assign.token = .assign)
    (reads : ReadsBefore limit state.depth true exprList text values assign)
    (bracesInBrackets : Cursor.standsOutside .lBrace 0 text = false)
    (aheadEq : state.cursor.ahead = text ++ assign :: keyword :: rest) :
    FindsBinding limit state (.exprs text values assign) (keyword :: rest) := by
  have parses : Parses limit exprList state values
      (state.moved text.length (assign :: keyword :: rest)).cursor :=
    (inside.symm ▸ reads : ReadsBefore limit state.depth state.inHeader exprList text values assign).parses
      (fun allowance => (readsNonterminals limit allowance).exprList.repeats trivial) regular aheadEq
  have starts := startsExprStmt_of_exprList parses
  have isPart := reads.shielded (regular_of_ahead regular aheadEq)
    (fun allowance => (shieldsNonterminals limit allowance).exprList)
    (fun allowance => (readsNonterminals limit allowance).exprList)
  have noDefinition : state.cursor.occurBefore .kwRange [.define] = false := by
    rw [Cursor.occurBefore, aheadEq, occurIn_part isPart (by decide) (by decide),
      occurIn_other (by simp [isAssign]) (by simp [isAssign]) (by simp [isAssign]),
      occurIn_terminator isRange, Bool.and_false]
  refine ⟨ne_of_startsExprStmt starts rfl, ?_, parses_bind_look.2 ?_⟩
  · rw [Cursor.occurBefore, aheadEq, occurIn_part isPart (by decide) (by decide), bracesInBrackets,
      occurIn_other (by simp [isAssign]) (by simp [isAssign]) (by simp [isAssign])]
    simp [Cursor.occurIn, isRange]
  · rw [if_neg (ne_of_startsExprStmt starts rfl), noDefinition, if_neg Bool.false_ne_true]
    refine parses_bind.2 ⟨_, _, parses_bind.2 ⟨_, _, parses, ?_⟩, parses_pure.2 ⟨rfl, rfl⟩⟩
    refine parses_bind.2 ⟨_, _, parses_mark.2 ⟨isAssign, rfl, rfl⟩, parses_pure.2 ⟨rfl, ?_⟩⟩
    simp [WrittenBinding.lexemes, ReadState.moved, Cursor.advance, Nat.add_assoc]

theorem findsBinding
    {binding : WrittenBinding P}
    (isValid : binding.IsValid limit state.depth)
    (bracesInBrackets : binding.BracesInBrackets)
    (aheadEq : state.cursor.ahead = binding.lexemes ++ keyword :: rest) :
    FindsBinding limit state binding (keyword :: rest) := by
  cases binding with
  | names text names define =>
      refine findsBinding_names isRange regular inside isValid.1 isValid.2 ?_
      rw [aheadEq, WrittenBinding.lexemes, List.append_assoc, List.singleton_append]
  | exprs text values assign =>
      refine findsBinding_exprs isRange regular inside isValid.1 isValid.2 bracesInBrackets ?_
      rw [aheadEq, WrittenBinding.lexemes, List.append_assoc, List.singleton_append]

end

/-- What comes behind the binding of a range clause. -/
theorem parses_rangeClause
    {binding : Option (WrittenBinding P)}
    {expr : Expr P}
    {middle : Cursor P}
    (bindingParses : Parses limit rangeBinding state
      (binding.map fun bound => (bound.list, bound.operator)) middle)
    (isRange : middle.token = .kwRange)
    (parses : Parses limit Production.expr (state.moveTo middle.advance) expr final) :
    Parses limit rangeClause state
      (.rangeClause (.ofOption (binding.map WrittenBinding.tree)) ⟨.kwRange, middle.pos⟩ expr) final := by
  refine parses_bind.2 ⟨_, _, bindingParses, parses_bind.2 ⟨_, _, parses_mark.2 ⟨isRange, rfl, rfl⟩, ?_⟩⟩
  refine parses_bind.2 ⟨_, _, parses, parses_build.2 ⟨?_, rfl⟩⟩
  cases binding <;> rfl

theorem parses_forHeader_range
    {binding : Option (WrittenBinding P)}
    {keyword lBrace : Lexeme P}
    {expr : Expr P}
    (isRange : keyword.token = .kwRange)
    (isValid : ∀ bound ∈ binding, bound.IsValid limit state.depth)
    (bracesInBrackets : ∀ bound ∈ binding, bound.BracesInBrackets)
    (reads : ReadsBefore limit state.depth true Production.expr text expr lBrace)
    (regular : state.Regular)
    (aheadEq : state.cursor.ahead
      = (binding.map WrittenBinding.lexemes).getD [] ++ keyword :: (text ++ lBrace :: rest)) :
    Parses limit forHeader state
      (.present (.rangeClause (.ofOption (binding.map WrittenBinding.tree)) ⟨.kwRange, keyword.pos⟩ expr))
      (state.moved (((binding.map WrittenBinding.lexemes).getD []).length + (1 + text.length))
        (lBrace :: rest)).cursor := by
  let behindBinding := (state.place true).moved ((binding.map WrittenBinding.lexemes).getD []).length
    (keyword :: (text ++ lBrace :: rest))
  obtain ⟨notBody, hasRange, bindingParses⟩ : state.cursor.token ≠ .lBrace
      ∧ state.cursor.occurBefore .lBrace [.kwRange] = true
      ∧ Parses limit rangeBinding (state.place true)
          (binding.map fun bound => (bound.list, bound.operator)) behindBinding.cursor := by
    cases binding with
    | none =>
        have atRange : state.cursor.token = .kwRange := (Cursor.token_of_ahead aheadEq).trans isRange
        have stays : behindBinding = state.place true := ReadState.moved_zero aheadEq
        refine ⟨by rw [atRange]; decide, ?_, parses_bind_look.2 ?_⟩
        · rw [Cursor.occurBefore, aheadEq]
          simp [Cursor.occurIn, isRange]
        · rw [ReadState.cursor_place, if_pos atRange]
          exact parses_pure.2 ⟨rfl, congrArg ReadState.cursor stays⟩
    | some binding =>
        have isRegular : (state.place true).Regular := regular
        obtain ⟨notBody, hasRange, parses⟩ := findsBinding isRange isRegular rfl (isValid binding rfl)
          (bracesInBrackets binding rfl) aheadEq
        exact ⟨notBody, hasRange, parses⟩
  have behindRegular : (behindBinding.moved 1 (text ++ lBrace :: rest)).Regular :=
    regular_of_suffix regular ⟨(binding.map WrittenBinding.lexemes).getD [] ++ [keyword], by simp [aheadEq]⟩
  have exprParses : Parses limit Production.expr (behindBinding.moved 1 (text ++ lBrace :: rest)) expr
      ((behindBinding.moved 1 (text ++ lBrace :: rest)).moved text.length (lBrace :: rest)).cursor :=
    reads.parses (fun allowance => (readsNonterminals limit allowance).expr.repeats trivial) behindRegular
      rfl
  refine parses_inHeader.2 (parses_bind_look.2 ?_)
  rw [ReadState.cursor_place, if_neg notBody, hasRange, if_pos rfl]
  refine parses_bind.2 ⟨_, _, parses_rangeClause bindingParses isRange exprParses, parses_pure.2 ⟨rfl, ?_⟩⟩
  simp [behindBinding, ReadState.moved, Nat.add_assoc]

/-- A header comes next, in front of the brace of the body. -/
theorem parses_forHeader
    {header : WrittenHeader P}
    {lBrace : Lexeme P}
    (isValid : header.IsValid limit state.depth lBrace)
    (bracesInBrackets : header.BracesInBrackets)
    (opens : lBrace.token = .lBrace)
    (regular : state.Regular)
    (aheadEq : state.cursor.ahead = header.lexemes ++ lBrace :: rest) :
    Parses limit forHeader state header.tree
      (state.moved header.lexemes.length (lBrace :: rest)).cursor := by
  cases header with
  | none =>
      refine parses_inHeader.2 (parses_bind_look.2 ?_)
      rw [ReadState.cursor_place, if_pos ((Cursor.token_of_ahead aheadEq).trans opens)]
      have stays : (state.moved 0 (lBrace :: rest)).cursor = state.cursor :=
        congrArg ReadState.cursor (ReadState.moved_zero aheadEq)
      exact parses_pure.2 ⟨rfl, stays⟩
  | condition text expr => exact parses_forHeader_condition opens regular isValid aheadEq
  | clause init first test second post =>
      obtain ⟨isFirst, isSecond, isInit, isTest, isPost⟩ := isValid
      have sameLength : (WrittenHeader.clause init first test second post).lexemes.length
          = (partLexemes init).length + (1 + (partLexemes test).length + 1 + (partLexemes post).length) := by
        simp only [WrittenHeader.lexemes, List.length_append, List.length_cons]
        omega
      rw [sameLength]
      refine parses_forHeader_clause opens regular isFirst isSecond isInit isTest isPost ?_
      simp [aheadEq, WrittenHeader.lexemes]
  | range binding keyword text expr =>
      obtain ⟨isRange, areValid, reads⟩ := isValid
      have sameLength : (WrittenHeader.range binding keyword text expr).lexemes.length
          = ((binding.map WrittenBinding.lexemes).getD []).length + (1 + text.length) := by
        simp only [WrittenHeader.lexemes, List.length_append, List.length_cons]
        omega
      rw [sameLength]
      refine parses_forHeader_range isRange areValid bracesInBrackets reads regular ?_
      simp [aheadEq, WrittenHeader.lexemes]

/-! ## Loops -/

/-- A loop comes next: its keyword, a header, and a body that begins with a brace. The allowance is enough
to read it. -/
structure AtLoop
    (allowance : Nat)
    (state : ReadState P)
    (keyword lBrace : Lexeme P)
    (header body behind : List (Lexeme P)) : Prop where
  isKeyword : keyword.token = .kwFor
  opens : lBrace.token = .lBrace
  regular : state.Regular
  enough : Production.allowance state.cursor.ahead.length ≤ allowance
  aheadEq : state.cursor.ahead = keyword :: (header ++ lBrace :: (body ++ behind))

/-- A loop is read with the header that is written, whatever its shape, unless a brace opens outside
brackets in the expressions that a range clause assigns to. -/
theorem forHeader_shapes
    {allowance : Nat}
    {keyword lBrace : Lexeme P}
    {header : WrittenHeader P}
    {body behind : List (Lexeme P)}
    {tree : Block P}
    (atLoop : AtLoop allowance state keyword lBrace header.lexemes body behind)
    (isValid : header.IsValid limit state.depth lBrace)
    (bracesInBrackets : header.BracesInBrackets)
    (bodyReads : ReadsAlone limit state.depth state.inHeader block (lBrace :: body) tree) :
    (ruleMachine limit allowance).run forStmt state
      = .done (.forStmt ⟨.kwFor, keyword.pos⟩ header.tree tree)
        (state.moved (header.lexemes.length + body.length + 2) behind) := by
  obtain ⟨isKeyword, opens, regular, enough, aheadEq⟩ := atLoop
  let behindKeyword := state.moved 1 (header.lexemes ++ lBrace :: (body ++ behind))
  let behindHeader := behindKeyword.moved header.lexemes.length (lBrace :: (body ++ behind))
  have keywordRegular : behindKeyword.Regular := regular_of_suffix regular ⟨[keyword], aheadEq.symm⟩
  have headerRegular : behindHeader.Regular :=
    regular_of_suffix keywordRegular ⟨header.lexemes, rfl⟩
  have headerParses : Parses limit forHeader behindKeyword header.tree behindHeader.cursor :=
    parses_forHeader isValid bracesInBrackets opens keywordRegular rfl
  have bodyParses : Parses limit block behindHeader tree
      (behindHeader.moved (body.length + 1) behind).cursor :=
    @ReadsAlone.parses _ _ _ _ behindHeader _ _ _ bodyReads
      (fun allowance => (detachesNonterminals limit allowance).block) headerRegular rfl
  have parses : Parses limit forStmt state (.forStmt ⟨.kwFor, keyword.pos⟩ header.tree tree)
      (state.moved (header.lexemes.length + body.length + 2) behind).cursor := by
    refine parses_bind.2
      ⟨⟨.kwFor, keyword.pos⟩, behindKeyword.cursor, parses_mark.2 ⟨?_, ?_, ?_⟩, ?_⟩
    · exact (Cursor.token_of_ahead aheadEq).trans isKeyword
    · rw [Cursor.pos, Cursor.peek_of_ahead aheadEq]
    · exact congrArg ReadState.cursor (ReadState.advance_eq_moved aheadEq).symm
    refine parses_bind.2 ⟨_, _, headerParses, parses_bind.2 ⟨_, _, bodyParses, parses_pure.2 ⟨rfl, ?_⟩⟩⟩
    simp [behindHeader, behindKeyword]
    congr 2
    omega
  refine parses.run_of_ends Tree.map_id Mirrors.forStmt ?_
  have isTree : ReadsTree (ruleMachine (P := P) limit allowance) InBrackets 0 Production.forStmt :=
    (readsNonterminals limit allowance).forStmt
  have inBrackets : InBrackets none := (Option.some_ne_none []).symm
  refine (isTree ⟨none, none, none⟩ 0 inBrackets (Nat.le_refl 0)).finishes state regular (by simp) ?_
  unfold Production.allowance at enough
  change 8 * _ + 0 ≤ allowance
  omega

end

/-- The lexemes of `a[k{}]`, each at its number in a loop. -/
def literalIndex : List (Lexeme Nat) :=
  [⟨.ident, 1, some "a"⟩, ⟨.lBrack, 2, none⟩, ⟨.ident, 3, some "k"⟩, ⟨.lBrace, 4, none⟩,
    ⟨.rBrace, 5, none⟩, ⟨.rBrack, 6, none⟩]

/-- The lexemes of `for a[k{}] = range b {}`. -/
def literalLoop : List (Lexeme Nat) :=
  ⟨.kwFor, 0, none⟩ :: (literalIndex
    ++ [⟨.assign, 7, none⟩, ⟨.kwRange, 8, none⟩, ⟨.ident, 9, some "b"⟩, ⟨.lBrace, 10, none⟩,
      ⟨.rBrace, 11, none⟩])

/-- What `a[k{}]` is read as. -/
def literalIndexTree : Expr Nat :=
  .index (.ident ⟨"a", 1⟩) ⟨.lBrack, 2⟩
    (.compositeLit (.present (.namedType (.typeName none ⟨"k", 3⟩ .absent))) ⟨.lBrace, 4⟩
      (.elementList (.ofList [])) ⟨.rBrace, 5⟩)
    ⟨.rBrack, 6⟩

/-- A literal in brackets does not end the header of `for a[k{}] = range b {}`. -/
theorem forHeader_shapes_literal :
    (ruleMachine 9 128).run forStmt (.start literalLoop 12)
      = .done (.forStmt ⟨.kwFor, 0⟩
          (.present (.rangeClause
            (.present (.binding (.boundExprs (.exprList (.ofList [literalIndexTree]))) ⟨.assign, 7⟩))
            ⟨.kwRange, 8⟩ (.ident ⟨"b", 9⟩)))
          (.block ⟨.lBrace, 10⟩ (.stmtList (.ofList [])) ⟨.rBrace, 11⟩))
        ⟨⟨12, [], 12⟩, 0, false, []⟩ := by
  let header : WrittenHeader Nat := .range
    (some (.exprs literalIndex (.exprList (.ofList [literalIndexTree])) ⟨.assign, 7, none⟩))
    ⟨.kwRange, 8, none⟩ [⟨.ident, 9, some "b"⟩] (.ident ⟨"b", 9⟩)
  have atLoop : AtLoop 128 (.start literalLoop 12) ⟨.kwFor, 0, none⟩ ⟨.lBrace, 10, none⟩
      header.lexemes [⟨.rBrace, 11, none⟩] [] := by
    refine ⟨rfl, rfl, ?_, by decide, rfl⟩
    change ∀ lexeme ∈ literalLoop, lexeme.token ≠ .eof ∧ lexeme.literal.isSome = lexeme.token.isLiteral
    decide
  have isValid : header.IsValid 9 0 ⟨.lBrace, 10, none⟩ := by
    refine ⟨rfl, ?_, 12, 16, rfl⟩
    rintro _ ⟨⟩
    exact ⟨rfl, 12, 16, rfl⟩
  have bracesInBrackets : header.BracesInBrackets := by
    rintro _ ⟨⟩
    rfl
  have bodyReads : ReadsAlone 9 0 false block [⟨.lBrace, 10, none⟩, ⟨.rBrace, 11, none⟩]
      (.block ⟨.lBrace, 10⟩ (.stmtList (.ofList [])) ⟨.rBrace, 11⟩) :=
    ⟨[], 12, List.forall_mem_nil _, 16, rfl⟩
  exact forHeader_shapes atLoop isValid bracesInBrackets bodyReads

/-- The lexemes of `[]int{1}[0]`, each at its number in a loop. -/
def indexedLiteral : List (Lexeme Nat) :=
  [⟨.lBrack, 1, none⟩, ⟨.rBrack, 2, none⟩, ⟨.ident, 3, some "int"⟩, ⟨.lBrace, 4, none⟩,
    ⟨.intLit, 5, some "1"⟩, ⟨.rBrace, 6, none⟩, ⟨.lBrack, 7, none⟩, ⟨.intLit, 8, some "0"⟩,
    ⟨.rBrack, 9, none⟩]

/-- The brace of a literal outside brackets hides the keyword of a range clause: in
`for []int{1}[0] = range x {}` all parts are read without errors, but the loop is not, since an operand is
expected where the keyword stands. -/
theorem brace_hides_range :
    (∃ values : ExprList Nat,
      ReadsBefore 9 0 true exprList indexedLiteral values ⟨.assign, 10, none⟩)
      ∧ ReadsBefore 9 0 true Production.expr [⟨.ident, 12, some "x"⟩] (.ident ⟨"x", 12⟩)
        ⟨.lBrace, 13, none⟩
      ∧ ReadsAlone 9 0 false block [⟨.lBrace, 13, none⟩, ⟨.rBrace, 14, none⟩]
        (.block ⟨.lBrace, 13⟩ (.stmtList (.ofList [])) ⟨.rBrace, 14⟩)
      ∧ ∃ final : ReadState Nat,
        (ruleMachine 9 256).run forStmt
            (.start (⟨.kwFor, 0, none⟩ :: (indexedLiteral
              ++ [⟨.assign, 10, none⟩, ⟨.kwRange, 11, none⟩, ⟨.ident, 12, some "x"⟩,
                ⟨.lBrace, 13, none⟩, ⟨.rBrace, 14, none⟩])) 15)
          = .gaveUp final
        ∧ final.errors.map SyntaxError.cause = [.operandExpected .kwRange] :=
  ⟨⟨_, 15, 16, rfl⟩, ⟨15, 16, rfl⟩, ⟨[], 15, List.forall_mem_nil _, 16, rfl⟩, _, rfl, rfl⟩

end Production
end GoFront
