import GoFront.Proofs.Reading.Terminators

/-!
# Blocks with a malformed statement

A row of items that is read without errors is read again wherever the same lexemes stand. Behind a
statement that failed, reading resumes behind the semicolon that ends it, if nothing before that can end
or start a statement. So a block in which such a statement stands between others is read as a block of
these others.
-/

namespace GoFront

variable {P : Type}

/-! ## Rows of items -/

theorem ReadState.reaches_moved
    {state : ReadState P}
    {taken behind : List (Lexeme P)}
    (aheadEq : state.cursor.ahead = taken ++ behind) :
    state.Reaches taken (state.moved taken.length behind) :=
  ⟨aheadEq, rfl, rfl, rfl, rfl, List.suffix_rfl⟩

/-- A production that reads nothing without errors but in lexemes. -/
def Consumes
    {α : Type}
    (machine : Machine P)
    (production : Production P α) : Prop :=
  ∀ ⦃state final value taken⦄, CleanRun machine production state value final taken -> taken ≠ []

theorem ReadsPhrase.consumes
    {α : Type}
    {machine : Machine P}
    {production : Production P α}
    {inside : Option (List Token) -> Prop}
    {need : Nat}
    {outline : α -> List (Mention P)}
    {valid : α -> Prop}
    (isPhrase : ReadsPhrase machine inside need production (Consumed outline valid))
    (isInside : inside none) :
    Consumes machine production := by
  intro state final value taken cleanRun nothing
  have consumes := Reads.consumed_lt isPhrase isInside cleanRun.regular cleanRun.run
  rw [cleanRun.reaches.consumed, nothing] at consumes
  exact Nat.lt_irrefl _ consumes

theorem ReadsAgain.cleanRun
    {α : Type}
    {machine : Machine P}
    {production : Production P α}
    {state other : ReadState P}
    {value : α}
    {taken behind : List (Lexeme P)}
    (again : ReadsAgain machine production state value taken behind)
    (regular : other.Regular)
    (aheadEq : other.cursor.ahead = taken ++ behind)
    (sameDepth : other.depth = state.depth)
    (sameHeader : other.inHeader = state.inHeader) :
    CleanRun machine production other value (other.moved taken.length behind) taken :=
  ⟨regular, again other aheadEq sameDepth sameHeader, ReadState.reaches_moved aheadEq, rfl⟩

/-- In front of whatever lies behind a lexeme, the same lexeme comes next. -/
theorem exists_next
    (front : List (Lexeme P))
    (lexeme : Lexeme P)
    (back back' : List (Lexeme P)) :
    ∃ next tail tail', front ++ lexeme :: back = next :: tail
      ∧ front ++ lexeme :: back' = next :: tail' := by
  cases front with
  | nil => exact ⟨lexeme, back, back', rfl, rfl⟩
  | cons next front => exact ⟨next, _, _, rfl, rfl⟩

/-- Items are read one behind the other without errors, each where a condition on what lies ahead
holds. -/
inductive CleanRuns
    {phrase : Phrase}
    (machine : Machine P)
    (goesOn : Cursor P -> Bool)
    (item : Production P (Tree P (.one phrase))) :
    ReadState P -> List (Tree P (.one phrase)) -> ReadState P -> List (Lexeme P) -> Prop
  | nil (state : ReadState P) :
      CleanRuns machine goesOn item state [] state []
  | cons
      {state middle final : ReadState P}
      {value : Tree P (.one phrase)}
      {values : List (Tree P (.one phrase))}
      {front back : List (Lexeme P)}
      (isMore : goesOn state.cursor = true)
      (first : CleanRun machine item state value middle front)
      (rest : CleanRuns machine goesOn item middle values final back) :
      CleanRuns machine goesOn item state (value :: values) final (front ++ back)

namespace CleanRuns

variable {phrase : Phrase} {machine : Machine P} {recovery : Recovery} {goesOn : Cursor P -> Bool}
  {item : Production P (Tree P (.one phrase))} {state final other : ReadState P}
  {items values : List (Tree P (.one phrase))} {taken : List (Lexeme P)}

theorem reaches (runs : CleanRuns machine goesOn item state values final taken) :
    state.Reaches taken final := by
  induction runs with
  | nil state => exact .refl state
  | cons _ first _ inductionHypothesis => exact first.reaches.trans inductionHypothesis

theorem eq_nil_of_stop
    (stops : goesOn state.cursor = false)
    (runs : CleanRuns machine goesOn item state values final taken) :
    values = [] ∧ taken = [] ∧ final = state := by
  cases runs with
  | nil => exact ⟨rfl, rfl, rfl⟩
  | cons isMore _ _ =>
      rw [stops] at isMore
      cases isMore

/-- There are not more items than lexemes. -/
theorem length_le
    (consumes : Consumes machine item)
    (runs : CleanRuns machine goesOn item state values final taken) :
    values.length ≤ taken.length := by
  induction runs with
  | nil => exact Nat.le_refl 0
  | cons _ first _ inductionHypothesis =>
      have positive := List.length_pos_iff.2 (consumes first)
      rw [List.length_cons, List.length_append]
      omega

/-- A loop without errors reads a row of items. -/
theorem exists_of_collect
    {repetitions : Nat}
    {result : List (Tree P (.one phrase))}
    (regular : state.Regular)
    (run : machine.collect recovery goesOn item repetitions items state = .done result final)
    (clean : final.errors = state.errors) :
    ∃ values taken, CleanRuns machine goesOn item state values final taken
      ∧ result = values.reverse ++ items ∧ goesOn final.cursor = false := by
  induction repetitions generalizing items state with
  | zero => cases run
  | succ repetitions inductionHypothesis =>
      obtain ⟨stops, rfl, rfl⟩ | ⟨value, next, isMore, itemRun, nextClean, run⟩ :=
        Machine.first_of_collect run clean
      · exact ⟨[], [], .nil final, rfl, stops⟩
      · obtain ⟨front, reaches⟩ := machine.reaches_of_done itemRun
        obtain ⟨values, back, runs, resultEq, stops⟩ :=
          inductionHypothesis (reaches.regular regular) run (clean.trans nextClean.symm)
        refine ⟨value :: values, front ++ back,
          .cons isMore ⟨regular, itemRun, reaches, nextClean⟩ runs, ?_, stops⟩
        rw [resultEq, List.reverse_cons, List.append_assoc]
        rfl

/-- A loop passes a row of items. -/
theorem collect_eq
    {repetitions left : Nat}
    (runs : CleanRuns machine goesOn item state values final taken)
    (repeated : repetitions = values.length + left)
    (items : List (Tree P (.one phrase))) :
    machine.collect recovery goesOn item repetitions items state
      = machine.collect recovery goesOn item left (values.reverse ++ items) final := by
  subst repeated
  induction runs generalizing items with
  | nil => rw [List.length_nil, Nat.zero_add, List.reverse_nil, List.nil_append]
  | cons isMore first _ inductionHypothesis =>
      rw [List.length_cons, Nat.add_right_comm, Machine.collect_done _ isMore first.run,
        inductionHypothesis, List.reverse_cons, List.append_assoc]
      rfl

/-- A loop ends behind a row of items. -/
theorem collect_stop
    {repetitions : Nat}
    (runs : CleanRuns machine goesOn item state values final taken)
    (stops : goesOn final.cursor = false)
    (enough : values.length < repetitions)
    (items : List (Tree P (.one phrase))) :
    machine.collect recovery goesOn item repetitions items state
      = .done (values.reverse ++ items) final := by
  obtain ⟨left, repeated⟩ : ∃ left, repetitions = values.length + (left + 1) :=
    ⟨repetitions - values.length - 1, by omega⟩
  rw [runs.collect_eq repeated, Machine.collect_stop left stops]

/-- A row of items is taken apart. -/
theorem exists_of_append
    {before behind : List (Tree P (.one phrase))}
    (runs : CleanRuns machine goesOn item state (before ++ behind) final taken) :
    ∃ middle front back, taken = front ++ back
      ∧ CleanRuns machine goesOn item state before middle front
      ∧ CleanRuns machine goesOn item middle behind final back := by
  induction before generalizing state taken with
  | nil => exact ⟨state, [], taken, rfl, .nil state, runs⟩
  | cons value before inductionHypothesis =>
      cases runs with
      | cons isMore first rest =>
          obtain ⟨middle, front, back, rfl, frontRuns, backRuns⟩ := inductionHypothesis rest
          exact ⟨middle, _ ++ front, back, (List.append_assoc _ _ _).symm,
            .cons isMore first frontRuns, backRuns⟩

/-- One more item in front of a row that is read again. -/
theorem cons_again
    {middle : ReadState P}
    {value : Tree P (.one phrase)}
    {front back behind : List (Lexeme P)}
    (consumes : Consumes machine item)
    (peeks : ∀ first second : Cursor P, first.token = second.token -> goesOn first = goesOn second)
    (isMore : goesOn state.cursor = true)
    (first : CleanRun machine item state value middle front)
    (again : ReadsAgain machine item state value front behind)
    (regular : other.Regular)
    (otherAhead : other.cursor.ahead = front ++ behind)
    (sameDepth : other.depth = state.depth)
    (sameHeader : other.inHeader = state.inHeader)
    (rest : CleanRuns machine goesOn item (other.moved front.length behind) values final back) :
    CleanRuns machine goesOn item other (value :: values) final (front ++ back) := by
  refine .cons ?_ (again.cleanRun regular otherAhead sameDepth sameHeader) rest
  rw [← isMore]
  apply peeks
  obtain ⟨head, tail, rfl⟩ := List.exists_cons_of_ne_nil (consumes first)
  rw [Cursor.token_of_ahead otherAhead, Cursor.token_of_ahead first.reaches.ahead]

/-- A row of items is read again in front of the same lexeme. -/
theorem again
    {lexeme : Lexeme P}
    {rest rest' : List (Lexeme P)}
    (repeats : Repeats machine item)
    (consumes : Consumes machine item)
    (peeks : ∀ first second : Cursor P, first.token = second.token -> goesOn first = goesOn second)
    (runs : CleanRuns machine goesOn item state values final taken)
    (follows : final.cursor.ahead = lexeme :: rest)
    (regular : other.Regular)
    (otherAhead : other.cursor.ahead = taken ++ lexeme :: rest')
    (sameDepth : other.depth = state.depth)
    (sameHeader : other.inHeader = state.inHeader) :
    CleanRuns machine goesOn item other values (other.moved taken.length (lexeme :: rest')) taken := by
  induction runs generalizing other with
  | nil state =>
      rw [List.length_nil, ReadState.moved_zero (otherAhead.trans (List.nil_append _))]
      exact .nil other
  | @cons state middle final value values front back isMore first runs inductionHypothesis =>
      obtain ⟨next, tail, tail', sameMiddle, otherMiddle⟩ := exists_next back lexeme rest rest'
      have middleAhead : middle.cursor.ahead = next :: tail := by
        rw [runs.reaches.ahead, follows, sameMiddle]
      rw [List.append_assoc] at otherAhead
      have startAgain := repeats first next tail tail' middleAhead
      rw [← otherMiddle] at startAgain
      refine .cons_again consumes peeks isMore first startAgain regular otherAhead sameDepth
        sameHeader ?_
      have runsAgain := inductionHypothesis follows
        ((ReadState.reaches_moved otherAhead).regular regular) rfl
        (sameDepth.trans first.reaches.depth.symm) (sameHeader.trans first.reaches.inHeader.symm)
      rwa [ReadState.moved_moved, ← List.length_append] at runsAgain

/-- A row of items that ends in a semicolon is read again whatever follows. -/
theorem settled
    {behind : List (Lexeme P)}
    (repeats : Repeats machine item)
    (settles : Settles machine item)
    (consumes : Consumes machine item)
    (peeks : ∀ first second : Cursor P, first.token = second.token -> goesOn first = goesOn second)
    (runs : CleanRuns machine goesOn item state values final taken)
    (ends : ∀ last ∈ taken.getLast?, last.token = .semi)
    (regular : other.Regular)
    (otherAhead : other.cursor.ahead = taken ++ behind)
    (sameDepth : other.depth = state.depth)
    (sameHeader : other.inHeader = state.inHeader) :
    CleanRuns machine goesOn item other values (other.moved taken.length behind) taken := by
  induction runs generalizing other with
  | nil state =>
      rw [List.length_nil, ReadState.moved_zero (otherAhead.trans (List.nil_append _))]
      exact .nil other
  | @cons state middle final value values front back isMore first runs inductionHypothesis =>
      rw [List.append_assoc] at otherAhead
      have startAgain : ReadsAgain machine item state value front (back ++ behind) := by
        cases back with
        | nil =>
            have last := List.getLast?_eq_some_getLast (consumes first)
            rw [List.append_nil] at ends
            refine settles first ?_ behind
            rw [last]
            exact congrArg some (ends _ last)
        | cons next back => exact repeats first next _ _ runs.reaches.ahead
      refine .cons_again consumes peeks isMore first startAgain regular otherAhead sameDepth
        sameHeader ?_
      have restEnds : ∀ last ∈ back.getLast?, last.token = .semi := by
        intro last isLast
        refine ends last ?_
        rw [List.getLast?_append, isLast, Option.some_or]
        rfl
      have runsAgain := inductionHypothesis restEnds
        ((ReadState.reaches_moved otherAhead).regular regular) rfl
        (sameDepth.trans first.reaches.depth.symm) (sameHeader.trans first.reaches.inHeader.symm)
      rwa [ReadState.moved_moved, ← List.length_append] at runsAgain

end CleanRuns

/-! ## Behind a failed statement -/

namespace Recovery

/-- The number of open parentheses and square brackets behind a token. A bracket that closes nothing is
ignored. -/
def parenDepth (depth : Nat) : Token -> Nat
  | .lParen | .lBrack => depth + 1
  | .rParen | .rBrack => depth - 1
  | _ => depth

/-- Whether a token ends the statement that it stands in or starts another one: a semicolon or a closing
brace outside braces, or a keyword outside all brackets. -/
def bounds (braces parens : Nat) (token : Token) : Bool :=
  braces = 0
    && (token = .semi || token = .rBrace
      || parens = 0 && (token.startsDecl || token.startsStmt))

/-- Whether lexemes close all open braces, and no lexeme ends a statement or starts one. Inside braces
other brackets are not counted. -/
def staysInside : (braces parens : Nat) -> List (Lexeme P) -> Bool
  | braces, _, [] => braces = 0
  | braces, parens, lexeme :: rest =>
      !bounds braces parens lexeme.token
        && staysInside (Cursor.braceDepth braces lexeme.token)
          (if braces = 0 then parenDepth parens lexeme.token else parens) rest

/-- A lexeme at which reading resumes, or behind which it does, is the last one that is looked at. -/
theorem lexemesToStmt_cons
    (braces parens : Nat)
    (lexeme : Lexeme P)
    (rest : List (Lexeme P)) :
    lexemesToStmt braces parens (lexeme :: rest)
      = if bounds braces parens lexeme.token then if lexeme.token = .semi then 1 else 0
        else lexemesToStmt (Cursor.braceDepth braces lexeme.token)
          (if braces = 0 then parenDepth parens lexeme.token else parens) rest + 1 := by
  cases braces with
  | succ braces =>
      rw [lexemesToStmt]
      split <;> simp_all [Cursor.braceDepth, bounds]
  | zero =>
      rw [lexemesToStmt]
      split <;> simp_all [Cursor.braceDepth, parenDepth, bounds, Token.startsDecl, Token.startsStmt]

/-- Where reading resumes is looked for up to the semicolon that ends the failed statement. -/
theorem lexemesToStmt_append
    {left tail : List (Lexeme P)}
    {semi : Lexeme P}
    {braces parens : Nat}
    (stays : staysInside braces parens left = true)
    (isSemi : semi.token = .semi) :
    lexemesToStmt braces parens (left ++ semi :: tail) = left.length + 1 := by
  induction left generalizing braces parens with
  | nil =>
      obtain rfl : braces = 0 := of_decide_eq_true stays
      simp [lexemesToStmt, isSemi]
  | cons lexeme left inductionHypothesis =>
      rw [staysInside, Bool.and_eq_true, Bool.not_eq_true'] at stays
      obtain ⟨notBound, stays⟩ := stays
      rw [List.cons_append, lexemesToStmt_cons, notBound, if_neg Bool.false_ne_true,
        inductionHypothesis stays]
      rfl

/-- Behind a failure among some lexemes reading resumes behind the semicolon with which they end, if what
is left of them stays inside the failed statement. At least one lexeme is passed. -/
theorem ahead_resume_stmt
    {start count : Nat}
    {cursor : Cursor P}
    {left tail : List (Lexeme P)}
    (lexemes : List (Lexeme P))
    {semi : Lexeme P}
    (aheadEq : cursor.ahead = (lexemes ++ tail).drop count)
    (consumed : cursor.consumed = start + count)
    (leftEq : lexemes.drop (max 1 count) = left ++ [semi])
    (isSemi : semi.token = .semi)
    (stays : staysInside 0 0 left = true) :
    (Recovery.stmt.resume start cursor).ahead = tail := by
  have inside : max 1 count ≤ lexemes.length := by
    by_contra outside
    rw [List.drop_eq_nil_of_le (by omega)] at leftEq
    simp at leftEq
  -- whether or not a lexeme is passed at once, what is left comes next
  have forced : (if cursor.consumed = start then cursor.advance else cursor).ahead
      = left ++ semi :: tail := by
    have dropEq : (lexemes ++ tail).drop (max 1 count) = left ++ semi :: tail := by
      rw [List.drop_append_of_le_length inside, leftEq, List.append_assoc]
      rfl
    split
    · obtain rfl : count = 0 := by omega
      rw [Cursor.ahead_advance, aheadEq, List.drop_zero, ← List.drop_one]
      exact dropEq
    · rw [aheadEq, ← dropEq, Nat.max_eq_right (by omega)]
  have distance : Recovery.stmt.distance (left ++ semi :: tail) = left.length + 1 :=
    lexemesToStmt_append stays isSemi
  unfold resume
  rw [Cursor.skip, forced, distance]
  change List.drop (left.length + 1) (left ++ semi :: tail) = tail
  rw [← List.drop_drop, List.drop_left]
  rfl

end Recovery

/-! ## Blocks -/

/-- Reads a statement of a list. -/
def Production.listedStmt : Production P (Stmt P) :=
  .nested (.call .stmt)

/-- A list of statements is read by a loop. -/
theorem Machine.run_stmtList
    (machine : Machine P)
    (state : ReadState P) :
    machine.run Production.stmtList state
      = (machine.collect .stmt Production.moreStmts Production.listedStmt machine.allowance []
          state).bind fun stmts last => .done (.stmtList (.ofList stmts.reverse)) last := by
  refine Outcome.bind_assoc (machine.collect .stmt Production.moreStmts Production.listedStmt
      machine.allowance [] state) (fun stmts last => .done stmts.reverse last) (fun stmts last => .done
      (Tree.stmtList (.ofList stmts)) last)

/-- The state behind the opening brace of a block. -/
def ReadState.insideBlock (state : ReadState P) : ReadState P :=
  ⟨state.cursor.advance, state.depth + 1, false, state.errors⟩

/-- Lexemes inside a number of levels are read as statements in front of a closing brace. -/
def ReadsBody
    (limit allowance depth : Nat)
    (rBrace : Lexeme P)
    (stmts : List (Stmt P))
    (taken : List (Lexeme P)) : Prop :=
  ∃ state final rest, state.depth = depth ∧ state.inHeader = false
    ∧ CleanRuns (ruleMachine limit allowance) Production.moreStmts Production.listedStmt state stmts
      final taken
    ∧ final.cursor.ahead = rBrace :: rest

theorem ReadsBody.eq_nil
    {limit allowance depth : Nat}
    {rBrace : Lexeme P}
    {taken : List (Lexeme P)}
    (reads : ReadsBody limit allowance depth rBrace [] taken) :
    taken = [] := by
  obtain ⟨_, _, _, -, -, runs, -⟩ := reads
  cases runs
  rfl

section

variable {limit allowance : Nat} {state final : ReadState P} {block : Block P}
  {taken : List (Lexeme P)}

/-- A block without errors is a row of statements between braces. -/
theorem CleanRun.exists_of_block
    (cleanRun : CleanRun (ruleMachine limit (allowance + 1)) Production.block state block final
      taken) :
    ¬limit ≤ state.depth ∧ ∃ lBrace body rBrace stmts,
      taken = lBrace :: (body ++ [rBrace]) ∧ lBrace.token = .lBrace ∧ rBrace.token = .rBrace
        ∧ block = .block ⟨.lBrace, lBrace.pos⟩ (.stmtList (.ofList stmts)) ⟨.rBrace, rBrace.pos⟩
        ∧ ReadsBody limit allowance (state.depth + 1) rBrace stmts body := by
  have rule : CleanRun (ruleMachine limit allowance) Production.blockRule state block final taken :=
    ⟨cleanRun.regular, cleanRun.run, cleanRun.reaches, cleanRun.clean⟩
  obtain ⟨shallow, nested⟩ := rule.of_nested
  refine ⟨shallow, ?_⟩
  -- the opening brace
  obtain ⟨_, _, front, rest, rfl, openRun, run⟩ := nested.of_inHeader.exists_of_bind
  obtain ⟨lBrace, rfl, opens, rfl, rfl⟩ := openRun.of_mark (by decide)
  -- the statements
  obtain ⟨_, _, body, rest, rfl, ⟨listRegular, listRun, listReaches, listClean⟩, run⟩ :=
    run.exists_of_bind
  rw [Machine.run_stmtList] at listRun
  obtain ⟨collected, last, collectRun, endRun⟩ := Outcome.bind_eq_done listRun
  obtain ⟨rfl, rfl⟩ := Outcome.done.inj endRun
  obtain ⟨stmts, read, runs, rfl, -⟩ :=
    CleanRuns.exists_of_collect listRegular collectRun listClean
  obtain rfl : body = read :=
    List.append_cancel_right (listReaches.ahead.symm.trans runs.reaches.ahead)
  -- the closing brace
  obtain ⟨_, _, close, none, rfl, closeRun, endRun⟩ := run.exists_of_bind
  obtain ⟨rfl, same⟩ := Outcome.done.inj endRun.run
  obtain rfl := (same ▸ endRun.reaches).eq_nil
  obtain ⟨rBrace, rfl, closes, rfl, rfl⟩ := closeRun.of_mark (by decide)
  refine ⟨lBrace, body, rBrace, stmts, rfl, opens, closes, ?_, state.insideBlock, last, _, rfl, rfl,
    runs, closeRun.reaches.ahead⟩
  rw [List.append_nil, List.reverse_reverse]

/-- A block is read where the statements behind its opening brace are collected up to a closing one. -/
theorem exists_of_collect_stmts
    {lBrace rBrace : Lexeme P}
    {rest behind : List (Lexeme P)}
    {stmts : List (Stmt P)}
    {last : ReadState P}
    (shallow : ¬limit ≤ state.depth)
    (aheadEq : state.cursor.ahead = lBrace :: rest)
    (opens : lBrace.token = .lBrace)
    (collected : (ruleMachine limit allowance).collect .stmt Production.moreStmts
      Production.listedStmt allowance [] state.insideBlock = .done stmts last)
    (lastAhead : last.cursor.ahead = rBrace :: behind)
    (closes : rBrace.token = .rBrace) :
    ∃ final, (ruleMachine limit (allowance + 1)).run Production.block state
        = .done (.block ⟨.lBrace, lBrace.pos⟩ (.stmtList (.ofList stmts.reverse))
            ⟨.rBrace, rBrace.pos⟩) final
      ∧ final.cursor.ahead = behind := by
  have opened : state.cursor.token = .lBrace := (Cursor.token_of_ahead aheadEq).trans opens
  have openedAt : state.cursor.pos = lBrace.pos := congrArg Lexeme.pos (Cursor.peek_of_ahead aheadEq)
  have closed : last.cursor.token = .rBrace := (Cursor.token_of_ahead lastAhead).trans closes
  have closedAt : last.cursor.pos = rBrace.pos := congrArg Lexeme.pos (Cursor.peek_of_ahead lastAhead)
  have closing : (ruleMachine limit allowance).run (Production.mark .rBrace) last
      = .done ⟨.rBrace, rBrace.pos⟩ { last with cursor := last.cursor.advance } := by
    rw [Machine.run_mark, if_pos closed, closedAt]
  have inner : (ruleMachine limit allowance).run ((Production.mark .lBrace).bind fun lBrace =>
      Production.stmtList.bind fun stmts => (Production.mark .rBrace).bind fun rBrace =>
        .pure (Tree.block lBrace stmts rBrace))
      { state with depth := state.depth + 1, inHeader := false }
      = .done (Tree.block ⟨.lBrace, lBrace.pos⟩ (.stmtList (.ofList stmts.reverse))
          ⟨.rBrace, rBrace.pos⟩) { last with cursor := last.cursor.advance } := by
    change ((ruleMachine limit allowance).run (Production.mark .lBrace) _).bind _ = _
    rw [Machine.run_mark, if_pos opened, openedAt]
    change ((ruleMachine limit allowance).run Production.stmtList state.insideBlock).bind _ = _
    rw [Machine.run_stmtList]
    change (((ruleMachine limit allowance).collect .stmt Production.moreStmts
      Production.listedStmt allowance [] state.insideBlock).bind _).bind _ = _
    rw [collected]
    change ((ruleMachine limit allowance).run (Production.mark .rBrace) last).bind _ = _
    rw [closing]
    rfl
  refine ⟨{ last with
    cursor := last.cursor.advance, depth := last.depth - 1, inHeader := state.inHeader }, ?_, ?_⟩
  · refine (if_neg shallow).trans ?_
    exact congrArg (fun outcome : Outcome P (Block P) =>
      (outcome.mapState fun final => { final with inHeader := state.inHeader }).mapState
        fun final => { final with depth := final.depth - 1 }) inner
  · change last.cursor.advance.ahead = behind
    rw [Cursor.ahead_advance, lastAhead, List.tail_cons]

theorem peeks_moreStmts
    (first second : Cursor P)
    (same : first.token = second.token) :
    Production.moreStmts first = Production.moreStmts second := by
  rw [Production.moreStmts, Production.moreStmts, Cursor.atAny_congr _ same]

/-- Lexemes with a malformed statement at their start are passed over up to its end. -/
structure SkipsStmt
    (limit allowance : Nat)
    (state : ReadState P)
    (malformed behind : List (Lexeme P)) : Prop where
  ahead : state.cursor.ahead = malformed ++ behind
  isMore : Production.moreStmts state.cursor = true
  fails : ∃ failed count left semi,
    (ruleMachine limit allowance).run Production.listedStmt state = .gaveUp failed
      ∧ failed.cursor.consumed = state.cursor.consumed + count
      ∧ malformed.drop (max 1 count) = left ++ [semi] ∧ semi.token = .semi
      ∧ Recovery.staysInside 0 0 left = true

/-- A loop over statements passes over a malformed one. -/
theorem SkipsStmt.exists_of_collect
    {malformed behind : List (Lexeme P)}
    (skips : SkipsStmt limit allowance state malformed behind)
    (repetitions : Nat)
    (items : List (Stmt P)) :
    ∃ passed resumed, state.Reaches passed resumed ∧ resumed.cursor.ahead = behind
      ∧ (ruleMachine limit allowance).collect .stmt Production.moreStmts Production.listedStmt
          (repetitions + 1) items state
        = (ruleMachine limit allowance).collect .stmt Production.moreStmts Production.listedStmt
          repetitions items resumed := by
  obtain ⟨aheadEq, isMore, failed, count, left, semi, gaveUp, consumed, leftEq, isSemi, stays⟩ :=
    skips
  obtain ⟨taken, reaches, -⟩ := Machine.reaches_of_gaveUp gaveUp
  obtain ⟨passed, resumes, -⟩ := Reads.exists_of_resume .stmt reaches
  refine ⟨passed, _, resumes, ?_, Machine.collect_gaveUp repetitions isMore gaveUp⟩
  have takenEq : count = taken.length := by
    have := reaches.consumed
    omega
  refine Recovery.ahead_resume_stmt malformed ?_ consumed leftEq isSemi stays
  rw [← aheadEq, reaches.ahead, takenEq, List.drop_left]

/-- A block in which a malformed statement stands between others is read as a block of the others. -/
theorem exists_block_of_skipsStmt
    {stmts others : List (Stmt P)}
    {lBrace rBrace : Lexeme P}
    {front malformed back behind : List (Lexeme P)}
    (frontReads : ReadsBody limit allowance (state.depth + 1) rBrace stmts front)
    (frontEnds : ∀ last ∈ front.getLast?, last.token = .semi)
    (backReads : ReadsBody limit allowance (state.depth + 1) rBrace others back)
    (regular : state.Regular)
    (shallow : ¬limit ≤ state.depth)
    (aheadEq : state.cursor.ahead = lBrace :: (front ++ (malformed ++ (back ++ rBrace :: behind))))
    (opens : lBrace.token = .lBrace)
    (closes : rBrace.token = .rBrace)
    (skips : SkipsStmt limit allowance
      (state.insideBlock.moved front.length (malformed ++ (back ++ rBrace :: behind))) malformed
      (back ++ rBrace :: behind))
    (enough : front.length + back.length + 2 ≤ allowance) :
    ∃ final, (ruleMachine limit (allowance + 1)).run Production.block state
        = .done (.block ⟨.lBrace, lBrace.pos⟩ (.stmtList (.ofList (stmts ++ others)))
            ⟨.rBrace, rBrace.pos⟩) final
      ∧ final.cursor.ahead = behind := by
  obtain ⟨frontState, _, _, frontDepth, frontHeader, frontRuns, -⟩ := frontReads
  obtain ⟨backState, _, _, backDepth, backHeader, backRuns, backFollows⟩ := backReads
  have isPhrase : ReadsTree (ruleMachine (P := P) limit allowance) InBrackets 5
      Production.listedStmt := Reads.readsNested (readsNonterminals limit allowance).stmt
  have consumes := isPhrase.consumes nofun
  have insideAhead : state.insideBlock.cursor.ahead
      = front ++ (malformed ++ (back ++ rBrace :: behind)) := by
    change state.cursor.advance.ahead = _
    rw [Cursor.ahead_advance, aheadEq, List.tail_cons]
  have insideRegular : state.insideBlock.Regular := by
    intro lexeme member
    rw [insideAhead] at member
    apply regular
    rw [aheadEq]
    exact List.mem_cons_of_mem _ member
  have frontAgain := frontRuns.settled (isPhrase.repeats nofun) (stmt_settles limit allowance).nested
    consumes peeks_moreStmts frontEnds insideRegular insideAhead frontDepth.symm frontHeader.symm
  have frontLength := frontRuns.length_le consumes
  have backLength := backRuns.length_le consumes
  obtain ⟨left, repeated⟩ : ∃ left, allowance = stmts.length + (left + 1) :=
    ⟨allowance - stmts.length - 1, by omega⟩
  obtain ⟨passed, resumed, resumes, resumedAhead, skipped⟩ :=
    skips.exists_of_collect left (stmts.reverse ++ [])
  have backAgain := backRuns.again (isPhrase.repeats nofun) consumes peeks_moreStmts backFollows
    (resumes.regular (frontAgain.reaches.regular insideRegular)) resumedAhead
    (resumes.depth.trans backDepth.symm) (resumes.inHeader.trans backHeader.symm)
  have stops : Production.moreStmts
      (resumed.moved back.length (rBrace :: behind)).cursor = false := by
    rw [Production.moreStmts, Cursor.atAny, Cursor.token_of_ahead (ReadState.ahead_moved _ _ _),
      closes]
    rfl
  have collected : (ruleMachine limit allowance).collect .stmt Production.moreStmts
      Production.listedStmt allowance [] state.insideBlock
      = .done (others.reverse ++ (stmts.reverse ++ []))
        (resumed.moved back.length (rBrace :: behind)) := by
    rw [frontAgain.collect_eq repeated, skipped, backAgain.collect_stop stops (by omega)]
  obtain ⟨final, run, finalAhead⟩ :=
    exists_of_collect_stmts shallow aheadEq opens collected rfl closes
  refine ⟨final, ?_, finalAhead⟩
  rw [run, List.append_nil, List.reverse_append, List.reverse_reverse, List.reverse_reverse]

end

end GoFront
