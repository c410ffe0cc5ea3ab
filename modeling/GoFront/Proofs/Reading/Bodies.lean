import GoFront.Proofs.Places.Layout
import GoFront.Proofs.Reading.Blocks
import GoFront.Proofs.Reading.Survival

/-!
# Functions with a malformed statement

What stands in front of the body of a function is read in the same way whatever stands in the body. So
in a file that has a malformed statement in the body of a function, the declarations are those of a file
without the statement.
-/

namespace GoFront

variable {P : Type}

namespace Tree

/-- The statements of a block. -/
def blockStmts : Block P -> List (Stmt P)
  | block _ (stmtList stmts) _ => stmts.toList

/-- The statements in the body of a function or method that has one. -/
def bodyStmts? : Decl P -> Option (List (Stmt P))
  | funcDecl _ _ _ _ (present body) | methodDecl _ _ _ _ (present body) => some body.blockStmts
  | _ => none

/-- The same block with other statements. -/
def withBlockStmts (stmts : List (Stmt P)) : Block P -> Block P
  | block lBrace _ rBrace => block lBrace (stmtList (ofList stmts)) rBrace

/-- The same function or method with other statements in its body. -/
def withBodyStmts (stmts : List (Stmt P)) : Decl P -> Decl P
  | funcDecl keyword name generics shape (present body) =>
      funcDecl keyword name generics shape (present (body.withBlockStmts stmts))
  | methodDecl keyword receiver name shape (present body) =>
      methodDecl keyword receiver name shape (present (body.withBlockStmts stmts))
  | decl => decl

end Tree

namespace Production

/-- Reads a function from behind its keyword up to its body. -/
def funcHead (keyword : Mark P) : Production P (Tree P (.maybe .block) -> Decl P) := do
  let name ← ident
  let cursor ← .look
  let generics ←
    if cursor.token = .lBrack then do
      let generics ← typeParams
      pure (Tree.present generics)
    else pure Tree.absent
  let shape ← signature
  pure (.funcDecl keyword name generics shape)

/-- Reads a method from behind its keyword up to its body. -/
def methodHead (keyword : Mark P) : Production P (Tree P (.maybe .block) -> Decl P) := do
  let receiver ← params false
  let name ← ident
  let shape ← signature
  pure (.methodDecl keyword receiver name shape)

/-- Reads a function or method up to its body. -/
def head : Production P (Tree P (.maybe .block) -> Decl P) := do
  let keyword ← mark .kwFunc
  let cursor ← .look
  if cursor.token = .lParen then methodHead keyword else funcHead keyword

end Production

/-! ## Functions -/

namespace Machine

variable (machine : Machine P)

theorem run_funcTail
    (keyword : Mark P)
    (state : ReadState P) :
    machine.run (Production.funcTail keyword) state
      = (machine.run (Production.funcHead keyword) state).bind fun decl middle =>
          (machine.run Production.body? middle).bind fun body last => .done (decl body) last := by
  change (machine.run Production.ident state).bind _
    = ((machine.run Production.ident state).bind _).bind _
  rw [Outcome.bind_assoc]
  congr 1
  funext name state
  change machine.run (if state.cursor.token = .lBrack then _ else _) state
    = (machine.run (if state.cursor.token = .lBrack then _ else _) state).bind _
  split
  · change (machine.run Production.typeParams state).bind _
      = ((machine.run Production.typeParams state).bind _).bind _
    rw [Outcome.bind_assoc]
    congr 1
    funext generics state
    change (machine.run Production.signature state).bind _
      = ((machine.run Production.signature state).bind _).bind _
    rw [Outcome.bind_assoc]
    rfl
  · change (machine.run Production.signature state).bind _
      = ((machine.run Production.signature state).bind _).bind _
    rw [Outcome.bind_assoc]
    rfl

theorem run_methodTail
    (keyword : Mark P)
    (state : ReadState P) :
    machine.run (Production.methodTail keyword) state
      = (machine.run (Production.methodHead keyword) state).bind fun decl middle =>
          (machine.run Production.body? middle).bind fun body last => .done (decl body) last := by
  change (machine.run (Production.params false) state).bind _
    = ((machine.run (Production.params false) state).bind _).bind _
  rw [Outcome.bind_assoc]
  congr 1
  funext receiver state
  change (machine.run Production.ident state).bind _
    = ((machine.run Production.ident state).bind _).bind _
  rw [Outcome.bind_assoc]
  congr 1
  funext name state
  change (machine.run Production.signature state).bind _
    = ((machine.run Production.signature state).bind _).bind _
  rw [Outcome.bind_assoc]
  rfl

theorem run_look
    {α : Type}
    (next : Cursor P -> Production P α)
    (state : ReadState P) :
    machine.run (Production.look >>= next) state = machine.run (next state.cursor) state :=
  rfl

/-- A function or method is read up to its body, then its body, then the end of its line. -/
theorem run_decl_of_kwFunc
    {state : ReadState P}
    (isFunc : state.cursor.token = .kwFunc) :
    machine.run Production.decl state
      = (machine.run Production.head state).bind fun decl middle =>
          (machine.run Production.body? middle).bind fun body last =>
            (machine.run Production.semicolon last).bind fun _ final => .done (decl body) final := by
  have isDecl : machine.run Production.decl state = machine.run Production.funcOrMethod state := by
    rw [Production.decl, run_look, isFunc]
  rw [isDecl, run_funcOrMethod]
  change ((machine.run (Production.mark .kwFunc) state).bind _).bind _
    = ((machine.run (Production.mark .kwFunc) state).bind _).bind _
  rw [Outcome.bind_assoc, Outcome.bind_assoc]
  congr 1
  funext keyword state
  change (machine.run (if state.cursor.token = .lParen then _ else _) state).bind _
    = (machine.run (if state.cursor.token = .lParen then _ else _) state).bind _
  split
  · rw [run_methodTail, Outcome.bind_assoc]
    congr 1
    funext decl state
    rw [Outcome.bind_assoc]
    rfl
  · rw [run_funcTail, Outcome.bind_assoc]
    congr 1
    funext decl state
    rw [Outcome.bind_assoc]
    rfl

end Machine

/-- What is read up to the body of a function or method takes the body. -/
def IsHead (decl : Tree P (.maybe .block) -> Decl P) : Prop :=
  (∃ keyword name generics shape, decl = .funcDecl keyword name generics shape)
    ∨ ∃ keyword receiver name shape, decl = .methodDecl keyword receiver name shape

namespace IsHead

variable {decl : Tree P (.maybe .block) -> Decl P}

theorem bodyStmts? (isHead : IsHead decl) (body : Block P) :
    (decl (.present body)).bodyStmts? = some body.blockStmts := by
  rcases isHead with ⟨_, _, _, _, rfl⟩ | ⟨_, _, _, _, rfl⟩ <;> rfl

theorem bodyStmts?_absent (isHead : IsHead decl) : (decl .absent).bodyStmts? = none := by
  rcases isHead with ⟨_, _, _, _, rfl⟩ | ⟨_, _, _, _, rfl⟩ <;> rfl

theorem withBodyStmts
    (isHead : IsHead decl)
    (stmts : List (Stmt P))
    (body : Block P) :
    (decl (.present body)).withBodyStmts stmts = decl (.present (body.withBlockStmts stmts)) := by
  rcases isHead with ⟨_, _, _, _, rfl⟩ | ⟨_, _, _, _, rfl⟩ <;> rfl

end IsHead

/-- A function or method is read up to its body as a phrase. -/
theorem ReadsNonterminals.head
    {machine : Machine P}
    (nonterminals : ReadsNonterminals machine) :
    ReadsPhrase machine Anywhere 0 Production.head fun decl _ _ _ => IsHead decl := by
  intro frame credit _ _
  refine .mark rfl rfl fun keyword _ => .look (fun first second same _ => ?_) fun cursor _ => ?_
  · rw [same]
  · split
    · refine .phrase (nonterminals.params false) trivial (Nat.zero_le _) ?_
      rintro receiver reached _ -
      refine .ident fun name => .map (.last nonterminals.signature trivial (Nat.zero_le _) ?_)
      rintro shape _ _ -
      exact ⟨_, rfl, .inr ⟨_, _, _, _, rfl⟩⟩
    · refine .ident fun name => .look (fun first second same _ => ?_) fun cursor _ => ?_
      · rw [same]
      · split
        · refine .phrase nonterminals.typeParams trivial (Nat.zero_le _) ?_
          rintro generics reached _ -
          refine .pure_bind (.map (.last nonterminals.signature trivial (Nat.zero_le _) ?_))
          rintro shape _ _ -
          exact ⟨_, rfl, .inl ⟨_, _, _, _, rfl⟩⟩
        · refine .pure_bind (.map (.last nonterminals.signature trivial (Nat.zero_le _) ?_))
          rintro shape _ _ -
          exact ⟨_, rfl, .inl ⟨_, _, _, _, rfl⟩⟩

section

variable {limit allowance : Nat} {state middle final : ReadState P} {function : Decl P}
  {decl : Tree P (.maybe .block) -> Decl P} {stmts : List (Stmt P)} {taken : List (Lexeme P)}

/-- How a function or method with a body was read without errors: first what stands in front of the body,
then the statements between its braces, then the end of its line. -/
structure FunctionReading
    (limit allowance : Nat)
    (state : ReadState P)
    (function : Decl P)
    (final : ReadState P)
    (stmts : List (Stmt P)) where
  decl : Tree P (.maybe .block) -> Decl P
  middle : ReadState P
  front : List (Lexeme P)
  lBrace : Lexeme P
  body : List (Lexeme P)
  rBrace : Lexeme P
  line : List (Lexeme P)
  isHead : IsHead decl
  functionEq : function
    = decl (.present (.block ⟨.lBrace, lBrace.pos⟩ (.stmtList (.ofList stmts)) ⟨.rBrace, rBrace.pos⟩))
  head : CleanRun (ruleMachine limit (allowance + 1)) Production.head state decl middle front
  shallow : ¬limit ≤ state.depth
  opens : lBrace.token = .lBrace
  statements : ReadsBody limit allowance (state.depth + 1) rBrace stmts body
  closes : rBrace.token = .rBrace
  ends : final.cursor.ahead = [] -> ∃ semi, line = [semi] ∧ semi.token = .semi
  ahead : state.cursor.ahead
    = front ++ lBrace :: (body ++ rBrace :: (line ++ final.cursor.ahead))

/-- A line that is read up to the end of the input ends with a semicolon. -/
theorem CleanRun.exists_semi
    {machine : Machine P}
    (cleanRun : CleanRun machine Production.semicolon state () final taken)
    (atEnd : final.cursor.ahead = []) :
    ∃ semi, taken = [semi] ∧ semi.token = .semi := by
  obtain ⟨semi, rest, ahead, -, ⟨-, rfl⟩ | ⟨-, isSemi, finalAhead⟩⟩ :=
    Machine.semicolon_cases cleanRun.run
  · rw [atEnd] at ahead
    cases ahead
  · refine ⟨semi, ?_, isSemi⟩
    have lineAhead := cleanRun.reaches.ahead
    rw [atEnd, List.append_nil, ahead, ← finalAhead, atEnd] at lineAhead
    exact lineAhead.symm

/-- A body that can be missing is missing, or it is read as a block. -/
theorem CleanRun.body?_cases
    {machine : Machine P}
    {slot : Tree P (.maybe .block)}
    (cleanRun : CleanRun machine Production.body? state slot final taken) :
    slot = .absent
      ∨ ∃ block, slot = .present block
        ∧ CleanRun machine Production.block state block final taken := by
  obtain ⟨regular, run, reaches, clean⟩ := cleanRun
  change machine.run (if state.cursor.token = .lBrace then _ else _) state = _ at run
  split at run
  · obtain ⟨block, _, blockRun, endRun⟩ := Reads.run_bind_done run
    obtain ⟨rfl, rfl⟩ := Outcome.done.inj endRun
    exact .inr ⟨block, rfl, regular, blockRun, reaches, clean⟩
  · obtain ⟨rfl, -⟩ := Outcome.done.inj run
    exact .inl rfl

theorem CleanRun.exists_of_function
    (cleanRun : CleanRun (ruleMachine limit (allowance + 1)) Production.decl state function final
      taken)
    (hasBody : function.bodyStmts? = some stmts) :
    Nonempty (FunctionReading limit allowance state function final stmts) := by
  have nonterminals := readsNonterminals (P := P) limit (allowance + 1)
  obtain ⟨regular, run, reaches, clean⟩ := cleanRun
  have isFunc : state.cursor.token = .kwFunc := by
    obtain ⟨kind, _, _, specRun⟩ | ⟨isFunc, _⟩ :=
        Machine.decl_cases _ run
    · obtain ⟨_, _, _, specRun⟩ := Reads.run_bind_done specRun
      obtain ⟨rfl, -⟩ := Outcome.done.inj specRun
      cases hasBody
    · exact isFunc
  rw [Machine.run_decl_of_kwFunc _ isFunc] at run
  have cleanRun : CleanRun (ruleMachine limit (allowance + 1)) (Production.head.bind fun decl =>
      Production.body?.bind fun body => Production.semicolon.bind fun _ => .pure (decl body))
      state function final taken := ⟨regular, run, reaches, clean⟩
  -- what stands in front of the body
  obtain ⟨decl, middle, front, rest, rfl, headRun, cleanRun⟩ := cleanRun.exists_of_bind
  obtain ⟨_, _, _, ⟨_, _, isHead⟩, _⟩ :=
    (nonterminals.head ⟨none, none, none⟩ 0 trivial (Nat.le_refl 0)).completes state decl middle
      regular (fun _ member => nomatch member) headRun.run
  -- the end of the line
  obtain ⟨slot, last, bodyTaken, line, rfl, bodyRun, cleanRun⟩ := cleanRun.exists_of_bind
  obtain ⟨_, ending, line, none, rfl, lineRun, endRun⟩ := cleanRun.exists_of_bind
  obtain ⟨rfl, rfl⟩ := Outcome.done.inj endRun.run
  obtain rfl := endRun.reaches.eq_nil
  -- the body
  obtain rfl | ⟨block, rfl, blockRun⟩ := bodyRun.body?_cases
  · rw [isHead.bodyStmts?_absent] at hasBody
    cases hasBody
  obtain ⟨shallow, lBrace, body, rBrace, read, rfl, opens, closes, rfl, statements⟩ :=
    blockRun.exists_of_block
  rw [isHead.bodyStmts?] at hasBody
  obtain rfl : read = stmts := (Tree.toList_ofList read).symm.trans (Option.some.inj hasBody)
  have depth := headRun.reaches.depth
  rw [depth] at shallow statements
  have ahead : state.cursor.ahead
      = front ++ lBrace :: (body ++ rBrace :: (line ++ ending.cursor.ahead)) := by
    rw [reaches.ahead]
    simp
  exact ⟨⟨decl, middle, front, lBrace, body, rBrace, line, isHead, rfl, headRun, shallow, opens,
    statements, closes, lineRun.exists_semi, ahead⟩⟩

namespace FunctionReading

theorem withBodyStmts
    (reading : FunctionReading limit allowance state function final stmts)
    (others : List (Stmt P)) :
    function.withBodyStmts others
      = reading.decl (.present (.block ⟨.lBrace, reading.lBrace.pos⟩ (.stmtList (.ofList others))
          ⟨.rBrace, reading.rBrace.pos⟩)) :=
  (congrArg (Tree.withBodyStmts others) reading.functionEq).trans
    (reading.isHead.withBodyStmts others _)

/-- What stands in front of the body is read again in front of another body. -/
theorem run_again
    {other : ReadState P}
    {rest : List (Lexeme P)}
    (reading : FunctionReading limit allowance state function final stmts)
    (aheadEq : other.cursor.ahead = reading.front ++ reading.lBrace :: rest)
    (sameDepth : other.depth = state.depth)
    (sameHeader : other.inHeader = state.inHeader) :
    (ruleMachine limit (allowance + 1)).run Production.decl other
      = ((ruleMachine limit (allowance + 1)).run Production.block
          (other.moved reading.front.length (reading.lBrace :: rest))).bind fun block last =>
          ((ruleMachine limit (allowance + 1)).run Production.semicolon last).bind fun _ final =>
            .done (reading.decl (.present block)) final := by
  have middleAhead := List.append_cancel_left (reading.head.reaches.ahead.symm.trans reading.ahead)
  have headAgain := (readsNonterminals limit (allowance + 1)).head.repeats trivial reading.head
    reading.lBrace _ rest middleAhead other aheadEq sameDepth sameHeader
  rw [Machine.run_decl_of_kwFunc _ (Reads.token_of_mark headAgain), headAgain]
  change ((ruleMachine limit (allowance + 1)).run (if reading.lBrace.token = .lBrace then _ else _)
    (other.moved reading.front.length (reading.lBrace :: rest))).bind _ = _
  rw [if_pos reading.opens]
  change (((ruleMachine limit (allowance + 1)).run Production.block
    (other.moved reading.front.length (reading.lBrace :: rest))).bind _).bind _ = _
  rw [Outcome.bind_assoc]
  rfl

end FunctionReading

end

/-! ## Files -/

section

variable {limit allowance : Nat} {keyword name semi stop : P} {front : List (Lexeme P)}
  {lBrace rBrace : Lexeme P}

/-- How lexemes behind a package clause were read without errors as imports, declarations and a function
or method with a body. -/
structure BodyReading
    (limit allowance : Nat)
    (ahead : List (Lexeme P))
    (stop : P)
    (imports : List (SpecDecl P .imports))
    (earlier : List (Decl P))
    (function : Decl P)
    (stmts : List (Stmt P)) where
  start : ReadState P
  middle : ReadState P
  final : ReadState P
  imported : List (Lexeme P)
  declared : List (Lexeme P)
  semi : Lexeme P
  regular : ∀ lexeme ∈ ahead, lexeme.Regular
  imports : CleanRuns (ruleMachine limit (allowance + 1)) atImport (Production.specDecl .imports)
    (.behindClause ahead stop) imports start imported
  notImport : atImport start.cursor = false
  earlier : CleanRuns (ruleMachine limit (allowance + 1)) atLexeme Production.decl start earlier middle
    declared
  function : FunctionReading limit allowance middle function final stmts
  ahead : ahead = imported
    ++ (declared ++ (function.front ++ function.lBrace :: (function.body ++ [function.rBrace, semi])))

theorem exists_bodyReading
    {ahead : List (Lexeme P)}
    {parts : Production.FileParts P}
    {final : ReadState P}
    {earlier : List (Decl P)}
    {function : Decl P}
    {stmts : List (Stmt P)}
    (regular : ∀ lexeme ∈ ahead, lexeme.Regular)
    (run : (ruleMachine limit (allowance + 1)).run Production.file
      (.start (clauseLexemes keyword name semi ++ ahead) stop) = .done parts final)
    (clean : final.errors = [])
    (declsEq : parts.decls = earlier ++ [function])
    (hasBody : function.bodyStmts? = some stmts) :
    Nonempty (BodyReading limit allowance ahead stop parts.imports earlier function stmts) := by
  obtain ⟨imports, decls, start, importsRun, declsRun, rfl⟩ := Machine.exists_of_run_file run
  have startRegular : (ReadState.behindClause ahead stop).Regular := regular
  obtain ⟨_, importsReach⟩ := Machine.reaches_of_collect importsRun
  obtain ⟨_, declsReach⟩ := Machine.reaches_of_collect declsRun
  have startClean : start.errors = [] := List.suffix_nil.1 (clean ▸ declsReach.errors)
  obtain ⟨imports, imported, importRuns, rfl, notImport⟩ :=
    CleanRuns.exists_of_collect startRegular importsRun startClean
  obtain ⟨decls, declared, declRuns, rfl, atEnd⟩ :=
    CleanRuns.exists_of_collect (importsReach.regular startRegular) declsRun
      (clean.trans startClean.symm)
  have finalAhead : final.cursor.ahead = [] :=
    ReadState.ahead_eq_nil (declsReach.regular (importsReach.regular startRegular))
      (by simpa [atLexeme] using atEnd)
  simp only [List.append_nil, List.reverse_reverse] at declsEq ⊢
  subst declsEq
  -- the function is the last of the declarations
  obtain ⟨middle, front, last, rfl, earlierRuns, lastRuns⟩ := declRuns.exists_of_append
  cases lastRuns with
  | @cons _ ending _ _ _ taken none _ functionRun noneRuns =>
    cases noneRuns
    obtain ⟨reading⟩ := functionRun.exists_of_function hasBody
    obtain ⟨semi, lineEq, -⟩ := reading.ends finalAhead
    refine ⟨⟨start, middle, final, imported, front, semi, regular, importRuns, notImport, earlierRuns,
      reading, ?_⟩⟩
    have startAhead : ahead = imported ++ start.cursor.ahead := importRuns.reaches.ahead
    rw [startAhead, earlierRuns.reaches.ahead, reading.ahead, finalAhead, lineEq]
    rfl

namespace BodyReading

variable {ahead rest : List (Lexeme P)} {imports : List (SpecDecl P .imports)}
  {earlier : List (Decl P)} {function : Decl P} {stmts : List (Stmt P)}

/-- What stands in front of the body, up to its opening brace, and then other lexemes. -/
def frontAnd
    (reading : BodyReading limit allowance ahead stop imports earlier function stmts)
    (rest : List (Lexeme P)) : List (Lexeme P) :=
  reading.imported
    ++ (reading.declared ++ (reading.function.front ++ reading.function.lBrace :: rest))

theorem frontAnd_append
    (reading : BodyReading limit allowance ahead stop imports earlier function stmts)
    (front back : List (Lexeme P)) :
    reading.frontAnd front ++ back = reading.frontAnd (front ++ back) := by
  simp [frontAnd]

/-- What stands in front of the function is read again with whatever stands behind the opening brace. -/
theorem runs_again
    (reading : BodyReading limit allowance ahead stop imports earlier function stmts)
    (stop' : P)
    (regular : ∀ lexeme ∈ rest, lexeme.Regular) :
    ∃ start' middle',
      CleanRuns (ruleMachine limit (allowance + 1)) atImport (Production.specDecl .imports)
          (.behindClause (reading.frontAnd rest) stop') imports start' reading.imported
        ∧ atImport start'.cursor = false
        ∧ CleanRuns (ruleMachine limit (allowance + 1)) atLexeme Production.decl start' earlier
          middle' reading.declared
        ∧ middle'.cursor.ahead = reading.function.front ++ reading.function.lBrace :: rest := by
  have nonterminals := readsNonterminals (P := P) limit (allowance + 1)
  have wholeRegular : (ReadState.behindClause (reading.frontAnd rest) stop').Regular := by
    intro lexeme member
    have inWhole : lexeme ∈ reading.frontAnd rest := member
    have behind := regular lexeme
    have front := reading.regular lexeme
    rw [reading.ahead] at front
    simp only [frontAnd, List.mem_append, List.mem_cons] at inWhole front
    tauto
  -- the imports, which end where the next lexeme is not an import
  have startAhead : reading.start.cursor.ahead = reading.declared ++ reading.function.front
      ++ reading.function.lBrace :: (reading.function.body ++ [reading.function.rBrace, reading.semi]) := by
    rw [List.append_assoc]
    exact List.append_cancel_left (reading.imports.reaches.ahead.symm.trans reading.ahead)
  obtain ⟨next, tail, tail', sameStart, otherStart⟩ :=
    exists_next (reading.declared ++ reading.function.front) reading.function.lBrace
      (reading.function.body ++ [reading.function.rBrace, reading.semi]) rest
  rw [List.append_assoc] at otherStart
  have isSpec := nonterminals.specDecl .imports
  have importsAgain := reading.imports.again (isSpec.repeats nofun) (isSpec.consumes nofun)
    (fun first second same => by rw [atImport, atImport, same]) (startAhead.trans sameStart)
    wholeRegular (congrArg (reading.imported ++ ·) otherStart) rfl rfl
  -- the other declarations
  obtain ⟨next', tail', tail'', sameMiddle, otherMiddle⟩ := exists_next reading.function.front
    reading.function.lBrace (reading.function.body ++ [reading.function.rBrace, reading.semi]) rest
  have middleAhead : reading.middle.cursor.ahead = next' :: tail' := by
    rw [← sameMiddle]
    refine List.append_cancel_left (reading.earlier.reaches.ahead.symm.trans ?_)
    rw [startAhead, List.append_assoc]
  have isDecl := nonterminals.decl
  have earlierAgain := reading.earlier.again (isDecl.repeats nofun) (isDecl.consumes nofun)
    (fun first second same => by rw [atLexeme, atLexeme, same]) middleAhead
    (importsAgain.reaches.regular wholeRegular)
    (otherStart.symm.trans (congrArg (reading.declared ++ ·) otherMiddle))
    reading.imports.reaches.depth.symm reading.imports.reaches.inHeader.symm
  refine ⟨_, _, importsAgain, ?_, earlierAgain, otherMiddle.symm⟩
  rw [← reading.notImport, atImport, atImport, Cursor.token_of_ahead (startAhead.trans sameStart)]
  rfl

/-- The function is read again with whatever stands in its body. -/
theorem run_file
    (reading : BodyReading limit allowance ahead stop imports earlier function stmts)
    (keyword name semi stop' : P)
    (others : List (Stmt P))
    (regular : ∀ lexeme ∈ rest, lexeme.Regular)
    (enough : ahead.length ≤ allowance) :
    ∃ state taken left,
      (ReadState.behindClause (reading.frontAnd rest) stop').Reaches taken state
        ∧ state.cursor.ahead = reading.function.lBrace :: rest ∧ allowance ≤ left + ahead.length
        ∧ ∀ last end' behind, (ruleMachine limit (allowance + 1)).run Production.block state
            = .done (.block ⟨.lBrace, reading.function.lBrace.pos⟩ (.stmtList (.ofList others))
              ⟨.rBrace, reading.function.rBrace.pos⟩) last ->
          last.cursor.ahead = end' :: behind -> end'.token = .semi ->
          (ruleMachine limit (allowance + 1)).run Production.file
              (.start (clauseLexemes keyword name semi ++ reading.frontAnd rest) stop')
            = ((ruleMachine limit (allowance + 1)).collect .decl atLexeme Production.decl left
                (function.withBodyStmts others :: earlier.reverse) (last.moved 1 behind)).bind
              fun decls state => .done ⟨some (clauseOf keyword name), imports, decls.reverse⟩ state := by
  have nonterminals := readsNonterminals (P := P) limit (allowance + 1)
  obtain ⟨start', middle', importRuns, notImport, earlierRuns, middleAhead⟩ :=
    reading.runs_again stop' regular
  have frontReaches := importRuns.reaches.trans earlierRuns.reaches
  have sameReaches := reading.imports.reaches.trans reading.earlier.reaches
  have functionRun := reading.function.run_again middleAhead
    (frontReaches.depth.trans sameReaches.depth.symm)
    (frontReaches.inHeader.trans sameReaches.inHeader.symm)
  have importsLength := importRuns.length_le ((nonterminals.specDecl .imports).consumes nofun)
  have earlierLength := earlierRuns.length_le (nonterminals.decl.consumes nofun)
  have lengthEq := congrArg List.length reading.ahead
  simp only [List.length_append, List.length_cons, List.length_nil] at lengthEq
  obtain ⟨left, repeated⟩ : ∃ left, allowance + 1 = earlier.length + (left + 1) :=
    ⟨allowance - earlier.length, by omega⟩
  refine ⟨_, _, left, frontReaches.trans (ReadState.reaches_moved middleAhead), rfl, by omega,
    fun last end' behind blockRun lastAhead isSemi => ?_⟩
  have semicolon : (ruleMachine limit (allowance + 1)).run Production.semicolon last
      = .done () (last.moved 1 behind) := by
    have token : last.cursor.token = .semi := (Cursor.token_of_ahead lastAhead).trans isSemi
    rw [Machine.run_semicolon, Cursor.atAny, token, if_neg (by decide), if_pos rfl]
    exact congrArg (Outcome.done ()) (ReadState.advance_eq_moved lastAhead)
  rw [blockRun, Outcome.bind, semicolon, Outcome.bind, ← reading.function.withBodyStmts] at functionRun
  have isMore : atLexeme middle'.cursor = true := by
    refine decide_eq_true fun atEnd => ?_
    have starts := (Machine.startsDecl_of_decl functionRun).1
    rw [atEnd] at starts
    cases starts
  rw [Machine.run_file, importRuns.collect_stop notImport (by
    change imports.length < allowance + 1
    omega), Outcome.bind, List.append_nil, List.reverse_reverse]
  congr 1
  change Machine.collect _ .decl atLexeme _ (allowance + 1) _ _ = _
  rw [earlierRuns.collect_eq repeated, Machine.collect_done left isMore functionRun, List.append_nil]

end BodyReading

/-! ## Bodies -/

/-- The lexemes of a function without parameters and results, up to the opening brace of its body. -/
def openingLexemes (pos : P) : List (Lexeme P) :=
  [⟨.kwFunc, pos, none⟩, ⟨.ident, pos, some "f"⟩, ⟨.lParen, pos, none⟩, ⟨.rParen, pos, none⟩,
    ⟨.lBrace, pos, none⟩]

/-- What stands in the body of the only function of a file is read as a body. -/
theorem readsBody_of_run_file
    {pos : P}
    {body : List (Lexeme P)}
    {rBrace end' : Lexeme P}
    {parts : Production.FileParts P}
    {final : ReadState P}
    {function : Decl P}
    {stmts : List (Stmt P)}
    (positive : 0 < allowance)
    (regular : ∀ lexeme ∈ openingLexemes pos ++ (body ++ [rBrace, end']), lexeme.Regular)
    (run : (ruleMachine limit (allowance + 1)).run Production.file
      (.start (clauseLexemes keyword name semi ++ (openingLexemes pos ++ (body ++ [rBrace, end']))) stop)
        = .done parts final)
    (clean : final.errors = [])
    (declsEq : parts.decls = [function])
    (hasBody : function.bodyStmts? = some stmts) :
    ReadsBody limit allowance 1 rBrace stmts body := by
  obtain ⟨⟨start, middle, last, imported, declared, semi', _, importRuns, _, earlierRuns,
      ⟨decl, behind, head, lBrace, read, rBrace', _, _, _, headRun, shallow, _, statements, _, _, _⟩,
      aheadEq⟩⟩ :=
    exists_bodyReading regular run clean (declsEq.trans (List.nil_append _).symm) hasBody
  have notImport : atImport (ReadState.behindClause (openingLexemes pos ++ (body ++ [rBrace, end']))
      stop).cursor = false := rfl
  obtain ⟨-, rfl, rfl⟩ := importRuns.eq_nil_of_stop notImport
  obtain ⟨rfl, rfl⟩ : declared = []
      ∧ middle = .behindClause (openingLexemes pos ++ (body ++ [rBrace, end'])) stop := by
    cases earlierRuns
    exact ⟨rfl, rfl⟩
  -- nothing is nested deeper than the parentheses in front of the body
  obtain ⟨limit, rfl⟩ : ∃ less, limit = less + 1 := by
    have positive : ¬limit ≤ 0 := shallow
    exact ⟨limit - 1, by omega⟩
  obtain ⟨allowance, rfl⟩ : ∃ less, allowance = less + 1 := ⟨allowance - 1, by omega⟩
  have computed : (ruleMachine (limit + 1) (allowance + 2)).run Production.head
      (.behindClause (openingLexemes pos ++ (body ++ [rBrace, end'])) stop)
      = .done (.funcDecl ⟨.kwFunc, pos⟩ ⟨"f", pos⟩ .absent
          (.signature (.params ⟨.lParen, pos⟩ .nil ⟨.rParen, pos⟩) .absent))
        ⟨⟨7, ⟨.lBrace, pos, none⟩ :: (body ++ [rBrace, end']), stop⟩, 0, false, []⟩ := rfl
  obtain ⟨-, rfl⟩ := Outcome.done.inj (headRun.run.symm.trans computed)
  have headAhead : openingLexemes pos ++ (body ++ [rBrace, end'])
      = head ++ ⟨.lBrace, pos, none⟩ :: (body ++ [rBrace, end']) := headRun.reaches.ahead
  have bodyEq := List.append_cancel_left (headAhead.symm.trans aheadEq)
  obtain ⟨rfl, closeEq⟩ := List.append_inj' (List.cons.inj bodyEq).2 rfl
  obtain ⟨rfl, -⟩ := List.cons.inj closeEq
  exact statements

/-! ## Bodies with a malformed statement -/

/-- A file with a malformed statement in the body of a function is read up to the end of the function,
and the function has the other statements. -/
theorem exists_run_file_of_skipsStmt
    {front body malformed back behind : List (Lexeme P)}
    {rBrace end' : Lexeme P}
    {parts : Production.FileParts P}
    {final : ReadState P}
    {earlier : List (Decl P)}
    {function : Decl P}
    {stmts others : List (Stmt P)}
    (frontRegular : ∀ lexeme ∈ front ++ [rBrace, end'], lexeme.Regular)
    (frontRun : (ruleMachine limit (allowance + 1)).run Production.file
      (.start (clauseLexemes keyword name semi ++ (front ++ [rBrace, end'])) stop) = .done parts final)
    (frontClean : final.errors = [])
    (declsEq : parts.decls = earlier ++ [function])
    (empty : function.bodyStmts? = some [])
    (isSemi : end'.token = .semi)
    (bodyReads : ReadsBody limit allowance 1 rBrace stmts body)
    (bodyEnds : ∀ last ∈ body.getLast?, last.token = .semi)
    (backReads : ReadsBody limit allowance 1 rBrace others back)
    (skips : ∀ state : ReadState P,
      state.cursor.ahead = malformed ++ (back ++ rBrace :: end' :: behind) -> state.depth = 1 ->
        state.inHeader = false ->
        SkipsStmt limit allowance state malformed (back ++ rBrace :: end' :: behind))
    (regular : ∀ lexeme ∈ body ++ (malformed ++ (back ++ rBrace :: end' :: behind)), lexeme.Regular)
    (enough : front.length + body.length + back.length + 2 ≤ allowance) :
    ∃ state left, state.cursor.ahead = behind ∧ state.cursor.stop = stop ∧ 3 ≤ state.cursor.consumed
      ∧ state.depth = 0 ∧ state.inHeader = false ∧ allowance ≤ left + front.length + 2
      ∧ (ruleMachine limit (allowance + 1)).run Production.file
          (.start (clauseLexemes keyword name semi
            ++ (front ++ (body ++ (malformed ++ (back ++ rBrace :: end' :: behind))))) stop)
        = ((ruleMachine limit (allowance + 1)).collect .decl atLexeme Production.decl left
            (function.withBodyStmts (stmts ++ others) :: earlier.reverse) state).bind
          fun decls state =>
            .done ⟨some (clauseOf keyword name), parts.imports, decls.reverse⟩ state := by
  obtain ⟨reading⟩ := exists_bodyReading frontRegular frontRun frontClean declsEq empty
  -- the lexemes in front of the body, up to its opening brace
  have nothing : reading.function.body = [] := reading.function.statements.eq_nil
  have frontAhead : front ++ [rBrace, end']
      = reading.frontAnd [] ++ [reading.function.rBrace, reading.semi] := by
    refine reading.ahead.trans ?_
    rw [nothing, reading.frontAnd_append]
    rfl
  obtain ⟨frontEq, closeEq⟩ := List.append_inj' frontAhead rfl
  have closing : reading.function.rBrace = rBrace := (List.cons.inj closeEq).1.symm
  have wholeEq : front ++ (body ++ (malformed ++ (back ++ rBrace :: end' :: behind)))
      = reading.frontAnd (body ++ (malformed ++ (back ++ rBrace :: end' :: behind))) :=
    (congrArg (· ++ _) frontEq).trans (reading.frontAnd_append _ _)
  have frontLength : (front ++ [rBrace, end']).length = front.length + 2 := List.length_append
  obtain ⟨state, _, left, reaches, aheadEq, kept, run⟩ := reading.run_file keyword name semi
    stop (stmts ++ others) regular (by omega)
  rw [closing, ← wholeEq] at run
  have depth : state.depth = 0 := reaches.depth
  have stateRegular : state.Regular := by
    intro lexeme member
    rw [aheadEq] at member
    rcases List.mem_cons.1 member with rfl | inBody
    · refine frontRegular _ (List.mem_append_left _ ?_)
      simp [frontEq, BodyReading.frontAnd]
    · exact regular lexeme inBody
  -- the block
  have shallow : ¬limit ≤ state.depth := by
    rw [depth]
    intro deep
    refine reading.function.shallow ?_
    rw [(reading.imports.reaches.trans reading.earlier.reaches).depth]
    exact deep
  rw [← Nat.zero_add 1, ← depth] at bodyReads backReads skips
  obtain ⟨last, blockRun, lastAhead⟩ := exists_block_of_skipsStmt bodyReads bodyEnds backReads
    stateRegular shallow aheadEq reading.function.opens (closing ▸ reading.function.closes)
    (skips _ rfl rfl rfl) (by omega)
  obtain ⟨_, blockReaches⟩ := (ruleMachine limit (allowance + 1)).reaches_of_done blockRun
  refine ⟨last.moved 1 behind, left, rfl, blockReaches.stop.trans reaches.stop, ?_,
    blockReaches.depth.trans depth, blockReaches.inHeader.trans reaches.inHeader, by omega, ?_⟩
  · change 3 ≤ last.cursor.consumed + 1
    rw [blockReaches.consumed, reaches.consumed]
    exact Nat.le_add_right_of_le (Nat.le_add_right_of_le (Nat.le_add_right 3 _))
  · exact run last end' behind blockRun lastAhead isSemi

end

end GoFront
