import GoFront.Proofs.Reading.Survival

/-!
# Errors that follow from an error

Behind a failed declaration reading resumes at the next token that can start one, even inside brackets.
If there is no such token between the failure and the end of the declaration, one malformed declaration
gives one error, and the declarations of the file are the others. If there is one, what stands there is
read as a declaration of its own.
-/

namespace GoFront

variable {P Q : Type}

/-! ## Where reading resumes -/

/-- Whether reading resumes at a token behind a failed declaration. -/
def Token.restarts (token : Token) : Bool :=
  token = .kwImport || token.startsDecl

/-- Reading resumes at the first token at which it can. -/
theorem Recovery.lexemesToDecl_append
    {left : List (Lexeme P)}
    {head : Lexeme P}
    {tail : List (Lexeme P)}
    (none : ∀ lexeme ∈ left, lexeme.token.restarts = false)
    (restarts : head.token.restarts = true) :
    lexemesToDecl (left ++ head :: tail) = left.length := by
  induction left with
  | nil =>
      apply if_pos
      exact restarts
  | cons lexeme left inductionHypothesis =>
      obtain ⟨here, behind⟩ := List.forall_mem_cons.1 none
      unfold Token.restarts at here
      rw [List.cons_append, lexemesToDecl, here, inductionHypothesis behind]
      rfl

/-- Behind what holds no token that can start a declaration, reading resumes at the next one. -/
theorem Recovery.ahead_resume
    {start : Nat}
    {cursor : Cursor P}
    {left : List (Lexeme P)}
    {head : Lexeme P}
    {tail : List (Lexeme P)}
    (aheadEq : cursor.ahead = left ++ head :: tail)
    (moved : cursor.consumed ≠ start)
    (none : ∀ lexeme ∈ left, lexeme.token.restarts = false)
    (restarts : head.token.restarts = true) :
    (Recovery.decl.resume start cursor).ahead = head :: tail := by
  unfold resume
  rw [if_neg moved, Cursor.skip, distance, aheadEq, lexemesToDecl_append none restarts]
  exact List.drop_left

/-! ## One error -/

namespace ReadsDecls

variable {limit allowance : Nat} {ahead : List (Lexeme P)} {stop : P} {decls : List (Decl P)}
  {stretch behind : List (Lexeme Q)} {keyword name semi stopped : Q} {failed : ReadState Q}

/-- Where reading resumes behind a declaration that failed in a stretch, if nothing in the rest of the
stretch can start a declaration. -/
theorem exists_resumed
    {machine : Machine Q}
    {head : Lexeme Q}
    {tail : List (Lexeme Q)}
    (run : machine.run Production.decl
      (.behindClause (stretch ++ head :: tail) stopped) = .gaveUp failed)
    (headRestarts : head.token.restarts = true)
    (firstRestarts : ∃ first, stretch.head? = some first ∧ first.token.restarts = true)
    (inside : failed.cursor.consumed ≤ stretch.length + 3)
    (none : ∀ lexeme ∈ stretch.drop (failed.cursor.consumed - 3), lexeme.token.restarts = false) :
    ∃ passed, (ReadState.behindClause (stretch ++ head :: tail) stopped).Reaches passed
        { failed with cursor := Recovery.decl.resume 3 failed.cursor }
      ∧ (Recovery.decl.resume 3 failed.cursor).ahead = head :: tail := by
  obtain ⟨taken, reaches, _⟩ := Machine.reaches_of_gaveUp run
  have consumedEq : failed.cursor.consumed = 3 + taken.length := reaches.consumed
  have takenInside : taken.length ≤ stretch.length := by omega
  rw [consumedEq, Nat.add_sub_cancel_left] at none
  -- the declaration failed behind its first token, at which reading could resume
  have someTaken : taken.length ≠ 0 := by
    intro nothing
    rw [nothing, List.drop_zero] at none
    obtain ⟨first, isFirst, restarts⟩ := firstRestarts
    rw [none first (List.mem_of_mem_head? isFirst)] at restarts
    cases restarts
  have failedAhead : failed.cursor.ahead = stretch.drop taken.length ++ head :: tail := by
    have whole : stretch ++ head :: tail = taken ++ failed.cursor.ahead := reaches.ahead
    rw [← List.drop_append_of_le_length takenInside, whole, List.drop_left]
  obtain ⟨passed, resumes, _⟩ := Reads.exists_of_resume .decl reaches
  exact ⟨passed, resumes, Recovery.ahead_resume failedAhead (by omega) none headRestarts⟩

/-- If the declaration in a stretch fails, and nothing in the rest of the stretch can start one, the
declarations of the file are those behind the stretch, and no error is added. -/
theorem exists_of_gaveUp
    (reads : ReadsDecls limit allowance ahead stop decls)
    (place : P -> Q)
    (run : (ruleMachine limit (allowance + 8 * stretch.length)).run Production.decl
      (.behindClause (stretch ++ ahead.map (Lexeme.map place)) (place stop)) = .gaveUp failed)
    (starts : ∃ first, stretch.head? = some first ∧ first.token.startsDecl = true
      ∧ first.token ≠ .kwImport)
    (inside : failed.cursor.consumed ≤ stretch.length + 3)
    (none : ∀ lexeme ∈ stretch.drop (failed.cursor.consumed - 3), lexeme.token.restarts = false) :
    ∃ final, (ruleMachine limit (allowance + 8 * stretch.length)).run Production.file
        (.start (clauseLexemes keyword name semi ++ (stretch ++ ahead.map (Lexeme.map place)))
          (place stop))
        = .done ⟨some (clauseOf keyword name), [], decls.map (Tree.map place)⟩ final
      ∧ final.errors = failed.errors := by
  obtain ⟨head, tail, aheadEq, headStarts, _⟩ := reads.begins
  obtain ⟨first, isFirst, firstStarts, notImport⟩ := starts
  obtain ⟨rest, rfl⟩ := List.head?_eq_some_iff.1 isFirst
  have behindEq : ahead.map (Lexeme.map place) = head.map place :: tail.map (Lexeme.map place) := by
    rw [aheadEq]
    rfl
  have failedRun := run
  rw [behindEq] at failedRun
  obtain ⟨passed, resumes, resumed⟩ := exists_resumed failedRun
    (by simp [Token.restarts, Lexeme.map, headStarts])
    ⟨first, rfl, by simp [Token.restarts, firstStarts]⟩ inside none
  obtain ⟨final, declsRun, errors⟩ := reads.collect place
    (Nat.le_add_right allowance (8 * (first :: rest).length))
    (show allowance ≤ allowance + 8 * rest.length + 7 by omega) []
    { failed with cursor := Recovery.decl.resume 3 failed.cursor } (resumed.trans behindEq.symm)
    resumes.stop (Nat.le_trans (Nat.le_add_right 3 _) (Nat.le_of_eq resumes.consumed.symm))
    resumes.depth resumes.inHeader
  refine ⟨final, ?_, errors⟩
  have noImport : atImport (ReadState.behindClause (first :: rest ++ ahead.map (Lexeme.map place))
      (place stop)).cursor = false := decide_eq_false notImport
  have isMore : atLexeme (ReadState.behindClause (first :: rest ++ ahead.map (Lexeme.map place))
      (place stop)).cursor = true := by
    apply decide_eq_true
    intro (atEnd : first.token = .eof)
    rw [atEnd] at firstStarts
    cases firstStarts
  have collected := (Machine.collect_gaveUp (allowance + 8 * rest.length + 7) isMore run).trans declsRun
  rw [Machine.file_of_collect (Machine.collect_stop _ noImport) collected,
    List.append_nil, List.map_reverse, List.reverse_reverse]
  rfl

end ReadsDecls

/-! ## Sources -/

/-- What reading a declaration makes of what stands behind the package clause of a source. -/
def readDeclBehindClause
    (limit : Nat)
    (source : String)
    (filename : Option String) : Outcome Position (Decl Position) :=
  let lexed := lex source filename
  (ruleMachine limit (Production.allowance lexed.significant.length)).run Production.decl
    (.behindClause (lexed.significant.drop 3) lexed.stop)

/-- The diagnostics for a source that was read to its end. -/
theorem diagnostics_of_run
    {limit : Nat}
    {source : String}
    {filename : Option String}
    {parts : Production.FileParts Position}
    {final : ReadState Position}
    (noErrors : (lex source filename).errors = [])
    (run : Production.file.readFrom limit (lex source filename).significant
      (lex source filename).stop = .done parts final) :
    (parseFileWithin limit source filename).diagnostics
      = final.errors.reverse.map .grammatical := by
  have hasNone : ¬(lex source filename).hasErrors = true := by
    simp [Lexed.hasErrors, noErrors]
  unfold parseFileWithin Parsed.ofLexed
  dsimp only
  rw [if_neg hasNone, run]
  rfl

/-- One malformed declaration gives one error where nothing behind its failure can start another one:
the error is the one with which it failed, and the declarations of the file are those behind it. -/
theorem malformed_decl_gives_one_error
    (limit : Nat)
    (front back : String)
    (filename : Option String)
    (file : File Position)
    (failed : ReadState Position)
    (error : SyntaxError Position)
    (noMark : front.toList.head? ≠ some Piece.byteOrderMark)
    (noErrors : (lex front filename).errors = [])
    (starts : ∃ first, (lex front filename).significant.head? = some first
      ∧ first.token ∈ [.kwVar, .kwConst, .kwType, .kwFunc])
    (returned : (parseFileWithin limit ("package p\n" ++ back) filename).tree = some file)
    (noDiagnostics : (parseFileWithin limit ("package p\n" ++ back) filename).diagnostics = [])
    (noImports : file.imports = .nil)
    (someDecl : file.decls ≠ .nil)
    (gaveUp : readDeclBehindClause limit ("package p\n" ++ front ++ "\n" ++ back) filename
      = .gaveUp failed)
    (oneError : failed.errors = [error])
    (inside : failed.cursor.consumed ≤ (lex front filename).significant.length + 3)
    (none : ∀ lexeme ∈ (lex front filename).significant.drop (failed.cursor.consumed - 3),
      lexeme.token.restarts = false) :
    (parseFileWithin limit ("package p\n" ++ front ++ "\n" ++ back) filename).diagnostics
        = [.grammatical error]
      ∧ ∃ whole, (parseFileWithin limit ("package p\n" ++ front ++ "\n" ++ back) filename).tree
          = some whole
        ∧ whole.decls.toList = file.decls.toList.map (Tree.map (Position.behindLines front)) := by
  obtain ⟨backErrors, backNoMark, reads⟩ :=
    readsDecls_of_parse returned noDiagnostics noImports someDecl
  have frontNoMark := Piece.not_byteOrderMark_of_head front.toList
    (faultless_of_lex front filename noErrors) noMark
  obtain ⟨lexed, errors, stop⟩ :=
    lex_behind_lines front back filename noErrors frontNoMark backNoMark
  rw [backErrors] at errors
  have sameAllowance := allowance_behindClause (linesBehindClause front filename)
    (linesBehindClause back filename) (Position.behindLines front) filename
  have readEq := readFrom_behindClause limit (linesBehindClause front filename)
    (linesBehindClause back filename) (Position.behindLines front) filename
    (Position.behindLines front (lex ("package p\n" ++ back) filename).stop)
  have frontLength : (linesBehindClause front filename).length
      = (lex front filename).significant.length := List.length_map _
  have frontStarts : ∃ first, (linesBehindClause front filename).head? = some first
      ∧ first.token.startsDecl = true ∧ first.token ≠ .kwImport := by
    obtain ⟨first, isFirst, isStart⟩ := starts
    refine ⟨first.map (Position.behindLines "package p"), ?_, ?_⟩
    · rw [linesBehindClause, List.head?_map, isFirst]
      rfl
    · change first.token.startsDecl = true ∧ first.token ≠ .kwImport
      simp only [List.mem_cons, List.not_mem_nil, or_false] at isStart
      rcases isStart with isStart | isStart | isStart | isStart <;> rw [isStart] <;> decide
  have frontNone : ∀ lexeme ∈ (linesBehindClause front filename).drop (failed.cursor.consumed - 3),
      lexeme.token.restarts = false := by
    intro lexeme member
    rw [linesBehindClause, ← List.map_drop] at member
    obtain ⟨original, isMember, rfl⟩ := List.mem_map.1 member
    exact none original isMember
  unfold readDeclBehindClause at gaveUp
  dsimp only at gaveUp
  rw [lexed, stop, sameAllowance] at gaveUp
  obtain ⟨final, run, finalErrors⟩ := reads.exists_of_gaveUp (Position.behindLines front) gaveUp
    frontStarts (by omega) frontNone
  have fileRun := readEq.trans run
  obtain ⟨tree, _⟩ := parse_of_run errors lexed stop fileRun
  rw [← lexed, ← stop] at fileRun
  refine ⟨?_, _, tree, Tree.toList_ofList _⟩
  rw [diagnostics_of_run errors fileRun, finalErrors, oneError]
  rfl

-- A token at which reading resumes makes a difference even where no declaration starts with it.
example : (parseDecl "type = struct\x7b\x7d" none).diagnostics.length = 1
    ∧ (parseFile "package p\ntype = struct\x7b\x7d\nvar y int\n" none).diagnostics.length = 2 := by
  decide +kernel

/-- A variable without a name in front of another variable. -/
theorem malformed_decl_gives_one_error_var :
    ∃ file whole error, (parseFileWithin 9 ("package p\n" ++ "var y int") none).tree = some file
      ∧ (parseFileWithin 9 ("package p\n" ++ "var = 1" ++ "\n" ++ "var y int") none).tree
        = some whole
      ∧ (parseFileWithin 9 ("package p\n" ++ "var = 1" ++ "\n" ++ "var y int") none).diagnostics
        = [.grammatical error]
      ∧ whole.decls.toList = file.decls.toList.map (Tree.map (Position.behindLines "var = 1")) := by
  have counts : (parseFileWithin 9 ("package p\n" ++ "var y int") none).tree.map
      (fun file => (file.imports.toList.length, file.decls.toList.length)) = some (0, 1) := by
    decide +kernel
  obtain ⟨file, returned, counted⟩ := Option.map_eq_some_iff.1 counts
  obtain ⟨importCount, declCount⟩ := Prod.mk.inj counted
  have noImports : file.imports = .nil := by
    match file.imports, importCount with
    | .nil, _ => rfl
  have someDecl : file.decls ≠ .nil := by
    intro empty
    rw [empty] at declCount
    cases declCount
  have fails : (match readDeclBehindClause 9 ("package p\n" ++ "var = 1" ++ "\n" ++ "var y int") none
      with
      | .gaveUp failed => some (failed.cursor.consumed, failed.errors)
      | _ => none) = some (4, [⟨.unexpected .assign .ident, ⟨14, 2, none⟩⟩]) := by
    decide +kernel
  cases gaveUp : readDeclBehindClause 9 ("package p\n" ++ "var = 1" ++ "\n" ++ "var y int") none with
  | done _ _ =>
      rw [gaveUp] at fails
      cases fails
  | exhausted =>
      rw [gaveUp] at fails
      cases fails
  | gaveUp failed =>
      rw [gaveUp] at fails
      obtain ⟨consumedEq, oneError⟩ := Prod.mk.inj (Option.some.inj fails)
      have noRestart : ∀ lexeme ∈ (lex "var = 1" none).significant.drop (failed.cursor.consumed - 3),
          lexeme.token.restarts = false := by
        rw [consumedEq]
        decide +kernel
      have inside : failed.cursor.consumed ≤ (lex "var = 1" none).significant.length + 3 := by
        rw [consumedEq]
        decide +kernel
      obtain ⟨diagnostics, whole, wholeReturned, decls⟩ := malformed_decl_gives_one_error 9 "var = 1"
        "var y int" none file failed _ (by decide +kernel) (by decide +kernel)
        ⟨⟨.kwVar, ⟨0, 1, none⟩, none⟩, by decide +kernel, by decide⟩ returned (by decide +kernel)
        noImports someDecl gaveUp oneError inside noRestart
      exact ⟨file, whole, _, returned, wholeReturned, diagnostics, decls⟩

/-- What stands in the body of a malformed function is promoted to the top level, and its closing brace is
reported again. -/
theorem malformed_decl_promotes_body :
    (lex "func 1() \x7b var x int \x7d" none).errors = []
      ∧ Brackets.Nested (lex "func 1() \x7b var x int \x7d" none).significant
      ∧ (lex "func 1() \x7b var x int \x7d" none).significant.getLast?.map Lexeme.token = some .semi
      ∧ (parseDecl "func 1() \x7b var x int \x7d" none).tree.isNone
      ∧ (parseDecl "func 1() \x7b var x int \x7d" none).diagnostics.length = 1
      ∧ (parseFile "package p\nvar y int\n" none).diagnostics = []
      ∧ (parseFile "package p\nvar y int\n" none).tree.map (fun file => file.decls.toList.length)
        = some 1
      ∧ (parseFile "package p\nfunc 1() \x7b var x int \x7d\nvar y int\n" none).diagnostics.length = 2
      ∧ (parseFile "package p\nfunc 1() \x7b var x int \x7d\nvar y int\n" none).tree.map
        (fun file => file.decls.toList.length) = some 2 := by
  decide +kernel

end GoFront
