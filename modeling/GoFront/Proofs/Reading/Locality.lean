import GoFront.Proofs.Places.Layout
import GoFront.Proofs.Reading.Bodies

/-!
# Malformed statements are passed over

Where nothing behind the failure of a statement ends it early, reading resumes with the next statement. So
in the body of a function such a statement costs no other one, and nothing behind the function is lost. To
compare a file with parts of it, all of them are seen without places.
-/

namespace GoFront

variable {P Q : Type}

/-! ## Texts on lines of their own -/

/-- Texts below each other, each on lines of its own. -/
def onLines : List String -> String
  | [] => ""
  | text :: texts => text ++ "\n" ++ onLines texts

/-- A text without lexical errors that can stand behind other lines. -/
structure LexesAlone
    (text : String)
    (filename : Option String) : Prop where
  noMark : text.toList.head? ≠ some Piece.byteOrderMark
  noErrors : (lex text filename).errors = []

/-- The lexemes of a text that are no comments, without their places. -/
def bareLexemes
    (text : String)
    (filename : Option String) : List (Lexeme Unit) :=
  (lex text filename).significant.map (Lexeme.map fun _ => ())

section

variable {filename : Option String}

theorem head?_onLines_ne_byteOrderMark
    {texts : List String}
    (lexes : ∀ text ∈ texts, LexesAlone text filename) :
    (onLines texts).toList.head? ≠ some Piece.byteOrderMark := by
  cases texts with
  | nil => nofun
  | cons text texts =>
      have textEq : (onLines (text :: texts)).toList
          = text.toList ++ '\n' :: (onLines texts).toList := by
        simp [onLines]
      have noMark := (lexes text List.mem_cons_self).noMark
      rw [textEq]
      cases chars : text.toList with
      | nil => exact fun isMark => absurd (Option.some.inj isMark) (by decide)
      | cons first rest =>
          rw [chars] at noMark
          exact noMark

/-- Texts on lines of their own are lexed one by one. -/
theorem significant_onLines
    (text : String)
    (texts : List String)
    (filename : Option String)
    (lexes : ∀ other ∈ text :: texts, LexesAlone other filename) :
    (lex (onLines (text :: texts)) filename).significant
        = (lex text filename).significant
          ++ (lex (onLines texts) filename).significant.map (Lexeme.map (Position.behindLines text))
      ∧ (lex (onLines (text :: texts)) filename).errors
        = (lex (onLines texts) filename).errors.map (LexError.map (Position.behindLines text)) := by
  obtain ⟨first, rest⟩ := List.forall_mem_cons.1 lexes
  obtain ⟨lexemes, errors, -⟩ := lex_append_newline text (onLines texts) filename first.noErrors
    (head?_onLines_ne_byteOrderMark rest)
  refine ⟨?_, errors⟩
  change ((lex (text ++ "\n" ++ onLines texts) filename).lexemes).filter _ = _
  rw [lexemes, List.filter_append, filter_significant_map]
  rfl

theorem lexesAlone_onLines
    {texts : List String}
    (lexes : ∀ text ∈ texts, LexesAlone text filename) :
    LexesAlone (onLines texts) filename := by
  refine ⟨head?_onLines_ne_byteOrderMark lexes, ?_⟩
  induction texts with
  | nil => rfl
  | cons text texts inductionHypothesis =>
      rw [(significant_onLines text texts filename lexes).2,
        inductionHypothesis (List.forall_mem_cons.1 lexes).2]
      rfl

theorem bareLexemes_onLines
    {texts : List String}
    (lexes : ∀ text ∈ texts, LexesAlone text filename) :
    bareLexemes (onLines texts) filename = texts.flatMap fun text => bareLexemes text filename := by
  induction texts with
  | nil => rfl
  | cons text texts inductionHypothesis =>
      rw [List.flatMap_cons, ← inductionHypothesis (List.forall_mem_cons.1 lexes).2, bareLexemes,
        (significant_onLines text texts filename lexes).1, List.map_append, List.map_map]
      rfl

end

/-! ## Files without places -/

/-- The statements of a body at other places. -/
theorem Tree.bodyStmts?_map
    (move : P -> Q)
    (decl : Decl P) :
    (decl.map move).bodyStmts? = decl.bodyStmts?.map (List.map (Tree.map move)) := by
  match decl with
  | funcDecl _ _ _ _ (present (block _ (stmtList stmts) _))
  | methodDecl _ _ _ _ (present (block _ (stmtList stmts) _)) =>
      exact congrArg some (toList_map move stmts)
  | funcDecl _ _ _ _ absent | methodDecl _ _ _ _ absent | specified _ _ => rfl

/-- A run that is repeated without places. -/
def Shift.bare : Shift P Unit :=
  ⟨fun _ => (), 0, []⟩

theorem run_file_bare
    (limit : Nat)
    {allowance allowance' : Nat}
    (enough : allowance ≤ allowance')
    (lexemes : List (Lexeme P))
    (stop : P) :
    Outcome.Mirrored Shift.bare (Production.FileParts.map fun _ => ())
      ((ruleMachine limit allowance).run Production.file (.start lexemes stop))
      ((ruleMachine limit allowance').run Production.file
        (.start (lexemes.map (Lexeme.map fun _ => ())) ())) := by
  have file : Mirrors (Shift.bare (P := P)) limit (Production.FileParts.map fun _ => ()) Production.file
    Production.file := Mirrors.file
  exact file enough (.start lexemes stop)

section

variable {limit : Nat} {source : String} {filename : Option String} {file : File Position}

/-- A file that was returned is read without places as well. -/
theorem exists_bare_run
    (allowance : Nat)
    (returned : (parseFileWithin limit source filename).tree = some file)
    (enough : Production.allowance (bareLexemes source filename).length ≤ allowance) :
    ∃ parts final, (ruleMachine limit allowance).run Production.file
        (.start (bareLexemes source filename) ()) = .done parts final
      ∧ parts.decls = file.decls.toList.map Tree.bare
      ∧ ((parseFileWithin limit source filename).diagnostics = [] -> final.errors = []) := by
  obtain ⟨parts, final, run, finished, clean⟩ := Parsed.exists_of_ofLexed returned
  obtain ⟨package, _, rfl⟩ := Option.map_eq_some_iff.1 finished
  rw [Production.readFrom_eq_run] at run
  rw [bareLexemes, List.length_map] at enough
  have mirrored := run_file_bare limit enough (lex source filename).significant
    (lex source filename).stop
  rw [run] at mirrored
  refine ⟨_, _, mirrored, ?_, fun noDiagnostics => ?_⟩
  · change parts.decls.map Tree.bare = (Tree.ofList parts.decls).toList.map Tree.bare
    rw [Tree.toList_ofList]
  · change final.errors.map _ ++ [] = []
    rw [clean noDiagnostics]
    rfl

/-- What is read without places is returned. -/
theorem exists_file_of_bare_run
    {parts : Production.FileParts Unit}
    {final : ReadState Unit}
    {allowance : Nat}
    (noErrors : (lex source filename).errors = [])
    (enough : Production.allowance (bareLexemes source filename).length ≤ allowance)
    (run : (ruleMachine limit allowance).run Production.file
      (.start (bareLexemes source filename) ()) = .done parts final)
    (hasPackage : parts.package.isSome = true) :
    ∃ file, (parseFileWithin limit source filename).tree = some file
      ∧ file.decls.toList.map Tree.bare = parts.decls := by
  rw [bareLexemes, List.length_map] at enough
  have mirrored := run_file_bare limit enough (lex source filename).significant
    (lex source filename).stop
  rw [← Production.readFrom_eq_run] at mirrored
  cases outcome : Production.file.readFrom limit (lex source filename).significant
      (lex source filename).stop with
  | exhausted =>
      exact absurd outcome (Production.readFrom_ne_exhausted (readsNonterminals limit _).file (by omega)
        (regular_of_mem_significant source filename))
  | gaveUp stopped =>
      rw [outcome] at mirrored
      cases run.symm.trans mirrored
  | done read last =>
      rw [outcome] at mirrored
      obtain ⟨rfl, -⟩ := Outcome.done.inj (run.symm.trans mirrored)
      obtain ⟨tree, -⟩ := parse_of_run noErrors rfl rfl outcome
      obtain ⟨package, isPackage⟩ : ∃ package, read.package = some package :=
        Option.isSome_iff_exists.1 (Option.isSome_map.symm.trans hasPackage)
      rw [tree, Production.FileParts.file?, isPackage]
      refine ⟨_, rfl, ?_⟩
      change (Tree.ofList read.decls).toList.map Tree.bare = read.decls.map Tree.bare
      rw [Tree.toList_ofList]

end

/-! ## Failed statements -/

theorem Recovery.staysInside_map
    (place : P -> Q)
    (braces parens : Nat)
    (lexemes : List (Lexeme P)) :
    staysInside braces parens (lexemes.map (Lexeme.map place)) = staysInside braces parens lexemes := by
  induction lexemes generalizing braces parens with
  | nil => rfl
  | cons lexeme rest inductionHypothesis =>
      rw [List.map_cons, staysInside, staysInside, inductionHypothesis]
      rfl

/-- What fails as a statement alone is passed over where it stands in a body. -/
theorem SkipsStmt.of_gaveUp
    {limit allowance allowance' : Nat}
    {malformed behind left : List (Lexeme P)}
    {semi : Lexeme P}
    {stop : P}
    {failed : ReadState P}
    (regular : ∀ lexeme ∈ malformed, lexeme.Regular)
    (starts : ∀ first ∈ malformed.head?, first.token ∉ [.kwCase, .kwDefault, .rBrace])
    (gaveUp : (ruleMachine limit allowance).run Production.listedStmt
      ⟨⟨0, malformed ++ behind, stop⟩, 1, false, []⟩ = .gaveUp failed)
    (leftEq : malformed.drop (max 1 failed.cursor.consumed) = left ++ [semi])
    (isSemi : semi.token = .semi)
    (stays : Recovery.staysInside 0 0 left = true)
    (place : P -> Q)
    (enough : allowance ≤ allowance')
    (state : ReadState Q)
    (aheadEq : state.cursor.ahead
      = malformed.map (Lexeme.map place) ++ behind.map (Lexeme.map place))
    (stopEq : state.cursor.stop = place stop)
    (depth : state.depth = 1)
    (header : state.inHeader = false) :
    SkipsStmt limit allowance' state (malformed.map (Lexeme.map place))
      (behind.map (Lexeme.map place)) := by
  let shift : Shift P Q := ⟨place, state.cursor.consumed, state.errors⟩
  have sameState : shift.state ⟨⟨0, malformed ++ behind, stop⟩, 1, false, []⟩ = state := by
    obtain ⟨⟨passed, _, _⟩, _, _, errors⟩ := state
    obtain rfl : _ = _ := aheadEq
    obtain rfl : _ = _ := stopEq
    obtain rfl : _ = _ := depth
    obtain rfl : _ = _ := header
    simp [shift, Shift.state, Shift.cursor]
  have mirrored : Outcome.Mirrored shift (Tree.map place)
      ((ruleMachine limit allowance).run Production.listedStmt
        ⟨⟨0, malformed ++ behind, stop⟩, 1, false, []⟩)
      ((ruleMachine limit allowance').run Production.listedStmt
        (shift.state ⟨⟨0, malformed ++ behind, stop⟩, 1, false, []⟩)) := by
    have each : Mirrors shift limit (Tree.map place) Production.listedStmt Production.listedStmt :=
      Mirrors.nestedStmt
    exact each enough _
  rw [gaveUp, sameState] at mirrored
  refine ⟨aheadEq, ?_, _, failed.cursor.consumed, left.map (Lexeme.map place), semi.map place, mirrored,
    Nat.add_comm _ _, ?_, isSemi, (Recovery.staysInside_map place 0 0 left).trans stays⟩
  · cases malformed with
    | nil => simp at leftEq
    | cons first others =>
        have notEnd := starts first rfl
        have notEof := (regular first List.mem_cons_self).1
        simp only [List.mem_cons, List.not_mem_nil, or_false, not_or] at notEnd
        have token : state.cursor.token = first.token := Cursor.token_of_ahead aheadEq
        simp [Production.moreStmts, Cursor.atAny, token, notEnd, notEof]
  · rw [← List.map_drop, leftEq, List.map_append]
    rfl

/-! ## Bodies of functions -/

/-- Reads the statement at the start of a text as it is read in the body of a function. -/
def readStmtInBody
    (limit : Nat)
    (text : String)
    (filename : Option String) : Outcome Position (Stmt Position) :=
  let lexed := lex text filename
  (ruleMachine limit (Production.allowance lexed.significant.length)).run Production.listedStmt
    ⟨⟨0, lexed.significant, lexed.stop⟩, 1, false, []⟩

/-- A text is read without complaint as some declarations and a function or method with an empty body, if
its body is closed behind the text. -/
def OpensBody
    (limit : Nat)
    (text : String)
    (filename : Option String)
    (earlier : List (Decl Position))
    (function : Decl Position) : Prop :=
  ∃ file,
    (parseFileWithin limit (onLines ["package p", text, "\x7d"]) filename).tree = some file
      ∧ (parseFileWithin limit (onLines ["package p", text, "\x7d"]) filename).diagnostics = []
      ∧ file.decls.toList = earlier ++ [function] ∧ function.bodyStmts? = some []

/-- A text is read without complaint as the statements in the body of a function. -/
def IsBody
    (limit : Nat)
    (text : String)
    (filename : Option String)
    (stmts : List (Stmt Position)) : Prop :=
  ∃ file function,
    (parseFileWithin limit (onLines ["package p", "func f() \x7b", text, "\x7d"]) filename).tree
        = some file
      ∧ (parseFileWithin limit (onLines ["package p", "func f() \x7b", text, "\x7d"])
        filename).diagnostics = []
      ∧ file.decls.toList = [function] ∧ function.bodyStmts? = some stmts

/-- A text in front of others fails as a statement in the body of a function. It ends in a semicolon, and
between the failure and this semicolon nothing ends the statement or starts another one. -/
structure FailsAsStmt
    (limit : Nat)
    (text : String)
    (behind : List String)
    (filename : Option String) : Prop where
  starts : ∀ first ∈ (lex text filename).significant.head?,
    first.token ∉ [.kwCase, .kwDefault, .rBrace]
  fails : ∃ failed left semi,
    readStmtInBody limit (onLines (text :: behind)) filename = .gaveUp failed
      ∧ (lex text filename).significant.drop (max 1 failed.cursor.consumed) = left ++ [semi]
      ∧ semi.token = .semi ∧ Recovery.staysInside 0 0 left = true

section

variable {limit : Nat} {text : String} {filename : Option String}

theorem lexesAlone_package : LexesAlone "package p" filename :=
  ⟨by decide, rfl⟩

theorem lexesAlone_rBrace : LexesAlone "\x7d" filename :=
  ⟨by decide, rfl⟩

theorem bareLexemes_framed
    (texts : List String)
    (filename : Option String)
    (lexes : ∀ text ∈ texts, LexesAlone text filename) :
    bareLexemes (onLines ("package p" :: texts)) filename
        = clauseLexemes () () () ++ texts.flatMap fun text => bareLexemes text filename := by
  rw [bareLexemes_onLines (List.forall_mem_cons.2 ⟨lexesAlone_package, lexes⟩)]
  rfl

theorem bareLexemes_rBrace :
    bareLexemes "\x7d" filename = [⟨.rBrace, (), none⟩, ⟨.semi, (), none⟩] := rfl

theorem regular_of_mem_bareLexemes
    (text : String)
    (filename : Option String) :
    ∀ lexeme ∈ bareLexemes text filename, lexeme.Regular :=
  Lexeme.regular_map (regular_of_mem_significant text filename)

/-- What stands in front of a body is read in front of a closing brace. -/
theorem OpensBody.exists_run
    {earlier : List (Decl Position)}
    {function : Decl Position}
    (allowance : Nat)
    (opens : OpensBody limit text filename earlier function)
    (lexes : LexesAlone text filename)
    (enough : Production.allowance ((bareLexemes text filename).length + 5) ≤ allowance) :
    ∃ parts final, (ruleMachine limit allowance).run Production.file
        (.start (clauseLexemes () () ()
          ++ (bareLexemes text filename ++ [⟨.rBrace, (), none⟩, ⟨.semi, (), none⟩])) ())
          = .done parts final
      ∧ final.errors = [] ∧ parts.decls = earlier.map Tree.bare ++ [function.bare]
      ∧ ∀ lexeme ∈ bareLexemes text filename ++ [⟨.rBrace, (), none⟩, ⟨.semi, (), none⟩],
        lexeme.Regular := by
  obtain ⟨file, returned, noDiagnostics, declsEq, -⟩ := opens
  have lexed : bareLexemes (onLines ["package p", text, "\x7d"]) filename
      = clauseLexemes () () ()
        ++ (bareLexemes text filename ++ [⟨.rBrace, (), none⟩, ⟨.semi, (), none⟩]) := by
    rw [bareLexemes_framed [text, "\x7d"] filename (by simp [lexes, lexesAlone_rBrace])]
    simp [bareLexemes_rBrace]
  have regular := regular_of_mem_bareLexemes (onLines ["package p", text, "\x7d"]) filename
  obtain ⟨parts, final, run, decls, clean⟩ := exists_bare_run allowance returned (by
    rw [lexed]
    simpa [clauseLexemes, Nat.add_comm, Nat.add_left_comm] using enough)
  rw [lexed] at run regular
  rw [declsEq, List.map_append] at decls
  exact ⟨parts, final, run, clean noDiagnostics, decls,
    fun lexeme member => regular lexeme (List.mem_append_right _ member)⟩

theorem OpensBody.bodyStmts?_bare
    {earlier : List (Decl Position)}
    {function : Decl Position}
    (opens : OpensBody limit text filename earlier function) :
    function.bare.bodyStmts? = some [] := by
  obtain ⟨_, _, _, _, empty⟩ := opens
  change (function.map _).bodyStmts? = _
  rw [Tree.bodyStmts?_map, empty]
  rfl

/-- What is read as a body in a file of its own is read as a body anywhere. -/
theorem IsBody.readsBody
    {stmts : List (Stmt Position)}
    (allowance : Nat)
    (isBody : IsBody limit text filename stmts)
    (lexes : LexesAlone text filename)
    (enough : Production.allowance ((bareLexemes text filename).length + 10) ≤ allowance + 1) :
    ReadsBody limit allowance 1 ⟨.rBrace, (), none⟩ (stmts.map Tree.bare)
      (bareLexemes text filename) := by
  obtain ⟨file, function, returned, noDiagnostics, declsEq, hasBody⟩ := isBody
  have lexed : bareLexemes (onLines ["package p", "func f() \x7b", text, "\x7d"]) filename
      = clauseLexemes () () () ++ (openingLexemes ()
        ++ (bareLexemes text filename ++ [⟨.rBrace, (), none⟩, ⟨.semi, (), none⟩])) := by
    have opening : LexesAlone "func f() \x7b" filename := ⟨by decide, rfl⟩
    rw [bareLexemes_framed ["func f() \x7b", text, "\x7d"] filename
      (by simp [opening, lexes, lexesAlone_rBrace])]
    simp [bareLexemes_rBrace]
    rfl
  have regular : ∀ lexeme ∈ openingLexemes ()
      ++ (bareLexemes text filename ++ [⟨.rBrace, (), none⟩, ⟨.semi, (), none⟩]), lexeme.Regular := by
    intro lexeme member
    refine regular_of_mem_bareLexemes (onLines ["package p", "func f() \x7b", text, "\x7d"])
      filename lexeme ?_
    rw [lexed]
    exact List.mem_append_right _ member
  obtain ⟨parts, final, run, decls, clean⟩ := exists_bare_run (allowance + 1) returned (by
    rw [lexed]
    simpa [clauseLexemes, openingLexemes, Nat.add_comm, Nat.add_left_comm] using enough)
  rw [lexed] at run
  rw [declsEq] at decls
  refine readsBody_of_run_file (by
    change 8 * _ ≤ _ at enough
    omega) regular run (clean noDiagnostics) decls ?_
  change (function.map _).bodyStmts? = _
  rw [Tree.bodyStmts?_map, hasBody]
  rfl

/-- Behind a package clause, a text that does not begin with an import is read as declarations. -/
theorem exists_collect_of_returned
    {file : File Position}
    (allowance : Nat)
    (returned : (parseFileWithin limit (onLines ["package p", text]) filename).tree = some file)
    (lexes : LexesAlone text filename)
    (noImport : ∀ first ∈ (lex text filename).significant.head?, first.token ≠ .kwImport)
    (enough : Production.allowance ((bareLexemes text filename).length + 3) ≤ allowance) :
    ∃ decls final, (ruleMachine limit allowance).collect .decl atLexeme Production.decl allowance []
        (.behindClause (bareLexemes text filename) ()) = .done decls final
      ∧ decls.reverse = file.decls.toList.map Tree.bare := by
  have lexed : bareLexemes (onLines ["package p", text]) filename
      = clauseLexemes () () () ++ bareLexemes text filename := by
    rw [bareLexemes_framed [text] filename (by simpa using lexes), List.flatMap_singleton]
  obtain ⟨parts, final, run, declsEq, -⟩ := exists_bare_run allowance returned (by
    rw [lexed, List.length_append, Nat.add_comm]
    exact enough)
  rw [lexed] at run
  obtain ⟨imports, decls, middle, importsRun, declsRun, rfl⟩ := Machine.exists_of_run_file run
  have stops : atImport (ReadState.behindClause (bareLexemes text filename) ()).cursor = false := by
    cases aheadEq : (lex text filename).significant with
    | nil =>
        rw [bareLexemes, aheadEq]
        rfl
    | cons first rest =>
        rw [aheadEq] at noImport
        rw [bareLexemes, aheadEq]
        exact decide_eq_false (noImport first rfl)
  obtain ⟨less, rfl⟩ : ∃ less, allowance = less + 1 := ⟨allowance - 1, by
    change 8 * _ ≤ _ at enough
    omega⟩
  change Machine.collect _ _ _ _ (less + 1) _ _ = _ at importsRun
  rw [Machine.collect_stop less stops] at importsRun
  obtain ⟨-, rfl⟩ := Outcome.done.inj importsRun
  exact ⟨decls, final, declsRun, declsEq⟩

/-- What fails as a statement in front of other texts is passed over wherever they stand in a body. -/
theorem FailsAsStmt.skipsStmt
    {behind : List String}
    (allowance : Nat)
    (fails : FailsAsStmt limit text behind filename)
    (lexes : ∀ other ∈ text :: behind, LexesAlone other filename)
    (enough : Production.allowance (bareLexemes (onLines (text :: behind)) filename).length
      ≤ allowance)
    (state : ReadState Unit)
    (aheadEq : state.cursor.ahead
      = bareLexemes text filename ++ behind.flatMap fun other => bareLexemes other filename)
    (depth : state.depth = 1)
    (header : state.inHeader = false) :
    SkipsStmt limit allowance state (bareLexemes text filename)
      (behind.flatMap fun other => bareLexemes other filename) := by
  obtain ⟨starts, failed, left, semi, gaveUp, leftEq, isSemi, stays⟩ := fails
  have behindLexed : ((lex (onLines behind) filename).significant.map
        (Lexeme.map (Position.behindLines text))).map (Lexeme.map fun _ => ())
      = behind.flatMap fun other => bareLexemes other filename := by
    rw [List.map_map, ← bareLexemes_onLines (List.forall_mem_cons.1 lexes).2]
    rfl
  unfold readStmtInBody at gaveUp
  rw [bareLexemes, List.length_map] at enough
  dsimp only at gaveUp
  rw [(significant_onLines text behind filename lexes).1] at gaveUp enough
  rw [← behindLexed] at aheadEq ⊢
  exact .of_gaveUp (regular_of_mem_significant text filename) starts gaveUp leftEq isSemi stays
    (fun _ => ()) enough state aheadEq rfl depth header

/-- What is lexed from a file with a malformed statement in the body of a function. -/
theorem bareLexemes_withStmt
    {front stmts malformed rest after : String}
    (lexes : ∀ text ∈ [front, stmts, malformed, rest, after], LexesAlone text filename) :
    bareLexemes (onLines ["package p", front, stmts, malformed, rest, "\x7d", after]) filename
        = clauseLexemes () () () ++ (bareLexemes front filename ++ (bareLexemes stmts filename
          ++ (bareLexemes malformed filename ++ (bareLexemes rest filename
            ++ ⟨.rBrace, (), none⟩ :: ⟨.semi, (), none⟩ :: bareLexemes after filename))))
      ∧ (lex (onLines ["package p", front, stmts, malformed, rest, "\x7d", after])
        filename).errors = [] := by
  have wholeLexes : ∀ text ∈ [front, stmts, malformed, rest, "\x7d", after],
      LexesAlone text filename := by
    simp only [List.forall_mem_cons] at lexes ⊢
    obtain ⟨frontLexes, stmtsLexes, malformedLexes, restLexes, afterLexes⟩ := lexes
    exact ⟨frontLexes, stmtsLexes, malformedLexes, restLexes, lexesAlone_rBrace, afterLexes⟩
  have lexesAlone := lexesAlone_onLines (List.forall_mem_cons.2 ⟨lexesAlone_package, wholeLexes⟩)
  refine ⟨?_, lexesAlone.noErrors⟩
  rw [bareLexemes_framed _ filename wholeLexes]
  simp [bareLexemes_rBrace]

theorem token_of_getLast?_bareLexemes
    {token : Token}
    (ends : ∀ last ∈ (lex text filename).significant.getLast?, last.token = token)
    (last : Lexeme Unit)
    (isLast : last ∈ (bareLexemes text filename).getLast?) :
    last.token = token := by
  rw [bareLexemes, List.getLast?_map, Option.mem_def, Option.map_eq_some_iff] at isLast
  obtain ⟨original, isLast, rfl⟩ := isLast
  exact ends original isLast

end

/-- A malformed statement in the body of a function is passed over if nothing behind its failure ends it
early: the function has the statements around it, and the declarations behind the function are those that
follow it. -/
theorem malformed_stmt_is_passed_over
    (limit : Nat)
    (front stmts malformed rest after : String)
    (filename : Option String)
    (earlier : List (Decl Position))
    (function : Decl Position)
    (frontStmts restStmts : List (Stmt Position))
    (afterFile : File Position)
    (lexes : ∀ text ∈ [front, stmts, malformed, rest, after], LexesAlone text filename)
    (opens : OpensBody limit front filename earlier function)
    (isBody : IsBody limit stmts filename frontStmts)
    (ends : ∀ last ∈ (lex stmts filename).significant.getLast?, last.token = .semi)
    (fails : FailsAsStmt limit malformed [rest, "\x7d", after] filename)
    (isRest : IsBody limit rest filename restStmts)
    (returned : (parseFileWithin limit (onLines ["package p", after]) filename).tree = some afterFile)
    (noImport : ∀ first ∈ (lex after filename).significant.head?, first.token ≠ .kwImport) :
    ∃ whole, (parseFileWithin limit
          (onLines ["package p", front, stmts, malformed, rest, "\x7d", after]) filename).tree
        = some whole
      ∧ whole.decls.toList.map Tree.bare
        = earlier.map Tree.bare
          ++ function.bare.withBodyStmts ((frontStmts ++ restStmts).map Tree.bare)
            :: afterFile.decls.toList.map Tree.bare := by
  obtain ⟨wholeLexed, wholeNoErrors⟩ := bareLexemes_withStmt lexes
  simp only [List.forall_mem_cons] at lexes
  obtain ⟨frontLexes, stmtsLexes, malformedLexes, restLexes, afterLexes, -⟩ := lexes
  have behindLexes : ∀ text ∈ [malformed, rest, "\x7d", after], LexesAlone text filename := by
    simp [malformedLexes, restLexes, lexesAlone_rBrace, afterLexes]
  have behindLexed : ([rest, "\x7d", after].flatMap fun text => bareLexemes text filename)
      = bareLexemes rest filename
        ++ ⟨.rBrace, (), none⟩ :: ⟨.semi, (), none⟩ :: bareLexemes after filename := by
    simp [bareLexemes_rBrace]
  have wholeRegular := regular_of_mem_bareLexemes
    (onLines ["package p", front, stmts, malformed, rest, "\x7d", after]) filename
  rw [wholeLexed] at wholeRegular
  -- each text is read on an allowance on which the whole file is read as well
  obtain ⟨allowance, allowanceEq⟩ : ∃ allowance, Production.allowance ((bareLexemes
      (onLines ["package p", front, stmts, malformed, rest, "\x7d", after]) filename).length + 10)
      = allowance + 1 := ⟨_, rfl⟩
  have lengthEq := allowanceEq
  rw [wholeLexed] at lengthEq
  simp only [Production.allowance, List.length_append, List.length_cons] at lengthEq
  obtain ⟨parts, final, frontRun, frontClean, frontDecls, frontRegular⟩ :=
    opens.exists_run (allowance + 1) frontLexes (by
      simp only [Production.allowance]
      omega)
  have bodyReads := isBody.readsBody allowance stmtsLexes (by
    simp only [Production.allowance]
    omega)
  have restReads := isRest.readsBody allowance restLexes (by
    simp only [Production.allowance]
    omega)
  have skips := fails.skipsStmt allowance behindLexes (by
    rw [bareLexemes_onLines behindLexes, List.flatMap_cons, behindLexed]
    simp only [Production.allowance, List.length_append, List.length_cons]
    omega)
  rw [behindLexed] at skips
  -- the file up to the end of the function
  obtain ⟨state, left, aheadEq, stopEq, consumed, depth, header, kept, run⟩ :=
    exists_run_file_of_skipsStmt frontRegular frontRun frontClean frontDecls opens.bodyStmts?_bare rfl
      bodyReads (token_of_getLast?_bareLexemes ends) restReads skips
      (fun lexeme member => wholeRegular lexeme
        (List.mem_append_right _ (List.mem_append_right _ member))) (by omega)
  -- the declarations behind it
  obtain ⟨decls, last, collected, declsBehind⟩ :=
    exists_collect_of_returned _ returned afterLexes noImport (Nat.le_refl _)
  have sameLexemes : (Lexeme.map id : Lexeme Unit -> Lexeme Unit) = id := rfl
  have sameDecls : (Tree.map id : Decl Unit -> Decl Unit) = id := funext Tree.map_id
  obtain ⟨ending, collectedBehind, -⟩ := Machine.collect_behind collected id
    (by simp only [Production.allowance]; omega : _ ≤ allowance + 1)
    (by simp only [Production.allowance]; omega : _ ≤ left)
    (function.bare.withBodyStmts (frontStmts.map Tree.bare ++ restStmts.map Tree.bare)
      :: (earlier.map Tree.bare).reverse) state (by rw [sameLexemes, List.map_id]; exact aheadEq)
    stopEq consumed depth header
  rw [collectedBehind, ← wholeLexed] at run
  obtain ⟨whole, wholeReturned, wholeDecls⟩ := exists_file_of_bare_run wholeNoErrors (by
    rw [← allowanceEq]
    simp only [Production.allowance]
    omega) run rfl
  refine ⟨whole, wholeReturned, ?_⟩
  rw [wholeDecls, sameDecls, List.map_id, List.map_append, ← declsBehind]
  simp

/-- A declaration that is alone in a file and has some statements. -/
theorem exists_decl_of_counts
    (tree : Option (File Position))
    (count : Nat)
    (counts : tree.map (fun file => file.decls.toList.map fun decl =>
      decl.bodyStmts?.map List.length) = some [some count]) :
    ∃ file function stmts, tree = some file ∧ file.decls.toList = [function]
      ∧ function.bodyStmts? = some stmts ∧ stmts.length = count := by
  obtain ⟨file, returned, counted⟩ := Option.map_eq_some_iff.1 counts
  obtain ⟨function, declsEq, hasBody⟩ := List.map_eq_singleton_iff.1 counted
  obtain ⟨stmts, bodyEq, length⟩ := Option.map_eq_some_iff.1 hasBody
  exact ⟨file, function, stmts, returned, declsEq, bodyEq, length⟩

/-- Two assignments around a statement that fails at its second name, in front of a block. -/
theorem malformed_stmt_is_passed_over_block :
    ∃ function frontStmts restStmts afterFile whole,
      OpensBody 9 "func f() \x7b" none [] function
        ∧ IsBody 9 "x = 1" none frontStmts ∧ frontStmts.length = 1
        ∧ IsBody 9 "z = 3" none restStmts ∧ restStmts.length = 1
        ∧ (parseFileWithin 9 (onLines ["package p", "var v int"]) none).tree = some afterFile
        ∧ (parseFileWithin 9 (onLines ["package p", "func f() \x7b", "x = 1", "x y \x7b a = 2; \x7d",
            "z = 3", "\x7d", "var v int"]) none).tree = some whole
        ∧ whole.decls.toList.map Tree.bare
          = function.bare.withBodyStmts ((frontStmts ++ restStmts).map Tree.bare)
            :: afterFile.decls.toList.map Tree.bare := by
  obtain ⟨opening, function, nothing, openingReturned, openingDecls, openingBody, isEmpty⟩ :=
    exists_decl_of_counts (parseFileWithin 9 (onLines ["package p", "func f() \x7b", "\x7d"]) none).tree
      0 (by decide +kernel)
  obtain rfl := List.length_eq_zero_iff.1 isEmpty
  obtain ⟨front, frontDecl, frontStmts, frontReturned, frontDecls, frontBody, frontCount⟩ :=
    exists_decl_of_counts (parseFileWithin 9 (onLines ["package p", "func f() \x7b", "x = 1", "\x7d"])
      none).tree 1 (by decide +kernel)
  obtain ⟨rest, restDecl, restStmts, restReturned, restDecls, restBody, restCount⟩ :=
    exists_decl_of_counts (parseFileWithin 9 (onLines ["package p", "func f() \x7b", "z = 3", "\x7d"])
      none).tree 1 (by decide +kernel)
  have opens : OpensBody 9 "func f() \x7b" none [] function :=
    ⟨opening, openingReturned, by decide +kernel, openingDecls, openingBody⟩
  have isBody : IsBody 9 "x = 1" none frontStmts :=
    ⟨front, frontDecl, frontReturned, by decide +kernel, frontDecls, frontBody⟩
  have isRest : IsBody 9 "z = 3" none restStmts :=
    ⟨rest, restDecl, restReturned, by decide +kernel, restDecls, restBody⟩
  obtain ⟨afterFile, afterReturned⟩ : ∃ file,
      (parseFileWithin 9 (onLines ["package p", "var v int"]) none).tree = some file :=
    Option.isSome_iff_exists.1 (by decide +kernel)
  have fails : FailsAsStmt 9 "x y \x7b a = 2; \x7d" ["z = 3", "\x7d", "var v int"] none := by
    refine ⟨by decide +kernel, ?_⟩
    have consumed : (match readStmtInBody 9
        (onLines ["x y \x7b a = 2; \x7d", "z = 3", "\x7d", "var v int"]) none with
        | .gaveUp failed => some failed.cursor.consumed
        | _ => none) = some 1 := by
      decide +kernel
    split at consumed
    · next failed gaveUp =>
        refine ⟨failed, ((lex "x y \x7b a = 2; \x7d" none).significant.drop 1).dropLast,
          ⟨.semi, ⟨14, 1, none⟩, none⟩, gaveUp, ?_, rfl, by decide +kernel⟩
        rw [Option.some.inj consumed]
        decide +kernel
    · cases consumed
  obtain ⟨whole, wholeReturned, decls⟩ := malformed_stmt_is_passed_over 9 "func f() \x7b" "x = 1"
    "x y \x7b a = 2; \x7d" "z = 3" "var v int" none [] function frontStmts restStmts afterFile
    (by
      simp only [List.forall_mem_cons, List.not_mem_nil, IsEmpty.forall_iff, implies_true, and_true]
      exact ⟨⟨by decide, by decide +kernel⟩, ⟨by decide, by decide +kernel⟩,
        ⟨by decide, by decide +kernel⟩, ⟨by decide, by decide +kernel⟩,
        ⟨by decide, by decide +kernel⟩⟩)
    opens isBody (by decide +kernel) fails isRest afterReturned (by decide +kernel)
  exact ⟨function, frontStmts, restStmts, afterFile, whole, opens, isBody, frontCount, isRest,
    restCount, afterReturned, wholeReturned, decls⟩

/-- A literal that fails between its braces hides the statements behind it, because its closing brace is
taken for that of the body. -/
theorem malformed_literal_hides_stmts :
    (∀ text ∈ ["\tx = T\x7b1 2\x7d", "\ty = 3", "func g() \x7b\x7d"], (lex text none).errors = [])
      ∧ Brackets.Nested (lex "\tx = T\x7b1 2\x7d" none).significant
      ∧ (lex "\tx = T\x7b1 2\x7d" none).significant.getLast?.map Lexeme.token = some .semi
      ∧ (∀ lexeme ∈ (lex "\tx = T\x7b1 2\x7d" none).significant,
        lexeme.token ∉ [.kwCase, .kwDefault])
      ∧ (match readStmtInBody nestingLimit
          (onLines ["\tx = T\x7b1 2\x7d", "\ty = 3", "\x7d", "func g() \x7b\x7d"]) none with
        | .gaveUp _ => true
        | _ => false) = true
      ∧ (parseFile (onLines ["package p", "func f() \x7b", "", "\x7d"]) none).diagnostics = []
      ∧ (parseFile (onLines ["package p", "func f() \x7b", "\ty = 3", "\x7d"]) none).diagnostics = []
      ∧ (parseFile (onLines ["package p", "func f() \x7b", "\ty = 3", "\x7d"]) none).tree.map
          (fun file => file.decls.toList.map fun decl => decl.bodyStmts?.map List.length)
        = some [some 1]
      ∧ (parseFile (onLines ["package p", "func f() \x7b", "\tx = T\x7b1 2\x7d", "\ty = 3", "\x7d",
            "func g() \x7b\x7d"]) none).tree.map
          (fun file => file.decls.toList.map fun decl => decl.bodyStmts?.map List.length)
        = some [some 0, some 0] := by
  decide +kernel

end GoFront
