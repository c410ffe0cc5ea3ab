import GoFront.Proofs.Lexing.Lines
import GoFront.Proofs.Places.Mirrors
import GoFront.Proofs.Reading.Accounts
import GoFront.Proofs.Reading.Recovery

/-!
# Declarations behind malformed text

A malformed declaration never hides a valid one that comes later. If a stretch of a file has nested
brackets and ends in a semicolon, then whatever is wrong in it, reading arrives at the declarations behind
it. From there on it takes the steps that it takes in a file that consists of these declarations alone.
-/

namespace GoFront

variable {P Q : Type}

/-! ## Loops at other places -/

/-- A loop over lines is repeated at other places, behind lines that have been collected before. -/
theorem Mirrors.collect
    {phrase : Phrase}
    {shift : Shift P Q}
    {limit allowance allowance' : Nat}
    {recovery : Recovery}
    {move : Tree P (.one phrase) -> Tree Q (.one phrase)}
    {goesOn : Cursor P -> Bool}
    {goesOn' : Cursor Q -> Bool}
    {item : Production P (Tree P (.one phrase))}
    {item' : Production Q (Tree Q (.one phrase))}
    (each : Mirrors shift limit move item item')
    (lasts : allowance ≤ allowance')
    (same : ∀ cursor, goesOn' (shift.cursor cursor) = goesOn cursor)
    {repetitions repetitions' : Nat}
    (enough : repetitions ≤ repetitions')
    (earlier : List (Tree Q (.one phrase)))
    (items : List (Tree P (.one phrase)))
    (state : ReadState P) :
    Outcome.Mirrored shift (fun items => items.map move ++ earlier)
      ((ruleMachine limit allowance).collect recovery goesOn item repetitions items state)
      ((ruleMachine limit allowance').collect recovery goesOn' item' repetitions'
        (items.map move ++ earlier) (shift.state state)) := by
  refine (Outcome.copied_iff_mirrored state).1 ?_
  rw [← shift.state_copying]
  refine Outcome.Copied.iterate enough (fun _ => Machine.run_sound _ _) (fun items state only => ?_) items
    (shift.faithful.onlyAsserted _)
  refine (?_ : Copies (.ofRules shift.copying limit lasts) state.cursor.token _ _ _) state rfl only
  refine Copies.look fun cursor _ _ => ?_
  have sameHere : goesOn' ((Copier.ofRules shift.copying limit lasts).cursor cursor) = goesOn cursor :=
    (congrArg goesOn' (shift.cursor_copying cursor)).trans (same cursor)
  rw [sameHere]
  refine Copies.choice .rfl ((Copies.recovering (each.copies lasts)).bind ?_) (.pure rfl)
  intro next
  refine .pure ?_
  cases next <;> rfl

/-! ## Files -/

/-- The state behind the package clause of a file. -/
def ReadState.behindClause
    (ahead : List (Lexeme P))
    (stop : P) : ReadState P :=
  ⟨⟨3, ahead, stop⟩, 0, false, []⟩

/-- The lexemes of a package clause. -/
def clauseLexemes
    (keyword name semi : P) : List (Lexeme P) :=
  [⟨.kwPackage, keyword, none⟩, ⟨.ident, name, some "p"⟩, ⟨.semi, semi, none⟩]

/-- The package clause that its lexemes form. -/
def clauseOf
    (keyword name : P) : PackageClause P :=
  ⟨⟨.kwPackage, keyword⟩, ⟨"p", name⟩⟩

/-- Whether an import comes next. -/
def atImport (cursor : Cursor P) : Bool :=
  cursor.token = .kwImport

/-- Whether any lexeme comes next. -/
def atLexeme (cursor : Cursor P) : Bool :=
  cursor.token ≠ .eof

namespace Machine

variable {machine : Machine P} {ahead : List (Lexeme P)} {keyword name semi stop : P}

/-- Behind its package clause a file is read by two loops over lines. -/
theorem run_file
    (machine : Machine P)
    (ahead : List (Lexeme P))
    (keyword name semi stop : P) :
    machine.run Production.file (.start (clauseLexemes keyword name semi ++ ahead) stop)
      = (machine.collect .decl atImport (Production.specDecl .imports) machine.allowance []
          (.behindClause ahead stop)).bind fun imports state =>
          (machine.collect .decl atLexeme Production.decl machine.allowance [] state).bind
            fun decls state =>
              .done ⟨some (clauseOf keyword name), imports.reverse, decls.reverse⟩ state := by
  change (machine.run (Production.resuming .decl atImport _) (.behindClause ahead stop)).bind _ = _
  rw [run_resuming, Outcome.bind_assoc]
  congr 1
  funext imports state
  change (machine.run (Production.resuming .decl atLexeme _) state).bind _ = _
  rw [run_resuming, Outcome.bind_assoc]
  rfl

theorem file_of_collect
    {imports : List (SpecDecl P .imports)}
    {decls : List (Decl P)}
    {middle final : ReadState P}
    (importsRun : machine.collect .decl atImport (Production.specDecl .imports) machine.allowance []
      (.behindClause ahead stop) = .done imports middle)
    (declsRun : machine.collect .decl atLexeme Production.decl machine.allowance [] middle
      = .done decls final) :
    machine.run Production.file (.start (clauseLexemes keyword name semi ++ ahead) stop)
      = .done ⟨some (clauseOf keyword name), imports.reverse, decls.reverse⟩ final := by
  rw [run_file, importsRun, Outcome.bind, declsRun]
  rfl

theorem exists_of_run_file
    {parts : Production.FileParts P}
    {final : ReadState P}
    (run : machine.run Production.file (.start (clauseLexemes keyword name semi ++ ahead) stop)
      = .done parts final) :
    ∃ imports decls middle,
      machine.collect .decl atImport (Production.specDecl .imports) machine.allowance []
          (.behindClause ahead stop) = .done imports middle
        ∧ machine.collect .decl atLexeme Production.decl machine.allowance [] middle = .done decls final
        ∧ parts = ⟨some (clauseOf keyword name), imports.reverse, decls.reverse⟩ := by
  rw [run_file] at run
  obtain ⟨imports, middle, importsRun, run⟩ := Outcome.bind_eq_done run
  obtain ⟨decls, last, declsRun, run⟩ := Outcome.bind_eq_done run
  obtain ⟨rfl, rfl⟩ := Outcome.done.inj run
  exact ⟨imports, decls, middle, importsRun, declsRun, rfl⟩

end Machine

/-! ## Valid declarations -/

/-- On an allowance, lexemes behind a package clause are read without errors as declarations, of which
there is at least one and none is an import. -/
structure ReadsDecls
    (limit allowance : Nat)
    (ahead : List (Lexeme P))
    (stop : P)
    (decls : List (Decl P)) : Prop where
  regular : ∀ lexeme ∈ ahead, lexeme.Regular
  begins : ∃ head tail, ahead = head :: tail ∧ head.token.startsDecl = true
    ∧ head.token ≠ .kwImport
  run : ∃ final, (ruleMachine limit allowance).collect .decl atLexeme Production.decl allowance []
    (.behindClause ahead stop) = .done decls.reverse final ∧ final.errors = []

theorem readsDecls_of_run_file
    {limit allowance : Nat}
    {ahead : List (Lexeme P)}
    {keyword name semi stop : P}
    {parts : Production.FileParts P}
    {final : ReadState P}
    (regular : ∀ lexeme ∈ ahead, lexeme.Regular)
    (run : (ruleMachine limit allowance).run Production.file
      (.start (clauseLexemes keyword name semi ++ ahead) stop) = .done parts final)
    (clean : final.errors = [])
    (noImports : parts.imports = [])
    (someDecl : parts.decls ≠ []) :
    ReadsDecls limit allowance ahead stop parts.decls := by
  obtain ⟨imports, decls, middle, importsRun, declsRun, rfl⟩ := Machine.exists_of_run_file run
  obtain rfl : imports = [] := List.reverse_eq_nil_iff.1 noImports
  have declsNonempty : decls ≠ [] := fun empty => someDecl (List.reverse_eq_nil_iff.2 empty)
  -- nothing was recorded by the first loop, so it ended at once
  obtain ⟨_, declsReach⟩ := Machine.reaches_of_collect declsRun
  have middleClean : middle.errors = [] := List.suffix_nil.1 (clean ▸ declsReach.errors)
  obtain ⟨-, -, rfl⟩ : atImport (ReadState.behindClause ahead stop).cursor = false ∧ _ ∧ _ := by
    rcases Machine.collect_cases _ importsRun middleClean with ends | ⟨value, _, _, isSuffix⟩
    · exact ends
    · exact absurd (List.suffix_nil.1 isSuffix) (List.cons_ne_nil _ _)
  refine ⟨regular, ?_, final, by rw [List.reverse_reverse]; exact declsRun, clean⟩
  rcases Machine.collect_cases _ declsRun clean with ⟨_, rfl, _⟩ | ⟨value, next, declRun, _⟩
  · exact absurd rfl declsNonempty
  · obtain ⟨starts, notImport⟩ := Machine.startsDecl_of_decl declRun
    cases ahead with
    | nil => exact absurd starts Bool.false_ne_true
    | cons head tail => exact ⟨head, tail, rfl, starts, notImport⟩

/-- Where a loop over declarations arrives at lexemes, it reads them as they are read alone behind a package
clause. -/
theorem Machine.collect_behind
    {limit allowance allowance' repetitions repetitions' : Nat}
    {ahead : List (Lexeme P)}
    {stop : P}
    {decls : List (Decl P)}
    {final : ReadState P}
    (run : (ruleMachine limit allowance).collect .decl atLexeme Production.decl repetitions []
      (.behindClause ahead stop) = .done decls final)
    (place : P -> Q)
    (enough : allowance ≤ allowance')
    (repeated : repetitions ≤ repetitions')
    (earlier : List (Decl Q))
    (state : ReadState Q)
    (aheadEq : state.cursor.ahead = ahead.map (Lexeme.map place))
    (stopEq : state.cursor.stop = place stop)
    (consumed : 3 ≤ state.cursor.consumed)
    (depth : state.depth = 0)
    (header : state.inHeader = false) :
    ∃ last, (ruleMachine limit allowance').collect .decl atLexeme Production.decl repetitions' earlier
        state = .done (decls.map (Tree.map place) ++ earlier) last
      ∧ last.errors = final.errors.map (SyntaxError.map place) ++ state.errors := by
  let shift : Shift P Q := ⟨place, state.cursor.consumed - 3, state.errors⟩
  have sameState : shift.state (.behindClause ahead stop) = state := by
    obtain ⟨⟨passed, _, _⟩, _, _, errors⟩ := state
    change 3 ≤ passed at consumed
    obtain rfl : _ = _ := aheadEq
    obtain rfl : _ = _ := stopEq
    obtain rfl : _ = _ := depth
    obtain rfl : _ = _ := header
    change (⟨⟨3 + (passed - 3), _, _⟩, 0, false, [] ++ errors⟩ : ReadState Q) = _
    rw [Nat.add_sub_cancel' consumed]
    rfl
  have mirrored : Outcome.Mirrored shift (fun items => items.map (Tree.map place) ++ earlier)
      ((ruleMachine limit allowance).collect .decl atLexeme Production.decl repetitions []
        (.behindClause ahead stop))
      ((ruleMachine limit allowance').collect .decl atLexeme Production.decl repetitions' earlier
        (shift.state (.behindClause ahead stop))) := by
    have each : Mirrors shift limit (Tree.map place) Production.decl Production.decl := Mirrors.decl
    refine each.collect enough (fun cursor => ?_) repeated earlier [] (.behindClause ahead stop)
    rw [atLexeme, Shift.token_cursor]
    rfl
  rw [run, sameState] at mirrored
  exact ⟨_, mirrored, rfl⟩

/-- Where a loop arrives at valid declarations, it reads them as they are read alone. -/
theorem ReadsDecls.collect
    {limit allowance allowance' repetitions : Nat}
    {ahead : List (Lexeme P)}
    {stop : P}
    {decls : List (Decl P)}
    (reads : ReadsDecls limit allowance ahead stop decls)
    (place : P -> Q)
    (enough : allowance ≤ allowance')
    (repeated : allowance ≤ repetitions)
    (earlier : List (Decl Q))
    (state : ReadState Q)
    (aheadEq : state.cursor.ahead = ahead.map (Lexeme.map place))
    (stopEq : state.cursor.stop = place stop)
    (consumed : 3 ≤ state.cursor.consumed)
    (depth : state.depth = 0)
    (header : state.inHeader = false) :
    ∃ final, (ruleMachine limit allowance').collect .decl atLexeme Production.decl repetitions earlier state
        = .done ((decls.reverse.map (Tree.map place)) ++ earlier) final
      ∧ final.errors = state.errors := by
  obtain ⟨last, run, clean⟩ := reads.run
  obtain ⟨final, collected, errors⟩ := Machine.collect_behind run place enough repeated earlier state
    aheadEq stopEq consumed depth header
  refine ⟨final, collected, ?_⟩
  rw [errors, clean]
  rfl

/-! ## Behind a nested stretch -/

theorem Lexeme.regular_map
    {place : P -> Q}
    {lexemes : List (Lexeme P)}
    (regular : ∀ lexeme ∈ lexemes, lexeme.Regular)
    (lexeme : Lexeme Q)
    (member : lexeme ∈ lexemes.map (Lexeme.map place)) :
    lexeme.Regular := by
  obtain ⟨original, isMember, rfl⟩ := List.mem_map.1 member
  exact regular original isMember

theorem ne_eof_of_atImport
    (cursor : Cursor P)
    (isMore : atImport cursor = true) :
    cursor.token ≠ .eof := by
  intro atEnd
  simp [atImport, atEnd] at isMore

theorem ne_eof_of_atLexeme
    (cursor : Cursor P)
    (isMore : atLexeme cursor = true) :
    cursor.token ≠ .eof :=
  of_decide_eq_true isMore

namespace ReadsNonterminals

variable {machine : Machine P} (nonterminals : ReadsNonterminals machine)
  {head : Lexeme P} {tail : List (Lexeme P)}

include nonterminals

/-- The imports that are read in front of a declaration. -/
theorem exists_imports
    (starts : head.token.startsDecl = true)
    (notImport : head.token ≠ .kwImport)
    (state : ReadState P)
    (regular : state.Regular)
    (inFront : InFront (head :: tail) state.cursor.ahead)
    (enough : 8 * state.cursor.ahead.length < machine.allowance) :
    ∃ imports middle taken, state.Reaches taken middle
      ∧ machine.collect .decl atImport (Production.specDecl .imports) machine.allowance [] state
        = .done imports middle
      ∧ InFront (head :: tail) middle.cursor.ahead := by
  obtain ⟨left, imports, middle, ⟨run, taken, reaches, kept⟩, middleInFront, ends⟩ :=
    (IsLine.specDecl nonterminals .imports).exists_arrival atImport ne_eof_of_atImport starts
      machine.allowance [] state regular inFront (Nat.le_of_lt enough) (by omega)
  have aheadLength := congrArg List.length reaches.ahead
  rw [List.length_append] at aheadLength
  obtain ⟨less, rfl⟩ : ∃ less, left = less + 1 := ⟨left - 1, by omega⟩
  refine ⟨imports, middle, taken, reaches, run.trans (Machine.collect_stop less ?_), middleInFront⟩
  rcases ends with stops | arrived
  · exact stops
  · rw [atImport, Cursor.token_of_ahead arrived]
    exact decide_eq_false notImport

/-- The declarations that are read in front of a declaration. -/
theorem exists_front
    (starts : head.token.startsDecl = true)
    (state : ReadState P)
    (regular : state.Regular)
    (inFront : InFront (head :: tail) state.cursor.ahead)
    (enough : 8 * state.cursor.ahead.length < machine.allowance) :
    ∃ left front middle,
      Passes machine atLexeme Production.decl machine.allowance [] state left front middle
        ∧ middle.cursor.ahead = head :: tail := by
  obtain ⟨left, front, middle, passes, middleInFront, ends⟩ :=
    (IsLine.decl nonterminals).exists_arrival atLexeme ne_eof_of_atLexeme starts
      machine.allowance [] state regular inFront (Nat.le_of_lt enough) (by omega)
  refine ⟨left, front, middle, passes, ?_⟩
  rcases ends with stops | arrived
  · obtain ⟨taken, reaches, -⟩ := passes.reaches
    have atEnd : middle.cursor.token = .eof := by simpa [atLexeme] using stops
    exact absurd (ReadState.ahead_eq_nil (reaches.regular regular) atEnd) middleInFront.ne_nil
  · exact arrived

end ReadsNonterminals

namespace ReadsDecls

variable {limit allowance : Nat} {ahead : List (Lexeme P)} {stop : P} {decls : List (Decl P)}
  {stretch : List (Lexeme Q)} {keyword name semi : Q}

/-- Whatever stands in a nested stretch, the declarations behind it are read. -/
theorem exists_of_nested
    (reads : ReadsDecls limit allowance ahead stop decls)
    (place : P -> Q)
    (enough : 8 * ahead.length < allowance)
    (regular : ∀ lexeme ∈ stretch, lexeme.Regular)
    (nested : Brackets.Nested stretch)
    (last : stretch.getLast?.map Lexeme.token = some .semi) :
    ∃ imports front final,
      (ruleMachine limit (allowance + 8 * stretch.length)).run Production.file
          (.start (clauseLexemes keyword name semi ++ (stretch ++ ahead.map (Lexeme.map place)))
            (place stop))
        = .done ⟨some (clauseOf keyword name), imports, front ++ decls.map (Tree.map place)⟩
            final := by
  obtain ⟨head, tail, aheadEq, starts, notImport⟩ := reads.begins
  have behindEq : ahead.map (Lexeme.map place) = head.map place :: tail.map (Lexeme.map place) := by
    rw [aheadEq]
    rfl
  have nonterminals := readsNonterminals (P := Q) limit (allowance + 8 * stretch.length)
  have startRegular : (ReadState.behindClause (stretch ++ ahead.map (Lexeme.map place))
      (place stop)).Regular := by
    intro lexeme member
    rcases List.mem_append.1 member with inStretch | inAhead
    · exact regular lexeme inStretch
    · exact Lexeme.regular_map reads.regular lexeme inAhead
  have startLength : (stretch ++ ahead.map (Lexeme.map place)).length
      = stretch.length + ahead.length := by
    rw [List.length_append, List.length_map]
  obtain ⟨imports, start, passed, importsReach, importsRun, inFront⟩ := nonterminals.exists_imports
    starts notImport (.behindClause (stretch ++ ahead.map (Lexeme.map place)) (place stop))
    startRegular (.inl ⟨stretch, [], by rw [← behindEq]; rfl, nested, List.nil_sublist _, last⟩) (by
      change 8 * (stretch ++ ahead.map (Lexeme.map place)).length < allowance + 8 * stretch.length
      omega)
  have startAhead : (stretch ++ ahead.map (Lexeme.map place)).length
      = passed.length + start.cursor.ahead.length := by
    rw [← List.length_append, ← importsReach.ahead]
    rfl
  obtain ⟨left, front, middle, ⟨frontRun, taken, frontReach, kept⟩, arrived⟩ :=
    nonterminals.exists_front starts start (importsReach.regular startRegular) inFront (by
      change 8 * start.cursor.ahead.length < allowance + 8 * stretch.length
      omega)
  have middleAhead : start.cursor.ahead.length = taken.length + ahead.length := by
    rw [frontReach.ahead, arrived, ← behindEq, List.length_append, List.length_map]
  have enoughLeft : allowance ≤ left := by
    change allowance + 8 * stretch.length ≤ left + taken.length at kept
    omega
  have wholeReach := importsReach.trans frontReach
  obtain ⟨final, declsRun, -⟩ := reads.collect place (Nat.le_add_right allowance (8 * stretch.length))
    enoughLeft front middle (arrived.trans behindEq.symm) wholeReach.stop
    (by rw [wholeReach.consumed]; exact Nat.le_add_right 3 _) wholeReach.depth wholeReach.inHeader
  refine ⟨imports.reverse, front.reverse, final, ?_⟩
  rw [Machine.file_of_collect importsRun (frontRun.trans declsRun), List.reverse_append,
    List.map_reverse, List.reverse_reverse]

/-- If nothing is wrong in the stretch, what is read from it stands before the declarations. -/
theorem run_file_of_clean
    {stopped : Q}
    {parts : Production.FileParts Q}
    {last : ReadState Q}
    (reads : ReadsDecls limit allowance ahead stop decls)
    (place : P -> Q)
    (regular : ∀ lexeme ∈ stretch, lexeme.Regular)
    (run : (ruleMachine limit (allowance + 8 * stretch.length)).run Production.file
      (.start (clauseLexemes keyword name semi ++ stretch) stopped) = .done parts last)
    (clean : last.errors = []) :
    ∃ final, (ruleMachine limit (allowance + 8 * stretch.length)).run Production.file
        (.start (clauseLexemes keyword name semi ++ (stretch ++ ahead.map (Lexeme.map place)))
          (place stop))
        = .done ⟨parts.package, parts.imports, parts.decls ++ decls.map (Tree.map place)⟩ final
      ∧ final.errors = [] := by
  obtain ⟨imports, frontDecls, middle, importsRun, declsRun, rfl⟩ := Machine.exists_of_run_file run
  obtain ⟨head, tail, aheadEq, starts, notImport⟩ := reads.begins
  have nonterminals := readsNonterminals (P := Q) limit (allowance + 8 * stretch.length)
  have behindRegular : ∀ lexeme ∈ ahead.map (Lexeme.map place), lexeme.Regular :=
    Lexeme.regular_map reads.regular
  have stretchRegular : (ReadState.behindClause stretch stopped).Regular := regular
  have wholeRegular : (ReadState.behindClause (stretch ++ ahead.map (Lexeme.map place))
      (place stop)).Regular := by
    intro lexeme member
    rcases List.mem_append.1 member with inStretch | inAhead
    · exact regular lexeme inStretch
    · exact behindRegular lexeme inAhead
  obtain ⟨_, importsReach⟩ := Machine.reaches_of_collect importsRun
  obtain ⟨_, declsReach⟩ := Machine.reaches_of_collect declsRun
  have middleClean : middle.errors = [] := List.suffix_nil.1 (clean ▸ declsReach.errors)
  -- the imports
  obtain ⟨importsEnd, left, start, ⟨importsAgain, passed, reaches, kept⟩, startAhead, startErrors⟩ :=
    (IsLine.specDecl nonterminals .imports).exists_repetition atImport ne_eof_of_atImport
      (fun first second same => by rw [atImport, atImport, same])
      _ [] imports _ middle (.behindClause (stretch ++ ahead.map (Lexeme.map place)) (place stop))
      stretchRegular wholeRegular importsRun middleClean rfl rfl rfl
  have startStops : atImport start.cursor = false := by
    cases middleAhead : middle.cursor.ahead with
    | nil =>
        rw [middleAhead, aheadEq] at startAhead
        rw [atImport, Cursor.token_of_ahead startAhead]
        exact decide_eq_false notImport
    | cons lexeme rest =>
        rw [middleAhead] at startAhead
        rw [← importsEnd, atImport, atImport, Cursor.token_of_ahead startAhead,
          Cursor.token_of_ahead middleAhead]
  rw [Machine.collect_stop left startStops] at importsAgain
  -- the declarations
  obtain ⟨declsEnd, less, last', ⟨declsAgain, taken, declsReaches, declsKept⟩, lastAhead, lastErrors⟩ :=
    (IsLine.decl nonterminals).exists_repetition atLexeme ne_eof_of_atLexeme
      (fun first second same => by rw [atLexeme, atLexeme, same])
      _ [] frontDecls middle last start (importsReach.regular stretchRegular)
      (reaches.regular wholeRegular) declsRun (clean.trans middleClean.symm) startAhead
      (reaches.depth.trans importsReach.depth.symm)
      (reaches.inHeader.trans importsReach.inHeader.symm)
  have lastEmpty : last.cursor.ahead = [] :=
    ReadState.ahead_eq_nil (declsReach.regular (importsReach.regular stretchRegular))
      (by simpa [atLexeme] using declsEnd)
  rw [lastEmpty, List.nil_append] at lastAhead
  have wholeReach := reaches.trans declsReaches
  have wholeLength := congrArg List.length wholeReach.ahead
  rw [lastAhead] at wholeLength
  change (stretch ++ ahead.map (Lexeme.map place)).length = _ at wholeLength
  rw [List.length_append, List.length_append, List.length_append] at wholeLength
  have declsKept : allowance + 8 * stretch.length ≤ less + 1 + taken.length := declsKept
  obtain ⟨final, behindRun, finalErrors⟩ := reads.collect place
    (Nat.le_add_right allowance (8 * stretch.length)) (by omega : allowance ≤ less + 1) frontDecls
    last' lastAhead wholeReach.stop (by rw [wholeReach.consumed]; exact Nat.le_add_right 3 _)
    wholeReach.depth wholeReach.inHeader
  refine ⟨final, ?_, finalErrors.trans (lastErrors.trans startErrors)⟩
  rw [Machine.file_of_collect importsAgain (declsAgain.trans behindRun), List.reverse_append,
    List.map_reverse, List.reverse_reverse]

end ReadsDecls
/-! ## Sources -/

/-- The lexemes of a source as they stand behind a package clause. -/
def linesBehindClause
    (source : String)
    (filename : Option String) : List (Lexeme Position) :=
  (lex source filename).significant.map (Lexeme.map (Position.behindLines "package p"))

/-- The lexemes of the package clause at the start of a source. -/
def clauseAtStart (filename : Option String) : List (Lexeme Position) :=
  clauseLexemes ⟨0, 1, filename⟩ ⟨8, 1, filename⟩ ⟨9, 1, filename⟩

theorem regular_of_mem_linesBehindClause
    (source : String)
    (filename : Option String) :
    ∀ lexeme ∈ linesBehindClause source filename, lexeme.Regular :=
  Lexeme.regular_map (regular_of_mem_significant source filename)

theorem filter_significant_map
    (move : P -> Q)
    (lexemes : List (Lexeme P)) :
    (lexemes.map (Lexeme.map move)).filter (fun lexeme => !lexeme.token.isComment)
      = (lexemes.filter fun lexeme => !lexeme.token.isComment).map (Lexeme.map move) :=
  List.filter_map

/-- What is lexed from a source behind a package clause. -/
theorem lex_behind_clause
    (source : String)
    (filename : Option String)
    (noMark : ∀ piece ∈ Piece.all source.toList, piece.kind ≠ .byteOrderMark) :
    (lex ("package p\n" ++ source) filename).significant
        = clauseAtStart filename ++ linesBehindClause source filename
      ∧ (lex ("package p\n" ++ source) filename).errors
        = (lex source filename).errors.map (LexError.map (Position.behindLines "package p")) := by
  obtain ⟨lexemes, errors, -⟩ := lex_append_newline "package p" source filename rfl
    (Piece.head?_ne_byteOrderMark source.toList noMark)
  refine ⟨?_, errors⟩
  change ((lex ("package p" ++ "\n" ++ source) filename).lexemes).filter _ = _
  rw [lexemes, List.filter_append, filter_significant_map]
  rfl

/-- What is lexed from a source with another one behind it. -/
theorem lex_behind_lines
    (front back : String)
    (filename : Option String)
    (noErrors : (lex front filename).errors = [])
    (frontNoMark : ∀ piece ∈ Piece.all front.toList, piece.kind ≠ .byteOrderMark)
    (backNoMark : ∀ piece ∈ Piece.all back.toList, piece.kind ≠ .byteOrderMark) :
    (lex ("package p\n" ++ front ++ "\n" ++ back) filename).significant
        = clauseAtStart filename ++ (linesBehindClause front filename
          ++ (linesBehindClause back filename).map (Lexeme.map (Position.behindLines front)))
      ∧ (lex ("package p\n" ++ front ++ "\n" ++ back) filename).errors
        = (lex back filename).errors.map (LexError.map (Position.behindLines ("package p\n" ++ front)))
      ∧ (lex ("package p\n" ++ front ++ "\n" ++ back) filename).stop
        = Position.behindLines front (lex ("package p\n" ++ back) filename).stop := by
  obtain ⟨frontLexed, frontErrors⟩ := lex_behind_clause front filename frontNoMark
  rw [noErrors] at frontErrors
  obtain ⟨lexemes, errors, stop⟩ := lex_append_newline ("package p\n" ++ front) back filename
    frontErrors (Piece.head?_ne_byteOrderMark back.toList backNoMark)
  have places : Position.behindLines ("package p\n" ++ front)
      = Position.behindLines front ∘ Position.behindLines "package p" :=
    Position.behindLines_append "package p" front
  refine ⟨?_, errors, ?_⟩
  · have moved : (lex back filename).significant.map
          (Lexeme.map (Position.behindLines front ∘ Position.behindLines "package p"))
        = (linesBehindClause back filename).map (Lexeme.map (Position.behindLines front)) := by
      rw [linesBehindClause, List.map_map]
      rfl
    rw [Lexed.significant, lexemes, List.filter_append, filter_significant_map, places]
    change (lex ("package p\n" ++ front) filename).significant ++ (lex back filename).significant.map _
      = _
    rw [frontLexed, moved, List.append_assoc]
  · rw [stop, places]
    exact congrArg (Position.behindLines front)
      (lex_append_newline "package p" back filename rfl
        (Piece.head?_ne_byteOrderMark back.toList backNoMark)).2.2.symm

/-- The allowance for a file behind whose package clause two sequences of lexemes stand. -/
theorem allowance_behindClause
    (first second : List (Lexeme Position))
    (move : Position -> Position)
    (filename : Option String) :
    Production.allowance (clauseAtStart filename ++ (first ++ second.map (Lexeme.map move))).length
      = Production.allowance (second.length + 3) + 8 * first.length := by
  simp only [Production.allowance, clauseAtStart, clauseLexemes, List.length_append,
    List.length_map, List.length_cons, List.length_nil]
  omega

/-- How a file is read behind whose package clause two sequences of lexemes stand. -/
theorem readFrom_behindClause
    (limit : Nat)
    (first second : List (Lexeme Position))
    (move : Position -> Position)
    (filename : Option String)
    (stop : Position) :
    Production.file.readFrom limit
        (clauseAtStart filename ++ (first ++ second.map (Lexeme.map move))) stop
      = (ruleMachine limit (Production.allowance (second.length + 3) + 8 * first.length)).run
        Production.file
        (.start (clauseAtStart filename ++ (first ++ second.map (Lexeme.map move))) stop) := by
  rw [Production.readFrom_eq_run, allowance_behindClause]

/-! ## Parsing -/

/-- A source without diagnostics was read to its end without errors. -/
theorem exists_of_noDiagnostics
    {limit : Nat}
    {source : String}
    {filename : Option String}
    (noDiagnostics : (parseFileWithin limit source filename).diagnostics = []) :
    (lex source filename).errors = [] ∧ ∃ parts final,
      Production.file.readFrom limit (lex source filename).significant (lex source filename).stop
          = .done parts final
        ∧ final.errors = []
        ∧ (parseFileWithin limit source filename).tree
          = parts.file? filename ((lex source filename).comments.map Comment.ofLexeme) := by
  unfold parseFileWithin Parsed.ofLexed at noDiagnostics ⊢
  dsimp only at noDiagnostics ⊢
  split at noDiagnostics
  · next hasErrors =>
      have noErrors : (lex source filename).errors = [] := List.map_eq_nil_iff.1 noDiagnostics
      simp [Lexed.hasErrors, noErrors] at hasErrors
  · next noErrors =>
      rw [if_neg noErrors]
      refine ⟨by simpa [Lexed.hasErrors] using noErrors, ?_⟩
      cases run : Production.file.readFrom limit (lex source filename).significant
          (lex source filename).stop with
      | exhausted =>
          have reads := (readsNonterminals (P := Position) limit
            (Production.allowance (lex source filename).significant.length)).file
              ⟨none, none, none⟩ 1 rfl (Nat.le_refl 1)
          refine absurd run (reads.finishes _ (regular_of_mem_significant source filename)
            (fun _ isKnown => nomatch isKnown) ?_)
          change 8 * (lex source filename).significant.length + 1
            ≤ 8 * ((lex source filename).significant.length + 1)
          omega
      | gaveUp final =>
          rw [run] at noDiagnostics
          have noError : final.errors = [] := by
            simpa [Parsed.ofOutcome] using noDiagnostics
          rw [Production.readFrom_eq_run] at run
          obtain ⟨_, _, more⟩ := Machine.reaches_of_gaveUp run
          rw [noError] at more
          exact absurd more (Nat.not_lt_zero _)
      | done parts final =>
          rw [run] at noDiagnostics
          exact ⟨parts, final, rfl, by simpa [Parsed.ofOutcome] using noDiagnostics, rfl⟩

/-- What is returned for a source that was read to its end. -/
theorem parse_of_run
    {limit : Nat}
    {source : String}
    {filename : Option String}
    {lexemes : List (Lexeme Position)}
    {stop : Position}
    {parts : Production.FileParts Position}
    {final : ReadState Position}
    (noErrors : (lex source filename).errors = [])
    (lexed : (lex source filename).significant = lexemes)
    (stopEq : (lex source filename).stop = stop)
    (run : Production.file.readFrom limit lexemes stop = .done parts final) :
    (parseFileWithin limit source filename).tree
        = parts.file? filename ((lex source filename).comments.map Comment.ofLexeme)
      ∧ (final.errors = [] -> (parseFileWithin limit source filename).diagnostics = []) := by
  have hasNone : ¬(lex source filename).hasErrors = true := by
    simp [Lexed.hasErrors, noErrors]
  unfold parseFileWithin Parsed.ofLexed
  dsimp only
  rw [if_neg hasNone, lexed, stopEq, run]
  refine ⟨rfl, fun clean => ?_⟩
  simp [Parsed.ofOutcome, clean]

/-- The declarations of a file that was read without complaint and imports nothing. -/
theorem readsDecls_of_parse
    {limit : Nat}
    {source : String}
    {filename : Option String}
    {file : File Position}
    (returned : (parseFileWithin limit ("package p\n" ++ source) filename).tree = some file)
    (noDiagnostics : (parseFileWithin limit ("package p\n" ++ source) filename).diagnostics = [])
    (noImports : file.imports = .nil)
    (someDecl : file.decls ≠ .nil) :
    (lex source filename).errors = []
      ∧ (∀ piece ∈ Piece.all source.toList, piece.kind ≠ .byteOrderMark)
      ∧ ReadsDecls limit (Production.allowance ((linesBehindClause source filename).length + 3))
        (linesBehindClause source filename) (lex ("package p\n" ++ source) filename).stop
        file.decls.toList := by
  obtain ⟨noErrors, parts, final, run, clean, tree⟩ := exists_of_noDiagnostics noDiagnostics
  rw [returned] at tree
  obtain ⟨clause, -, rfl⟩ := Option.map_eq_some_iff.1 tree.symm
  have noMark := not_byteOrderMark_of_lex "package p" source filename rfl noErrors
  obtain ⟨lexed, errors⟩ := lex_behind_clause source filename noMark
  rw [noErrors] at errors
  rw [lexed, Production.readFrom_eq_run] at run
  refine ⟨List.map_eq_nil_iff.1 errors.symm, noMark, ?_⟩
  have partsImports : parts.imports = [] := by
    rw [← Tree.toList_ofList parts.imports]
    exact congrArg Tree.toList noImports
  have partsDecls : parts.decls ≠ [] := by
    intro empty
    refine someDecl ?_
    change Tree.ofList parts.decls = .nil
    rw [empty]
    rfl
  have reads := readsDecls_of_run_file (regular_of_mem_linesBehindClause source filename) run clean
    partsImports partsDecls
  rw [List.length_append, Nat.add_comm] at reads
  change ReadsDecls _ _ _ _ (Tree.ofList parts.decls).toList
  rw [Tree.toList_ofList]
  exact reads

/-- A malformed declaration never hides a later valid one. The declarations behind a stretch of text with
nested brackets that ends in a semicolon are the last ones of the file, moved by what stands before
them. If nothing is wrong in the stretch, nothing is wrong in the file, and its declarations are those of
the stretch and those behind it. -/
theorem malformed_text_hides_no_decl
    (limit : Nat)
    (front back : String)
    (filename : Option String)
    (file : File Position)
    (noMark : front.toList.head? ≠ some Piece.byteOrderMark)
    (noErrors : (lex front filename).errors = [])
    (nested : Brackets.Nested (lex front filename).significant)
    (ends : (lex front filename).significant.getLast?.map Lexeme.token = some .semi)
    (returned : (parseFileWithin limit ("package p\n" ++ back) filename).tree = some file)
    (noDiagnostics : (parseFileWithin limit ("package p\n" ++ back) filename).diagnostics = [])
    (noImports : file.imports = .nil)
    (someDecl : file.decls ≠ .nil) :
    ∃ whole, (parseFileWithin limit ("package p\n" ++ front ++ "\n" ++ back) filename).tree
        = some whole
      ∧ (∃ earlier, whole.decls.toList
          = earlier ++ file.decls.toList.map (Tree.map (Position.behindLines front)))
      ∧ ((parseFileWithin limit ("package p\n" ++ front) filename).diagnostics = [] ->
          (parseFileWithin limit ("package p\n" ++ front ++ "\n" ++ back) filename).diagnostics = []
            ∧ ∃ frontFile,
              (parseFileWithin limit ("package p\n" ++ front) filename).tree = some frontFile
                ∧ whole.decls.toList = frontFile.decls.toList
                  ++ file.decls.toList.map (Tree.map (Position.behindLines front))) := by
  obtain ⟨backErrors, backNoMark, reads⟩ :=
    readsDecls_of_parse returned noDiagnostics noImports someDecl
  have frontNoMark := Piece.not_byteOrderMark_of_head front.toList
    (faultless_of_lex front filename noErrors) noMark
  obtain ⟨lexed, errors, stop⟩ :=
    lex_behind_lines front back filename noErrors frontNoMark backNoMark
  rw [backErrors] at errors
  have frontNested : Brackets.Nested (linesBehindClause front filename) := by
    rw [Brackets.Nested, linesBehindClause, Brackets.scan_map]
    exact nested
  have frontEnds : (linesBehindClause front filename).getLast?.map Lexeme.token = some .semi := by
    rw [linesBehindClause, List.getLast?_map, Option.map_map]
    exact ends
  have regular := regular_of_mem_linesBehindClause front filename
  have readEq := readFrom_behindClause limit (linesBehindClause front filename)
    (linesBehindClause back filename) (Position.behindLines front) filename
    (Position.behindLines front (lex ("package p\n" ++ back) filename).stop)
  obtain ⟨imports, earlier, final, run⟩ := reads.exists_of_nested (Position.behindLines front)
    (by
      change 8 * _ < 8 * (_ + 3 + 1)
      omega) regular frontNested frontEnds
  obtain ⟨tree, -⟩ := parse_of_run errors lexed stop (readEq.trans run)
  refine ⟨_, tree, ⟨earlier, Tree.toList_ofList _⟩, fun frontClean => ?_⟩
  obtain ⟨_, parts, last, frontRun, clean, frontTree⟩ := exists_of_noDiagnostics frontClean
  rw [(lex_behind_clause front filename frontNoMark).1, Production.readFrom_eq_run] at frontRun
  have enough : Production.allowance (clauseAtStart filename
        ++ linesBehindClause front filename).length
      ≤ Production.allowance ((linesBehindClause back filename).length + 3)
        + 8 * (linesBehindClause front filename).length := by
    simp only [Production.allowance, clauseAtStart, clauseLexemes, List.length_append,
      List.length_cons, List.length_nil]
    omega
  obtain ⟨wholeFinal, cleanRun, wholeClean⟩ := reads.run_file_of_clean
    (Position.behindLines front) regular (run_file_mono enough frontRun) clean
  obtain ⟨sameParts, rfl⟩ := Outcome.done.inj (run.symm.trans cleanRun)
  obtain ⟨samePackage, -, sameDecls⟩ := Production.FileParts.mk.inj sameParts
  refine ⟨(parse_of_run errors lexed stop (readEq.trans run)).2 wholeClean, ?_⟩
  rw [frontTree, Production.FileParts.file?, ← samePackage]
  refine ⟨_, rfl, ?_⟩
  rw [Tree.toList_ofList, Tree.toList_ofList]
  exact sameDecls

/-- A variable behind a function whose body lacks a value. -/
theorem malformed_text_hides_no_decl_body :
    ∃ file whole, (parseFileWithin 9 ("package p\n" ++ "var y int") none).tree = some file
      ∧ (parseFileWithin 9 ("package p\n" ++ "func f() \x7b x := \x7d" ++ "\n" ++ "var y int")
        none).tree = some whole
      ∧ ∃ earlier, whole.decls.toList = earlier
        ++ file.decls.toList.map (Tree.map (Position.behindLines "func f() \x7b x := \x7d")) := by
  have counts : (parseFileWithin 9 ("package p\n" ++ "var y int") none).tree.map
      (fun file => (file.imports.toList.length, file.decls.toList.length)) = some (0, 1) := by
    decide +kernel
  obtain ⟨file, returned, counted⟩ := Option.map_eq_some_iff.1 counts
  obtain ⟨importCount, declCount⟩ := Prod.mk.inj counted
  have noImports : file.imports = .nil := by
    match file.imports, importCount with
    | .nil, _ => rfl
  have someDecl : file.decls ≠ .nil := by
    intro empty
    rw [empty] at declCount
    cases declCount
  obtain ⟨whole, wholeReturned, survives, -⟩ := malformed_text_hides_no_decl 9
    "func f() \x7b x := \x7d" "var y int" none file (by decide +kernel) (by decide +kernel)
    (by decide +kernel) (by decide +kernel) returned (by decide +kernel) noImports someDecl
  exact ⟨file, whole, returned, wholeReturned, survives⟩

end GoFront
