import GoFront.Proofs.Lexing.Concatenation
import GoFront.Proofs.Places.Layout
import GoFront.Proofs.Reading.Survival

/-!
# Two ways to read a declaration

A declaration can be read alone, or as the only one of a file. Alone, it is dispatched once and nothing
may follow it. In a file, the loop over imports or the loop over declarations meets it, and both of them
recover from errors. What can be read without complaint is the same, and so is what it is read as.
-/

namespace GoFront

variable {P Q : Type}

/-! ## Loops that read one item -/

namespace Machine

section Loops

variable {phrase : Phrase} {machine : Machine P} {recovery : Recovery} {goesOn : Cursor P -> Bool}
  {item : Production P (Tree P (.one phrase))} {value : Tree P (.one phrase)}
  {state final : ReadState P}

theorem collect_one
    (repetitions : Nat)
    (isMore : goesOn state.cursor = true)
    (run : machine.run item state = .done value final)
    (stops : goesOn final.cursor = false) :
    machine.collect recovery goesOn item (repetitions + 2) [] state = .done [value] final := by
  rw [collect_done (repetitions + 1) isMore run, collect_stop repetitions stops]

/-- A loop without errors that yields a single item has read it and stopped behind it. -/
theorem run_of_collect_one
    {repetitions : Nat}
    (run : machine.collect recovery goesOn item repetitions [] state = .done [value] final)
    (clean : final.errors = state.errors) :
    goesOn state.cursor = true ∧ machine.run item state = .done value final
      ∧ goesOn final.cursor = false := by
  cases repetitions with
  | zero => cases run
  | succ repetitions =>
      obtain ⟨-, noItem, -⟩ | ⟨first, next, isMore, itemRun, nextClean, run⟩ := first_of_collect run clean
      · cases noItem
      · obtain ⟨stops, singleton, rfl⟩ | ⟨_, _, -, more⟩ :=
          collect_cases repetitions run (clean.trans nextClean.symm)
        · obtain ⟨rfl, -⟩ := List.cons.inj singleton
          exact ⟨isMore, itemRun, stops⟩
        · exact absurd more.length_le (Nat.lt_irrefl 1)

end Loops

/-! ## The only declaration of a file -/

end Machine

/-- Reads a declaration of any kind where a cursor stands. -/
def Production.declAt (cursor : Cursor P) : Production P (Decl P) :=
  if cursor.token = .kwImport then specifiedDecl .imports else decl

/-- The declarations of a file from its imports on. -/
def Production.FileParts.members (parts : FileParts P) : List (Decl P) :=
  parts.imports.map (.specified .imports) ++ parts.decls

/-- A machine reads a declaration without errors from a state up to the end of the input. -/
def Machine.ReadsToEnd
    (machine : Machine P)
    (state : ReadState P)
    (decl : Decl P) : Prop :=
  ∃ final, machine.run (Production.declAt state.cursor) state = .done decl final
    ∧ final.cursor.token = .eof ∧ final.errors = []

namespace Machine

variable {machine : Machine P} {ahead : List (Lexeme P)} {keyword name semi stop : P}
  {state final : ReadState P} {decl : Decl P}

/-- Alone, a declaration is read without errors if it is read up to the end of the input. -/
theorem run_singleDecl_iff :
    (∃ final, machine.run .singleDecl state = .done decl final ∧ final.errors = [])
      ↔ machine.ReadsToEnd state decl := by
  have unfolded : machine.run .singleDecl state
      = (machine.run (Production.declAt state.cursor) state).bind fun decl next =>
          if next.cursor.token = .eof then .done decl next
          else .done decl (next.record (.trailing next.cursor.token)) := by
    have behind (inner : Production P (Decl P)) :
        machine.run (inner.bind fun decl => Production.look.bind fun cursor =>
            if cursor.token = .eof then .pure decl
            else (Production.report (.trailing cursor.token)).bind fun _ => .pure decl) state
          = (machine.run inner state).bind fun decl next =>
            if next.cursor.token = .eof then .done decl next
            else .done decl (next.record (.trailing next.cursor.token)) := by
      change (machine.run inner state).bind _ = _
      congr 1
      funext decl next
      change machine.run (if next.cursor.token = .eof then _ else _) next = _
      split <;> rfl
    change machine.run (if state.cursor.token = .kwImport then _ else _) state = _
    rw [Production.declAt]
    split
    · exact behind _
    · exact behind _
  rw [unfolded]
  constructor
  · rintro ⟨final, run, clean⟩
    obtain ⟨_, next, declRun, run⟩ := Outcome.bind_eq_done run
    split at run
    · next ended =>
        obtain ⟨rfl, rfl⟩ := Outcome.done.inj run
        exact ⟨next, declRun, ended, clean⟩
    · obtain ⟨-, rfl⟩ := Outcome.done.inj run
      cases clean
  · rintro ⟨final, run, ended, clean⟩
    refine ⟨final, ?_, clean⟩
    rw [run, Outcome.bind, if_pos ended]

theorem exists_of_run_specifiedDecl
    {kind : SpecKind}
    (run : machine.run (Production.specifiedDecl kind) state = .done decl final) :
    ∃ specs, machine.run (Production.specDecl kind) state = .done specs final
      ∧ decl = .specified kind specs := by
  obtain ⟨specs, _, specsRun, run⟩ := Reads.run_bind_done run
  obtain ⟨rfl, rfl⟩ := Outcome.done.inj run
  exact ⟨specs, specsRun, rfl⟩

/-- Only a declaration that imports nothing is read from a keyword other than `import`. -/
theorem ne_eof_of_run_decl
    (run : machine.run Production.decl state = .done decl final) :
    state.cursor.token ≠ .eof := by
  intro atEnd
  obtain ⟨_, _, looked, run⟩ := Reads.run_bind_done run
  obtain ⟨rfl, rfl⟩ := Outcome.done.inj looked
  rw [atEnd] at run
  cases run

/-- The only declaration of a file was read, by one of the two loops, up to the end of the input. -/
theorem readsToEnd_of_run_file
    {parts : Production.FileParts P}
    (run : machine.run Production.file (.start (clauseLexemes keyword name semi ++ ahead) stop)
      = .done parts final)
    (clean : final.errors = [])
    (single : parts.members = [decl]) :
    machine.ReadsToEnd (.behindClause ahead stop) decl := by
  obtain ⟨imports, decls, middle, importsRun, declsRun, rfl⟩ := exists_of_run_file run
  obtain ⟨_, behind⟩ := reaches_of_collect declsRun
  have middleClean : middle.errors = [] := by
    have suffix := behind.errors
    rw [clean] at suffix
    exact List.suffix_nil.1 suffix
  obtain ⟨notImport, rfl, rfl⟩ | ⟨first, _, -, begins⟩ := collect_cases _ importsRun middleClean
  · -- the loop over imports passes at once
    obtain rfl : decls = [decl] := by simpa [Production.FileParts.members] using single
    obtain ⟨-, declRun, ended⟩ := run_of_collect_one declsRun clean
    refine ⟨final, ?_, by simpa [atLexeme] using ended, clean⟩
    rw [Production.declAt, if_neg (by simpa [atImport] using notImport)]
    exact declRun
  · obtain ⟨earlier, rfl⟩ := begins
    obtain ⟨rfl, rfl, rfl⟩ : .specified .imports first = decl ∧ earlier = [] ∧ decls = [] := by
      simpa [Production.FileParts.members] using single
    obtain ⟨ended, -, rfl⟩ | ⟨_, _, -, more⟩ :=
      collect_cases _ declsRun (clean.trans middleClean.symm)
    · obtain ⟨isImport, importRun, -⟩ := run_of_collect_one importsRun middleClean
      refine ⟨final, ?_, by simpa [atLexeme] using ended, clean⟩
      rw [Production.declAt, if_pos (by simpa [atImport] using isImport)]
      change (machine.run (Production.specDecl .imports) _).bind _ = _
      rw [importRun]
      rfl
    · exact absurd more.length_le (Nat.not_succ_le_zero 0)

/-- A declaration that is read up to the end of the input is the only one of a file: one of the two loops
reads it, and the other one passes at once. -/
theorem exists_run_file_of_readsToEnd
    (enough : 2 ≤ machine.allowance)
    (reads : machine.ReadsToEnd (.behindClause ahead stop) decl) :
    ∃ parts final,
      machine.run Production.file (.start (clauseLexemes keyword name semi ++ ahead) stop)
          = .done parts final
        ∧ final.errors = [] ∧ parts.members = [decl] := by
  obtain ⟨repetitions, allowanceEq⟩ := Nat.exists_eq_add_of_le' enough
  obtain ⟨final, run, ended, clean⟩ := reads
  have atEnd : atLexeme final.cursor = false := by simp [atLexeme, ended]
  by_cases isImport : (ReadState.behindClause ahead stop).cursor.token = .kwImport
  · rw [Production.declAt, if_pos isImport] at run
    obtain ⟨specs, specsRun, rfl⟩ := exists_of_run_specifiedDecl run
    have importsRun : machine.collect .decl atImport (Production.specDecl .imports)
        machine.allowance [] (.behindClause ahead stop) = .done [specs] final := by
      rw [allowanceEq]
      exact collect_one repetitions (by simp [atImport, isImport]) specsRun
        (by simp [atImport, ended])
    have declsRun : machine.collect .decl atLexeme Production.decl machine.allowance [] final
        = .done [] final := by
      rw [allowanceEq]
      exact collect_stop _ atEnd
    exact ⟨_, final, file_of_collect importsRun declsRun, clean, rfl⟩
  · rw [Production.declAt, if_neg isImport] at run
    have importsRun : machine.collect .decl atImport (Production.specDecl .imports)
        machine.allowance [] (.behindClause ahead stop)
          = .done [] (.behindClause ahead stop) := by
      rw [allowanceEq]
      exact collect_stop _ (by simp [atImport, isImport])
    have declsRun : machine.collect .decl atLexeme Production.decl machine.allowance []
        (.behindClause ahead stop) = .done [decl] final := by
      rw [allowanceEq]
      exact collect_one repetitions (by simp [atLexeme, ne_eof_of_run_decl run]) run atEnd
    exact ⟨_, final, file_of_collect importsRun declsRun, clean, rfl⟩

/-- In a file, a declaration is the only one and read without errors if it is read up to the end of the
input from behind the package clause. -/
theorem run_file_iff (enough : 2 ≤ machine.allowance) :
    (∃ parts final,
      machine.run Production.file (.start (clauseLexemes keyword name semi ++ ahead) stop)
          = .done parts final
        ∧ final.errors = [] ∧ parts.members = [decl])
      ↔ machine.ReadsToEnd (.behindClause ahead stop) decl :=
  ⟨fun ⟨_, _, run, clean, single⟩ => readsToEnd_of_run_file run clean single,
    exists_run_file_of_readsToEnd enough⟩

end Machine

/-- Behind the package clause a declaration is read as it is read alone, and moved. -/
theorem readsToEnd_behindClause_iff
    {limit allowance : Nat}
    {lexemes : List (Lexeme P)}
    {stop : P}
    {moved : Decl Q}
    (place : P -> Q)
    (enough : Production.allowance lexemes.length ≤ allowance)
    (regular : ∀ lexeme ∈ lexemes, lexeme.Regular) :
    (ruleMachine limit allowance).ReadsToEnd
        (.behindClause (lexemes.map (Lexeme.map place)) (place stop)) moved
      ↔ ∃ decl final, Production.singleDecl.readFrom limit lexemes stop = .done decl final
        ∧ final.errors = [] ∧ decl.map place = moved := by
  let shift : Shift P Q := ⟨place, 3, []⟩
  have mirrors : Mirrors shift limit (Tree.map place) Production.singleDecl Production.singleDecl :=
    Mirrors.singleDecl
  have mirrored : Outcome.Mirrored shift (Tree.map place)
      (Production.singleDecl.readFrom limit lexemes stop)
      ((ruleMachine limit allowance).run .singleDecl
        (.behindClause (lexemes.map (Lexeme.map place)) (place stop))) :=
    mirrors enough (.start lexemes stop)
  have ends : Production.singleDecl.readFrom limit lexemes stop ≠ .exhausted :=
    Production.readFrom_ne_exhausted (readsNonterminals limit _).singleDecl (by omega) regular
  rw [← Machine.run_singleDecl_iff]
  cases run : Production.singleDecl.readFrom limit lexemes stop with
  | exhausted => exact absurd run ends
  | gaveUp final =>
      rw [run] at mirrored
      rw [mirrored]
      constructor
      · rintro ⟨_, failed, -⟩
        cases failed
      · rintro ⟨_, _, failed, -⟩
        cases failed
  | done decl final =>
      rw [run] at mirrored
      rw [mirrored]
      have clean : (shift.state final).errors = [] ↔ final.errors = [] := by
        change final.errors.map _ ++ [] = [] ↔ _
        rw [List.append_nil, List.map_eq_nil_iff]
      constructor
      · rintro ⟨_, ended, noErrors⟩
        obtain ⟨rfl, rfl⟩ := Outcome.done.inj ended
        exact ⟨decl, final, rfl, clean.1 noErrors, rfl⟩
      · rintro ⟨_, _, ended, noErrors, rfl⟩
        obtain ⟨rfl, rfl⟩ := Outcome.done.inj ended
        exact ⟨_, rfl, clean.2 noErrors⟩

/-! ## Texts -/

/-- The declarations of a file from its imports on. -/
def File.members (file : File P) : List (Decl P) :=
  file.imports.toList.map (.specified .imports) ++ file.decls.toList

namespace Parsed

variable {α β : Type}

/-- A tree is returned without complaints. -/
structure Accepts (parsed : Parsed α) (tree : α) : Prop where
  returned : parsed.tree = some tree
  noDiagnostics : parsed.diagnostics = []

/-- A file is returned without complaints, and a declaration is all that it holds. -/
def HoldsOnly (parsed : Parsed (File Position)) (decl : Decl Position) : Prop :=
  ∃ file, parsed.Accepts file ∧ file.members = [decl]

/-- What is returned without complaints comes from a text without lexical errors that is read without
errors. -/
theorem accepts_ofLexed_iff
    {limit : Nat}
    {production : Production Position α}
    {finish : α -> Option β}
    {lexed : Lexed Position}
    {tree : β} :
    (ofLexed limit production finish lexed).Accepts tree
      ↔ lexed.errors = [] ∧ ∃ value final,
        production.readFrom limit lexed.significant lexed.stop = .done value final
          ∧ final.errors = [] ∧ finish value = some tree := by
  constructor
  · rintro ⟨returned, noDiagnostics⟩
    obtain ⟨value, final, run, finished, clean⟩ := exists_of_ofLexed returned
    refine ⟨?_, value, final, run, clean noDiagnostics, finished⟩
    by_contra someErrors
    have hasErrors : lexed.hasErrors = true := by
      simpa [Lexed.hasErrors] using someErrors
    rw [ofLexed, if_pos hasErrors] at returned
    cases returned
  · rintro ⟨noErrors, value, final, run, clean, finished⟩
    have hasNone : ¬lexed.hasErrors = true := by simp [Lexed.hasErrors, noErrors]
    rw [ofLexed, if_neg hasNone, run]
    exact ⟨finished, by simp [ofOutcome, clean]⟩

/-- What is accepted of a text is read of its lexemes at their numbers as well. -/
theorem Accepts.exists_numbered
    {γ : Type}
    {limit : Nat}
    {contents : List (Token × Option String)}
    {lexed : Lexed Position}
    {source : Production (Fin (contents.length + 1)) α}
    {production : Production Position β}
    {move : (Fin (contents.length + 1) -> Position) -> α -> β}
    {finish : β -> Option γ}
    {tree : γ}
    (accepted : (ofLexed limit production finish lexed).Accepts tree)
    (same : lexed.significant.map Lexeme.content = contents)
    (mirrors : MirrorsNumbers limit move source production)
    (ends : source.readFrom limit (numbered contents) (Fin.last _) ≠ .exhausted) :
    ∃ value final, source.readFrom limit (numbered contents) (Fin.last _) = .done value final
      ∧ final.errors = [] ∧ finish (move lexed.placeOf value) = some tree := by
  obtain ⟨-, value, final, run, noErrors, finished⟩ := accepts_ofLexed_iff.1 accepted
  have mirrored := Production.readFrom_mirrored same mirrors
  rw [run] at mirrored
  cases outcome : source.readFrom limit (numbered contents) (Fin.last _) with
  | exhausted => exact absurd outcome ends
  | gaveUp state =>
      rw [outcome] at mirrored
      exact nomatch mirrored
  | done numberedValue state =>
      rw [outcome] at mirrored
      obtain ⟨rfl, rfl⟩ := Outcome.done.inj mirrored
      refine ⟨numberedValue, state, rfl, ?_, finished⟩
      simpa [Shift.state, Shift.ofNumbers] using noErrors

end Parsed

theorem members_of_file?
    {filename : Option String}
    {comments : List (Comment P)}
    {parts : Production.FileParts P}
    {file : File P}
    (finished : parts.file? filename comments = some file) :
    file.members = parts.members := by
  obtain ⟨_, -, rfl⟩ := Option.map_eq_some_iff.1 finished
  rw [File.members, Tree.toList_ofList, Tree.toList_ofList]
  rfl

section Texts

variable {limit : Nat} {source : String} {filename : Option String} {place : Position -> Position}

/-- A text behind a package clause is lexed as it is alone, with every lexeme at another place. -/
structure LexesBehindClause
    (source : String)
    (filename : Option String)
    (place : Position -> Position) : Prop where
  significant : (lex ("package p\n" ++ source) filename).significant
    = clauseAtStart filename ++ (lex source filename).significant.map (Lexeme.map place)
  stop : (lex ("package p\n" ++ source) filename).stop = place (lex source filename).stop
  errors : (lex ("package p\n" ++ source) filename).errors = []
    ↔ (lex source filename).errors = []

namespace LexesBehindClause

/-- The file holds a declaration and nothing else if that declaration is what is read alone, moved. -/
theorem holdsOnly_iff
    (lexes : LexesBehindClause source filename place)
    (moved : Decl Position) :
    (parseFileWithin limit ("package p\n" ++ source) filename).HoldsOnly moved
      ↔ ∃ decl, (parseDeclWithin limit source filename).Accepts decl ∧ decl.map place = moved := by
  -- how many lexemes there are decides how far reading is allowed to go
  have readEq : Production.file.readFrom limit
        (lex ("package p\n" ++ source) filename).significant
        (lex ("package p\n" ++ source) filename).stop
      = (ruleMachine limit
          (Production.allowance ((lex source filename).significant.length + 3))).run .file
        (.start (clauseAtStart filename
          ++ (lex source filename).significant.map (Lexeme.map place))
          (place (lex source filename).stop)) := by
    rw [lexes.significant, lexes.stop, Production.readFrom_eq_run, List.length_append,
      List.length_map, Nat.add_comm (clauseAtStart filename).length]
    rfl
  have alone := @readsToEnd_behindClause_iff _ _ limit _ (lex source filename).significant
    (lex source filename).stop moved place
    (Nat.mul_le_mul_left 8 (Nat.succ_le_succ (Nat.le_add_right _ 3)))
    (regular_of_mem_significant source filename)
  have single := (@Machine.run_file_iff _ _ _ ⟨0, 1, filename⟩ ⟨8, 1, filename⟩ ⟨9, 1, filename⟩ _
    moved (by
      change 2 ≤ 8 * (_ + 1)
      omega)).trans alone
  constructor
  · rintro ⟨file, accepted, members⟩
    obtain ⟨noErrors, parts, final, run, clean, finished⟩ := Parsed.accepts_ofLexed_iff.1 accepted
    rw [members_of_file? finished] at members
    obtain ⟨decl, last, alone, noError, movedEq⟩ :=
      single.1 ⟨parts, final, readEq.symm.trans run, clean, members⟩
    exact ⟨decl, Parsed.accepts_ofLexed_iff.2
      ⟨lexes.errors.1 noErrors, decl, last, alone, noError, rfl⟩, movedEq⟩
  · rintro ⟨decl, accepted, movedEq⟩
    obtain ⟨noErrors, value, last, alone, noError, finished⟩ :=
      Parsed.accepts_ofLexed_iff.1 accepted
    obtain rfl := Option.some.inj finished
    obtain ⟨parts, final, run, clean, members⟩ := single.2 ⟨value, last, alone, noError, movedEq⟩
    obtain ⟨imports, decls, _, -, -, rfl⟩ := Machine.exists_of_run_file run
    exact ⟨_, Parsed.accepts_ofLexed_iff.2
      ⟨lexes.errors.2 noErrors, _, final, readEq.trans run, clean, rfl⟩,
      (members_of_file? rfl).trans members⟩

end LexesBehindClause

/-- Behind a package clause every text that does not begin with a byte order mark is lexed as it is alone.
Its lexemes stand ten bytes and one line further on, as far as positions can tell. -/
theorem lexesBehindClause
    (source : String)
    (filename : Option String)
    (noMark : source.toList.head? ≠ some Piece.byteOrderMark) :
    LexesBehindClause source filename (Position.behindLines "package p") := by
  obtain ⟨lexemes, errors, stop⟩ := lex_append_newline "package p" source filename rfl noMark
  refine ⟨?_, stop, ?_⟩
  · change ((lex ("package p" ++ "\n" ++ source) filename).lexemes).filter _ = _
    rw [lexemes, List.filter_append, filter_significant_map]
    rfl
  · change (lex ("package p" ++ "\n" ++ source) filename).errors = [] ↔ _
    rw [errors, List.map_eq_nil_iff]

/-- In a text that positions can tell of, the lexemes stand exactly ten bytes and one line further on. -/
theorem lexesExactlyBehindClause
    (source : String)
    (filename : Option String)
    (noMark : source.toList.head? ≠ some Piece.byteOrderMark)
    (small : ("package p\n" ++ source).utf8ByteSize < 2 ^ 32) :
    LexesBehindClause source filename (Position.exactlyBehind "package p") := by
  obtain ⟨significant, stop, errors⟩ := lexesBehindClause source filename noMark
  have faultless := (faultless_of_lex "package p" none rfl).not_isFault
  refine ⟨significant.trans (congrArg _ ?_), ?_, errors⟩
  · refine List.map_congr_left fun lexeme member => ?_
    have listed := List.mem_of_mem_filter member
    rw [(lex_eq_map source filename).1] at listed
    obtain ⟨found, isFound, rfl⟩ := List.mem_map.1 listed
    have fits := fits_of_mem_behind "package p" source faultless noMark small _
      (Event.mem_of_lexeme? isFound)
    exact congrArg (Lexeme.mk found.token · found.literal)
      (Place.behindLines_position "package p" filename _ fits)
  · apply stop_append_newline "package p" source filename rfl noMark small
    intro onlyBreaks
    have firsts := congrArg (fun text => text.toList.head?) onlyBreaks
    rw [lineBreaks, String.toList_ofList] at firsts
    simp [List.head?_replicate] at firsts

end Texts

/-- A move that can be undone takes different trees to different ones. -/
theorem Tree.map_injective
    {move : P -> Q}
    {back : Q -> P}
    (undone : Function.LeftInverse back move)
    (slot : Slot) :
    Function.Injective (@Tree.map P Q move slot) := by
  refine Function.LeftInverse.injective (g := Tree.map back) ?_
  intro tree
  rw [Tree.map_map, undone.comp_eq_id, Tree.map_id]

theorem Position.exactlyBehind_undone (front : String) :
    Function.LeftInverse
      (fun position => ⟨position.offset - (front.utf8ByteSize + 1),
        position.line - (front.toList.count '\n' + 1), position.filename⟩)
      (Position.exactlyBehind front) := by
  intro position
  simp [Position.exactlyBehind]

/-! ## Positions that cannot tell -/

/-- The keyword of a declaration made of specs. -/
def Tree.specKeyword? : Decl P -> Option (Mark P)
  | specified _ (specDecl _ keyword _) => some keyword
  | _ => none

theorem Tree.specKeyword?_map
    (move : P -> Q)
    (decl : Decl P) :
    (decl.map move).specKeyword? = decl.specKeyword?.map (Mark.map move) := by
  cases decl with
  | specified _ decl =>
      cases decl
      rfl
  | _ => rfl

/-- Lines that are empty give nothing to read. -/
theorem lex_lineBreaks
    (count : Nat)
    (filename : Option String) :
    (lex (lineBreaks count) filename).lexemes = [] ∧ (lex (lineBreaks count) filename).errors = [] := by
  simp only [lex, lineBreaks, String.toList_ofList, streamOf_lineBreaks]
  exact ⟨rfl, rfl⟩

/-- Lexemes at other places are read without errors if they were, and what they are read as is moved. -/
theorem exists_readFrom_map
    {α β : Type}
    {limit : Nat}
    {production : Production P α}
    {other : Production Q β}
    {move : α -> β}
    {lexemes : List (Lexeme P)}
    {stop : P}
    {value : α}
    {final : ReadState P}
    (place : P -> Q)
    (mirrors : Mirrors ⟨place, 0, []⟩ limit move production other)
    (run : production.readFrom limit lexemes stop = .done value final)
    (clean : final.errors = []) :
    ∃ last, other.readFrom limit (lexemes.map (Lexeme.map place)) (place stop) = .done (move value) last
      ∧ last.errors = [] := by
  have mirrored := mirrors (Nat.le_refl (Production.allowance lexemes.length)) (.start lexemes stop)
  change Outcome.Mirrored ⟨place, 0, []⟩ move (production.readFrom limit lexemes stop) _ at mirrored
  rw [run] at mirrored
  rw [Production.readFrom_eq_run, List.length_map]
  exact ⟨_, mirrored, by simp [Shift.state, clean]⟩

/-- Behind empty lines a declaration is read as it is without them, and moved. -/
theorem accepts_behind_lineBreaks
    {limit count : Nat}
    {source : String}
    {filename : Option String}
    {decl : Decl Position}
    (noMark : source.toList.head? ≠ some Piece.byteOrderMark)
    (accepted : (parseDeclWithin limit source filename).Accepts decl) :
    (parseDeclWithin limit (lineBreaks count ++ "\n" ++ source) filename).Accepts
      (decl.map (Position.behindLines (lineBreaks count))) := by
  obtain ⟨noLexemes, noErrors⟩ := lex_lineBreaks count filename
  obtain ⟨lexemes, errors, stop⟩ :=
    lex_append_newline (lineBreaks count) source filename noErrors noMark
  obtain ⟨clean, value, final, run, noError, isDecl⟩ := Parsed.accepts_ofLexed_iff.1 accepted
  obtain rfl := Option.some.inj isDecl
  obtain ⟨last, moved, stillNoError⟩ :=
    exists_readFrom_map (Position.behindLines (lineBreaks count)) Mirrors.singleDecl run noError
  refine Parsed.accepts_ofLexed_iff.2 ⟨?_, _, last, ?_, stillNoError, rfl⟩
  · rw [errors, clean, List.map_nil]
  · rw [Lexed.significant, lexemes, noLexemes, List.nil_append, filter_significant_map, stop]
    exact moved

/-- A declaration whose keyword stands where positions cannot count any further is not moved exactly. -/
theorem map_behindLines_ne
    {decl : Decl Position}
    {keyword : Mark Position}
    (isKeyword : decl.specKeyword? = some keyword)
    (isFar : keyword.pos.offset = Position.largest)
    (front : String) :
    decl.map (Position.behindLines front) ≠ decl.map (Position.exactlyBehind front) := by
  intro same
  have keywords := congrArg Tree.specKeyword? same
  rw [Tree.specKeyword?_map, Tree.specKeyword?_map, isKeyword] at keywords
  have offsets : (Position.behindLines front keyword.pos).offset
      = (Position.exactlyBehind front keyword.pos).offset :=
    congrArg (fun mark => mark.pos.offset) (Option.some.inj keywords)
  have cut : (Position.behindLines front keyword.pos).offset ≤ Position.largest :=
    Nat.min_le_right _ _
  have moved : (Position.exactlyBehind front keyword.pos).offset
      = keyword.pos.offset + (front.utf8ByteSize + 1) := rfl
  omega

theorem offset_behind_lineBreaks
    {count : Nat}
    (many : Position.largest ≤ count)
    (position : Position) :
    (Position.behindLines (lineBreaks count) position).offset = Position.largest := by
  have cut : (Position.behindLines (lineBreaks count) position).offset
      = min (position.offset + ((lineBreaks count).utf8ByteSize + 1)) Position.largest := rfl
  rw [cut, utf8ByteSize_lineBreaks]
  omega

theorem head?_behind_lineBreaks
    (count : Nat)
    (source : String) :
    (lineBreaks count ++ "\n" ++ source).toList.head? = some '\n' := by
  rw [toList_append_newline, lineBreaks, String.toList_ofList]
  cases count <;> rfl

/-- The two ways to read a declaration agree. A text that does not begin with a byte order mark is read
alone as a declaration without complaint if and only if the file that consists of a package clause and the
text is read without complaint and holds that declaration and nothing else, ten bytes and one line further
on. In a text of four gigabytes, whose last positions are cut down, the declaration of the file is the
moved one as far as positions can tell. -/
theorem entry_points_agree
    (limit : Nat)
    (source : String)
    (filename : Option String)
    (noMark : source.toList.head? ≠ some Piece.byteOrderMark) :
    (("package p\n" ++ source).utf8ByteSize < 2 ^ 32 -> ∀ decl,
        (parseDeclWithin limit source filename).Accepts decl
          ↔ (parseFileWithin limit ("package p\n" ++ source) filename).HoldsOnly
            (decl.map (Position.exactlyBehind "package p")))
      ∧ ∀ moved, (parseFileWithin limit ("package p\n" ++ source) filename).HoldsOnly moved
        ↔ ∃ decl, (parseDeclWithin limit source filename).Accepts decl
          ∧ decl.map (Position.behindLines "package p") = moved := by
  refine ⟨fun small decl => ?_, (lexesBehindClause source filename noMark).holdsOnly_iff⟩
  rw [(lexesExactlyBehindClause source filename noMark small).holdsOnly_iff]
  constructor
  · intro accepted
    exact ⟨decl, accepted, rfl⟩
  · rintro ⟨other, accepted, same⟩
    rwa [← Tree.map_injective (Position.exactlyBehind_undone "package p") _ same]

/-- A variable whose line ends where the text ends. -/
theorem entry_points_agree_var :
    "var x int".toList.head? ≠ some Piece.byteOrderMark
      ∧ ∃ decl, (parseDeclWithin 9 "var x int" none).Accepts decl
        ∧ (parseFileWithin 9 ("package p\n" ++ "var x int") none).HoldsOnly
          (decl.map (Position.exactlyBehind "package p")) := by
  have noMark : "var x int".toList.head? ≠ some Piece.byteOrderMark := by decide
  have returned : (parseDeclWithin 9 "var x int" none).tree.isSome = true := by decide +kernel
  have noDiagnostics : (parseDeclWithin 9 "var x int" none).diagnostics = [] := by decide +kernel
  obtain ⟨decl, isDecl⟩ := Option.isSome_iff_exists.1 returned
  have accepted : (parseDeclWithin 9 "var x int" none).Accepts decl := ⟨isDecl, noDiagnostics⟩
  exact ⟨noMark, decl, accepted,
    ((entry_points_agree 9 "var x int" none noMark).1 (by decide +kernel) decl).1 accepted⟩

/-- In a text that begins with as many line breaks as positions can count, the declaration is not moved by
ten bytes and a line in the file. -/
theorem far_decl_not_moved :
    (lineBreaks Position.largest ++ "\n" ++ "var x int").toList.head? ≠ some Piece.byteOrderMark
      ∧ ∃ decl, (parseDecl (lineBreaks Position.largest ++ "\n" ++ "var x int") none).Accepts decl
        ∧ ¬ (parseFile ("package p\n" ++ (lineBreaks Position.largest ++ "\n" ++ "var x int"))
          none).HoldsOnly (decl.map (Position.exactlyBehind "package p")) := by
  have noMark : "var x int".toList.head? ≠ some Piece.byteOrderMark := by decide
  have breaksNoMark : (lineBreaks Position.largest ++ "\n" ++ "var x int").toList.head?
      ≠ some Piece.byteOrderMark := by
    rw [head?_behind_lineBreaks]
    decide
  have hasKeyword : (parseDecl "var x int" none).tree.bind Tree.specKeyword?
      = some ⟨.kwVar, ⟨0, 1, none⟩⟩ := by decide +kernel
  obtain ⟨decl, returned, isKeyword⟩ := Option.bind_eq_some_iff.1 hasKeyword
  have accepted : (parseDeclWithin nestingLimit "var x int" none).Accepts decl :=
    ⟨returned, by decide +kernel⟩
  have farAccepted := @accepts_behind_lineBreaks _ Position.largest _ none _ noMark accepted
  refine ⟨breaksNoMark, _, farAccepted, fun holdsOnly => ?_⟩
  obtain ⟨other, otherAccepted, same⟩ :=
    ((lexesBehindClause _ none breaksNoMark).holdsOnly_iff _).1 holdsOnly
  obtain rfl := Option.some.inj (otherAccepted.returned.symm.trans farAccepted.returned)
  have farKeyword := Tree.specKeyword?_map (Position.behindLines (lineBreaks Position.largest)) decl
  rw [isKeyword] at farKeyword
  exact map_behindLines_ne farKeyword (offset_behind_lineBreaks (Nat.le_refl _) _) _ same

end GoFront
