import GoFront.Proofs.Progress.Runs
import GoFront.Proofs.Reading.Terminators

/-!
# What diagnostics tell of a tree

A text with lexical errors has no tree, and its diagnostics are those errors. Any other text has a tree
unless its first phrase fails, and a phrase that fails has recorded why. So a missing tree is always
explained.
-/

namespace GoFront

variable {P : Type} {α β : Type}

/-! ## Productions that cannot fail -/

namespace Machine

/-- No run of a production gives up. -/
def Persists
    (machine : Machine P)
    (production : Production P α) : Prop :=
  ∀ state failed, machine.run production state ≠ .gaveUp failed

namespace Persists

variable {machine : Machine P}

theorem done (value : α) : machine.Persists (.pure value) :=
  nofun

theorem bind
    {first : Production P α}
    {next : α -> Production P β}
    (start : machine.Persists first)
    (rest : ∀ value, machine.Persists (next value)) :
    machine.Persists (first.bind next) := by
  intro state failed run
  change (machine.run first state).bind _ = _ at run
  cases firstRun : machine.run first state with
  | exhausted =>
      rw [firstRun] at run
      cases run
  | gaveUp stopped => exact start state stopped firstRun
  | done value middle =>
      rw [firstRun] at run
      exact rest value middle failed run

theorem look
    {next : Cursor P -> Production P β}
    (rest : ∀ cursor, machine.Persists (next cursor)) :
    machine.Persists (Production.look.bind next) :=
  bind (fun _ _ run => nomatch run) rest

theorem recovering
    (recovery : Recovery)
    (body : Production P α) :
    machine.Persists (.recovering recovery body) :=
  fun _ _ run => absurd run Machine.run_recovering_ne_gaveUp

theorem iterate
    {step : α -> Production P (Option α)}
    (steps : ∀ value, machine.Persists (step value))
    (start : α) :
    machine.Persists (.iterate step start) := by
  intro state failed run
  change Outcome.iterate (fun value => machine.run (step value)) machine.allowance start state = _
    at run
  generalize machine.allowance = repetitions at run
  induction repetitions generalizing start state with
  | zero => cases run
  | succ repetitions inductionHypothesis =>
      rw [Outcome.iterate] at run
      cases stepRun : machine.run (step start) state with
      | exhausted =>
          rw [stepRun] at run
          cases run
      | gaveUp stopped => exact steps start state stopped stepRun
      | done next middle =>
          rw [stepRun] at run
          cases next with
          | none => cases run
          | some value => exact inductionHypothesis value middle run

/-- Items that fail are left out. -/
theorem resuming
    (recovery : Recovery)
    (goesOn : Cursor P -> Bool)
    (item : Production P α) :
    machine.Persists (Production.resuming recovery goesOn item) := by
  refine bind (iterate (fun items => look fun cursor => ?_) []) fun items => done _
  split
  · exact bind (recovering recovery item) fun next => done _
  · exact done _

theorem file : machine.Persists (Production.file (P := P)) := by
  refine bind (recovering _ _) ?_
  intro package
  refine bind (resuming _ _ _) ?_
  intro imports
  exact bind (resuming _ _ _) fun decls => done _

end Persists
end Machine

/-! ## Package clauses -/

/-- Whether lexemes begin with a keyword, a name and the end of a line, as a package clause does. -/
def BeginsWithClause (lexemes : List (Lexeme P)) : Prop :=
  ∃ keyword name close rest,
    lexemes = keyword :: name :: close :: rest
      ∧ keyword.token = .kwPackage
      ∧ name.token = .ident
      ∧ close.token ∈ [Token.semi, .rParen, .rBrace]

theorem Machine.run_ident
    (machine : Machine P)
    (state : ReadState P) :
    machine.run Production.ident state
      = if state.cursor.token = .ident then
          .done (Production.identOf state.cursor.peek)
            { state with cursor := state.cursor.advance }
        else .gaveUp (state.record (.unexpected state.cursor.token .ident)) := by
  change (machine.run (if state.cursor.token = .ident then _ else _) state).bind _ = _
  split <;> rfl

/-- A production that consumes a fixed token has passed over a lexeme with that token. -/
theorem Machine.exists_of_token_run
    {machine : Machine P}
    {production : Production P α}
    {state final : ReadState P}
    {token : Token}
    {value result : α}
    {cause : SyntaxCause}
    (notEnd : token ≠ .eof)
    (runEq : machine.run production state
      = if state.cursor.token = token then
          .done value { state with cursor := state.cursor.advance }
        else .gaveUp (state.record cause))
    (run : machine.run production state = .done result final) :
    ∃ lexeme rest, state.cursor.ahead = lexeme :: rest ∧ lexeme.token = token
      ∧ final = { state with cursor := state.cursor.advance } := by
  rw [runEq] at run
  split at run
  · next isToken =>
      obtain ⟨-, rfl⟩ := Outcome.done.inj run
      obtain ⟨lexeme, rest, aheadEq, same⟩ :=
        Cursor.exists_of_token_ne_eof (isToken.trans_ne notEnd)
      exact ⟨lexeme, rest, aheadEq, same.trans isToken, rfl⟩
  · cases run

/-- A package clause is read where one stands, and nowhere else. -/
theorem Machine.exists_packageClause_iff
    (machine : Machine P)
    (state : ReadState P) :
    (∃ clause final, machine.run Production.packageClause state = .done clause final)
      ↔ BeginsWithClause state.cursor.ahead := by
  constructor
  · rintro ⟨clause, final, run⟩
    obtain ⟨_, first, keywordRun, run⟩ := Reads.run_bind_done run
    obtain ⟨_, second, nameRun, run⟩ := Reads.run_bind_done run
    obtain ⟨_, third, closeRun, -⟩ := Reads.run_bind_done run
    obtain ⟨keyword, behind, aheadEq, isKeyword, rfl⟩ :=
      exists_of_token_run (by decide) (machine.run_mark _ _) keywordRun
    obtain ⟨name, rest, behindEq, isName, rfl⟩ :=
      exists_of_token_run (by decide) (machine.run_ident _) nameRun
    obtain ⟨close, others, closeAhead, -, closes⟩ := semicolon_cases closeRun
    have atClose := Cursor.token_of_ahead closeAhead
    simp only [Cursor.ahead_advance, aheadEq, List.tail_cons] at behindEq
    simp only [Cursor.ahead_advance, aheadEq, behindEq, List.tail_cons] at closeAhead
    refine ⟨keyword, name, close, others, ?_, isKeyword, isName, ?_⟩
    · rw [aheadEq, behindEq, closeAhead]
    · rcases closes with ⟨closesBracket, -⟩ | ⟨-, isSemi, -⟩
      · rw [Cursor.atAny, atClose] at closesBracket
        exact List.mem_cons_of_mem _ (List.contains_iff_mem.1 closesBracket)
      · simp [isSemi]
  · rintro ⟨keyword, name, close, rest, aheadEq, isKeyword, isName, closes⟩
    have nameAhead : state.cursor.advance.ahead = name :: close :: rest := by
      rw [Cursor.ahead_advance, aheadEq, List.tail_cons]
    have closeAhead : state.cursor.advance.advance.ahead = close :: rest := by
      rw [Cursor.ahead_advance, nameAhead, List.tail_cons]
    have closeRun : ∃ final, machine.run Production.semicolon
        { state with cursor := state.cursor.advance.advance } = .done () final := by
      rw [run_semicolon]
      split
      · exact ⟨_, rfl⟩
      · next notBracket =>
          rw [Cursor.atAny, Cursor.token_of_ahead closeAhead, List.contains_iff_mem] at notBracket
          have isSemi := (List.mem_cons.1 closes).resolve_right notBracket
          rw [Cursor.token_of_ahead closeAhead, if_pos isSemi]
          exact ⟨_, rfl⟩
    obtain ⟨final, closeRun⟩ := closeRun
    refine ⟨⟨⟨.kwPackage, state.cursor.pos⟩, Production.identOf state.cursor.advance.peek⟩, final, ?_⟩
    change (machine.run (Production.mark .kwPackage) state).bind _ = _
    rw [run_mark, if_pos ((Cursor.token_of_ahead aheadEq).trans isKeyword)]
    change (machine.run Production.ident _).bind _ = _
    rw [run_ident, if_pos ((Cursor.token_of_ahead nameAhead).trans isName)]
    change (machine.run Production.semicolon _).bind _ = _
    rw [closeRun]
    rfl

/-! ## Answers -/

namespace Parsed

/-- An answer is explained by its diagnostics: they are the lexical errors if there are any, and then
there is no tree; otherwise they are syntax errors, of which there is one if there is no tree. -/
structure Explained (lexed : Lexed Position) (parsed : Parsed α) : Prop where
  lexical : lexed.hasErrors = true ->
    parsed.tree = none ∧ parsed.diagnostics = lexed.errors.map .lexical
  grammatical : lexed.hasErrors = false ->
    ∀ diagnostic ∈ parsed.diagnostics, ∃ error, diagnostic = .grammatical error
  missing : parsed.tree = none -> parsed.diagnostics ≠ []

variable {limit : Nat} {production : Production Position α} {finish : α -> Option β}
  {lexed : Lexed Position}

/-- An answer is explained if the allowance lasts, and if a run that yields no tree has errors. -/
theorem explained_ofLexed
    (ends : production.readFrom limit lexed.significant lexed.stop ≠ .exhausted)
    (reports : ∀ value final,
      production.readFrom limit lexed.significant lexed.stop = .done value final ->
      finish value = none -> final.errors ≠ []) :
    (ofLexed limit production finish lexed).Explained lexed := by
  cases hasErrors : lexed.hasErrors with
  | true =>
      have answer : ofLexed limit production finish lexed = ⟨none, lexed.errors.map .lexical⟩ :=
        if_pos hasErrors
      rw [answer]
      refine ⟨fun _ => ⟨rfl, rfl⟩, fun noErrors => ?_, fun _ noDiagnostics => ?_⟩
      · rw [hasErrors] at noErrors
        cases noErrors
      · simp [Lexed.hasErrors, List.map_eq_nil_iff.1 noDiagnostics] at hasErrors
  | false =>
      have answer : ofLexed limit production finish lexed
          = ofOutcome finish (production.readFrom limit lexed.significant lexed.stop) :=
        if_neg (by simp [hasErrors])
      have notLexical (isLexical : lexed.hasErrors = true) : False := by
        rw [hasErrors] at isLexical
        cases isLexical
      rw [answer]
      cases run : production.readFrom limit lexed.significant lexed.stop with
      | exhausted => exact absurd run ends
      | gaveUp failed =>
          rw [Production.readFrom_eq_run] at run
          obtain ⟨_, _, more⟩ := Machine.reaches_of_gaveUp run
          refine ⟨fun isLexical => (notLexical isLexical).elim, fun _ => ?_, fun _ noDiagnostics => ?_⟩
          · simp [ofOutcome]
          · have none : failed.errors = [] := by simpa [ofOutcome] using noDiagnostics
            simp [none] at more
      | done value final =>
          refine ⟨fun isLexical => (notLexical isLexical).elim, fun _ => ?_,
            fun isMissing noDiagnostics => ?_⟩
          · simp [ofOutcome]
          · exact reports value final run isMissing (by simpa [ofOutcome] using noDiagnostics)

end Parsed

theorem explained_decl
    (limit : Nat)
    (source : String)
    (filename : Option String) :
    (parseDeclWithin limit source filename).Explained (lex source filename) := by
  apply Parsed.explained_ofLexed
  · exact Production.readFrom_ne_exhausted (readsNonterminals limit _).singleDecl (by omega)
      (regular_of_mem_significant source filename)
  · intro value final _ isMissing
    cases isMissing

/-- The first step of reading a file is to read its package clause. -/
theorem Machine.exists_of_run_file_start
    {machine : Machine P}
    {state final : ReadState P}
    {parts : Production.FileParts P}
    (run : machine.run Production.file state = .done parts final) :
    ∃ middle taken, machine.run (.recovering .decl Production.packageClause) state
        = .done parts.package middle
      ∧ middle.Reaches taken final := by
  obtain ⟨package, first, clauseRun, run⟩ := Reads.run_bind_done run
  obtain ⟨imports, second, importsRun, run⟩ := Reads.run_bind_done run
  obtain ⟨decls, third, declsRun, run⟩ := Reads.run_bind_done run
  obtain ⟨rfl, rfl⟩ := Outcome.done.inj run
  obtain ⟨_, importsReach⟩ := machine.reaches_of_done importsRun
  obtain ⟨_, declsReach⟩ := machine.reaches_of_done declsRun
  exact ⟨first, _, clauseRun, importsReach.trans declsReach⟩

/-- A file without a package clause has errors. -/
theorem Machine.package_of_run_file
    {machine : Machine P}
    {state final : ReadState P}
    {parts : Production.FileParts P}
    (run : machine.run Production.file state = .done parts final) :
    (parts.package.isSome = true ↔ BeginsWithClause state.cursor.ahead)
      ∧ (parts.package = none -> final.errors ≠ []) := by
  obtain ⟨middle, taken, clauseRun, reaches⟩ := exists_of_run_file_start run
  rw [← machine.exists_packageClause_iff state]
  obtain ⟨clause, isPackage, bodyRun⟩ | ⟨failed, isPackage, bodyRun, rfl⟩ :=
    Machine.exists_of_run_recovering clauseRun
  · rw [isPackage, bodyRun]
    simp
  · obtain ⟨_, _, more⟩ := Machine.reaches_of_gaveUp bodyRun
    rw [isPackage, bodyRun]
    refine ⟨by simp, fun _ noErrors => ?_⟩
    have kept := reaches.errors.length_le
    rw [noErrors] at kept
    exact absurd kept (by simpa using List.ne_nil_of_length_pos (by omega))

/-- A file that is read from the start of a text has its package clause if one stands there. -/
theorem Production.package_of_readFrom
    {limit : Nat}
    {lexemes : List (Lexeme P)}
    {stop : P}
    {parts : FileParts P}
    {final : ReadState P}
    (run : file.readFrom limit lexemes stop = .done parts final) :
    (parts.package.isSome = true ↔ BeginsWithClause lexemes)
      ∧ (parts.package = none -> final.errors ≠ []) := by
  rw [readFrom_eq_run] at run
  exact Machine.package_of_run_file run

theorem Production.file_ne_gaveUp
    (limit : Nat)
    (lexemes : List (Lexeme P))
    (stop : P)
    (failed : ReadState P) :
    file.readFrom limit lexemes stop ≠ .gaveUp failed := by
  rw [readFrom_eq_run]
  exact Machine.Persists.file _ failed

theorem explained_file
    (limit : Nat)
    (source : String)
    (filename : Option String) :
    (parseFileWithin limit source filename).Explained (lex source filename) := by
  apply Parsed.explained_ofLexed
  · exact Production.readFrom_ne_exhausted (readsNonterminals limit _).file (by omega)
      (regular_of_mem_significant source filename)
  · intro parts final run isMissing
    exact (Production.package_of_readFrom run).2 (Option.map_eq_none_iff.1 isMissing)

/-- A text without lexical errors has a tree just if it begins with a package clause. -/
theorem isSome_file_iff
    {source : String}
    {filename : Option String}
    (limit : Nat)
    (noErrors : (lex source filename).hasErrors = false) :
    (parseFileWithin limit source filename).tree.isSome = true
      ↔ BeginsWithClause (lex source filename).significant := by
  have answer : parseFileWithin limit source filename
      = .ofOutcome (Production.FileParts.file? filename
          ((lex source filename).comments.map Comment.ofLexeme))
        (Production.file.readFrom limit (lex source filename).significant
          (lex source filename).stop) :=
    if_neg (by simp [noErrors])
  rw [answer]
  cases run : Production.file.readFrom limit (lex source filename).significant
      (lex source filename).stop with
  | exhausted =>
      exact absurd run (Production.readFrom_ne_exhausted (readsNonterminals limit _).file (by omega)
        (regular_of_mem_significant source filename))
  | gaveUp failed => exact absurd run (Production.file_ne_gaveUp limit _ _ failed)
  | done parts final =>
      rw [← (Production.package_of_readFrom run).1]
      simp [Parsed.ofOutcome, Production.FileParts.file?]

/-- Whether an error has been recorded between two states of a run. -/
def ReadState.HasRecorded (state final : ReadState P) : Prop :=
  ∃ recorded, recorded ≠ [] ∧ final.errors = recorded ++ state.errors

/-- A production that gives up has recorded an error since it was entered. -/
theorem Production.hasRecorded_of_gaveUp
    {limit allowance : Nat}
    {production : Production P α}
    {state failed : ReadState P}
    (run : production.run limit allowance (Nonterminal.read limit allowance) state
      = .gaveUp failed) :
    state.HasRecorded failed := by
  change (ruleMachine limit allowance).run production state = _ at run
  obtain ⟨_, reaches, more⟩ := Machine.reaches_of_gaveUp run
  obtain ⟨recorded, errorsEq⟩ := reaches.errors
  refine ⟨recorded, ?_, errorsEq.symm⟩
  rintro rfl
  rw [← errorsEq] at more
  exact absurd more (Nat.lt_irrefl _)

theorem parseSource_cases (source : String) :
    (∃ file, (parseFile source none).tree = some file ∧ (parseFile source none).diagnostics = []
        ∧ parseSource source = .ok file)
      ∨ ((parseFile source none).diagnostics ≠ []
        ∧ parseSource source
          = .error ⟨(parseFile source none).tree, (parseFile source none).diagnostics⟩) := by
  have explained := explained_file nestingLimit source none
  change (parseFile source none).Explained _ at explained
  unfold parseSource
  generalize parseFile source none = parsed at explained ⊢
  obtain ⟨tree, diagnostics⟩ := parsed
  cases tree with
  | none => exact .inr ⟨explained.missing rfl, rfl⟩
  | some file =>
      cases diagnostics with
      | nil => exact .inl ⟨file, rfl, rfl, rfl⟩
      | cons first rest => exact .inr ⟨List.cons_ne_nil first rest, rfl⟩

/-- Trees and diagnostics are related in the same way for every text. -/
theorem diagnostics_explain_answers
    (limit : Nat)
    (source : String)
    (filename : Option String) :
    (parseFileWithin limit source filename).Explained (lex source filename)
      ∧ (parseDeclWithin limit source filename).Explained (lex source filename)
      ∧ ((lex source filename).hasErrors = false ->
          ((parseFileWithin limit source filename).tree.isSome = true
            ↔ BeginsWithClause (lex source filename).significant))
      ∧ (∀ {α : Type} (production : Production Position α) (allowance : Nat)
          (state failed : ReadState Position),
          production.run limit allowance (Nonterminal.read limit allowance) state = .gaveUp failed ->
          state.HasRecorded failed)
      ∧ (∀ file, parseSource source = .ok file
          ↔ (parseFile source none).tree = some file ∧ (parseFile source none).diagnostics = [])
      ∧ ∀ failure, parseSource source = .error failure ->
          failure.partialFile = (parseFile source none).tree
            ∧ failure.diagnostics = (parseFile source none).diagnostics
            ∧ failure.diagnostics ≠ [] := by
  refine ⟨explained_file limit source filename, explained_decl limit source filename,
    isSome_file_iff limit, fun _ _ _ _ => Production.hasRecorded_of_gaveUp, ?_, ?_⟩
  · intro file
    rcases parseSource_cases source with ⟨found, isTree, clean, parsed⟩ | ⟨complaints, parsed⟩
    · rw [parsed, isTree]
      simp [clean]
    · rw [parsed]
      simp [complaints]
  · rintro failure failed
    rcases parseSource_cases source with ⟨found, -, -, parsed⟩ | ⟨complaints, parsed⟩
    · rw [parsed] at failed
      cases failed
    · rw [parsed] at failed
      obtain rfl := Except.error.inj failed
      exact ⟨rfl, rfl, complaints⟩

/-- A rune that is not closed, a text without a package clause, and a clause in front of a malformed
declaration. -/
theorem diagnostics_explain_answers_clause :
    ((lex "package p\nvar c = 'xy" none).hasErrors = true
        ∧ (parseFileWithin 9 "package p\nvar c = 'xy" none).tree = none
        ∧ (parseFileWithin 9 "package p\nvar c = 'xy" none).diagnostics
          = (lex "package p\nvar c = 'xy" none).errors.map .lexical)
      ∧ ((parseFileWithin 9 "var c = 1" none).tree = none
        ∧ (parseFileWithin 9 "var c = 1" none).diagnostics ≠ [])
      ∧ (parseFileWithin 9 "package p; var = 1" none).tree.isSome = true
        ∧ BeginsWithClause (lex "package p; var = 1" none).significant := by
  have unclosed : (lex "package p\nvar c = 'xy" none).hasErrors = true := by decide +kernel
  have noClause : (parseFileWithin 9 "var c = 1" none).tree.isNone = true := by decide +kernel
  have noErrors : (lex "package p; var = 1" none).hasErrors = false := by decide +kernel
  have isTree : (parseFileWithin 9 "package p; var = 1" none).tree.isSome = true := by decide +kernel
  have explained := diagnostics_explain_answers 9
  have isMissing := Option.isNone_iff_eq_none.1 noClause
  exact ⟨⟨unclosed, (explained _ none).1.lexical unclosed⟩,
    ⟨isMissing, (explained _ none).1.missing isMissing⟩,
    isTree, ((explained _ none).2.2.1 noErrors).1 isTree⟩

end GoFront
