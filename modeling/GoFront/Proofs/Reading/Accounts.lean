import GoFront.Parse
import GoFront.Proofs.Lexing.Entries
import GoFront.Proofs.Reading.Files
import GoFront.Proofs.Reading.Traces

/-!
# A tree accounts for its text

The markers of a tree that is returned for a text, read from left to right, are lexemes of the text in
their order, whatever errors were found on the way. If there were none, the tree tells of every lexeme
of the text, but for commas and semicolons.
-/

namespace GoFront

/-! ## The lexemes of a text -/

/-- A token that keeps its text as its kind demands is as the grammar expects it. -/
theorem Piece.regular_lexeme
    (place : Place)
    (token : Token)
    (text : List Char)
    (notAtEnd : token ≠ .eof)
    (notComment : token.isComment = false) :
    (lexeme place token text).Regular := by
  refine ⟨notAtEnd, ?_⟩
  cases isLiteral : token.isLiteral <;> simp [lexeme, isLiteral, notComment]

/-- What the lexer gives to the grammar is as the grammar expects it. -/
theorem regular_of_mem_significant
    (source : String)
    (filename : Option String)
    (lexeme : Lexeme Position)
    (member : lexeme ∈ (lex source filename).significant) :
    lexeme.Regular := by
  obtain ⟨inText, isCode⟩ := List.mem_filter.1 member
  rw [lex_lexemes] at inText
  obtain ⟨entry, inEntries, rfl⟩ := List.mem_map.1 inText
  rcases Piece.cases_of_mem_entryStream inEntries with
    ⟨pos, rfl⟩ | ⟨piece, isPiece, token, pos, kindEq, rfl⟩
  · exact ⟨by simp [Entry.semicolon, Lexeme.map], rfl⟩
  · obtain ⟨kind, text⟩ := piece
    obtain rfl : kind = .token token := kindEq
    have spelled := (Piece.spelledByKind_of_mem_all source.toList _ isPiece).2
    exact Piece.regular_lexeme pos token text spelled.1 (Bool.not_eq_true' _ ▸ isCode)

/-! ## Runs from the start of a text -/

variable {P : Type} {α : Type}

theorem Production.readFrom_eq_run
    (limit : Nat)
    (production : Production P α)
    (lexemes : List (Lexeme P))
    (stop : P) :
    production.readFrom limit lexemes stop
      = (ruleMachine limit (allowance lexemes.length)).run production (.start lexemes stop) := rfl

/-- A run over a whole text accounts for its lexemes. -/
theorem Production.accounts_of_run
    {limit need : Nat}
    {production : Production P α}
    {outline : α -> List (Mention P)}
    {lexemes : List (Lexeme P)}
    {stop : P}
    {value : α}
    {final : ReadState P}
    (reads : ReadsPhrase (ruleMachine limit (allowance lexemes.length)) AtTop need production
      fun value _ _ mentions => mentions = outline value)
    (regular : ∀ lexeme ∈ lexemes, lexeme.Regular)
    (run : (ruleMachine limit (allowance lexemes.length)).run production (.start lexemes stop)
      = .done value final) :
    (Mention.leaves (outline value)).Sublist lexemes
      ∧ (final.errors = [] -> final.cursor.token = .eof -> Covers (outline value) lexemes) := by
  obtain ⟨_, mentions, taken, ⟨reached, rfl, rfl⟩, completes⟩ :=
    (reads ⟨none, none, none⟩ need rfl (Nat.le_refl _)).completes (.start lexemes stop) value final
      regular (fun _ isKnown => nomatch isKnown) run
  have aheadEq : lexemes = taken ++ final.cursor.ahead := completes.ahead
  refine ⟨?_, fun clean atEnd => ?_⟩
  · rw [aheadEq]
    exact completes.leaves.trans (List.sublist_append_left _ _)
  · have finalRegular : final.Regular := by
      intro lexeme member
      refine regular lexeme ?_
      rw [aheadEq]
      exact List.mem_append_right _ member
    have takenAll : lexemes = taken := by
      rw [aheadEq, ReadState.ahead_eq_nil finalRegular atEnd, List.append_nil]
    rw [takenAll]
    exact completes.covers clean

/-- A file is read to its end. -/
theorem Production.token_eof_of_file
    {machine : Machine P}
    {state final : ReadState P}
    {parts : FileParts P}
    (run : machine.run Production.file state = .done parts final) :
    final.cursor.token = .eof := by
  obtain ⟨_, _, -, run⟩ := Reads.run_bind_done run
  obtain ⟨_, _, -, run⟩ := Reads.run_bind_done run
  obtain ⟨_, _, declsRun, run⟩ := Reads.run_bind_done run
  obtain ⟨-, rfl⟩ := Outcome.done.inj run
  simpa using Reads.not_goesOn_of_resuming declsRun

/-- Behind a single declaration without errors nothing is left. -/
theorem Production.token_eof_of_singleDecl
    {machine : Machine P}
    {state final : ReadState P}
    {decl : Decl P}
    (run : machine.run Production.singleDecl state = .done decl final)
    (clean : final.errors = []) :
    final.cursor.token = .eof := by
  obtain ⟨cursor, _, -, run⟩ := Reads.run_bind_done run
  have behind {inner : Production P (Decl P)} {state : ReadState P}
      (run : machine.run (inner.bind fun decl => look.bind fun cursor =>
        if cursor.token = .eof then .pure decl
        else (report (.trailing cursor.token)).bind fun _ => .pure decl) state
          = .done decl final) :
      final.cursor.token = .eof := by
    obtain ⟨_, middle, -, run⟩ := Reads.run_bind_done run
    change machine.run (if middle.cursor.token = .eof then _ else _) middle = _ at run
    split at run
    · obtain ⟨-, rfl⟩ := Outcome.done.inj run
      assumption
    · obtain ⟨-, rfl⟩ := Outcome.done.inj run
      simp [ReadState.record] at clean
  dsimp only at run
  split at run
  · exact behind run
  · exact behind run

/-! ## Trees of texts -/

/-- Whether the markers of a node show some of the lexemes, in their order. -/
def Node.ShowsSome (node : Node P) (lexemes : List (Lexeme P)) : Prop :=
  ∃ shown : List (Lexeme P),
    node.markers = shown.map Lexeme.markerFields ∧ shown.Sublist lexemes

/-- Whether a node tells of all lexemes, in their order, but for commas and semicolons. -/
def Node.TellsAll (node : Node P) (lexemes : List (Lexeme P)) : Prop :=
  ∃ mentions : List (Mention P),
    node.traces = mentions.map Mention.trace ∧ Covers mentions lexemes

theorem Node.showsSome_of_traces
    {node : Node P}
    {mentions : List (Mention P)}
    {lexemes : List (Lexeme P)}
    (told : node.traces = mentions.map Mention.trace)
    (leaves : (Mention.leaves mentions).Sublist lexemes) :
    node.ShowsSome lexemes := by
  refine ⟨Mention.leaves mentions, ?_, leaves⟩
  rw [markers, told, Mention.filterMap_marker?_map_trace]

theorem PackageClause.traces_node (clause : PackageClause P) :
    clause.node.traces = clause.outline.map Mention.trace := rfl

/-- Comments are no markers. -/
theorem Comment.flatMap_traces_node (comments : List (Comment P)) :
    (comments.map node).flatMap Node.traces = [] := by
  induction comments with
  | nil => rfl
  | cons _ _ inductionHypothesis => exact inductionHypothesis

/-- A walk through a file tells the outlines of its parts. -/
theorem File.traces_node (file : File P) :
    file.node.traces
      = (file.package.outline ++ (file.imports.outline ++ file.decls.outline)).map
          Mention.trace := by
  have importsTell : file.imports.view.flatMap Node.traces = _ := file.imports.tells
  have declsTell : file.decls.view.flatMap Node.traces = _ := file.decls.tells
  have commentsTell : Field.Tells (Field.children "comments" (file.comments.map Comment.node))
      ([] : List (Mention P)) := .lastSeveral (Comment.flatMap_traces_node file.comments)
  have fieldsTell :
      Field.Tells
        (.child "package" file.package.node :: (Field.children "imports" file.imports.view
          ++ (Field.children "decls" file.decls.view
            ++ Field.children "comments" (file.comments.map Comment.node))))
        (file.package.outline ++ (file.imports.outline ++ (file.decls.outline ++ []))) :=
    .child file.package.traces_node <| .several importsTell <| .several declsTell commentsTell
  have nameSilent :
      ((file.filename.map (Field.leaf (P := P) "filename")).getD (.absent "filename")).traces
        = [] := by
    cases file.filename <;> rfl
  refine Field.Tells.node rfl ?_
  have allTell := Field.Tells.skip nameSilent fieldsTell
  rw [List.append_nil] at allTell
  simpa [File.node, Node.plain, Node.fields] using allTell

/-- A tree that is returned comes from a run, about whose errors the diagnostics tell. -/
theorem Parsed.exists_of_ofLexed
    {β : Type}
    {limit : Nat}
    {production : Production Position α}
    {finish : α -> Option β}
    {lexed : Lexed Position}
    {tree : β}
    (returned : (ofLexed limit production finish lexed).tree = some tree) :
    ∃ value final, production.readFrom limit lexed.significant lexed.stop = .done value final
      ∧ finish value = some tree
      ∧ ((ofLexed limit production finish lexed).diagnostics = [] -> final.errors = []) := by
  unfold ofLexed at returned ⊢
  split at returned
  · cases returned
  · next noErrors =>
      rw [if_neg noErrors]
      cases run : production.readFrom limit lexed.significant lexed.stop with
      | exhausted =>
          rw [run] at returned
          cases returned
      | gaveUp _ =>
          rw [run] at returned
          cases returned
      | done value final =>
          rw [run] at returned
          refine ⟨value, final, rfl, returned, fun clean => ?_⟩
          simpa [ofOutcome] using clean

/-- The mentions of a file: those of its package clause, its imports and its declarations. -/
def File.outline (file : File P) : List (Mention P) :=
  file.package.outline ++ (file.imports.outline ++ file.decls.outline)

/-- The leaves of a file that is returned are lexemes of its text, in their order, and without diagnostics
its mentions cover the text. -/
theorem outline_of_returned_file
    {limit : Nat}
    {source : String}
    {filename : Option String}
    {file : File Position}
    (returned : (parseFileWithin limit source filename).tree = some file) :
    (Mention.leaves file.outline).Sublist (lex source filename).significant
      ∧ ((parseFileWithin limit source filename).diagnostics = [] ->
          Covers file.outline (lex source filename).significant) := by
  obtain ⟨parts, final, run, finished, clean⟩ := Parsed.exists_of_ofLexed returned
  rw [Production.readFrom_eq_run] at run
  obtain ⟨package, isPackage, rfl⟩ := Option.map_eq_some_iff.1 finished
  have outlineEq : parts.outline = package.outline
      ++ ((Tree.ofList parts.imports).outline ++ (Tree.ofList parts.decls).outline) := by
    rw [Production.FileParts.outline, isPackage, Tree.outline_ofList, Tree.outline_ofList]
    rfl
  obtain ⟨leaves, covers⟩ := Production.accounts_of_run
    ((readsNonterminals limit _).file) (regular_of_mem_significant source filename) run
  rw [outlineEq] at leaves covers
  exact ⟨leaves, fun noDiagnostics =>
    covers (clean noDiagnostics) (Production.token_eof_of_file run)⟩

/-- The leaves of a declaration that is returned are lexemes of its text, in their order, and without
diagnostics its mentions cover the text. -/
theorem outline_of_returned_decl
    {limit : Nat}
    {source : String}
    {filename : Option String}
    {decl : Decl Position}
    (returned : (parseDeclWithin limit source filename).tree = some decl) :
    decl.leaves.Sublist (lex source filename).significant
      ∧ ((parseDeclWithin limit source filename).diagnostics = [] ->
          Covers decl.outline (lex source filename).significant) := by
  obtain ⟨value, final, run, finished, clean⟩ := Parsed.exists_of_ofLexed returned
  rw [Production.readFrom_eq_run] at run
  obtain rfl := Option.some.inj finished
  obtain ⟨leaves, covers⟩ := Production.accounts_of_run
    ((readsNonterminals limit _).singleDecl) (regular_of_mem_significant source filename) run
  refine ⟨leaves, fun noDiagnostics => ?_⟩
  have noErrors := clean noDiagnostics
  exact covers noErrors (Production.token_eof_of_singleDecl run noErrors)

/-- A file accounts for the text that it is returned for. -/
theorem accounts_of_returned_file
    {limit : Nat}
    {source : String}
    {filename : Option String}
    {file : File Position}
    (returned : (parseFileWithin limit source filename).tree = some file) :
    file.node.ShowsSome (lex source filename).significant
      ∧ ((parseFileWithin limit source filename).diagnostics = [] ->
          file.node.TellsAll (lex source filename).significant) := by
  obtain ⟨leaves, covers⟩ := outline_of_returned_file returned
  exact ⟨Node.showsSome_of_traces file.traces_node leaves,
    fun noDiagnostics => ⟨_, file.traces_node, covers noDiagnostics⟩⟩

/-- A single declaration accounts for the text that it is returned for. -/
theorem accounts_of_returned_decl
    {limit : Nat}
    {source : String}
    {filename : Option String}
    {decl : Decl Position}
    (returned : (parseDeclWithin limit source filename).tree = some decl) :
    decl.view.ShowsSome (lex source filename).significant
      ∧ ((parseDeclWithin limit source filename).diagnostics = [] ->
          decl.view.TellsAll (lex source filename).significant) := by
  obtain ⟨leaves, covers⟩ := outline_of_returned_decl returned
  exact ⟨Node.showsSome_of_traces decl.tells leaves,
    fun noDiagnostics => ⟨_, decl.tells, covers noDiagnostics⟩⟩

/-- No lexeme is invented, duplicated, reordered or silently lost between a text and the tree that is
returned for it: the markers of the tree show lexemes of the text in their order, whatever errors there
were, and without diagnostics the tree tells of every lexeme. A text with lexical errors has no tree. -/
theorem parse_accounts_for_text
    (limit : Nat)
    (source : String)
    (filename : Option String) :
    (∀ file, (parseFileWithin limit source filename).tree = some file ->
      file.node.ShowsSome (lex source filename).significant
        ∧ ((parseFileWithin limit source filename).diagnostics = [] ->
            file.node.TellsAll (lex source filename).significant))
      ∧ ∀ decl, (parseDeclWithin limit source filename).tree = some decl ->
        decl.view.ShowsSome (lex source filename).significant
          ∧ ((parseDeclWithin limit source filename).diagnostics = [] ->
              decl.view.TellsAll (lex source filename).significant) :=
  ⟨fun _ returned => accounts_of_returned_file returned,
    fun _ returned => accounts_of_returned_decl returned⟩

/-- A channel that only receives, with a qualified element type and a value. -/
theorem parse_accounts_for_text_channel :
    (∃ file, (parseFileWithin 9 "package p\nvar c <-chan q.T = d" none).tree = some file
        ∧ file.node.TellsAll (lex "package p\nvar c <-chan q.T = d" none).significant)
      ∧ ∃ decl, (parseDeclWithin 9 "var c <-chan q.T = d" none).tree = some decl
        ∧ decl.view.TellsAll (lex "var c <-chan q.T = d" none).significant := by
  have fileIsSome : (parseFileWithin 9 "package p\nvar c <-chan q.T = d" none).tree.isSome := by
    decide +kernel
  have fileIsClean :
      (parseFileWithin 9 "package p\nvar c <-chan q.T = d" none).diagnostics = [] := by
    decide +kernel
  have declIsSome : (parseDeclWithin 9 "var c <-chan q.T = d" none).tree.isSome := by
    decide +kernel
  have declIsClean : (parseDeclWithin 9 "var c <-chan q.T = d" none).diagnostics = [] := by
    decide +kernel
  obtain ⟨file, fileReturned⟩ := Option.isSome_iff_exists.1 fileIsSome
  obtain ⟨decl, declReturned⟩ := Option.isSome_iff_exists.1 declIsSome
  exact ⟨⟨file, fileReturned, ((parse_accounts_for_text _ _ _).1 file fileReturned).2 fileIsClean⟩,
    ⟨decl, declReturned, ((parse_accounts_for_text _ _ _).2 decl declReturned).2 declIsClean⟩⟩

end GoFront
