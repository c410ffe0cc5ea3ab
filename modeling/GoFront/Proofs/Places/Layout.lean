import GoFront.Proofs.Places.Mirrors
import GoFront.Proofs.Progress.Runs
import Mathlib.Data.List.Forall2

/-!
# Layout is invisible

What the grammar makes of a text depends on the lexemes other than comments, on their tokens and on
their own texts. To compare two texts that agree in these, both are seen as moved copies of the same
lexemes, each of which stands at its number.
-/

namespace GoFront

variable {P : Type}

/-! ## Lexemes without places -/

/-- What a lexeme says, wherever it stands. -/
def Lexeme.content (lexeme : Lexeme P) : Token × Option String :=
  (lexeme.token, lexeme.literal)

/-- Lexemes that say what is given, each at its number. -/
def numbered (contents : List (Token × Option String)) :
    List (Lexeme (Fin (contents.length + 1))) :=
  List.ofFn fun number => ⟨contents[number].1, number.castSucc, contents[number].2⟩

namespace Lexed

/-- The lexemes that are no comments, with the end of the text behind them. -/
def code (lexed : Lexed P) : List (Lexeme P) :=
  lexed.stream.filter fun lexeme => !lexeme.token.isComment

/-- Where the lexeme with a number stands. -/
def placeOf
    (lexed : Lexed P)
    {count : Nat}
    (number : Fin count) : P :=
  (lexed.significant[number.val]?).elim lexed.stop Lexeme.pos

theorem code_eq (lexed : Lexed P) :
    lexed.code = lexed.significant ++ [⟨.eof, lexed.stop, none⟩] := by
  unfold code stream significant
  rw [List.filter_append]
  rfl

variable {lexed : Lexed P} {contents : List (Token × Option String)}

theorem map_numbered (same : lexed.significant.map Lexeme.content = contents) :
    (numbered contents).map (Lexeme.map lexed.placeOf)
      = lexed.significant := by
  subst same
  apply List.ext_getElem
  · simp [numbered]
  · intro number _ inside
    simp [numbered, placeOf, Lexeme.map, Lexeme.content, inside]

theorem placeOf_last (same : lexed.significant.map Lexeme.content = contents) :
    lexed.placeOf (Fin.last contents.length) = lexed.stop := by
  subst same
  simp [placeOf]

/-- Each number belongs to a lexeme. -/
theorem exists_of_number
    (same : lexed.significant.map Lexeme.content = contents)
    (number : Fin (contents.length + 1)) :
    ∃ lexeme, lexed.code[number.val]? = some lexeme ∧ lexeme.pos = lexed.placeOf number := by
  subst same
  rw [code_eq]
  cases number using Fin.lastCases with
  | last => exact ⟨⟨.eof, lexed.stop, none⟩, by simp, by rw [placeOf_last rfl]⟩
  | cast number =>
      have inside : number.val < lexed.significant.length := by simpa using number.isLt
      exact ⟨lexed.significant[number.val], by simp [List.getElem?_append_left, inside],
        by simp [placeOf, inside]⟩

theorem significant_content_of_code
    {Q : Type}
    {other : Lexed Q}
    (same : lexed.code.map Lexeme.content = other.code.map Lexeme.content) :
    lexed.significant.map Lexeme.content = other.significant.map Lexeme.content := by
  rw [code_eq, code_eq, List.map_append, List.map_append] at same
  exact List.append_cancel_right same

end Lexed

/-! ## Trees without places -/

/-- The same file without places, its name and its comments. -/
def File.bare (file : File P) : File Unit where
  filename := none
  package := file.package.map fun _ => ()
  imports := file.imports.map fun _ => ()
  decls := file.decls.map fun _ => ()
  comments := []

/-- The same tree without places. -/
def Tree.bare {slot : Slot} (tree : Tree P slot) : Tree Unit slot :=
  tree.map fun _ => ()

theorem Tree.bare_map
    {Q : Type}
    {slot : Slot}
    (move : P -> Q)
    (tree : Tree P slot) :
    (tree.map move).bare = tree.bare :=
  tree.map_map move fun _ => ()

/-- Without places, its name and its comments, a file is made of its parts alone. -/
theorem Production.FileParts.file?_bare
    {Q : Type}
    (move : P -> Q)
    (parts : FileParts P)
    (filename : Option String)
    (comments : List (Comment Q)) :
    ((parts.map move).file? filename comments).map File.bare
      = (parts.file? none []).map File.bare := by
  obtain ⟨package, imports, decls⟩ := parts
  cases package with
  | none => rfl
  | some package =>
      simp only [file?, FileParts.map, Option.map_some, File.bare, ← Tree.map_ofList, Tree.map_map]
      rfl

/-! ## Results that agree -/

/-- Two diagnostics of two texts say the same about lexemes with the same number. -/
structure Diagnostic.Matches
    (first second : Lexed Position)
    (diagnostic other : Diagnostic) : Prop where
  kindName : diagnostic.kindName = other.kindName
  message : diagnostic.message = other.message
  place : ∃ (number : Nat) (lexeme lexeme' : Lexeme Position),
    first.code[number]? = some lexeme ∧ second.code[number]? = some lexeme'
      ∧ diagnostic.pos = lexeme.pos ∧ other.pos = lexeme'.pos

/-- The results for two texts agree: the trees are the same once they are bare, or both are missing,
and the diagnostics match one by one. -/
structure Parsed.Agrees
    {α β : Type}
    (bare : α -> β)
    (first second : Lexed Position)
    (parsed other : Parsed α) : Prop where
  tree : parsed.tree.map bare = other.tree.map bare
  diagnostics : List.Forall₂ (Diagnostic.Matches first second) parsed.diagnostics other.diagnostics

/-- A comment shows a lexeme with its text. -/
structure Comment.Shows
    (comment : Comment Position)
    (lexeme : Lexeme Position) : Prop where
  token : comment.token = lexeme.token
  pos : comment.pos = lexeme.pos
  text : lexeme.literal = some comment.text

/-! ## Reading by numbers -/

section Numbers

variable {α β γ δ : Type} {limit : Nat} {contents : List (Token × Option String)}
  {lexed other : Lexed Position}
  {source : Production (Fin (contents.length + 1)) α}
  {production : Production Position β}
  {move : (Fin (contents.length + 1) -> Position) -> α -> β}

/-- The shift from numbers to places. -/
def Shift.ofNumbers (place : Fin (contents.length + 1) -> Position) :
    Shift (Fin (contents.length + 1)) Position :=
  ⟨place, 0, []⟩

/-- Every run on numbered lexemes is repeated wherever the lexemes stand. -/
def MirrorsNumbers
    (limit : Nat)
    (move : (Fin (contents.length + 1) -> Position) -> α -> β)
    (source : Production (Fin (contents.length + 1)) α)
    (production : Production Position β) : Prop :=
  ∀ place : Fin (contents.length + 1) -> Position,
    Mirrors (.ofNumbers place) limit (move place) source production

namespace MirrorsNumbers

theorem file :
    MirrorsNumbers limit Production.FileParts.map
      (Production.file (P := Fin (contents.length + 1))) .file :=
  fun _ => Mirrors.file

theorem singleDecl :
    MirrorsNumbers limit (fun place => Tree.map place)
      (Production.singleDecl (P := Fin (contents.length + 1))) .singleDecl :=
  fun _ => Mirrors.singleDecl

end MirrorsNumbers

/-- What is done with numbered lexemes is done with the lexemes of a text. -/
theorem Production.readFrom_mirrored
    (same : lexed.significant.map Lexeme.content = contents)
    (mirrors : MirrorsNumbers limit move source production) :
    Outcome.Mirrored (.ofNumbers lexed.placeOf)
      (move lexed.placeOf)
      (source.readFrom limit (numbered contents) (Fin.last _))
      (production.readFrom limit lexed.significant lexed.stop) := by
  have lengths : (numbered contents).length = lexed.significant.length := by
    rw [← Lexed.map_numbered same, List.length_map]
  have start : (Shift.ofNumbers lexed.placeOf).state (.start (numbered contents) (Fin.last _))
      = .start lexed.significant lexed.stop := by
    simp only [Shift.state, Shift.cursor, Shift.ofNumbers, ReadState.start, Cursor.start,
      Lexed.map_numbered same, Lexed.placeOf_last same]
    rfl
  rw [readFrom_eq_run, readFrom_eq_run, ← start, ← lengths]
  exact mirrors _ (Nat.le_refl _) _

/-- Errors at numbers match where two texts say the same. -/
theorem Diagnostic.matches_of_errors
    (same : lexed.significant.map Lexeme.content = contents)
    (otherSame : other.significant.map Lexeme.content = contents)
    (errors : List (SyntaxError (Fin (contents.length + 1)))) :
    List.Forall₂ (Matches lexed other)
      ((errors.map (SyntaxError.map lexed.placeOf) ++ []).reverse.map
        .grammatical)
      ((errors.map (SyntaxError.map other.placeOf) ++ []).reverse.map
        .grammatical) := by
  simp only [List.append_nil, ← List.map_reverse, List.map_map]
  rw [List.forall₂_map_left_iff, List.forall₂_map_right_iff, List.forall₂_same]
  intro error _
  obtain ⟨lexeme, atNumber, pos⟩ := Lexed.exists_of_number same error.pos
  obtain ⟨lexeme', atNumber', pos'⟩ := Lexed.exists_of_number otherSame error.pos
  exact ⟨rfl, rfl, error.pos, lexeme, lexeme', atNumber, atNumber', pos.symm, pos'.symm⟩

/-- Results agree where two texts without lexical errors say the same. -/
theorem Parsed.agrees_ofLexed
    {finish finish' : β -> Option γ}
    {bare : γ -> δ}
    (noErrors : lexed.errors = [])
    (otherNoErrors : other.errors = [])
    (same : lexed.significant.map Lexeme.content = contents)
    (otherSame : other.significant.map Lexeme.content = contents)
    (mirrors : MirrorsNumbers limit move source production)
    (ends : source.readFrom limit (numbered contents) (Fin.last _) ≠ .exhausted)
    (sameBare : ∀ value place place',
      (finish (move place value)).map bare = (finish' (move place' value)).map bare) :
    Agrees bare lexed other (ofLexed limit production finish lexed)
      (ofLexed limit production finish' other) := by
  have mirrored := Production.readFrom_mirrored same mirrors
  have otherMirrored := Production.readFrom_mirrored otherSame mirrors
  simp only [ofLexed, Lexed.hasErrors, noErrors, otherNoErrors]
  cases outcome : source.readFrom limit (numbered contents) (Fin.last _) with
  | exhausted => exact absurd outcome ends
  | done value state =>
      rw [outcome] at mirrored otherMirrored
      rw [mirrored, otherMirrored]
      exact ⟨sameBare value _ _, Diagnostic.matches_of_errors same otherSame state.errors⟩
  | gaveUp state =>
      rw [outcome] at mirrored otherMirrored
      rw [mirrored, otherMirrored]
      exact ⟨rfl, Diagnostic.matches_of_errors same otherSame state.errors⟩

/-- Numbered lexemes are regular if they say what the lexemes of a text say. -/
theorem regular_of_mem_numbered
    (same : lexed.significant.map Lexeme.content = contents)
    (regular : ∀ lexeme ∈ lexed.significant, lexeme.Regular) :
    ∀ lexeme ∈ numbered contents, lexeme.Regular := by
  intro lexeme member
  apply regular (lexeme.map lexed.placeOf)
  rw [← Lexed.map_numbered same]
  exact List.mem_map_of_mem member

end Numbers

/-! ## Comments -/

/-- A comment of a text keeps its text. -/
theorem literal_of_mem_comments
    {source : String}
    {filename : Option String}
    {lexeme : Lexeme Position}
    (member : lexeme ∈ (lex source filename).comments) :
    lexeme.literal = some lexeme.text := by
  obtain ⟨inText, isComment⟩ := List.mem_filter.1 member
  rw [lex_lexemes] at inText
  obtain ⟨entry, inEntries, rfl⟩ := List.mem_map.1 inText
  rcases Piece.cases_of_mem_entryStream inEntries with
    ⟨pos, rfl⟩ | ⟨piece, isPiece, token, pos, kindEq, rfl⟩
  · cases isComment
  · have isComment : token.isComment = true := isComment
    simp [Lexeme.text, Lexeme.map, Entry.ofToken, Piece.lexeme, isComment]

/-- The comments of a file are the comments of its text. -/
theorem comments_of_file
    {limit : Nat}
    {source : String}
    {filename : Option String}
    {file : File Position}
    (returned : (parseFileWithin limit source filename).tree = some file) :
    List.Forall₂ Comment.Shows file.comments (lex source filename).comments := by
  obtain ⟨parts, _, _, finished, _⟩ := Parsed.exists_of_ofLexed returned
  obtain ⟨package, _, rfl⟩ := Option.map_eq_some_iff.1 finished
  rw [List.forall₂_map_left_iff, List.forall₂_same]
  intro lexeme member
  exact ⟨rfl, rfl, literal_of_mem_comments member⟩

/-! ## Two texts -/

/-- Whatever stands between the lexemes of a text, and however the text is called, cannot be seen in
what it is read as: two texts without lexical errors whose lexemes other than comments say the same are
read as the same trees with the same complaints about the same lexemes. Only the comments of a file tell
of the comments in its text, of all of them in their order. -/
theorem layout_is_invisible
    (limit : Nat)
    (first second : String)
    (firstName secondName : Option String)
    (firstNoErrors : (lex first firstName).errors = [])
    (secondNoErrors : (lex second secondName).errors = [])
    (sameCode : (lex first firstName).code.map Lexeme.content
      = (lex second secondName).code.map Lexeme.content) :
    Parsed.Agrees File.bare (lex first firstName) (lex second secondName)
        (parseFileWithin limit first firstName) (parseFileWithin limit second secondName)
      ∧ Parsed.Agrees Tree.bare (lex first firstName) (lex second secondName)
        (parseDeclWithin limit first firstName) (parseDeclWithin limit second secondName)
      ∧ ∀ file, (parseFileWithin limit first firstName).tree = some file ->
        List.Forall₂ Comment.Shows file.comments (lex first firstName).comments := by
  have same := Lexed.significant_content_of_code sameCode
  have regular := regular_of_mem_numbered same
    (regular_of_mem_significant first firstName)
  refine ⟨?_, ?_, fun file => comments_of_file⟩
  · apply Parsed.agrees_ofLexed firstNoErrors secondNoErrors same rfl
    · exact MirrorsNumbers.file
    · exact Production.readFrom_ne_exhausted (readsNonterminals limit _).file (by omega) regular
    · intro parts place place'
      rw [Production.FileParts.file?_bare, Production.FileParts.file?_bare]
  · apply Parsed.agrees_ofLexed firstNoErrors secondNoErrors same rfl
    · exact MirrorsNumbers.singleDecl
    · exact Production.readFrom_ne_exhausted (readsNonterminals limit _).singleDecl (by omega)
        regular
    · intro decl place place'
      exact congrArg some ((Tree.bare_map _ _).trans (Tree.bare_map _ _).symm)

/-- Two texts with the same malformed declaration, one of them on lines with a comment, the other without
blanks where they can be left out and under a name. -/
theorem layout_is_invisible_lines :
    (lex "package p\n// c\nvar = 1\nvar y int" none).errors = []
      ∧ (lex "package p;var=1;var/**/y int" (some "q.go")).errors = []
      ∧ (lex "package p\n// c\nvar = 1\nvar y int" none).code.map Lexeme.content
        = (lex "package p;var=1;var/**/y int" (some "q.go")).code.map Lexeme.content
      ∧ Parsed.Agrees File.bare (lex "package p\n// c\nvar = 1\nvar y int" none)
        (lex "package p;var=1;var/**/y int" (some "q.go"))
        (parseFileWithin 9 "package p\n// c\nvar = 1\nvar y int" none)
        (parseFileWithin 9 "package p;var=1;var/**/y int" (some "q.go"))
      ∧ (parseFileWithin 9 "package p\n// c\nvar = 1\nvar y int" none).diagnostics.length = 1 := by
  have firstNoErrors : (lex "package p\n// c\nvar = 1\nvar y int" none).errors = [] := by
    decide +kernel
  have secondNoErrors : (lex "package p;var=1;var/**/y int" (some "q.go")).errors = [] := by
    decide +kernel
  have sameCode : (lex "package p\n// c\nvar = 1\nvar y int" none).code.map Lexeme.content
      = (lex "package p;var=1;var/**/y int" (some "q.go")).code.map Lexeme.content := by
    decide +kernel
  have agree := layout_is_invisible 9 _ _ _ _ firstNoErrors secondNoErrors sameCode
  exact ⟨firstNoErrors, secondNoErrors, sameCode, agree.1, by decide +kernel⟩

end GoFront
