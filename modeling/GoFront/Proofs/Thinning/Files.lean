import GoFront.Proofs.Forms.Closers
import GoFront.Proofs.Forms.Files
import GoFront.Proofs.Places.Layout
import GoFront.Proofs.Reading.EntryPoints
import GoFront.Proofs.Thinning.Declarations
import GoFront.Proofs.Thinning.Statements
import Mathlib.Data.Finset.Basic
import Mathlib.Data.List.FinRange

/-!
# Optional separators

A semicolon in front of a closing parenthesis or brace says nothing, unless it is a statement itself, and
neither does a comma in front of the bracket that closes arguments, elements, parameters or type parameters.
A file that is read without complaints is read as the same file if any of them are left out. Which lexemes
are meant is told by their numbers, since the places that positions can show come to an end.
-/

namespace GoFront

open Production (Parses FileParts)

variable {P : Type} {thinning : Thinning P} {allowance : Nat}

/-- Nothing is read without errors that reports one. -/
theorem Production.not_parses_report
    {limit : Nat}
    {cause : SyntaxCause}
    {state : ReadState P}
    {final : Cursor P}
    (parses : Parses limit (Production.report cause) state () final) :
    False := by
  obtain ⟨_, run⟩ := parses
  have sameErrors := congrArg (List.length ∘ ReadState.errors) (Outcome.done.inj run).2
  simp [ReadState.record, ReadState.moveTo] at sameErrors

/-! ## Files in thinned texts -/

namespace Production.FileParts

/-- The trees that a file is made of. -/
def trees (parts : FileParts P) : List ((slot : Slot) × Tree P slot) :=
  (parts.imports.map fun decl => ⟨_, decl⟩) ++ parts.decls.map fun decl => ⟨_, decl⟩

/-- A tree occurs in one of the trees that a file is made of. -/
def Has
    {slot : Slot}
    (parts : FileParts P)
    (node : Tree P slot) : Prop :=
  ∃ tree ∈ parts.trees, Tree.Occurs node tree.2

end Production.FileParts

namespace Holding

/-- The trees of a file have a property everywhere. -/
@[simp] def file : Holding P (FileParts P) := fun property parts =>
  list tree property parts.imports ∧ list tree property parts.decls

/-- Whatever occurs in a file has a property. -/
theorem file_iff {property : PhraseProperty P} {parts : FileParts P} :
    file property parts
      ↔ ∀ {slot : Slot} {node : Tree P slot}, parts.Has node -> property.holds node := by
  constructor
  · rintro ⟨imports, decls⟩ slot node ⟨tree, isPart, occurs⟩
    rcases List.mem_append.1 isPart with isImport | isDecl
    · obtain ⟨decl, member, rfl⟩ := List.mem_map.1 isImport
      exact (imports decl member).of_occurs occurs
    · obtain ⟨decl, member, rfl⟩ := List.mem_map.1 isDecl
      exact (decls decl member).of_occurs occurs
  · intro each
    refine ⟨fun decl isImport => ⟨fun occurs => each ⟨⟨_, decl⟩, ?_, occurs⟩⟩,
      fun decl isDecl => ⟨fun occurs => each ⟨⟨_, decl⟩, ?_, occurs⟩⟩⟩
    · exact List.mem_append_left _ (List.mem_map.2 ⟨decl, isImport, rfl⟩)
    · exact List.mem_append_right _ (List.mem_map.2 ⟨decl, isDecl, rfl⟩)

end Holding

/-- The end of a text is the end of the thinned text. -/
theorem Thinning.Thinner.atEnd_iff
    {state thinned : ReadState P}
    (thinner : thinning.Thinner state thinned) :
    thinned.cursor.token = .eof ↔ state.cursor.token = .eof := by
  rcases thinner.tokens with isSame | isOptional
  · rw [isSame]
  · have isSeparator := Token.isSeparator_of_isOptionalBefore isOptional
    have isCloser := Token.isCloser_of_isOptionalBefore isOptional
    refine iff_of_false (fun atEnd => ?_) fun atEnd => ?_
    · rw [atEnd] at isCloser
      cases isCloser
    · rw [atEnd] at isSeparator
      cases isSeparator

namespace ThinsNonterminals

variable (thins : ThinsNonterminals thinning allowance)

include thins

/-- A file is read of a thinned text as of the whole one. -/
theorem file : Thins thinning allowance NoParts Production.file (.of .file) := by
  have package : Thins thinning allowance NoParts (Production.packageClause (P := P)) (.of .nothing) :=
    .skip (.mark rfl (by decide)) fun keyword => .skip .ident fun name => .skip .semicolon fun _ =>
      .pure fun _ => .rfl
  refine .bind (.recovering package) fun package => .bind (.resuming (fun thinner => .inl ?_)
    (fun _ => trivial) (thins.specDecl .imports)) fun imports => .bind (.resuming (fun thinner => .inl ?_)
      (fun _ => trivial) thins.decl) fun decls => .pure fun property => ?_
  · rw [decide_eq_decide]
    exact thinner.token_eq_iff rfl
  · rw [decide_eq_decide]
    exact not_congr thinner.atEnd_iff
  · simp

/-- So is a single declaration. -/
theorem singleDecl : Thins thinning allowance NoParts Production.singleDecl (.of .tree) := by
  have behind (decl : Decl P) : Thins thinning allowance (fun property => decl.Everywhere property)
      (Production.look.bind fun cursor =>
        if cursor.token = .eof then .pure decl
        else (Production.report (.trailing cursor.token)).bind fun _ => .pure decl) (.of .tree) := by
    intro state
    refine .look fun thinned thinner => .choice thinner.atEnd_iff (fun _ => .pure fun _ => .rfl) ?_
    intro noEnd
    refine .of_not_parses fun _ value final parses => ?_
    obtain ⟨_, _, reported, -⟩ := Production.parses_bind.1 parses
    exact Production.not_parses_report reported
  exact .look_token rfl (.bind_all (thins.specifiedDecl .imports) behind) (.bind_all thins.decl behind)

end ThinsNonterminals

/-! ## Whole texts -/

/-- What a production reads of a text without errors, it reads of the thinned text. -/
theorem Thins.readFrom
    {α : Type}
    {production : Production P α}
    {holds : Holding P α}
    {value : α}
    {stop : P}
    {final : ReadState P}
    (thins : Thins thinning (Production.allowance thinning.text.length) NoParts production (.of holds))
    (run : production.readFrom thinning.limit thinning.text stop = .done value final)
    (clean : final.errors = []) :
    holds thinning.attested value
      ∧ (holds thinning.Spares value -> ∃ last, Parses thinning.limit production
        (.start (thinning.text.filter thinning.kept) stop) value last) := by
  rw [Production.readFrom_eq_run] at run
  obtain ⟨taken, reaches⟩ := Machine.reaches_of_done run
  obtain ⟨attested, reads⟩ := (thins _).of_run List.suffix_rfl
    ⟨fun lexeme member => thinning.regular lexeme member, run, reaches, clean⟩ trivial
  refine ⟨attested, fun spared => ?_⟩
  obtain ⟨-, reads⟩ := reads spared trivial
  obtain ⟨_, last, parses, rfl, -⟩ := reads (.start (thinning.text.filter thinning.kept) stop)
    ⟨List.suffix_rfl, rfl, rfl, rfl⟩
  exact ⟨last, parses⟩

namespace Thinning

/-- What is read of a text of which nothing is left out has a property that is attested where it must be. -/
def witnessing
    (limit : Nat)
    {text : List (Lexeme P)}
    (regular : ∀ lexeme ∈ text, lexeme.Regular)
    (attested : PhraseProperty P)
    (attests : ∀ {slot : Slot} (tree : Tree P slot), tree.isWitnessed = false -> attested.holds tree)
    (attests_params : ∀ {variadic : Bool} {state : ReadState P} {tree : Tree P (.one .params)}
      {final : Cursor P}, state.cursor.ahead <:+ text ->
        Parses limit (Production.params variadic) state tree final -> attested.holds tree)
    (attests_commCase : ∀ {keyword : Mark P} {state : ReadState P} {stmt : SimpleStmt P} {final : Cursor P},
      state.cursor.ahead <:+ text ->
        Parses limit Production.communication state stmt final -> attested.holds (.commCase keyword stmt)) :
    Thinning P where
  text := text
  kept _ := true
  limit := limit
  attested := attested
  regular := regular
  isOptional _ isLost := absurd isLost (by decide)
  attests := attests
  attests_params := attests_params
  attests_commCase := attests_commCase

variable (thinning : Thinning Position) {source : String} {filename : Option String}

/-- What is attested holds of every phrase of a file that is read without complaints. -/
theorem holds_of_file
    {slot : Slot}
    {file : File Position}
    {node : Tree Position slot}
    (isText : thinning.text = (lex source filename).significant)
    (accepted : (parseFileWithin thinning.limit source filename).Accepts file)
    (has : file.Has node) :
    thinning.attested.holds node := by
  obtain ⟨-, parts, final, run, clean, finished⟩ := Parsed.accepts_ofLexed_iff.1 accepted
  obtain ⟨package, -, rfl⟩ := Option.map_eq_some_iff.1 finished
  rw [← isText] at run
  obtain ⟨imports, decls⟩ := ((thinsNonterminals thinning _).file.readFrom run clean).1
  exact has.elim (Tree.everywhere_ofList.2 imports).of_occurs (Tree.everywhere_ofList.2 decls).of_occurs

/-- What is attested holds of every phrase of a declaration that is read without complaints. -/
theorem holds_of_decl
    {slot : Slot}
    {decl : Decl Position}
    {node : Tree Position slot}
    (isText : thinning.text = (lex source filename).significant)
    (accepted : (parseDeclWithin thinning.limit source filename).Accepts decl)
    (occurs : Tree.Occurs node decl) :
    thinning.attested.holds node := by
  obtain ⟨-, value, final, run, clean, finished⟩ := Parsed.accepts_ofLexed_iff.1 accepted
  obtain rfl := Option.some.inj finished
  rw [← isText] at run
  exact (((thinsNonterminals thinning _).singleDecl.readFrom run clean).1).of_occurs occurs

end Thinning

/-- A file that can be read is read on the allowance for its lexemes. -/
theorem Production.readFrom_file_of_parses
    {limit : Nat}
    {lexemes : List (Lexeme P)}
    {stop : P}
    {parts : FileParts P}
    {last : Cursor P}
    (regular : ∀ lexeme ∈ lexemes, lexeme.Regular)
    (parses : Parses limit Production.file (.start lexemes stop) parts last) :
    Production.file.readFrom limit lexemes stop
      = .done parts ((ReadState.start lexemes stop).moveTo last) := by
  obtain ⟨_, run⟩ := parses
  have ends : Production.file.readFrom limit lexemes stop ≠ .exhausted :=
    Production.readFrom_ne_exhausted (readsNonterminals limit _).file (by omega) regular
  exact run_eq_of_ends FileParts.map_id Mirrors.file run nofun ends

/-! ## Numbered lexemes -/

section Numbers

variable {contents : List (Token × Option String)}

/-- A lexeme stands at its number. -/
theorem pos_of_numbered
    {number : Nat}
    {lexeme : Lexeme (Fin (contents.length + 1))}
    (isLexeme : (numbered contents)[number]? = some lexeme) :
    lexeme.pos.val = number := by
  obtain ⟨inside, rfl⟩ := List.getElem?_eq_some_iff.1 isLexeme
  simp [numbered]

/-- No two lexemes have the same number. -/
theorem nodup_numbered (contents : List (Token × Option String)) :
    ((numbered contents).map Lexeme.pos).Nodup := by
  rw [numbered, List.map_ofFn]
  exact List.nodup_ofFn.2 (Fin.castSucc_injective _)

/-- Behind a lexeme comes the one with the next number. -/
theorem head?_behind_numbered
    {lexeme : Lexeme (Fin (contents.length + 1))}
    {behind : List (Lexeme (Fin (contents.length + 1)))}
    (isSuffix : lexeme :: behind <:+ numbered contents) :
    (numbered contents)[lexeme.pos.val]? = some lexeme
      ∧ behind.head? = (numbered contents)[lexeme.pos.val + 1]? := by
  obtain ⟨front, isWhole⟩ := isSuffix
  have here : (numbered contents)[front.length]? = some lexeme := by
    simp [← isWhole]
  rw [pos_of_numbered here]
  refine ⟨here, ?_⟩
  rw [← isWhole, List.getElem?_append_right (Nat.le_add_right _ 1), Nat.add_sub_cancel_left,
    List.getElem?_cons_succ, List.head?_eq_getElem?]

end Numbers

namespace Lexed

/-- The lexemes of a text other than comments, each at its number. -/
def numbers (lexed : Lexed P) :
    List (Lexeme (Fin ((lexed.significant.map Lexeme.content).length + 1))) :=
  numbered (lexed.significant.map Lexeme.content)

/-- A text without comments and without the lexemes that have the given numbers among the others. -/
def without
    (lexed : Lexed P)
    (lost : Finset Nat) : Lexed P :=
  { lexed with
    lexemes := (lexed.significant.zipIdx.filter fun lexeme => lexeme.2 ∉ lost).map Prod.fst }

variable {lexed : Lexed P}

theorem not_isComment_of_mem_significant
    {lexeme : Lexeme P}
    (member : lexeme ∈ lexed.significant) :
    lexeme.token.isComment = false := by
  simpa using (List.mem_filter.1 member).2

/-- The lexemes that are left are those at numbers that are not lost. -/
theorem significant_without (lexed : Lexed P) (lost : Finset Nat) :
    (lexed.without lost).significant
      = (lexed.numbers.filter fun lexeme => lexeme.pos.val ∉ lost).map (Lexeme.map lexed.placeOf) := by
  have noComments : (lexed.without lost).significant = (lexed.without lost).lexemes := by
    refine List.filter_eq_self.2 fun lexeme member => ?_
    obtain ⟨numbered, isLeft, rfl⟩ := List.mem_map.1 member
    have isMember := (List.mem_zipIdx (List.mem_of_mem_filter isLeft)).2.2
    simp [not_isComment_of_mem_significant (isMember ▸ List.getElem_mem _)]
  have paired : lexed.significant.zipIdx
      = lexed.numbers.map fun lexeme => (lexeme.map lexed.placeOf, lexeme.pos.val) := by
    refine List.ext_getElem (by simp [numbers, numbered]) fun number inside _ => ?_
    have inside : number < lexed.significant.length := by simpa using inside
    simp [numbers, numbered, placeOf, Lexeme.map, Lexeme.content, inside]
  rw [noComments, without, paired, List.filter_map, List.map_map]
  rfl

end Lexed

/-! ## What can be left out -/

namespace Production.FileParts

/-- A file can lose a separator in front of a closing token: a semicolon that is no statement, in front of a
parenthesis or a brace, and a comma in front of the bracket that closes arguments, elements, parameters or
type parameters. -/
def CanLose
    (parts : FileParts P)
    (lost closer : Lexeme P) : Prop :=
  (lost.token = .semi ∧ (closer.token = .rParen ∨ closer.token = .rBrace)
      ∧ ¬ parts.Has (Tree.emptyStmt lost.pos))
    ∨ (lost.token = .comma ∧ closer.token.isCloser = true
      ∧ ∃ (slot : Slot) (list : Tree P slot) (bracket : Mark P),
        parts.Has list ∧ list.listCloser? = some bracket ∧ bracket.pos = closer.pos)

theorem CanLose.isOptional
    {parts : FileParts P}
    {lost closer : Lexeme P}
    (canLose : parts.CanLose lost closer) :
    lost.token.isOptionalBefore closer.token = true := by
  rcases canLose with ⟨isSemi, closes | closes, -⟩ | ⟨isComma, isCloser, -⟩
  · rw [isSemi, closes]
    rfl
  · rw [isSemi, closes]
    rfl
  · rw [isComma]
    rcases Token.eq_or_eq_or_eq_of_isCloser isCloser with closes | closes | closes <;> rw [closes] <;> rfl

/-- A bracket of a file closes one list only. -/
theorem eq_of_closer
    {parts : FileParts P}
    {inner middle : Slot}
    {node : Tree P inner}
    {other : Tree P middle}
    {bracket otherBracket : Mark P}
    (nodup : (parts.trees.flatMap fun tree => tree.2.places).Nodup)
    (has : parts.Has node)
    (hasOther : parts.Has other)
    (closes : node.closer? = some bracket)
    (otherCloses : other.closer? = some otherBracket)
    (same : bracket.pos = otherBracket.pos) :
    (⟨inner, node⟩ : (slot : Slot) × Tree P slot) = ⟨middle, other⟩ := by
  obtain ⟨tree, isPart, occurs⟩ := has
  obtain ⟨otherTree, isOther, otherOccurs⟩ := hasOther
  obtain rfl := Tree.eq_of_mem_places nodup isPart isOther
    (Tree.places_subset_of_occurs occurs (Tree.mem_places_of_closer closes))
    (Tree.places_subset_of_occurs otherOccurs (same ▸ Tree.mem_places_of_closer otherCloses))
  exact Tree.eq_of_closer ((List.nodup_flatMap.1 nodup).1 _ isPart) occurs otherOccurs closes otherCloses
    same

/-- The leaves of a file that is read of lexemes at different places stand at different places. -/
theorem nodup_places
    {limit : Nat}
    {lexemes : List (Lexeme P)}
    {stop : P}
    {parts : FileParts P}
    {final : ReadState P}
    (regular : ∀ lexeme ∈ lexemes, lexeme.Regular)
    (nodup : (lexemes.map Lexeme.pos).Nodup)
    (run : Production.file.readFrom limit lexemes stop = .done parts final) :
    (parts.trees.flatMap fun tree => tree.2.places).Nodup := by
  rw [Production.readFrom_eq_run] at run
  have leaves := (Production.accounts_of_run (readsNonterminals limit _).file regular run).1
  refine (nodup.sublist (leaves.map Lexeme.pos)).sublist ?_
  have ofDecls {phrase : Phrase} (decls : List (Tree P (.one phrase))) :
      (decls.map fun decl => (⟨_, decl⟩ : (slot : Slot) × Tree P slot)).flatMap (fun tree => tree.2.places)
        = (Mention.leaves (decls.flatMap Tree.outline)).map Lexeme.pos := by
    induction decls with
    | nil => rfl
    | cons decl decls inductionHypothesis =>
        rw [List.map_cons, List.flatMap_cons, List.flatMap_cons, Mention.leaves_append, List.map_append,
          inductionHypothesis]
        rfl
  rw [trees, List.flatMap_append, ofDecls, ofDecls, FileParts.outline, Mention.leaves_append,
    Mention.leaves_append, List.map_append, List.map_append]
  exact List.sublist_append_right _ _

end Production.FileParts

section Losing

variable {contents : List (Token × Option String)} {limit : Nat}
  {parts : FileParts (Fin (contents.length + 1))} {lost : Finset Nat}

/-- Each of the given numbers is that of a separator that a file can lose. -/
def Production.FileParts.CanLoseAll
    (parts : FileParts (Fin (contents.length + 1)))
    (lost : Finset Nat) : Prop :=
  ∀ number ∈ lost, ∃ lexeme closer, (numbered contents)[number]? = some lexeme
    ∧ (numbered contents)[number + 1]? = some closer ∧ parts.CanLose lexeme closer

theorem Production.FileParts.CanLoseAll.exists_behind
    (canLose : parts.CanLoseAll lost)
    {lexeme : Lexeme (Fin (contents.length + 1))}
    {behind : List (Lexeme (Fin (contents.length + 1)))}
    (isSuffix : lexeme :: behind <:+ numbered contents)
    (isLost : lexeme.pos.val ∈ lost) :
    ∃ closer rest, behind = closer :: rest ∧ parts.CanLose lexeme closer := by
  obtain ⟨here, next⟩ := head?_behind_numbered isSuffix
  obtain ⟨_, closer, isLexeme, isNext, loses⟩ := canLose _ isLost
  obtain rfl := Option.some.inj (here.symm.trans isLexeme)
  obtain ⟨rest, rfl⟩ := List.head?_eq_some_iff.1 (next.trans isNext)
  exact ⟨closer, rest, rfl, loses⟩

/-- The text without the lexemes with the given numbers. -/
def Thinning.losing
    (limit : Nat)
    (regular : ∀ lexeme ∈ numbered contents, lexeme.Regular)
    (canLose : parts.CanLoseAll lost) :
    Thinning (Fin (contents.length + 1)) where
  text := numbered contents
  kept lexeme := lexeme.pos.val ∉ lost
  limit := limit
  attested := ⟨fun _ _ => True, fun _ _ => trivial⟩
  regular := regular
  isOptional := by
    intro lexeme behind isSuffix isLost
    obtain ⟨closer, rest, isNext, loses⟩ := canLose.exists_behind isSuffix (by simpa using isLost)
    exact ⟨closer, rest, isNext, loses.isOptional⟩
  attests _ _ := trivial
  attests_params _ _ := trivial
  attests_commCase _ _ := trivial

theorem Thinning.kept_losing
    {regular : ∀ lexeme ∈ numbered contents, lexeme.Regular}
    {canLose : parts.CanLoseAll lost}
    {lexeme : Lexeme (Fin (contents.length + 1))} :
    (Thinning.losing limit regular canLose).kept lexeme = true ↔ lexeme.pos.val ∉ lost :=
  decide_eq_true_iff

/-- A file spares what it can lose. -/
theorem Production.FileParts.CanLoseAll.spares
    (regular : ∀ lexeme ∈ numbered contents, lexeme.Regular)
    (nodup : (parts.trees.flatMap fun tree => tree.2.places).Nodup)
    (canLose : parts.CanLoseAll lost) :
    Holding.file (Thinning.losing limit regular canLose).Spares parts := by
  refine Holding.file_iff.2 fun {slot node} has => ?_
  cases node with
  | emptyStmt pos =>
      rintro lexeme member isSemi rfl
      refine Thinning.kept_losing.2 fun isLost => ?_
      obtain ⟨front, behind, isWhole⟩ := List.append_of_mem member
      obtain ⟨closer, rest, -, loses⟩ := canLose.exists_behind ⟨front, isWhole.symm⟩ isLost
      rcases loses with ⟨-, -, noStmt⟩ | ⟨isComma, -⟩
      · exact noStmt has
      · exact nomatch isSemi.symm.trans isComma
  | typeArgs lBrack types rBrack =>
      intro lexeme closer behind isSuffix isComma isBrack samePos
      refine Thinning.kept_losing.2 fun isLost => ?_
      obtain ⟨_, _, isNext, loses⟩ := canLose.exists_behind isSuffix isLost
      obtain ⟨rfl, rfl⟩ := List.cons.inj isNext
      rcases loses with ⟨isSemi, -⟩ | ⟨-, -, kind, list, bracket, hasList, closes, isHere⟩
      · exact nomatch isComma.symm.trans isSemi
      · have listCloses : list.closer? = some bracket := Tree.closer?_of_listCloser? closes
        have sameNode := eq_of_closer nodup has hasList rfl listCloses (samePos.symm.trans isHere.symm)
        cases sameNode
        cases closes
  | _ => trivial

/-! ## Reading what is left -/

/-- What is left of the text of a file is read as that file. -/
theorem Production.FileParts.CanLoseAll.readFrom
    {final : ReadState (Fin (contents.length + 1))}
    (regular : ∀ lexeme ∈ numbered contents, lexeme.Regular)
    (canLose : parts.CanLoseAll lost)
    (run : Production.file.readFrom limit (numbered contents) (Fin.last _) = .done parts final)
    (clean : final.errors = []) :
    ∃ last : ReadState (Fin (contents.length + 1)), last.errors = []
      ∧ Production.file.readFrom limit ((numbered contents).filter fun lexeme => lexeme.pos.val ∉ lost)
        (Fin.last _) = .done parts last := by
  have spares : Holding.file (Thinning.losing limit regular canLose).Spares parts :=
    canLose.spares regular (nodup_places regular (nodup_numbered contents) run)
  obtain ⟨last, parses⟩ :=
    ((thinsNonterminals (.losing limit regular canLose) _).file.readFrom run clean).2 spares
  refine ⟨_, rfl, Production.readFrom_file_of_parses (fun lexeme member => ?_) parses⟩
  exact regular lexeme (List.mem_of_mem_filter member)

end Losing

/-- What is left of a file is read as that file, without complaints. -/
theorem Lexed.accepts_without
    {limit : Nat}
    {lexed : Lexed Position}
    {finish : FileParts Position -> Option (File Position)}
    {file : File Position}
    {parts : FileParts (Fin _)}
    {final : ReadState (Fin _)}
    {lost : Finset Nat}
    (noErrors : lexed.errors = [])
    (regular : ∀ lexeme ∈ lexed.significant, lexeme.Regular)
    (run : Production.file.readFrom limit lexed.numbers (Fin.last _) = .done parts final)
    (clean : final.errors = [])
    (finished : finish (parts.map lexed.placeOf) = some file)
    (canLose : parts.CanLoseAll lost) :
    (Parsed.ofLexed limit Production.file finish (lexed.without lost)).Accepts file := by
  obtain ⟨last, lastClean, thinnedRun⟩ := canLose.readFrom (regular_of_mem_numbered rfl regular) run clean
  obtain ⟨_, moved, movedClean⟩ :=
    exists_readFrom_map lexed.placeOf Mirrors.file thinnedRun lastClean
  refine Parsed.accepts_ofLexed_iff.2 ⟨noErrors, _, _, ?_, movedClean, finished⟩
  rwa [Lexed.placeOf_last rfl, ← Lexed.numbers, ← Lexed.significant_without] at moved

/-- Texts that say the same are accepted as the same file, but for the places. -/
theorem Parsed.Accepts.exists_of_same
    {limit : Nat}
    {source : String}
    {filename name : Option String}
    {lexed : Lexed Position}
    {comments : List (Comment Position)}
    {file : File Position}
    (accepted : (ofLexed limit Production.file (FileParts.file? name comments) lexed).Accepts file)
    (noErrors : (lex source filename).errors = [])
    (same : (lex source filename).significant.map Lexeme.content = lexed.significant.map Lexeme.content) :
    ∃ other, (parseFileWithin limit source filename).Accepts other ∧ other.bare = file.bare := by
  have regular := regular_of_mem_numbered same (regular_of_mem_significant source filename)
  have agrees : Agrees File.bare lexed (lex source filename)
      (ofLexed limit Production.file (FileParts.file? name comments) lexed)
      (parseFileWithin limit source filename) :=
    agrees_ofLexed (accepts_ofLexed_iff.1 accepted).1 noErrors rfl same MirrorsNumbers.file
      (Production.readFrom_ne_exhausted (readsNonterminals limit _).file (by omega) regular)
      fun parts place place' => by rw [FileParts.file?_bare, FileParts.file?_bare]
  obtain ⟨sameTree, sameDiagnostics⟩ := agrees
  rw [accepted.returned] at sameTree
  rw [accepted.noDiagnostics, List.forall₂_nil_left_iff] at sameDiagnostics
  obtain ⟨other, returned, sameBare⟩ := Option.map_eq_some_iff.1 sameTree.symm
  exact ⟨other, ⟨returned, sameDiagnostics⟩, sameBare⟩

/-- Optional separators are invisible. A file that is read without complaints may lose any semicolons that
stand directly in front of a closing parenthesis or brace and are no statements, and any commas that stand
directly in front of the bracket that closes the arguments of a call, the elements of a composite literal,
parameters or type parameters. What is left of its lexemes is read as the same file without complaints, and
so, but for the places, is every text that says what is left. -/
theorem optional_separators_are_invisible
    (limit : Nat)
    (source : String)
    (filename : Option String)
    (file : File Position)
    (accepted : (parseFileWithin limit source filename).Accepts file) :
    ∃ (parts : FileParts (Fin _)) (final : ReadState (Fin _)),
      Production.file.readFrom limit (lex source filename).numbers (Fin.last _) = .done parts final
        ∧ (parts.map (lex source filename).placeOf).file? filename
          ((lex source filename).comments.map Comment.ofLexeme) = some file
        ∧ ∀ lost : Finset Nat, parts.CanLoseAll lost ->
          (Parsed.ofLexed limit Production.file
              (FileParts.file? filename ((lex source filename).comments.map Comment.ofLexeme))
              ((lex source filename).without lost)).Accepts file
            ∧ ∀ (other : String) (otherName : Option String), (lex other otherName).errors = [] ->
              (lex other otherName).significant.map Lexeme.content
                  = ((lex source filename).without lost).significant.map Lexeme.content ->
                ∃ otherFile, (parseFileWithin limit other otherName).Accepts otherFile
                  ∧ otherFile.bare = file.bare := by
  have regular := regular_of_mem_significant source filename
  have noErrors := (Parsed.accepts_ofLexed_iff.1 accepted).1
  obtain ⟨parts, final, run, clean, finished⟩ := accepted.exists_numbered rfl MirrorsNumbers.file
    (Production.readFrom_ne_exhausted (readsNonterminals limit _).file (by omega)
      (regular_of_mem_numbered rfl regular))
  refine ⟨parts, final, run, finished, fun lost canLose => ?_⟩
  have acceptsRest := Lexed.accepts_without noErrors regular run clean finished canLose
  exact ⟨acceptsRest, fun other otherName otherNoErrors same =>
    acceptsRest.exists_of_same otherNoErrors same⟩

/-- A type loses the comma behind its type parameter and the semicolon behind its field. -/
theorem optional_separators_are_invisible_type :
    ∃ file, (parseFileWithin 9 "package p\ntype T[A any,] struct \x7b a A; \x7d" none).Accepts file
      ∧ ∃ other, (parseFileWithin 9 "package p\ntype T[A any] struct \x7b a A \x7d" none).Accepts other
        ∧ other.bare = file.bare := by
  have isSome : (parseFileWithin 9 "package p\ntype T[A any,] struct \x7b a A; \x7d" none).tree.isSome := by
    decide +kernel
  have noDiagnostics :
      (parseFileWithin 9 "package p\ntype T[A any,] struct \x7b a A; \x7d" none).diagnostics = [] := by
    decide +kernel
  obtain ⟨file, returned⟩ := Option.isSome_iff_exists.1 isSome
  obtain ⟨parts, final, run, -, loses⟩ :=
    optional_separators_are_invisible 9 _ none file ⟨returned, noDiagnostics⟩
  have canLose : parts.CanLoseAll {8, 14} := by
    obtain ⟨package, last, read⟩ : ∃ package last, Production.file.readFrom 9
        (lex "package p\ntype T[A any,] struct \x7b a A; \x7d" none).numbers (Fin.last _)
          = .done ⟨some package, [], [.specified .types (.specDecl .types ⟨.kwType, 3⟩ (.typeSpecOf
            (.typeDef ⟨"T", 4⟩
              (.present (.typeParams ⟨.lBrack, 5⟩ (.cons (.typeParam [⟨"A", 6⟩]
                (.typeElem (.cons (.exactTerm (.namedType (.typeName none ⟨"any", 7⟩ .absent))) .nil)))
                  .nil) ⟨.rBrack, 9⟩))
              (.structType ⟨.kwStruct, 10⟩ ⟨.lBrace, 11⟩ (.cons (.namedField [⟨"a", 12⟩]
                (.namedType (.typeName none ⟨"A", 13⟩ .absent)) none) .nil) ⟨.rBrace, 15⟩))))]⟩ last :=
      ⟨_, _, rfl⟩
    obtain ⟨rfl, -⟩ := Outcome.done.inj (run.symm.trans read)
    intro number isLost
    obtain rfl | rfl : number = 8 ∨ number = 14 := by simpa using isLost
    · refine ⟨⟨.comma, 8, none⟩, ⟨.rBrack, 9, none⟩, rfl, rfl, .inr ⟨rfl, rfl, ?_⟩⟩
      exact ⟨_, _, _, ⟨_, List.mem_cons_self, .inside (.head _) (.inside (.head _) (.inside (.head _)
        (.inside (.head _) (.inside (.head _) (.refl _)))))⟩, rfl, rfl⟩
    · refine ⟨⟨.semi, 14, none⟩, ⟨.rBrace, 15, none⟩, rfl, rfl, .inl ⟨rfl, .inr rfl, fun has => ?_⟩⟩
      -- nothing in the file tells of more than its parts, but an empty statement does
      obtain ⟨tree, isPart, occurs⟩ := has
      have plain (property : PhraseProperty (Fin _)) : tree.2.Everywhere property := by
        rw [List.mem_singleton.1 isPart]
        repeat' first
          | exact Tree.everywhere_nil
          | exact Tree.everywhere_absent
          | refine (Tree.everywhere_iff rfl).2 ?_
          | refine And.intro ?_ ?_
      have ordinary := plain ⟨fun _ tree => tree.isTelling = false, fun _ ordinary => ordinary⟩
      exact Bool.noConfusion (ordinary.of_occurs occurs)
  refine ⟨file, ⟨returned, noDiagnostics⟩, (loses _ canLose).2 _ none ?_ ?_⟩
  · decide +kernel
  · decide +kernel

end GoFront
