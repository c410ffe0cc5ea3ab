import GoFront.Proofs.Lexing.SharedLines
import GoFront.Proofs.Reading.ArrayLengths

/-!
# Texts of arrays with computed lengths

What is read as the value of a variable and what is read as the type behind an alias are the length and
the element type of an array, if they stand in its text: they have the same lexemes there.
-/

namespace GoFront

/-! ## Declarations without places -/

section

variable {limit : Nat} {source : String} {filename : Option String}

theorem bareLexemes_eq_code (text : String) (filename : Option String) :
    bareLexemes text filename = Event.code (streamOf text.toList) := by
  rw [bareLexemes, Lexed.significant, (lex_eq_map text filename).1, filter_significant_map, List.map_map]
  rfl

/-- A declaration that is read without complaint is read without places as well. -/
theorem exists_parses_of_accepts
    {decl : Decl Position}
    (accepted : (parseDeclWithin limit source filename).Accepts decl) :
    ∃ final, Production.Parses limit
        (Production.declAt (ReadState.start (bareLexemes source filename) ()).cursor)
        (.start (bareLexemes source filename) ()) decl.bare final
      ∧ final.token = .eof := by
  obtain ⟨-, value, final, run, clean, isDecl⟩ := Parsed.accepts_ofLexed_iff.1 accepted
  obtain rfl := Option.some.inj isDecl
  obtain ⟨last, bareRun, bareClean⟩ := exists_readFrom_map (fun _ => ()) Mirrors.singleDecl run clean
  rw [Production.readFrom_eq_run] at bareRun
  obtain ⟨behind, declRun, atEnd, noErrors⟩ := Machine.run_singleDecl_iff.1 ⟨last, bareRun, bareClean⟩
  exact ⟨behind.cursor, .of_run declRun noErrors, atEnd⟩

/-- What is read without places up to the end is read without complaint. -/
theorem exists_accepts_of_parses
    {bareDecl : Decl Unit}
    {final : Cursor Unit}
    (noErrors : (lex source filename).errors = [])
    (parses : Production.Parses limit
      (Production.declAt (ReadState.start (bareLexemes source filename) ()).cursor)
      (.start (bareLexemes source filename) ()) bareDecl final)
    (atEnd : final.token = .eof) :
    ∃ decl, (parseDeclWithin limit source filename).Accepts decl ∧ decl.bare = bareDecl := by
  obtain ⟨allowance, run⟩ := parses
  obtain ⟨larger, enough, lasts⟩ : ∃ larger, allowance ≤ larger
      ∧ Production.allowance (lex source filename).significant.length ≤ larger :=
    ⟨_, Nat.le_max_left _ _, Nat.le_max_right _ _⟩
  obtain ⟨last, bareRun, clean⟩ := Machine.run_singleDecl_iff.2
    ⟨_, Production.Parses.run_of_le run enough, atEnd, rfl⟩
  have mirrors : Mirrors (Shift.bare (P := Position)) limit (Tree.map fun _ => ())
      Production.singleDecl Production.singleDecl := Mirrors.singleDecl
  have mirrored := mirrors lasts (.start (lex source filename).significant (lex source filename).stop)
  change Outcome.Mirrored Shift.bare _ (Production.singleDecl.readFrom limit _ _)
    ((ruleMachine limit larger).run .singleDecl (.start (bareLexemes source filename) ())) at mirrored
  rw [bareRun] at mirrored
  cases outcome : Production.singleDecl.readFrom limit (lex source filename).significant
      (lex source filename).stop with
  | exhausted =>
      exact absurd outcome (Production.readFrom_ne_exhausted (readsNonterminals limit _).singleDecl
        (by omega) (regular_of_mem_significant source filename))
  | gaveUp stopped =>
      rw [outcome] at mirrored
      cases mirrored
  | done decl read =>
      rw [outcome] at mirrored
      obtain ⟨rfl, rfl⟩ := Outcome.done.inj mirrored
      refine ⟨decl, Parsed.accepts_ofLexed_iff.2 ⟨noErrors, decl, read, outcome, ?_, rfl⟩, rfl⟩
      have noneMoved : read.errors.map _ ++ [] = [] := clean
      rwa [List.append_nil, List.map_eq_nil_iff] at noneMoved

end

/-! ## Openings -/

/-- A text that is an identifier: the characters of a word, which are not those of a keyword. -/
def IsIdentifier (text : String) : Prop :=
  ∃ first rest, text.toList = first :: rest ∧ Piece.startsWord first
    ∧ (∀ character ∈ rest, Piece.continuesWord character) ∧ Token.keyword? text = none

theorem isIdentifier_of_letter
    {text : String}
    {letter : Char}
    (textEq : text.toList = [letter])
    (starts : Piece.startsWord letter)
    (noKeyword : Token.keyword? text = none) : IsIdentifier text :=
  ⟨letter, [], textEq, starts, by simp, noKeyword⟩

namespace Piece

theorem all_cons_of_cut
    {kind : PieceKind}
    {first : Char}
    {tail back : List Char}
    (cutEq : cut first (tail ++ back) = ⟨kind, first :: tail⟩) :
    all (first :: (tail ++ back)) = ⟨kind, first :: tail⟩ :: all back := by
  rw [all_cons first (tail ++ back) tail back (by rw [cutEq]) rfl, cutEq]

/-- A word begins with no blank, and is cut as a word. -/
theorem cut_of_startsWord
    {first : Char}
    (rest : List Char)
    (starts : startsWord first) :
    isBlank first = false ∧ cut first rest = word (first :: rest.takeWhile continuesWord) := by
  have differs (other : Char) (notStart : startsWord other = false) : first ≠ other := by
    rintro rfl
    exact absurd starts (by simp [notStart])
  have notBlank : isBlank first = false := by
    simp [isBlank, differs ' ' (by decide), differs '\t' (by decide), differs '\r' (by decide)]
  refine ⟨notBlank, ?_⟩
  simp [cut, differs byteOrderMark (by decide +kernel), differs '\n' (by decide), notBlank,
    differs '/' (by decide), starts]

/-- An identifier between blanks is cut by itself. -/
theorem all_identifier
    {name : String}
    (isName : IsIdentifier name)
    (back : List Char) :
    all (' ' :: (name.toList ++ ' ' :: back))
      = ⟨.blank, [' ']⟩ :: ⟨.token .ident, name.toList⟩ :: all (' ' :: back) := by
  obtain ⟨first, rest, textEq, starts, continues, noKeyword⟩ := isName
  have wordEq : (rest ++ ' ' :: back).takeWhile continuesWord = rest := by
    rw [List.takeWhile_append_of_pos continues, List.takeWhile_cons_of_neg (by decide), List.append_nil]
  obtain ⟨notBlank, cutEq⟩ := cut_of_startsWord (rest ++ ' ' :: back) starts
  rw [wordEq, word, ← textEq, String.ofList_toList, noKeyword, Option.getD_none, textEq] at cutEq
  rw [textEq, List.cons_append, all_blank_append first _ notBlank, all_cons_of_cut cutEq]

/-- The pieces of a keyword, a name and a sign with blanks between them. -/
def opening (keyword sign : Token) (name : String) : List Piece :=
  [⟨.token keyword, keyword.spelling.toList⟩, ⟨.blank, [' ']⟩, ⟨.token .ident, name.toList⟩,
    ⟨.blank, [' ']⟩, ⟨.token sign, sign.spelling.toList⟩]

/-- Whether a token is spelled in one way. -/
def IsFixed (token : Token) : Prop :=
  token.isLiteral = false ∧ token.isComment = false

theorem opening_isPlain
    {keyword sign : Token}
    (name : String)
    (keywordFixed : IsFixed keyword)
    (signFixed : IsFixed sign) :
    ∀ piece ∈ opening keyword sign name, piece.IsPlain := by
  have isToken (token : Token) (text : List Char) (isCode : token.isComment = false) :
      IsPlain ⟨.token token, text⟩ := .inr ⟨token, rfl, isCode⟩
  have isBlank : IsPlain ⟨.blank, [' ']⟩ := .inl rfl
  simp only [opening, List.forall_mem_cons]
  exact ⟨isToken _ _ keywordFixed.2, isBlank, isToken _ _ rfl, isBlank, isToken _ _ signFixed.2, by simp⟩

theorem code?_of_fixed
    {token : Token}
    (isFixed : IsFixed token) :
    (⟨.token token, token.spelling.toList⟩ : Piece).code? = some ⟨token, (), none⟩ := by
  simp [code?, lexeme, Lexeme.map, isFixed.1, isFixed.2]

theorem code?_identifier (name : String) :
    (⟨.token .ident, name.toList⟩ : Piece).code? = some ⟨.ident, (), some name⟩ := by
  rw [code?_of_token rfl rfl, lexeme, String.ofList_toList]
  rfl

theorem filterMap_code?_opening
    {keyword sign : Token}
    (name : String)
    (keywordFixed : IsFixed keyword)
    (signFixed : IsFixed sign) :
    (opening keyword sign name).filterMap code?
      = [⟨keyword, (), none⟩, ⟨.ident, (), some name⟩, ⟨sign, (), none⟩] := by
  have noCode : (⟨.blank, [' ']⟩ : Piece).code? = none := rfl
  rw [opening, List.filterMap_cons_some (code?_of_fixed keywordFixed), List.filterMap_cons_none noCode,
    List.filterMap_cons_some (code?_identifier name), List.filterMap_cons_none noCode,
    List.filterMap_cons_some (code?_of_fixed signFixed), List.filterMap_nil]

/-- A text that begins with a keyword, a name and a sign. -/
theorem all_opening
    {keyword sign : Token}
    {name : String}
    {first mark : Char}
    {tail back : List Char}
    (isName : IsIdentifier name)
    (keywordText : keyword.spelling.toList = first :: tail)
    (signText : sign.spelling.toList = [mark])
    (keywordCut : ∀ back, cut first (tail ++ ' ' :: back) = ⟨.token keyword, first :: tail⟩)
    (signCut : cut mark back = ⟨.token sign, [mark]⟩)
    (notBlank : isBlank mark = false) :
    all (first :: (tail ++ ' ' :: (name.toList ++ ' ' :: mark :: back)))
      = opening keyword sign name ++ all back := by
  rw [all_cons_of_cut (keywordCut _), all_identifier isName, all_blank_append mark back notBlank,
    opening, keywordText, signText]
  exact congrArg _ (congrArg _ (congrArg _ (congrArg _ (@all_cons_of_cut _ mark [] back signCut))))

end Piece

/-- What the grammar sees of a text behind a keyword, a name and a sign. -/
theorem code_stream_opening
    {keyword sign : Token}
    (name : String)
    (keywordFixed : Piece.IsFixed keyword)
    (signFixed : Piece.IsFixed sign)
    (pieces : List Piece) :
    Event.code (Piece.stream .start false (Piece.opening keyword sign name ++ pieces))
      = ⟨keyword, (), none⟩ :: ⟨.ident, (), some name⟩ :: ⟨sign, (), none⟩
        :: Event.code (Piece.stream
          (Place.start.after ((Piece.opening keyword sign name).flatMap Piece.text)) sign.endsStatement
          pieces) := by
  rw [Piece.code_stream_append _ _ _ _ (Piece.opening_isPlain name keywordFixed signFixed),
    Piece.filterMap_code?_opening name keywordFixed signFixed]
  rfl

theorem all_valueText (text : String) :
    Piece.all ("var _ = " ++ text).toList
      = Piece.opening .kwVar .assign "_" ++ Piece.all (' ' :: text.toList) := by
  have textEq : ("var _ = " ++ text).toList
      = 'v' :: (['a', 'r'] ++ ' ' :: ("_".toList ++ ' ' :: '=' :: ' ' :: text.toList)) := by
    simp
  rw [textEq]
  exact Piece.all_opening (isIdentifier_of_letter rfl (by decide) (by decide)) rfl rfl (fun _ => rfl) rfl
    rfl

theorem all_aliasText (text : String) :
    Piece.all ("type B = " ++ text).toList
      = Piece.opening .kwType .assign "B" ++ Piece.all (' ' :: text.toList) := by
  have textEq : ("type B = " ++ text).toList
      = 't' :: (['y', 'p', 'e'] ++ ' ' :: ("B".toList ++ ' ' :: '=' :: ' ' :: text.toList)) := by
    simp
  rw [textEq]
  exact Piece.all_opening (isIdentifier_of_letter rfl (by decide) (by decide)) rfl rfl (fun _ => rfl) rfl
    rfl

section

variable {filename : Option String}

/-- What the grammar sees of a text behind an equals sign is what it sees of the text alone. -/
theorem bareLexemes_behind_assign
    {whole text name : String}
    {keyword : Token}
    (keywordFixed : Piece.IsFixed keyword)
    (piecesEq : Piece.all whole.toList
      = Piece.opening keyword .assign name ++ Piece.all (' ' :: text.toList))
    (noErrors : (lex whole filename).errors = []) :
    (∀ piece ∈ Piece.all text.toList, piece.IsSound)
      ∧ bareLexemes whole filename
        = ⟨keyword, (), none⟩ :: ⟨.ident, (), some name⟩ :: ⟨.assign, (), none⟩
          :: bareLexemes text filename := by
  have faultless := faultless_of_lex whole filename noErrors
  rw [piecesEq, Piece.Faultless.append] at faultless
  have inside : 0 < (Place.start.after
      ((Piece.opening keyword .assign name).flatMap Piece.text)).offset := by
    rw [Place.offset_after]
    exact Nat.add_pos_right _ (byteCount_pos _ (by simp [Piece.opening]))
  have sound (piece : Piece) (member : piece ∈ Piece.all text.toList) : piece.IsSound := by
    rcases Piece.mem_all_blank_cons member with isBlank | behind
    · exact Piece.IsPlain.isSound (.inl isBlank)
    · exact faultless.2.isSound inside piece behind
  refine ⟨sound, ?_⟩
  rw [bareLexemes_eq_code, bareLexemes_eq_code, streamOf, piecesEq,
    code_stream_opening name keywordFixed ⟨rfl, rfl⟩, streamOf]
  rw [Piece.code_stream_blank_cons _ .start _ _ fun piece member => (sound piece member).2]
  rfl

/-- What the grammar sees of plain pieces alone: their lexemes, and a semicolon if these lack one. -/
theorem bareLexemes_of_plain
    {text : String}
    (plain : ∀ piece ∈ Piece.all text.toList, piece.IsPlain) :
    bareLexemes text filename
      = (Piece.all text.toList).filterMap Piece.code?
        ++ if Lexeme.lacksSemicolon false ((Piece.all text.toList).filterMap Piece.code?)
          then [⟨.semi, (), none⟩] else [] := by
  have codes := Piece.code_stream_append .start false (Piece.all text.toList) [] plain
  rw [List.append_nil] at codes
  rw [bareLexemes_eq_code, streamOf, codes, Piece.stream]
  split <;> rfl

/-- A text that does not end in a written semicolon is followed by an inserted one where the grammar sees a
semicolon behind it. -/
theorem words_eq_of_semi
    {text : String}
    {words : List (Lexeme Unit)}
    {semi : Lexeme Unit}
    (plain : ∀ piece ∈ Piece.all text.toList, piece.IsPlain)
    (unterminated : Piece.lastVisible? text.toList ≠ some ';')
    (lexemesEq : bareLexemes text filename = words ++ [semi])
    (isSemi : semi.token = .semi) :
    (Piece.all text.toList).filterMap Piece.code? = words := by
  rw [bareLexemes_of_plain plain] at lexemesEq
  split at lexemesEq
  · exact (List.append_inj' lexemesEq rfl).1
  · -- then the semicolon is written, and its character is the last one
    rw [List.append_nil] at lexemesEq
    refine absurd ?_ unterminated
    rw [← Piece.flatMap_text_all text.toList]
    refine Piece.lastVisible?_of_semi _ semi plain
      (fun piece member => (Piece.spelledByKind_of_mem_all _ piece member).2) ?_ isSemi
    rw [lexemesEq, List.getLast?_concat]

/-- The piece of a closing bracket. -/
def Piece.closer : Piece :=
  ⟨.token .rBrack, [']']⟩

/-- The text of an array whose length and whose elements are given. -/
def arrayText (name length elem : String) : String :=
  "type " ++ name ++ " [" ++ length ++ "]" ++ elem

theorem all_arrayText
    {name length elem : String}
    (isName : IsIdentifier name)
    (plain : ∀ piece ∈ Piece.all length.toList, piece.IsPlain) :
    Piece.all (arrayText name length elem).toList
      = Piece.opening .kwType .lBrack name
        ++ ((Piece.all length.toList ++ [Piece.closer]) ++ Piece.all elem.toList) := by
  have textEq : (arrayText name length elem).toList
      = 't' :: (['y', 'p', 'e'] ++ ' ' :: (name.toList ++ ' ' :: '[' ::
        (length.toList ++ ']' :: elem.toList))) := by
    simp [arrayText]
  have closing := @Piece.all_cons_of_cut (.token .rBrack) ']' [] elem.toList rfl
  have isSeam : ']' ∈ seams := by decide
  rw [textEq, Piece.all_opening isName rfl rfl (fun _ => rfl) rfl rfl,
    Piece.all_append_seam _ _ isSeam (fun piece member isLine => ?_)
      (fun piece member => (plain piece member).isSound.1), List.append_assoc]
  · exact congrArg _ (congrArg _ closing)
  · rcases plain piece member with isBlank | ⟨token, isToken, isCode⟩
    · rw [isBlank] at isLine
      cases isLine
    · rw [isToken] at isLine
      cases isLine
      cases isCode

/-- A text with lexemes begins on its first line if the first of them stands there. -/
theorem firstCode?_of_significant
    {text : String}
    {first : Lexeme Unit}
    {rest : List (Lexeme Unit)}
    (lexemesEq : bareLexemes text filename = first :: rest)
    (firstLine : ∀ first ∈ (lex text filename).significant[0]?, first.pos.line = 1) :
    ∃ first, Piece.firstCode? (Piece.stream .start false (Piece.all text.toList)) = some first
      ∧ first.pos.line = Place.start.line := by
  have significantEq : (lex text filename).significant
      = (((streamOf text.toList).filterMap Event.lexeme?).filter
        fun lexeme => !lexeme.token.isComment).map (Lexeme.map (Place.position filename)) := by
    rw [Lexed.significant, (lex_eq_map text filename).1, filter_significant_map]
  rw [bareLexemes, significantEq, List.map_map] at lexemesEq
  rw [significantEq] at firstLine
  obtain ⟨found, others, codeEq, -, -⟩ := List.map_eq_cons_iff.1 lexemesEq
  rw [codeEq] at firstLine
  have sameLine : min found.pos.line Position.largest = 1 := firstLine _ rfl
  refine ⟨found, ?_, ?_⟩
  · rw [Piece.firstCode?]
    exact congrArg List.head? codeEq
  · change found.pos.line = 1
    unfold Position.largest at sameLine
    omega

theorem isPlain_of_mem_bracketed
    {pieces : List Piece}
    (plain : ∀ piece ∈ pieces, piece.IsPlain) :
    ∀ piece ∈ pieces ++ [Piece.closer], piece.IsPlain := by
  intro piece member
  rcases List.mem_append.1 member with inPieces | isCloser
  · exact plain piece inPieces
  · rw [List.mem_singleton.1 isCloser]
    exact .inr ⟨.rBrack, rfl, rfl⟩

theorem errors_arrayText
    {name length elem : String}
    (isName : IsIdentifier name)
    (plain : ∀ piece ∈ Piece.all length.toList, piece.IsPlain)
    (sound : ∀ piece ∈ Piece.all elem.toList, piece.IsSound) :
    (lex (arrayText name length elem) filename).errors = [] := by
  rw [(lex_eq_map _ filename).2, streamOf, all_arrayText isName plain, Piece.filterMap_error?_stream,
    List.map_nil]
  intro piece member
  rcases List.mem_append.1 member with inOpening | behind
  · exact (Piece.opening_isPlain name ⟨rfl, rfl⟩ ⟨rfl, rfl⟩ piece inOpening).isSound
  · rcases List.mem_append.1 behind with inLength | inElem
    · exact (isPlain_of_mem_bracketed plain piece inLength).isSound
    · exact sound piece inElem

/-- What the grammar sees of the text of an array. -/
theorem bareLexemes_arrayText
    {name length elem : String}
    {first : Lexeme Unit}
    {rest : List (Lexeme Unit)}
    (isName : IsIdentifier name)
    (plain : ∀ piece ∈ Piece.all length.toList, piece.IsPlain)
    (sound : ∀ piece ∈ Piece.all elem.toList, piece.IsSound)
    (elemEq : bareLexemes elem filename = first :: rest)
    (firstLine : ∀ first ∈ (lex elem filename).significant[0]?, first.pos.line = 1) :
    bareLexemes (arrayText name length elem) filename
      = ⟨.kwType, (), none⟩ :: ⟨.ident, (), some name⟩ :: ⟨.lBrack, (), none⟩
        :: ((Piece.all length.toList).filterMap Piece.code?
          ++ ⟨.rBrack, (), none⟩ :: bareLexemes elem filename) := by
  obtain ⟨firstLexeme, isFirst, sameLine⟩ := firstCode?_of_significant elemEq firstLine
  have bracketCode : (Piece.all length.toList ++ [Piece.closer]).filterMap Piece.code?
      = (Piece.all length.toList).filterMap Piece.code? ++ [⟨.rBrack, (), none⟩] := by
    rw [List.filterMap_append]
    rfl
  have isDue : Lexeme.lacksSemicolon Token.lBrack.endsStatement
      ((Piece.all length.toList).filterMap Piece.code? ++ [⟨.rBrack, (), none⟩]) = true := by
    simp [Lexeme.lacksSemicolon, Token.endsStatement]
  have elemCode (place : Place) :
      Event.code (Piece.stream place true (Piece.all elem.toList)) = bareLexemes elem filename := by
    rw [bareLexemes_eq_code, streamOf,
      Piece.code_stream_congr place .start true _ fun piece member => (sound piece member).2]
    exact Piece.code_stream_of_due _ _ firstLexeme
      (fun piece member => (Piece.spelledByKind_of_mem_all _ piece member).2) isFirst sameLine
  rw [bareLexemes_eq_code, streamOf, all_arrayText isName plain,
    code_stream_opening name ⟨rfl, rfl⟩ ⟨rfl, rfl⟩,
    Piece.code_stream_append _ _ _ _ (isPlain_of_mem_bracketed plain), bracketCode, isDue, elemCode,
    List.append_assoc]
  rfl

/-! ## Arrays -/

/-- A text of one line without comments that is read as the value of a variable, begins with a name and does
not end in a semicolon. -/
structure IsLengthText
    (limit : Nat)
    (text : String)
    (filename : Option String)
    (value : Expr Position) : Prop where
  accepted : ∃ keyword name,
    (parseDeclWithin limit ("var _ = " ++ text) filename).Accepts (.valueDecl keyword name value)
  oneLine : '\n' ∉ text.toList
  noComments : (lex text filename).comments = []
  unterminated : Piece.lastVisible? text.toList ≠ some ';'
  beginsWithName : ∀ first ∈ (lex text filename).significant[0]?, first.token = .ident

/-- A text that is read as the type behind an alias. -/
def IsElemText
    (limit : Nat)
    (text : String)
    (filename : Option String)
    (type : TypeExpr Position) : Prop :=
  ∃ keyword name assign,
    (parseDeclWithin limit ("type B = " ++ text) filename).Accepts (.aliasOf keyword name assign type)

/-- A name and a number with an operator between them. -/
theorem isLengthText_sample
    {text : String}
    {op : Token}
    (isSample : (text, op) ∈ [("N + 2", .plus), ("N * 2", .star)]) :
    ∃ value, IsLengthText 99 text none value := by
  refine ⟨.binary (.ident ⟨"N", ⟨8, 1, none⟩⟩) ⟨op, ⟨10, 1, none⟩⟩
    (.basicLit ⟨.int, "2", ⟨12, 1, none⟩⟩), ?_⟩
  simp only [List.mem_cons, Prod.mk.injEq, List.not_mem_nil, or_false] at isSample
  rcases isSample with ⟨rfl, rfl⟩ | ⟨rfl, rfl⟩
  all_goals exact {
    accepted := ⟨⟨.kwVar, ⟨0, 1, none⟩⟩, ⟨"_", ⟨4, 1, none⟩⟩, rfl, rfl⟩
    oneLine := by decide
    noComments := rfl
    unterminated := by decide
    beginsWithName := by decide +kernel }

/-- The type `int` behind an equals sign, on its line or on the next one. -/
theorem isElemText_sample
    {text : String}
    {breaks : Nat}
    (isSample : (text, breaks) ∈ [("int", 0), ("\nint", 1)]) :
    ∃ type, IsElemText 99 text none type := by
  refine ⟨.namedType (.typeName none ⟨"int", ⟨9 + breaks, 1 + breaks, none⟩⟩ .absent),
    ⟨.kwType, ⟨0, 1, none⟩⟩, ⟨"B", ⟨5, 1, none⟩⟩, ⟨.assign, ⟨7, 1, none⟩⟩, ?_⟩
  simp only [List.mem_cons, Prod.mk.injEq, List.not_mem_nil, or_false] at isSample
  rcases isSample with ⟨rfl, rfl⟩ | ⟨rfl, rfl⟩ <;> exact ⟨rfl, rfl⟩

/-- Where no comment is lexed, no piece is a comment. -/
theorem isComment_of_comments
    {text : String}
    {piece : Piece}
    {token : Token}
    (noComments : (lex text filename).comments = [])
    (member : piece ∈ Piece.all text.toList)
    (isToken : piece.kind = .token token) :
    token.isComment = false := by
  obtain ⟨found, isLexeme, tokenEq⟩ := @Piece.exists_lexeme_of_token .start false _ _ _ member isToken
  have inLexemes : found.map (Place.position filename) ∈ (lex text filename).lexemes := by
    rw [(lex_eq_map text filename).1]
    exact List.mem_map_of_mem isLexeme
  have noComment := List.filter_eq_nil_iff.1 noComments _ inLexemes
  rw [Lexeme.map, tokenEq] at noComment
  simpa using noComment

/-- The lexemes of a length, and how they are read. -/
theorem IsLengthText.exists_readsLength
    {limit : Nat}
    {text : String}
    {value : Expr Position}
    (isLength : IsLengthText limit text filename value)
    (continues : ∀ second ∈ (lex text filename).significant[1]?,
      second.token ∉ Production.lengthContinuations) :
    (∀ piece ∈ Piece.all text.toList, piece.IsPlain)
      ∧ ∃ first more, (Piece.all text.toList).filterMap Piece.code? = first :: more
        ∧ Production.ReadsLength limit (first :: more) value.bare
        ∧ first.token = .ident
        ∧ ∀ second ∈ more.head?, second.token ∉ Production.lengthContinuations := by
  obtain ⟨keyword, name, accepted⟩ := isLength.accepted
  have noErrors := (Parsed.accepts_ofLexed_iff.1 accepted).1
  obtain ⟨sound, lexemesEq⟩ := bareLexemes_behind_assign ⟨rfl, rfl⟩ (all_valueText text) noErrors
  have plain : ∀ piece ∈ Piece.all text.toList, piece.IsPlain := fun piece member =>
    Piece.isPlain_of_isSound member (sound piece member) isLength.oneLine fun token =>
      isComment_of_comments isLength.noComments member
  have regular : (ReadState.start (bareLexemes ("var _ = " ++ text) filename) ()).Regular :=
    regular_of_mem_bareLexemes _ _
  obtain ⟨final, parses, atEnd⟩ := exists_parses_of_accepts accepted
  rw [lexemesEq] at parses regular
  obtain ⟨words, semi, aheadEq, isSemi, readsLength⟩ :=
    Production.exists_readsLength_of_declAt regular rfl rfl rfl rfl rfl parses atEnd
  have wordsEq := words_eq_of_semi plain isLength.unterminated aheadEq isSemi
  obtain ⟨first, more, rfl⟩ := List.exists_cons_of_ne_nil readsLength.notEmpty
  have significantEq : (lex text filename).significant.map (Lexeme.map fun _ => ())
      = first :: (more ++ [semi]) := aheadEq
  obtain ⟨found, others, isFound, rfl, othersEq⟩ := List.map_eq_cons_iff.1 significantEq
  refine ⟨plain, _, more, wordsEq, readsLength, isLength.beginsWithName found (by rw [isFound]; rfl), ?_⟩
  intro second isSecond
  obtain ⟨behind, rfl⟩ := List.head?_eq_some_iff.1 isSecond
  obtain ⟨next, _, isNext, rfl, -⟩ := List.map_eq_cons_iff.1 othersEq
  exact continues next (by rw [isFound, isNext]; rfl)

/-- The lexemes of elements, and how they are read. -/
theorem IsElemText.exists_readsLexemes
    {limit : Nat}
    {text : String}
    {type : TypeExpr Position}
    (isElem : IsElemText limit text filename type) :
    (∀ piece ∈ Piece.all text.toList, piece.IsSound)
      ∧ ∃ words semi, bareLexemes text filename = words ++ [semi] ∧ semi.token = .semi
        ∧ Production.ReadsLexemes limit Production.type? words [semi] (some type.bare) := by
  obtain ⟨keyword, name, assign, accepted⟩ := isElem
  have noErrors := (Parsed.accepts_ofLexed_iff.1 accepted).1
  obtain ⟨sound, lexemesEq⟩ := bareLexemes_behind_assign ⟨rfl, rfl⟩ (all_aliasText text) noErrors
  have regular : (ReadState.start (bareLexemes ("type B = " ++ text) filename) ()).Regular :=
    regular_of_mem_bareLexemes _ _
  obtain ⟨final, parses, atEnd⟩ := exists_parses_of_accepts accepted
  rw [lexemesEq] at parses regular
  exact ⟨sound, Production.exists_readsLexemes_of_declAt regular rfl rfl rfl rfl rfl parses atEnd⟩

/-- A computed length does not open type parameters, unless its second token could start a constraint. -/
theorem computed_length_is_read
    (limit : Nat)
    (name length elem : String)
    (filename : Option String)
    (value : Expr Position)
    (type : TypeExpr Position)
    (isName : IsIdentifier name)
    (isLength : IsLengthText limit length filename value)
    (continues : ∀ second ∈ (lex length filename).significant[1]?,
      second.token ∉ Production.lengthContinuations)
    (isElem : IsElemText limit elem filename type)
    (firstLine : ∀ first ∈ (lex elem filename).significant[0]?, first.pos.line = 1) :
    ∃ decl,
      (parseDeclWithin (limit + 1) ("type " ++ name ++ " [" ++ length ++ "]" ++ elem) filename).Accepts
          decl
        ∧ decl.bare = .arrayDef ⟨.kwType, ()⟩ ⟨name, ()⟩ ⟨.lBrack, ()⟩ value.bare ⟨.rBrack, ()⟩
          type.bare := by
  obtain ⟨plain, first, more, wordsEq, readsLength, atName, others⟩ :=
    isLength.exists_readsLength continues
  obtain ⟨sound, elems, semi, elemsEq, isSemi, readsElem⟩ := isElem.exists_readsLexemes
  obtain ⟨firstElem, otherElems, elemCons⟩ :=
    List.exists_cons_of_ne_nil (List.append_ne_nil_of_right_ne_nil elems (List.cons_ne_nil semi []))
  have noErrors : (lex (arrayText name length elem) filename).errors = [] :=
    errors_arrayText isName plain sound
  have lexemesEq := bareLexemes_arrayText isName plain sound (elemsEq.trans elemCons) firstLine
  rw [wordsEq, elemsEq] at lexemesEq
  obtain ⟨final, parses, atEnd⟩ := Production.exists_parses_arrayDef () lexemesEq rfl rfl rfl rfl isSemi
    readsLength readsElem atName others
  exact exists_accepts_of_parses noErrors parses atEnd

/-- The length `N + 2` is read in front of `int`. -/
theorem computed_length_is_read_sum :
    ∃ value type, IsIdentifier "A" ∧ IsLengthText 99 "N + 2" none value
      ∧ (∀ second ∈ (lex "N + 2" none).significant[1]?, second.token ∉ Production.lengthContinuations)
      ∧ IsElemText 99 "int" none type
      ∧ (∀ first ∈ (lex "int" none).significant[0]?, first.pos.line = 1)
      ∧ ∃ decl,
        (parseDeclWithin (99 + 1) ("type " ++ "A" ++ " [" ++ "N + 2" ++ "]" ++ "int") none).Accepts decl
          ∧ decl.bare = .arrayDef ⟨.kwType, ()⟩ ⟨"A", ()⟩ ⟨.lBrack, ()⟩ value.bare ⟨.rBrack, ()⟩
            type.bare := by
  have isName : IsIdentifier "A" := isIdentifier_of_letter rfl (by decide) (by decide)
  obtain ⟨value, isLength⟩ := @isLengthText_sample "N + 2" .plus (by decide)
  obtain ⟨type, isElem⟩ := @isElemText_sample "int" 0 (by decide)
  have continues : ∀ second ∈ (lex "N + 2" none).significant[1]?,
      second.token ∉ Production.lengthContinuations := by decide +kernel
  have firstLine : ∀ first ∈ (lex "int" none).significant[0]?, first.pos.line = 1 := by decide +kernel
  exact ⟨value, type, isName, isLength, continues, isElem, firstLine,
    computed_length_is_read 99 "A" "N + 2" "int" none value type isName isLength continues isElem firstLine⟩

/-- The length `N * 2` is not read in front of `int`, and the length `N + 2` not in front of a line break:
a star starts a constraint, and the line ends behind a bracket. -/
theorem computed_length_refused :
    IsIdentifier "A"
      ∧ (∃ value, IsLengthText 99 "N * 2" none value) ∧ (∃ type, IsElemText 99 "int" none type)
      ∧ (∀ decl, ¬ (parseDecl "type A [N * 2]int" none).Accepts decl)
      ∧ (∃ value, IsLengthText 99 "N + 2" none value) ∧ (∃ type, IsElemText 99 "\nint" none type)
      ∧ ∀ decl, ¬ (parseDecl "type A [N + 2]\nint" none).Accepts decl := by
  have isName : IsIdentifier "A" := isIdentifier_of_letter rfl (by decide) (by decide)
  have starComplaints : (parseDecl "type A [N * 2]int" none).diagnostics ≠ [] := by decide +kernel
  have lineComplaints : (parseDecl "type A [N + 2]\nint" none).diagnostics ≠ [] := by decide +kernel
  exact ⟨isName, @isLengthText_sample _ .star (by decide), @isElemText_sample _ 0 (by decide),
    fun decl accepted => starComplaints accepted.noDiagnostics,
    @isLengthText_sample _ .plus (by decide), @isElemText_sample _ 1 (by decide),
    fun decl accepted => lineComplaints accepted.noDiagnostics⟩

end

end GoFront
