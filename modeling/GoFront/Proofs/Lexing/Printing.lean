import GoFront.Proofs.Lexing.Isolation
import GoFront.Proofs.Places.Layout

/-!
# Lexing undoes printing

The lexemes of a source without errors, printed with single blanks between them and without comments, are
lexed as the same tokens with the same texts. Inserted semicolons are printed as written ones, and no
semicolon is inserted behind them.
-/

namespace GoFront

variable {P Q : Type}

/-- The text of lexemes with single blanks between them. -/
def Lexeme.print (lexemes : List (Lexeme P)) : String :=
  " ".intercalate (lexemes.map Lexeme.text)

namespace Lexeme

/-- A lexeme that is cut again from its own text in front of a blank. -/
structure Printable (lexeme : Lexeme P) : Prop where
  isCode : lexeme.token.isComment = false
  literal : lexeme.literal = if lexeme.token.isLiteral then some lexeme.text else none
  cut : ∃ first tail, lexeme.text.toList = first :: tail ∧ ∀ back, BlankNext back ->
    Piece.cut first (tail ++ back) = ⟨.token lexeme.token, first :: tail⟩

/-- The lexeme that a piece gives says what the printed lexeme said. -/
theorem Printable.content_lexeme
    {lexeme : Lexeme P}
    (printable : lexeme.Printable)
    (place : Place) :
    (Piece.lexeme place lexeme.token lexeme.text.toList).content = lexeme.content := by
  simp only [Piece.lexeme, content, printable.isCode, Bool.or_false, String.ofList_toList]
  rw [printable.literal]

/-- What a statement still lacks behind lexemes: a semicolon if the last one ends a statement. -/
def lacksSemicolon (due : Bool) (lexemes : List (Lexeme P)) : Bool :=
  (lexemes.getLast?.map fun lexeme => lexeme.token.endsStatement).getD due

theorem lacksSemicolon_cons
    (due : Bool)
    (lexeme : Lexeme P)
    (lexemes : List (Lexeme P)) :
    lacksSemicolon due (lexeme :: lexemes) = lacksSemicolon lexeme.token.endsStatement lexemes := by
  cases lexemes with
  | nil => rfl
  | cons next more =>
      rw [lacksSemicolon, lacksSemicolon, List.getLast?_cons_cons]
      cases lastEq : (next :: more).getLast? with
      | none => simp at lastEq
      | some last => rfl

end Lexeme

namespace Piece

/-- A single blank in front of a token is a piece. -/
theorem all_blank_append
    (first : Char)
    (rest : List Char)
    (notBlank : isBlank first = false) :
    all (' ' :: first :: rest) = ⟨.blank, [' ']⟩ :: all (first :: rest) := by
  have cutEq : cut ' ' (first :: rest) = ⟨.blank, [' ']⟩ := by
    have noMore : (first :: rest).takeWhile isBlank = [] := by simp [notBlank]
    change (⟨.blank, ' ' :: (first :: rest).takeWhile isBlank⟩ : Piece) = _
    rw [noMore]
  rw [all_cons ' ' (first :: rest) [] (first :: rest) (by rw [cutEq]) rfl, cutEq]

/-- No token begins with a blank. -/
theorem isBlank_of_cut
    (first : Char)
    (rest : List Char)
    (token : Token)
    (isToken : (cut first rest).kind = .token token) :
    isBlank first = false := by
  rw [Bool.eq_false_iff]
  intro blank
  have cases : (first = ' ' ∨ first = '\t') ∨ first = '\r' := by simpa [isBlank] using blank
  rcases cases with (rfl | rfl) | rfl <;> cases isToken

end Piece

/-- The pieces of a printed lexeme and of what follows it. -/
theorem all_printable
    (lexeme : Lexeme P)
    (printable : lexeme.Printable)
    (back : List Char)
    (blank : BlankNext back) :
    Piece.all (lexeme.text.toList ++ back)
      = ⟨.token lexeme.token, lexeme.text.toList⟩ :: Piece.all back := by
  obtain ⟨first, tail, textEq, cutEq⟩ := printable.cut
  rw [textEq, List.cons_append,
    Piece.all_cons first (tail ++ back) tail back (by rw [cutEq back blank]) rfl, cutEq back blank]

/-- The characters of printed lexemes: those of the first one, and behind a blank those of the others. -/
theorem toList_print_cons
    (lexeme : Lexeme P)
    (lexemes : List (Lexeme P)) :
    (Lexeme.print (lexeme :: lexemes)).toList
      = lexeme.text.toList ++ if lexemes.isEmpty then [] else ' ' :: (Lexeme.print lexemes).toList := by
  cases lexemes with
  | nil => simp [Lexeme.print]
  | cons next more =>
      rw [Lexeme.print, List.map_cons, List.map_cons, String.intercalate_cons_of_ne_nil (by simp),
        String.toList_append, String.toList_append, List.append_assoc]
      rfl

/-- What follows a printed lexeme is cut into a blank and the other lexemes. -/
theorem stream_behind_printable
    (place : Place)
    (due : Bool)
    (lexemes : List (Lexeme P))
    (printable : ∀ lexeme ∈ lexemes, lexeme.Printable) :
    ∃ behind, Piece.stream place due
        (Piece.all (if lexemes.isEmpty then [] else ' ' :: (Lexeme.print lexemes).toList))
      = Piece.stream behind due (Piece.all (Lexeme.print lexemes).toList) := by
  cases lexemes with
  | nil => exact ⟨place, rfl⟩
  | cons next more =>
      obtain ⟨first, tail, textEq, cutEq⟩ := (printable next (by simp)).cut
      have notBlank := Piece.isBlank_of_cut first (tail ++ []) next.token (by rw [cutEq [] blankNext_nil])
      refine ⟨place.after [' '], ?_⟩
      rw [toList_print_cons, textEq]
      change Piece.stream place due (Piece.all (' ' :: first :: (tail ++ _))) = _
      rw [Piece.all_blank_append first _ notBlank]
      rfl

/-- The stream of printed lexemes. -/
theorem stream_print
    (lexemes : List (Lexeme P))
    (printable : ∀ lexeme ∈ lexemes, lexeme.Printable)
    (place : Place)
    (due : Bool) :
    (Piece.stream place due (Piece.all (Lexeme.print lexemes).toList)).filterMap Event.error? = []
      ∧ ((Piece.stream place due (Piece.all (Lexeme.print lexemes).toList)).filterMap
          Event.lexeme?).map Lexeme.content
        = lexemes.map Lexeme.content
          ++ if Lexeme.lacksSemicolon due lexemes then [(.semi, none)] else [] := by
  induction lexemes generalizing place due with
  | nil => cases due <;> exact ⟨rfl, rfl⟩
  | cons lexeme lexemes inductionHypothesis =>
      obtain ⟨lexemePrintable, restPrintable⟩ := List.forall_mem_cons.1 printable
      have blank : BlankNext (if lexemes.isEmpty then [] else ' ' :: (Lexeme.print lexemes).toList) := by
        split_ifs
        · exact blankNext_nil
        · exact blankNext_cons _
      have written : (⟨.token lexeme.token, lexeme.text.toList⟩ : Piece).events place due
          = ([.lexeme (Piece.lexeme place lexeme.token lexeme.text.toList)],
            lexeme.token.endsStatement) := by
        simp only [Piece.events, lexemePrintable.isCode]
        rfl
      obtain ⟨behind, streamEq⟩ := stream_behind_printable (place.after lexeme.text.toList)
        lexeme.token.endsStatement lexemes restPrintable
      obtain ⟨noErrors, contents⟩ :=
        inductionHypothesis restPrintable behind lexeme.token.endsStatement
      rw [toList_print_cons, all_printable lexeme lexemePrintable _ blank, Piece.stream, written]
      dsimp only
      rw [streamEq, List.singleton_append, Lexeme.lacksSemicolon_cons]
      refine ⟨noErrors, ?_⟩
      rw [List.map_cons, List.cons_append, ← contents,
        ← lexemePrintable.content_lexeme place]
      rfl

/-! ## The lexemes of a source -/

/-- The last token of pieces without faults does not end a statement: its semicolon is inserted. -/
theorem Piece.last_of_faultless
    (place : Place)
    (due : Bool)
    (pieces : List Piece)
    (faultless : Faultless place pieces) :
    Lexeme.lacksSemicolon due (((stream place due pieces).filterMap Event.lexeme?).filter
      fun lexeme => !lexeme.token.isComment) = false := by
  induction pieces generalizing place due with
  | nil => cases due <;> rfl
  | cons piece pieces inductionHypothesis =>
      obtain ⟨noFault, markAtStart, restFaultless⟩ := faultless
      have rest (due : Bool) := inductionHypothesis (place.after piece.text) due restFaultless
      have behindSemicolon (pos : Place) :
          Lexeme.lacksSemicolon due (⟨.semi, pos, none⟩
            :: ((stream (place.after piece.text) false pieces).filterMap Event.lexeme?).filter
              fun lexeme => !lexeme.token.isComment) = false := by
        rw [Lexeme.lacksSemicolon_cons]
        exact rest false
      rw [stream, List.filterMap_append, List.filter_append]
      rcases kindEq : piece.kind with _ | _ | _ | token | cause
      · simp only [events, kindEq]
        exact rest due
      · simp only [events, kindEq]
        split_ifs with isDue
        · exact behindSemicolon place
        · rw [Bool.not_eq_true] at isDue
          rw [isDue]
          exact rest false
      · simp only [events, kindEq, if_pos (markAtStart kindEq)]
        exact rest due
      · simp only [events, kindEq]
        split_ifs with isComment breaks
        · have onlySemicolon : (([Event.lexeme (lexeme place token piece.text)]
                ++ [Event.semicolon (place.after (piece.text.takeWhile (· ≠ '\n')))]).filterMap
                  Event.lexeme?).filter (fun lexeme => !lexeme.token.isComment)
              = [⟨.semi, place.after (piece.text.takeWhile (· ≠ '\n')), none⟩] := by
            have semicolonIsCode : Token.semi.isComment = false := rfl
            simp [Event.semicolon, Event.lexeme?, lexeme, isComment, semicolonIsCode]
          rw [onlySemicolon]
          exact behindSemicolon _
        · have noCode : ([Event.lexeme (lexeme place token piece.text)].filterMap
                Event.lexeme?).filter (fun lexeme => !lexeme.token.isComment) = [] := by
            simp [Event.lexeme?, lexeme, isComment]
          rw [noCode]
          exact rest due
        · have onlyToken : ([Event.lexeme (lexeme place token piece.text)].filterMap
                Event.lexeme?).filter (fun lexeme => !lexeme.token.isComment)
              = [lexeme place token piece.text] := by
            simp [Event.lexeme?, lexeme, isComment]
          rw [onlyToken, List.singleton_append, Lexeme.lacksSemicolon_cons]
          exact rest token.endsStatement
      · exact absurd kindEq (noFault cause)

/-- Every piece is cut somewhere. -/
theorem Piece.exists_cut_of_mem_all
    (text : List Char)
    (piece : Piece)
    (member : piece ∈ all text) :
    ∃ first rest tail, piece = cut first rest ∧ piece.text = first :: tail := by
  induction text using all_induction with
  | nil => simp at member
  | cons first rest tail after cutEq restEq inductionHypothesis =>
      rw [all_cons first rest tail after cutEq restEq, List.mem_cons] at member
      rcases member with rfl | member
      · exact ⟨first, rest, tail, rfl, cutEq⟩
      · exact inductionHypothesis member

/-- An inserted semicolon is printed as a written one. -/
theorem printable_semicolon (pos : P) : (⟨.semi, pos, none⟩ : Lexeme P).Printable := by
  have spelling : Token.semi.spelling.toList = [';'] := by decide
  refine ⟨rfl, rfl, ';', [], spelling, fun back blank => ?_⟩
  have textEq : (Piece.cut ';' []).text = [';'] := rfl
  exact Piece.cut_isolated textEq ⟨.semi, rfl, rfl⟩ blank

/-- A token that is no comment is printed as it was written. -/
theorem printable_lexeme
    (place : Place)
    (token : Token)
    (piece : Piece)
    (first : Char)
    (rest tail : List Char)
    (kindEq : piece.kind = .token token)
    (isCode : token.isComment = false)
    (cutEq : piece = Piece.cut first rest)
    (textEq : piece.text = first :: tail) :
    (Piece.lexeme place token piece.text).Printable := by
  obtain ⟨kind, text⟩ := piece
  dsimp only at kindEq textEq
  subst kindEq
  have spelled : (⟨.token token, text⟩ : Piece).SpelledByKind :=
    cutEq ▸ Piece.cut_spelledByKind first rest
  have lexemeText : (Piece.lexeme place token text).text = String.ofList text :=
    Entry.text_ofToken place token text spelled
  refine ⟨isCode, ?_, first, tail, ?_, fun back blank => ?_⟩
  · rw [lexemeText]
    simp [Piece.lexeme, isCode]
  · rw [lexemeText, String.toList_ofList, textEq]
  · have cutText : (Piece.cut first rest).text = first :: tail := by rw [← cutEq, textEq]
    have cutCode : (Piece.cut first rest).IsCode := by
      rw [← cutEq]
      exact ⟨token, rfl, isCode⟩
    rw [Piece.cut_isolated cutText cutCode blank, ← cutEq, ← textEq]
    rfl

theorem Lexeme.Printable.map
    {lexeme : Lexeme P}
    (printable : lexeme.Printable)
    (move : P -> Q) :
    (lexeme.map move).Printable :=
  ⟨printable.isCode, printable.literal, printable.cut⟩

/-- Every lexeme of a source, other than comments, is cut again from its own text. -/
theorem printable_of_mem_significant
    (source : String)
    (filename : Option String)
    (lexeme : Lexeme Position)
    (member : lexeme ∈ (lex source filename).significant) :
    lexeme.Printable := by
  obtain ⟨member, notComment⟩ := List.mem_filter.1 member
  rw [lex_lexemes] at member
  obtain ⟨entry, entryMember, rfl⟩ := List.mem_map.1 member
  rcases Piece.cases_of_mem_entryStream entryMember with
    ⟨pos, rfl⟩ | ⟨piece, isPiece, token, pos, kindEq, rfl⟩
  · exact (printable_semicolon pos).map _
  · change (!token.isComment) = true at notComment
    have isCode : token.isComment = false := by simpa using notComment
    obtain ⟨first, rest, tail, cutEq, textEq⟩ := Piece.exists_cut_of_mem_all _ piece isPiece
    exact (printable_lexeme pos token piece first rest tail kindEq isCode cutEq textEq).map _

theorem Lexeme.lacksSemicolon_map
    (due : Bool)
    (move : P -> Q)
    (lexemes : List (Lexeme P)) :
    lacksSemicolon due (lexemes.map (Lexeme.map move)) = lacksSemicolon due lexemes := by
  rw [lacksSemicolon, lacksSemicolon, List.getLast?_map, Option.map_map]
  rfl

/-- The lexemes of a source without errors lack no semicolon at their end. -/
theorem lacksSemicolon_significant
    (source : String)
    (filename : Option String)
    (noErrors : (lex source filename).errors = []) :
    Lexeme.lacksSemicolon false (lex source filename).significant = false := by
  have significantEq : (lex source filename).significant
      = (((streamOf source.toList).filterMap Event.lexeme?).filter
        fun lexeme => !lexeme.token.isComment).map (Lexeme.map (Place.position filename)) := by
    simp only [Lexed.significant, lex]
    rw [Event.filterMap_lexeme?_map, List.filter_map]
    rfl
  rw [significantEq, Lexeme.lacksSemicolon_map]
  exact Piece.last_of_faultless .start false _ (faultless_of_lex source filename noErrors)

/-- What lexemes say does not depend on their positions. -/
theorem content_lexemes
    (source : String)
    (filename : Option String) :
    (lex source filename).lexemes.map Lexeme.content
      = ((streamOf source.toList).filterMap Event.lexeme?).map Lexeme.content := by
  simp only [lex]
  rw [Event.filterMap_lexeme?_map, List.map_map]
  rfl

/-- Lexing undoes printing: the printed lexemes of a source without errors are lexed without errors, and
say again what they said, up to the end of the text. -/
theorem lex_print
    (source : String)
    (filename printName : Option String)
    (noErrors : (lex source filename).errors = []) :
    (lex (Lexeme.print (lex source filename).significant) printName).errors = []
      ∧ (lex (Lexeme.print (lex source filename).significant) printName).stream.map Lexeme.content
        = (lex source filename).code.map Lexeme.content := by
  obtain ⟨noPrintErrors, contents⟩ := stream_print (lex source filename).significant
    (printable_of_mem_significant source filename) .start false
  rw [lacksSemicolon_significant source filename noErrors, if_neg (by simp), List.append_nil] at contents
  constructor
  · simp only [lex, streamOf]
    rw [Event.filterMap_error?_map]
    exact List.map_eq_nil_iff.2 noPrintErrors
  · have ends (pos : Position) : [(⟨.eof, pos, none⟩ : Lexeme Position)].map Lexeme.content
        = [(.eof, none)] := rfl
    rw [Lexed.code_eq, Lexed.stream, List.map_append, List.map_append, ← contents, content_lexemes,
      streamOf, ends, ends]

/-- A statement whose semicolon is inserted at a comment, a raw string that spans lines, and a number in
front of a point. -/
theorem lex_print_statement :
    (lex "x /*\n*/ y = \x60a\nb\x60\n1.x" none).errors = []
      ∧ Lexeme.print (lex "x /*\n*/ y = \x60a\nb\x60\n1.x" none).significant
        = "x ; y = \x60a\nb\x60 ; 1. x ;"
      ∧ (lex (Lexeme.print (lex "x /*\n*/ y = \x60a\nb\x60\n1.x" none).significant) none).errors = []
      ∧ (lex (Lexeme.print (lex "x /*\n*/ y = \x60a\nb\x60\n1.x" none).significant) none).stream.map
          Lexeme.content
        = (lex "x /*\n*/ y = \x60a\nb\x60\n1.x" none).code.map Lexeme.content := by
  have noErrors : (lex "x /*\n*/ y = \x60a\nb\x60\n1.x" none).errors = [] := by decide +kernel
  exact ⟨noErrors, by decide +kernel, lex_print _ none none noErrors⟩

end GoFront
