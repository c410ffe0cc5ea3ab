import GoFront.Proofs.Lexing.Placement
import GoFront.Proofs.Lexing.Printing

/-!
# Texts that share a line

What the grammar sees of a text does not depend on what stands in front of it on its line, unless the text
begins with a line break: such a break ends a statement that the text behind it should go on with. What
stands in front does not depend on the text either, where a blank or a closing bracket comes between.
-/

namespace GoFront

variable {P Q : Type}

/-! ## What the grammar sees -/

/-- The lexemes among events that the grammar sees, without their places. -/
def Event.code (events : List (Event P)) : List (Lexeme Unit) :=
  ((events.filterMap Event.lexeme?).filter fun lexeme => !lexeme.token.isComment).map
    (Lexeme.map fun _ => ())

namespace Event

@[simp] theorem code_nil : code ([] : List (Event P)) = [] := rfl

@[simp] theorem code_append (front back : List (Event P)) :
    code (front ++ back) = code front ++ code back := by
  simp [code]

@[simp] theorem code_error (error : LexError P) : code [.error error] = [] := rfl

@[simp] theorem code_semicolon (place : P) : code [.semicolon place] = [⟨.semi, (), none⟩] := rfl

theorem code_lexeme (lexeme : Lexeme P) :
    code [.lexeme lexeme]
      = if lexeme.token.isComment then [] else [lexeme.map fun _ => ()] := by
  cases isComment : lexeme.token.isComment <;> simp [code, lexeme?, isComment]

end Event

namespace Piece

/-- The lexeme that the grammar sees of a piece, without its place. -/
def code? (piece : Piece) : Option (Lexeme Unit) :=
  match piece.kind with
  | .token token =>
      if token.isComment then none
      else some ((lexeme .start token piece.text).map fun _ => ())
  | _ => none

/-- Whether a piece is blank or a token other than a comment. -/
def IsPlain (piece : Piece) : Prop :=
  piece.kind = .blank ∨ piece.IsCode

theorem code?_of_blank
    {piece : Piece}
    (isBlank : piece.kind = .blank) :
    piece.code? = none := by
  rw [code?, isBlank]

theorem code?_of_token
    {piece : Piece}
    {token : Token}
    (isToken : piece.kind = .token token)
    (isCode : token.isComment = false) :
    piece.code? = some ((lexeme .start token piece.text).map fun _ => ()) := by
  rw [code?, isToken]
  simp [isCode]

/-- What the grammar sees of plain pieces, and of pieces behind them. -/
theorem code_stream_append
    (place : Place)
    (due : Bool)
    (front back : List Piece)
    (plain : ∀ piece ∈ front, piece.IsPlain) :
    Event.code (stream place due (front ++ back))
      = front.filterMap code? ++ Event.code (stream (place.after (front.flatMap text))
          (Lexeme.lacksSemicolon due (front.filterMap code?)) back) := by
  induction front generalizing place due with
  | nil => rfl
  | cons piece front inductionHypothesis =>
      obtain ⟨piecePlain, frontPlain⟩ := List.forall_mem_cons.1 plain
      rw [List.cons_append, stream, List.flatMap_cons, Place.after_append]
      rcases piecePlain with isBlank | ⟨token, isToken, isCode⟩
      · have noEvents : piece.events place due = ([], due) := by simp [events, isBlank]
        rw [noEvents, List.filterMap_cons_none (code?_of_blank isBlank)]
        exact inductionHypothesis _ due frontPlain
      · have written : piece.events place due
            = ([.lexeme (lexeme place token piece.text)], token.endsStatement) := by
          simp [events, isToken, isCode]
        rw [written, List.filterMap_cons_some (code?_of_token isToken isCode)]
        dsimp only
        rw [Event.code_append, inductionHypothesis _ _ frontPlain, Lexeme.lacksSemicolon_cons,
          Event.code_lexeme]
        simp [lexeme, isCode, Lexeme.map]

/-- Where a piece stands does not matter to the grammar, unless it is a byte order mark. -/
theorem code_events
    (place place' : Place)
    (due : Bool)
    (piece : Piece)
    (noMark : piece.kind ≠ .byteOrderMark) :
    Event.code (piece.events place due).1 = Event.code (piece.events place' due).1
      ∧ (piece.events place due).2 = (piece.events place' due).2 := by
  rcases kindEq : piece.kind with _ | _ | _ | token | cause
  · simp [events, kindEq]
  · cases due <;> simp [events, kindEq]
  · exact absurd kindEq noMark
  · simp only [events, kindEq]
    split_ifs <;> simp only [Event.code_append, Event.code_lexeme, Event.code_semicolon, lexeme,
      Lexeme.map, and_self]
  · simp [events, kindEq]

theorem code_stream_congr
    (place place' : Place)
    (due : Bool)
    (pieces : List Piece)
    (noMark : ∀ piece ∈ pieces, piece.kind ≠ .byteOrderMark) :
    Event.code (stream place due pieces) = Event.code (stream place' due pieces) := by
  induction pieces generalizing place place' due with
  | nil => cases due <;> rfl
  | cons piece pieces inductionHypothesis =>
      obtain ⟨pieceNoMark, restNoMark⟩ := List.forall_mem_cons.1 noMark
      obtain ⟨sameCode, sameDue⟩ := code_events place place' due piece pieceNoMark
      rw [stream, stream, Event.code_append, Event.code_append, sameCode, sameDue]
      exact congrArg _ (inductionHypothesis _ _ _ restNoMark)

/-! ## Line breaks in front -/

theorem line_le_of_mem_stream
    (place : Place)
    (due : Bool)
    (pieces : List Piece)
    (event : Event Place)
    (member : event ∈ stream place due pieces) :
    place.line ≤ event.pos.line := by
  obtain ⟨front, -, -, posEq⟩ := pos_of_mem_stream place due pieces event member
  rw [posEq]
  exact Nat.le_add_right _ _

/-- The first lexeme of a stream that the grammar sees, with its place. -/
def firstCode? (events : List (Event Place)) : Option (Lexeme Place) :=
  ((events.filterMap Event.lexeme?).filter fun lexeme => !lexeme.token.isComment).head?

theorem line_le_of_firstCode?
    {place : Place}
    {due : Bool}
    {pieces : List Piece}
    {first : Lexeme Place}
    (isFirst : firstCode? (stream place due pieces) = some first) :
    place.line ≤ first.pos.line := by
  have member := (List.mem_filter.1 (List.mem_of_head? isFirst)).1
  exact line_le_of_mem_stream place due pieces (.lexeme first) (Event.mem_of_lexeme? member)

theorem firstCode?_append
    {front back : List (Event Place)}
    (silent : Event.code front = []) :
    firstCode? (front ++ back) = firstCode? back := by
  have nothing := List.map_eq_nil_iff.1 silent
  rw [firstCode?, List.filterMap_append, List.filter_append, nothing, List.nil_append, firstCode?]

/-- Pieces whose first lexeme stands on their first line go on with a statement and begin one in the same
way. -/
theorem code_stream_of_due
    (place : Place)
    (pieces : List Piece)
    (first : Lexeme Place)
    (spelled : ∀ piece ∈ pieces, piece.SpelledByKind)
    (isFirst : firstCode? (stream place false pieces) = some first)
    (sameLine : first.pos.line = place.line) :
    Event.code (stream place true pieces) = Event.code (stream place false pieces) := by
  induction pieces generalizing place with
  | nil => cases isFirst
  | cons piece pieces inductionHypothesis =>
      obtain ⟨pieceSpelled, restSpelled⟩ := List.forall_mem_cons.1 spelled
      -- the grammar sees no piece in front of the first lexeme, and none of these has a line break
      have noBreak (silent : Event.code (piece.events place false).1 = [])
          (notDue : (piece.events place false).2 = false) :
          firstCode? (stream (place.after piece.text) false pieces) = some first
            ∧ piece.text.count '\n' = 0 := by
        rw [stream, firstCode?_append silent, notDue] at isFirst
        have below := line_le_of_firstCode? isFirst
        change place.line + piece.text.count '\n' ≤ first.pos.line at below
        exact ⟨isFirst, by omega⟩
      have passes (silent : ∀ due, Event.code (piece.events place due).1 = [])
          (stays : ∀ due, (piece.events place due).2 = due) :
          Event.code (stream place true (piece :: pieces))
            = Event.code (stream place false (piece :: pieces)) := by
        obtain ⟨restFirst, oneLine⟩ := noBreak (silent false) (stays false)
        have restLine : first.pos.line = (place.after piece.text).line := by
          rw [sameLine, Place.after, oneLine, Nat.add_zero]
        rw [stream, stream, Event.code_append, Event.code_append, silent, silent, stays, stays]
        exact inductionHypothesis _ restSpelled restFirst restLine
      rcases kindEq : piece.kind with _ | _ | _ | token | cause
      · exact passes (fun due => by simp [events, kindEq]) fun due => by simp [events, kindEq]
      · rw [SpelledByKind, kindEq] at pieceSpelled
        have oneLine := (noBreak (by simp [events, kindEq]) (by simp [events, kindEq])).2
        rw [pieceSpelled] at oneLine
        simp at oneLine
      · by_cases atStart : place.offset = 0
        · exact passes (fun due => by simp [events, kindEq, atStart])
            fun due => by simp [events, kindEq, atStart]
        · simp [stream, events, kindEq, atStart]
      · cases isComment : token.isComment with
        | false => simp [stream, events, kindEq, isComment]
        | true =>
            have oneLine := (noBreak (by simp [events, kindEq, isComment, Event.code_lexeme, lexeme])
              (by simp [events, kindEq, isComment])).2
            have noBreaks : '\n' ∉ piece.text := List.count_eq_zero.1 oneLine
            exact passes
              (fun due => by simp [events, kindEq, isComment, noBreaks, Event.code_lexeme, lexeme])
              fun due => by simp [events, kindEq, isComment, noBreaks]
      · simp [stream, events, kindEq]

/-! ## Blanks in front -/

/-- A blank in front of a text is a piece of its own, or belongs to the one with which the text begins. -/
theorem exists_rest_of_blank (text : List Char) :
    ∃ blanks rest, all (' ' :: text) = ⟨.blank, blanks⟩ :: rest
      ∧ (all text = rest ∨ ∃ others, all text = ⟨.blank, others⟩ :: rest) := by
  have cutEq : cut ' ' text = ⟨.blank, ' ' :: text.takeWhile isBlank⟩ := rfl
  have piecesEq : all (' ' :: text)
      = ⟨.blank, ' ' :: text.takeWhile isBlank⟩ :: all (text.dropWhile isBlank) := by
    rw [all_cons ' ' text _ _ (by rw [cutEq]) List.takeWhile_append_dropWhile.symm, cutEq]
  refine ⟨_, _, piecesEq, ?_⟩
  cases text with
  | nil => exact .inl rfl
  | cons first rest =>
      cases blank : isBlank first with
      | false => exact .inl (by rw [List.dropWhile_cons_of_neg (by simp [blank])])
      | true =>
          have firstCut : cut first rest = ⟨.blank, first :: rest.takeWhile isBlank⟩ := by
            have cases : (first = ' ' ∨ first = '\t') ∨ first = '\r' := by simpa [isBlank] using blank
            rcases cases with (rfl | rfl) | rfl <;> rfl
          refine .inr ⟨first :: rest.takeWhile isBlank, ?_⟩
          rw [all_cons first rest _ _ (by rw [firstCut]) List.takeWhile_append_dropWhile.symm, firstCut,
            List.dropWhile_cons_of_pos blank]

theorem mem_all_blank_cons
    {text : List Char}
    {piece : Piece}
    (member : piece ∈ all text) :
    piece.kind = .blank ∨ piece ∈ all (' ' :: text) := by
  obtain ⟨blanks, rest, piecesEq, textEq | ⟨others, textEq⟩⟩ := exists_rest_of_blank text
  · exact .inr (piecesEq ▸ List.mem_cons_of_mem _ (textEq ▸ member))
  · rw [textEq] at member
    rcases List.mem_cons.1 member with rfl | member
    · exact .inl rfl
    · exact .inr (piecesEq ▸ List.mem_cons_of_mem _ member)

/-- The grammar does not see a blank in front of a text. -/
theorem code_stream_blank_cons
    (place place' : Place)
    (due : Bool)
    (text : List Char)
    (noMark : ∀ piece ∈ all text, piece.kind ≠ .byteOrderMark) :
    Event.code (stream place due (all (' ' :: text))) = Event.code (stream place' due (all text)) := by
  have passes (place : Place) (blanks : List Char) (rest : List Piece) :
      stream place due (⟨.blank, blanks⟩ :: rest) = stream (place.after blanks) due rest := rfl
  obtain ⟨blanks, rest, piecesEq, textEq | ⟨others, textEq⟩⟩ := exists_rest_of_blank text
  · rw [piecesEq, passes, ← textEq]
    exact code_stream_congr _ _ due _ noMark
  · rw [textEq] at noMark
    rw [piecesEq, textEq, passes, passes]
    exact code_stream_congr _ _ due _ (List.forall_mem_cons.1 noMark).2

/-! ## Pieces that give no errors -/

/-- Whether a piece gives no error wherever it stands. -/
def IsSound (piece : Piece) : Prop :=
  ¬piece.IsFault ∧ piece.kind ≠ .byteOrderMark

theorem IsPlain.isSound
    {piece : Piece}
    (plain : piece.IsPlain) :
    piece.IsSound := by
  rcases plain with isBlank | ⟨token, isToken, -⟩
  · simp [IsSound, IsFault, isBlank]
  · simp [IsSound, IsFault, isToken]

theorem filterMap_error?_stream
    (place : Place)
    (due : Bool)
    (pieces : List Piece)
    (sound : ∀ piece ∈ pieces, piece.IsSound) :
    (stream place due pieces).filterMap Event.error? = [] := by
  induction pieces generalizing place due with
  | nil => cases due <;> rfl
  | cons piece pieces inductionHypothesis =>
      obtain ⟨⟨noFault, noMark⟩, restSound⟩ := List.forall_mem_cons.1 sound
      rw [stream, List.filterMap_append, inductionHypothesis _ _ restSound, List.append_nil]
      rcases kindEq : piece.kind with _ | _ | _ | token | cause
      · simp [events, kindEq]
      · cases due <;> simp [events, kindEq, Event.semicolon, Event.error?]
      · exact absurd kindEq noMark
      · simp only [events, kindEq]
        split_ifs <;> rfl
      · exact absurd ⟨cause, kindEq⟩ noFault

/-- What stands behind other text gives no errors anywhere if the whole gives none. -/
theorem Faultless.isSound
    {place : Place}
    {pieces : List Piece}
    (faultless : Faultless place pieces)
    (inside : 0 < place.offset)
    (piece : Piece)
    (member : piece ∈ pieces) :
    piece.IsSound :=
  ⟨faultless.not_isFault piece member, faultless.not_byteOrderMark inside piece member⟩

theorem exists_lexeme_of_token
    {place : Place}
    {due : Bool}
    {pieces : List Piece}
    {piece : Piece}
    {token : Token}
    (member : piece ∈ pieces)
    (isToken : piece.kind = .token token) :
    ∃ lexeme ∈ (stream place due pieces).filterMap Event.lexeme?, lexeme.token = token := by
  induction pieces generalizing place due with
  | nil => cases member
  | cons head pieces inductionHypothesis =>
      rw [stream, List.filterMap_append]
      rcases List.mem_cons.1 member with rfl | member
      · refine ⟨lexeme place token piece.text, List.mem_append_left _ ?_, rfl⟩
        simp only [events, isToken]
        split_ifs <;> exact List.mem_cons_self
      · obtain ⟨found, isFound, tokenEq⟩ := inductionHypothesis member
        exact ⟨found, List.mem_append_right _ isFound, tokenEq⟩

/-- On a line without comments every piece that gives no error is plain. -/
theorem isPlain_of_isSound
    {text : List Char}
    {piece : Piece}
    (member : piece ∈ all text)
    (sound : piece.IsSound)
    (oneLine : '\n' ∉ text)
    (noComment : ∀ token, piece.kind = .token token -> token.isComment = false) :
    piece.IsPlain := by
  rcases kindEq : piece.kind with _ | _ | _ | token | cause
  · exact .inl kindEq
  · have spelled := (spelledByKind_of_mem_all text piece member).2
    rw [SpelledByKind, kindEq] at spelled
    refine absurd ?_ oneLine
    rw [← flatMap_text_all text]
    exact List.mem_flatMap.2 ⟨piece, member, by rw [spelled]; exact List.mem_cons_self⟩
  · exact absurd kindEq sound.2
  · exact .inr ⟨token, kindEq, noComment token kindEq⟩
  · exact absurd ⟨cause, kindEq⟩ sound.1

/-- The last character that is no blank. -/
def lastVisible? (text : List Char) : Option Char :=
  (text.filter fun character => !isBlank character).getLast?

theorem lastVisible?_append (front back : List Char) :
    lastVisible? (front ++ back) = (lastVisible? back).or (lastVisible? front) := by
  rw [lastVisible?, List.filter_append, List.getLast?_append, lastVisible?, lastVisible?]

/-- Pieces without lexemes are blank. -/
theorem lastVisible?_of_silent
    {pieces : List Piece}
    (plain : ∀ piece ∈ pieces, piece.IsPlain)
    (spelled : ∀ piece ∈ pieces, piece.SpelledByKind)
    (silent : pieces.filterMap code? = []) :
    lastVisible? (pieces.flatMap text) = none := by
  rw [lastVisible?, List.getLast?_eq_none_iff, List.filter_eq_nil_iff]
  intro character member
  obtain ⟨piece, inPieces, inText⟩ := List.mem_flatMap.1 member
  have noCode := List.filterMap_eq_nil_iff.1 silent piece inPieces
  rcases plain piece inPieces with isBlank | ⟨token, isToken, isCode⟩
  · have pieceSpelled := spelled piece inPieces
    rw [SpelledByKind, isBlank] at pieceSpelled
    simp [pieceSpelled character inText]
  · rw [code?_of_token isToken isCode] at noCode
    cases noCode

/-- Pieces whose last lexeme is a written semicolon end in its character. -/
theorem lastVisible?_of_semi
    (pieces : List Piece)
    (last : Lexeme Unit)
    (plain : ∀ piece ∈ pieces, piece.IsPlain)
    (spelled : ∀ piece ∈ pieces, piece.SpelledByKind)
    (isLast : (pieces.filterMap code?).getLast? = some last)
    (isSemi : last.token = .semi) :
    lastVisible? (pieces.flatMap text) = some ';' := by
  induction pieces with
  | nil => cases isLast
  | cons piece pieces inductionHypothesis =>
      obtain ⟨piecePlain, restPlain⟩ := List.forall_mem_cons.1 plain
      obtain ⟨pieceSpelled, restSpelled⟩ := List.forall_mem_cons.1 spelled
      have rest (isLast : (pieces.filterMap code?).getLast? = some last) :
          lastVisible? ((piece :: pieces).flatMap text) = some ';' := by
        rw [List.flatMap_cons, lastVisible?_append,
          inductionHypothesis restPlain restSpelled isLast, Option.some_or]
      rcases piecePlain with isBlank | ⟨token, isToken, isCode⟩
      · rw [List.filterMap_cons_none (code?_of_blank isBlank)] at isLast
        exact rest isLast
      · rw [List.filterMap_cons_some (code?_of_token isToken isCode)] at isLast
        cases behind : pieces.filterMap code? with
        | cons next more =>
            rw [behind, List.getLast?_cons_cons, ← behind] at isLast
            exact rest isLast
        | nil =>
            rw [behind] at isLast
            obtain rfl : token = .semi := (congrArg Lexeme.token (Option.some.inj isLast)).trans isSemi
            rw [SpelledByKind, isToken] at pieceSpelled
            have textEq : piece.text = [';'] := pieceSpelled.2.1 (by decide) (by decide)
            rw [List.flatMap_cons, lastVisible?_append,
              lastVisible?_of_silent restPlain restSpelled behind, textEq]
            rfl

end Piece
end GoFront
