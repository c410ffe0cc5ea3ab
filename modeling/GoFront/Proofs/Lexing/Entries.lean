import GoFront.Proofs.Lexing.Pieces

/-!
# Written and inserted lexemes

The stream shows an inserted semicolon exactly like a written one. Here the stream is told once more
with the stretch of text that each lexeme was written as, and both tellings are shown to have the same
lexemes. Without lexical errors the entries stand in the text one behind the other.
-/

namespace GoFront

/-! ## Places and bytes -/

@[simp] theorem byteCount_append (first second : List Char) :
    byteCount (first ++ second) = byteCount first + byteCount second := by
  induction first with
  | nil => simp [byteCount]
  | cons character rest inductionHypothesis =>
      simp only [List.cons_append, byteCount, inductionHypothesis]
      omega

theorem byteCount_pos
    (text : List Char)
    (nonempty : text ≠ []) :
    0 < byteCount text := by
  cases text with
  | nil => exact absurd rfl nonempty
  | cons character rest =>
      have := character.utf8Size_pos
      simp only [byteCount]
      omega

namespace Place

@[simp] theorem after_nil (place : Place) : place.after [] = place := rfl

@[simp] theorem after_append
    (place : Place)
    (first second : List Char) :
    place.after (first ++ second) = (place.after first).after second := by
  simp [after, Nat.add_assoc]

@[simp] theorem offset_after
    (place : Place)
    (text : List Char) :
    (place.after text).offset = place.offset + byteCount text := rfl

end Place

/-! ## Entries -/

/-- A lexeme of the stream with the stretch of text that it was written as. An inserted semicolon was
not written. -/
structure Entry (P : Type) where
  lexeme : Lexeme P
  written : Option (List Char)

namespace Entry

variable {P : Type}

/-- A written token. -/
def ofToken
    (place : Place)
    (token : Token)
    (text : List Char) : Entry Place :=
  ⟨Piece.lexeme place token text, some text⟩

/-- An inserted semicolon. -/
def semicolon (pos : P) : Entry P :=
  ⟨⟨.semi, pos, none⟩, none⟩

/-- The same entry at another place. -/
def map {Q : Type} (move : P -> Q) (entry : Entry P) : Entry Q :=
  ⟨entry.lexeme.map move, entry.written⟩

/-- Whether an entry was written and is no comment. -/
def isCode (entry : Entry P) : Bool :=
  entry.written.isSome && !entry.lexeme.token.isComment

@[simp] theorem isCode_semicolon (pos : P) : (semicolon pos).isCode = false := rfl

@[simp] theorem isCode_ofToken
    (place : Place)
    (token : Token)
    (text : List Char) :
    (ofToken place token text).isCode = !token.isComment := rfl

@[simp] theorem pos_ofToken
    (place : Place)
    (token : Token)
    (text : List Char) :
    (ofToken place token text).lexeme.pos = place := rfl

/-- A token that is spelled as its kind says has the text that it was written as. -/
theorem text_ofToken
    (place : Place)
    (token : Token)
    (text : List Char)
    (spelled : (⟨.token token, text⟩ : Piece).SpelledByKind) :
    (ofToken place token text).lexeme.text = String.ofList text := by
  by_cases keepsText : token.isLiteral || token.isComment
  · simp [ofToken, Lexeme.text, Piece.lexeme, keepsText]
  · have isFixed : token.isLiteral = false ∧ token.isComment = false := by
      simpa using keepsText
    have fixedText : text = token.spelling.toList :=
      spelled.2.1 (by simp [isFixed]) (by simp [isFixed])
    simp [ofToken, Lexeme.text, Piece.lexeme, isFixed, fixedText]

end Entry

namespace Piece

/-- What a piece adds to the stream, errors left out. -/
def entries (place : Place) (due : Bool) (piece : Piece) : List (Entry Place) × Bool :=
  match piece.kind with
  | .blank => ([], due)
  | .newline => (if due then [.semicolon place] else [], false)
  | .byteOrderMark => ([], due && place.offset = 0)
  | .fault _ => ([], false)
  | .token token =>
      let written := [Entry.ofToken place token piece.text]
      if token.isComment then
        if due && piece.text.contains '\n' then
          (written ++ [.semicolon (place.after (piece.text.takeWhile (· ≠ '\n')))], false)
        else (written, due)
      else (written, token.endsStatement)

/-- The entries of consecutive pieces. -/
def entryStream : (place : Place) -> (due : Bool) -> List Piece -> List (Entry Place)
  | place, due, [] => if due then [.semicolon place] else []
  | place, due, piece :: rest =>
      let (entries, due) := piece.entries place due
      entries ++ entryStream (place.after piece.text) due rest

/-- Entries and events agree on the lexemes and on whether a line break would end a statement. -/
theorem entries_eq_events
    (place : Place)
    (due : Bool)
    (piece : Piece) :
    (piece.entries place due).1.map Entry.lexeme
        = (piece.events place due).1.filterMap Event.lexeme?
      ∧ (piece.entries place due).2 = (piece.events place due).2 := by
  unfold entries events
  cases piece.kind with
  | blank | fault => exact ⟨rfl, rfl⟩
  | newline => cases due <;> exact ⟨rfl, rfl⟩
  | byteOrderMark => by_cases atStart : place.offset = 0 <;> simp [atStart, Event.lexeme?]
  | token token =>
      dsimp only
      split_ifs <;> exact ⟨rfl, rfl⟩

/-- The lexemes of the entries are the lexemes of the stream. -/
theorem map_lexeme_entryStream
    (place : Place)
    (due : Bool)
    (pieces : List Piece) :
    (entryStream place due pieces).map Entry.lexeme
      = (stream place due pieces).filterMap Event.lexeme? := by
  induction pieces generalizing place due with
  | nil => cases due <;> rfl
  | cons piece rest inductionHypothesis =>
      obtain ⟨lexemes, sameDue⟩ := entries_eq_events place due piece
      simp only [entryStream, stream, List.map_append, List.filterMap_append]
      rw [lexemes, sameDue, inductionHypothesis]

/-- What an entry of a piece is: an inserted semicolon, or the token that the piece is. -/
theorem cases_of_mem_entries
    {place : Place}
    {due : Bool}
    {piece : Piece}
    {entry : Entry Place}
    (member : entry ∈ (piece.entries place due).1) :
    (∃ pos, entry = .semicolon pos)
      ∨ ∃ token, piece.kind = .token token ∧ entry = .ofToken place token piece.text := by
  unfold entries at member
  cases kindEq : piece.kind with
  | blank | byteOrderMark | fault => simp [kindEq] at member
  | newline =>
      cases due with
      | false => simp [kindEq] at member
      | true => exact .inl ⟨place, by simpa [kindEq] using member⟩
  | token token =>
      simp only [kindEq] at member
      split_ifs at member
      · simp only [List.mem_append, List.mem_singleton] at member
        rcases member with isWritten | isInserted
        · exact .inr ⟨token, rfl, isWritten⟩
        · exact .inl ⟨_, isInserted⟩
      · exact .inr ⟨token, rfl, by simpa using member⟩
      · exact .inr ⟨token, rfl, by simpa using member⟩

/-- What an entry of consecutive pieces is: an inserted semicolon, or the token that a piece is. -/
theorem cases_of_mem_entryStream
    {place : Place}
    {due : Bool}
    {pieces : List Piece}
    {entry : Entry Place}
    (member : entry ∈ entryStream place due pieces) :
    (∃ pos, entry = .semicolon pos)
      ∨ ∃ piece ∈ pieces, ∃ token pos, piece.kind = .token token
        ∧ entry = .ofToken pos token piece.text := by
  induction pieces generalizing place due with
  | nil =>
      obtain ⟨-, isInserted⟩ : due = true ∧ entry = .semicolon place := by
        cases due <;> simp_all [entryStream]
      exact .inl ⟨place, isInserted⟩
  | cons piece rest inductionHypothesis =>
      rw [entryStream, List.mem_append] at member
      rcases member with inPiece | inRest
      · rcases cases_of_mem_entries inPiece with inserted | ⟨token, kindEq, isWritten⟩
        · exact .inl inserted
        · exact .inr ⟨piece, by simp, token, place, kindEq, isWritten⟩
      · rcases inductionHypothesis inRest with inserted | ⟨other, isPiece, written⟩
        · exact .inl inserted
        · exact .inr ⟨other, List.mem_cons_of_mem piece isPiece, written⟩

/-! ## Texts without errors -/

/-- Whether consecutive pieces give no errors: none is faulty, and a byte order mark stands at most
at the start of the text. -/
def Faultless : (place : Place) -> List Piece -> Prop
  | _, [] => True
  | place, piece :: rest =>
      (forall cause, piece.kind ≠ .fault cause)
        ∧ (piece.kind = .byteOrderMark -> place.offset = 0)
        ∧ Faultless (place.after piece.text) rest

theorem faultless_of_no_errors
    (place : Place)
    (due : Bool)
    (pieces : List Piece)
    (noErrors : (stream place due pieces).filterMap Event.error? = []) :
    Faultless place pieces := by
  induction pieces generalizing place due with
  | nil => trivial
  | cons piece rest inductionHypothesis =>
      simp only [stream, List.filterMap_append, List.append_eq_nil_iff] at noErrors
      refine ⟨?_, ?_, inductionHypothesis _ _ noErrors.2⟩
      · intro cause isFault
        simp [events, isFault, Event.error?] at noErrors
      · intro isMark
        by_contra inside
        simp [events, isMark, inside, Event.error?] at noErrors

theorem Faultless.append
    {place : Place}
    {first second : List Piece} :
    Faultless place (first ++ second) ↔
      Faultless place first ∧ Faultless (place.after (first.flatMap text)) second := by
  induction first generalizing place with
  | nil => simp [Faultless]
  | cons piece rest inductionHypothesis =>
      simp [Faultless, inductionHypothesis, and_assoc]

end Piece

/-- The entries of a text. -/
def entriesOf (text : List Char) : List (Entry Place) :=
  Piece.entryStream .start false (Piece.all text)

namespace Event

variable {P Q : Type}

theorem filterMap_lexeme?_map
    (move : P -> Q)
    (events : List (Event P)) :
    (events.map (Event.map move)).filterMap lexeme?
      = (events.filterMap lexeme?).map (Lexeme.map move) := by
  rw [List.filterMap_map, List.map_filterMap]
  congr 1
  funext event
  cases event <;> rfl

theorem filterMap_error?_map
    (move : P -> Q)
    (events : List (Event P)) :
    (events.map (Event.map move)).filterMap error?
      = (events.filterMap error?).map (LexError.map move) := by
  rw [List.filterMap_map, List.map_filterMap]
  congr 1
  funext event
  cases event <;> rfl

end Event

/-- The lexemes of a text are those of its entries. -/
theorem lex_lexemes
    (source : String)
    (filename : Option String) :
    (lex source filename).lexemes
      = (entriesOf source.toList).map fun entry =>
          entry.lexeme.map (Place.position filename) := by
  simp only [lex, streamOf, entriesOf]
  rw [Event.filterMap_lexeme?_map, ← Piece.map_lexeme_entryStream, List.map_map]
  rfl

/-- A text without lexical errors has faultless pieces. -/
theorem faultless_of_lex
    (source : String)
    (filename : Option String)
    (noErrors : (lex source filename).errors = []) :
    Piece.Faultless .start (Piece.all source.toList) := by
  apply Piece.faultless_of_no_errors .start false
  simp only [lex, streamOf] at noErrors
  rwa [Event.filterMap_error?_map, List.map_eq_nil_iff] at noErrors

end GoFront
