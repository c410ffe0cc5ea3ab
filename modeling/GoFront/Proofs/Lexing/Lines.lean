import GoFront.Proofs.Lexing.Seams
import GoFront.Proofs.Lexing.Spans

/-!
# Texts line by line

A text without lexical errors is cut in the same way when further lines follow it. So the stream of a
text is the stream of its first lines and then the stream of the others, at later places.
-/

namespace GoFront

namespace Piece

/-! ## Pieces -/

/-- Lines without faults are cut by themselves. -/
theorem all_append_newline
    (front back : List Char)
    (faultless : ∀ piece ∈ all front, ¬piece.IsFault) :
    all (front ++ '\n' :: back) = all front ++ ⟨.newline, ['\n']⟩ :: all back := by
  have cutEq : cut '\n' back = ⟨.newline, ['\n']⟩ := rfl
  have isSeam : '\n' ∈ seams := by decide
  rw [all_append_seam front back isSeam (fun _ _ _ => rfl) faultless,
    all_cons '\n' back [] back (by rw [cutEq]) rfl, cutEq]

/-! ## Streams -/

/-- A line break settles what is due. -/
theorem stream_append_newline
    (place : Place)
    (due : Bool)
    (front back : List Piece) :
    stream place due (front ++ ⟨.newline, ['\n']⟩ :: back)
      = stream place due front
        ++ stream (place.after (front.flatMap text ++ ['\n'])) false back := by
  induction front generalizing place due with
  | nil => rfl
  | cons piece front inductionHypothesis =>
      simp only [List.cons_append, stream, inductionHypothesis, List.flatMap_cons,
        List.append_assoc, Place.after_append]

end Piece

namespace Place

/-- A place that lies further behind, by a number of bytes and of lines. -/
def shifted (bytes lines : Nat) (place : Place) : Place :=
  ⟨place.offset + bytes, place.line + lines⟩

theorem after_shifted
    (bytes lines : Nat)
    (place : Place)
    (text : List Char) :
    (place.shifted bytes lines).after text = (place.after text).shifted bytes lines := by
  simp only [after, shifted, Place.mk.injEq]
  omega

/-- The place behind a line. -/
theorem start_after_line (text : List Char) :
    start.after (text ++ ['\n']) = start.shifted (byteCount text + 1) (text.count '\n' + 1) := by
  have breakSize : byteCount ['\n'] = 1 := rfl
  have breakCount : ['\n'].count '\n' = 1 := rfl
  simp only [after, start, shifted, byteCount_append, List.count_append, breakSize, breakCount]

end Place

/-- The position that lies further behind, by a number of bytes and of lines. -/
def Position.shifted (bytes lines : Nat) (position : Position) : Position :=
  .clamped (position.offset + bytes) (position.line + lines) position.filename

theorem Place.position_shifted
    (bytes lines : Nat)
    (filename : Option String)
    (place : Place) :
    (place.shifted bytes lines).position filename
      = (place.position filename).shifted bytes lines := by
  simp only [Place.position, Place.shifted, Position.shifted, Position.clamped, Position.mk.injEq]
  refine ⟨?_, ?_, trivial⟩ <;> omega

namespace Piece

variable {bytes lines : Nat}

/-- What a piece adds to the stream does not depend on its place, unless it is a byte order mark at the
start of the text. -/
theorem events_shifted
    (place : Place)
    (due : Bool)
    (piece : Piece)
    (inside : piece.kind = .byteOrderMark -> place.offset ≠ 0) :
    piece.events (place.shifted bytes lines) due
      = ((piece.events place due).1.map (Event.map (Place.shifted bytes lines)),
        (piece.events place due).2) := by
  obtain ⟨kind, text⟩ := piece
  cases kind with
  | blank => rfl
  | newline => cases due <;> rfl
  | byteOrderMark =>
      have inside : place.offset ≠ 0 := inside rfl
      have shiftedInside : (place.shifted bytes lines).offset ≠ 0 := fun atStart =>
        inside (Nat.eq_zero_of_add_eq_zero_right atStart)
      simp only [events, if_neg inside, if_neg shiftedInside]
      rfl
  | fault cause =>
      simp only [events, error, Place.after_shifted]
      cases cause.reportedAtEnd <;> rfl
  | token token =>
      simp only [events, Place.after_shifted]
      split_ifs <;> rfl

theorem stream_shifted
    (place : Place)
    (due : Bool)
    (pieces : List Piece)
    (nonempty : ∀ piece ∈ pieces, piece.text ≠ [])
    (noMark : place.offset = 0 -> ∀ first ∈ pieces.head?, first.kind ≠ .byteOrderMark) :
    stream (place.shifted bytes lines) due pieces
      = (stream place due pieces).map (Event.map (Place.shifted bytes lines)) := by
  induction pieces generalizing place due with
  | nil => cases due <;> rfl
  | cons piece pieces inductionHypothesis =>
      obtain ⟨pieceNonempty, restNonempty⟩ := List.forall_mem_cons.1 nonempty
      have inside : piece.kind = .byteOrderMark -> place.offset ≠ 0 := fun isMark atStart =>
        noMark atStart piece rfl isMark
      have behind : (place.after piece.text).offset ≠ 0 := by
        have := byteCount_pos piece.text pieceNonempty
        rw [Place.offset_after]
        omega
      simp only [stream, events_shifted place due piece inside, Place.after_shifted,
        inductionHypothesis _ _ restNonempty (absurd · behind), List.map_append]

theorem Faultless.not_isFault
    {place : Place}
    {pieces : List Piece}
    (faultless : Faultless place pieces)
    (piece : Piece)
    (member : piece ∈ pieces) :
    ¬piece.IsFault := by
  induction pieces generalizing place with
  | nil => cases member
  | cons head tail inductionHypothesis =>
      rcases List.mem_cons.1 member with rfl | member
      · rintro ⟨cause, isFault⟩
        exact faultless.1 cause isFault
      · exact inductionHypothesis faultless.2.2 member

/-- Behind the start of a text without errors there is no byte order mark. -/
theorem Faultless.not_byteOrderMark
    {place : Place}
    {pieces : List Piece}
    (faultless : Faultless place pieces)
    (inside : 0 < place.offset)
    (piece : Piece)
    (member : piece ∈ pieces) :
    piece.kind ≠ .byteOrderMark := by
  induction pieces generalizing place with
  | nil => cases member
  | cons head tail inductionHypothesis =>
      rcases List.mem_cons.1 member with rfl | member
      · intro isMark
        have := faultless.2.1 isMark
        omega
      · refine inductionHypothesis faultless.2.2 ?_ member
        rw [Place.offset_after]
        omega

/-- A text starts with a byte order mark if its first piece is one. -/
theorem head?_eq_byteOrderMark
    (text : List Char)
    (first : Piece)
    (isFirst : first ∈ (all text).head?)
    (isMark : first.kind = .byteOrderMark) :
    text.head? = some byteOrderMark := by
  cases text with
  | nil => simp at isFirst
  | cons head rest =>
      obtain ⟨tail, cutEq, after, restEq⟩ := exists_cut_text head rest
      rw [all_cons head rest tail after cutEq restEq.symm] at isFirst
      obtain rfl : cut head rest = first := Option.some.inj isFirst
      have spelled := cut_spelledByKind head rest
      rw [SpelledByKind, isMark, cutEq] at spelled
      exact congrArg some (List.cons.inj spelled).1

/-- A text does not start with a byte order mark if none of its pieces is one. -/
theorem head?_ne_byteOrderMark
    (text : List Char)
    (noMark : ∀ piece ∈ all text, piece.kind ≠ .byteOrderMark) :
    text.head? ≠ some byteOrderMark := by
  intro starts
  obtain ⟨rest, rfl⟩ := List.head?_eq_some_iff.1 starts
  have cutEq : cut byteOrderMark rest = ⟨.byteOrderMark, [byteOrderMark]⟩ := rfl
  refine noMark (cut byteOrderMark rest) ?_ (by rw [cutEq])
  rw [all_cons byteOrderMark rest [] rest (by rw [cutEq]) rfl]
  exact List.mem_cons_self

/-- A text without errors that does not start with a byte order mark has none. -/
theorem not_byteOrderMark_of_head
    (text : List Char)
    (faultless : Faultless .start (all text))
    (noMark : text.head? ≠ some byteOrderMark)
    (piece : Piece)
    (member : piece ∈ all text) :
    piece.kind ≠ .byteOrderMark := by
  intro isMark
  refine noMark ?_
  cases piecesEq : all text with
  | nil => simp [piecesEq] at member
  | cons first pieces =>
      rw [piecesEq] at faultless member
      rcases List.mem_cons.1 member with rfl | member
      · exact head?_eq_byteOrderMark text piece (by rw [piecesEq]; rfl) isMark
      · refine absurd isMark (faultless.2.2.not_byteOrderMark ?_ piece member)
        have nonempty := (spelledByKind_of_mem_all text first (by simp [piecesEq])).1
        have := byteCount_pos first.text nonempty
        rw [Place.offset_after]
        omega

end Piece

/-- The stream of a text with more lines behind it. -/
theorem streamOf_append_newline
    (front back : List Char)
    (faultless : ∀ piece ∈ Piece.all front, ¬piece.IsFault)
    (noMark : back.head? ≠ some Piece.byteOrderMark) :
    streamOf (front ++ '\n' :: back)
      = streamOf front ++ (streamOf back).map
          (Event.map (Place.shifted (byteCount front + 1) (front.count '\n' + 1))) := by
  have nonempty : ∀ piece ∈ Piece.all back, piece.text ≠ [] := fun piece member =>
    (Piece.spelledByKind_of_mem_all back piece member).1
  have firstNoMark : ∀ first ∈ (Piece.all back).head?, first.kind ≠ .byteOrderMark :=
    fun first isFirst isMark => noMark (Piece.head?_eq_byteOrderMark back first isFirst isMark)
  simp only [streamOf]
  rw [Piece.all_append_newline front back faultless, Piece.stream_append_newline,
    Piece.flatMap_text_all, Place.start_after_line,
    Piece.stream_shifted _ _ _ nonempty fun _ => firstNoMark]

/-! ## Sources -/

/-- The position behind a source and the line break that ends it, as seen from the start. -/
def Position.behindLines (front : String) : Position -> Position :=
  shifted (front.utf8ByteSize + 1) (front.toList.count '\n' + 1)

theorem position_comp_shifted
    (front : String)
    (filename : Option String) :
    Place.position filename
        ∘ Place.shifted (byteCount front.toList + 1) (front.toList.count '\n' + 1)
      = Position.behindLines front ∘ Place.position filename := by
  funext place
  rw [Function.comp_apply, Function.comp_apply, Place.position_shifted, Position.behindLines,
    utf8ByteSize_eq_byteCount]

theorem Event.map_map
    {P Q R : Type}
    (first : P -> Q)
    (second : Q -> R)
    (event : Event P) :
    (event.map first).map second = event.map (second ∘ first) := by
  cases event <;> rfl

/-- The events of a source with more lines behind it. -/
theorem events_append_newline
    (front back : String)
    (filename : Option String)
    (noErrors : (lex front filename).errors = [])
    (noMark : back.toList.head? ≠ some Piece.byteOrderMark) :
    (streamOf (front ++ "\n" ++ back).toList).map (Event.map (Place.position filename))
      = (streamOf front.toList).map (Event.map (Place.position filename))
        ++ ((streamOf back.toList).map (Event.map (Place.position filename))).map
          (Event.map (Position.behindLines front)) := by
  have textEq : (front ++ "\n" ++ back).toList = front.toList ++ '\n' :: back.toList := by
    simp
  have faultless := (faultless_of_lex front filename noErrors).not_isFault
  rw [textEq, streamOf_append_newline _ _ faultless noMark, List.map_append, List.map_map,
    List.map_map]
  have sameMap : Event.map (Place.position filename) ∘ Event.map
        (Place.shifted (byteCount front.toList + 1) (front.toList.count '\n' + 1))
      = Event.map (Position.behindLines front) ∘ Event.map (Place.position filename) := by
    funext event
    rw [Function.comp_apply, Function.comp_apply, Event.map_map, Event.map_map,
      position_comp_shifted]
  rw [sameMap]

/-- What is lexed from a source with more lines behind it. -/
theorem lex_append_newline
    (front back : String)
    (filename : Option String)
    (noErrors : (lex front filename).errors = [])
    (noMark : back.toList.head? ≠ some Piece.byteOrderMark) :
    (lex (front ++ "\n" ++ back) filename).lexemes
        = (lex front filename).lexemes
          ++ (lex back filename).lexemes.map (Lexeme.map (Position.behindLines front))
      ∧ (lex (front ++ "\n" ++ back) filename).errors
        = (lex back filename).errors.map (LexError.map (Position.behindLines front))
      ∧ (lex (front ++ "\n" ++ back) filename).stop
        = Position.behindLines front (lex back filename).stop := by
  have events := events_append_newline front back filename noErrors noMark
  refine ⟨?_, ?_, ?_⟩
  · simp only [lex, events]
    rw [List.filterMap_append, Event.filterMap_lexeme?_map (Position.behindLines front)]
  · simp only [lex] at noErrors
    simp only [lex, events]
    rw [List.filterMap_append, noErrors, List.nil_append,
      Event.filterMap_error?_map (Position.behindLines front)]
  · have textEq : (front ++ "\n" ++ back).toList
        = (front.toList ++ ['\n']) ++ back.toList := by
      simp
    simp only [lex]
    rw [textEq, Place.after_append, Place.start_after_line, Place.after_shifted,
      Place.position_shifted, Position.behindLines, utf8ByteSize_eq_byteCount]

/-- Lines behind lines. -/
theorem Position.behindLines_append (front back : String) :
    behindLines (front ++ "\n" ++ back) = behindLines back ∘ behindLines front := by
  funext position
  have bytes : (front ++ "\n" ++ back).utf8ByteSize
      = front.utf8ByteSize + 1 + back.utf8ByteSize := by
    have lineBreak : "\n".utf8ByteSize = 1 := rfl
    rw [String.utf8ByteSize_append, String.utf8ByteSize_append, lineBreak]
  have breaks : (front ++ "\n" ++ back).toList.count '\n'
      = front.toList.count '\n' + 1 + back.toList.count '\n' := by
    have lineBreak : "\n".toList.count '\n' = 1 := rfl
    rw [String.toList_append, String.toList_append, List.count_append, List.count_append, lineBreak]
  simp only [Function.comp_apply, behindLines, shifted, clamped, bytes, breaks, Position.mk.injEq]
  generalize largest = bound
  refine ⟨?_, ?_, trivial⟩ <;> omega

/-- The other lines of a source without errors have no byte order mark. -/
theorem not_byteOrderMark_of_lex
    (front back : String)
    (filename : Option String)
    (frontErrors : (lex front filename).errors = [])
    (noErrors : (lex (front ++ "\n" ++ back) filename).errors = [])
    (piece : Piece)
    (member : piece ∈ Piece.all back.toList) :
    piece.kind ≠ .byteOrderMark := by
  have textEq : (front ++ "\n" ++ back).toList = front.toList ++ '\n' :: back.toList := by
    simp
  have faultless := faultless_of_lex _ filename noErrors
  rw [textEq, Piece.all_append_newline _ _ (faultless_of_lex front filename frontErrors).not_isFault,
    Piece.Faultless.append] at faultless
  refine faultless.2.2.2.not_byteOrderMark ?_ piece member
  have breakSize : byteCount ['\n'] = 1 := rfl
  rw [Place.offset_after, breakSize]
  omega

end GoFront
