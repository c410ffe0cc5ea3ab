import GoFront.Proofs.Lexing.Lines
import GoFront.Proofs.Lexing.Placement

/-!
# Lexing line by line

The lexemes of a source without errors and of the lines behind it are the lexemes of both, one after the
other: the later ones are moved by the bytes and the lines of the earlier source, and the end of the
earlier source is left out. As long as the text is small, no position is cut down by the move.
-/

namespace GoFront

/-- The position behind a source and the line break that ends it, as seen from the start, for numbers of
any size. -/
def Position.exactlyBehind (front : String) (position : Position) : Position :=
  ⟨position.offset + (front.utf8ByteSize + 1), position.line + (front.toList.count '\n' + 1),
    position.filename⟩

namespace Place

/-- A place that fits behind other lines fits in front of them. -/
theorem Fits.of_shifted
    {bytes lines : Nat}
    {place : Place}
    (fits : (place.shifted bytes lines).Fits) :
    place.Fits :=
  ⟨Nat.le_of_add_right_le fits.1, Nat.le_of_add_right_le fits.2⟩

/-- Where a place fits, its position is moved exactly. -/
theorem behindLines_position
    (front : String)
    (filename : Option String)
    (place : Place)
    (fits : (place.shifted (byteCount front.toList + 1) (front.toList.count '\n' + 1)).Fits) :
    Position.behindLines front (place.position filename)
      = Position.exactlyBehind front (place.position filename) := by
  have moved := congrFun (position_comp_shifted front filename) place
  rw [Function.comp_apply, Function.comp_apply] at moved
  rw [← moved, fits.position_eq, fits.of_shifted.position_eq, Position.exactlyBehind,
    utf8ByteSize_eq_byteCount]
  rfl

end Place

/-- The text of two sources with a line break between them. -/
theorem toList_append_newline (front back : String) :
    (front ++ "\n" ++ back).toList = front.toList ++ '\n' :: back.toList := by
  simp

/-- In a small text every event of the later lines fits behind the earlier ones. -/
theorem fits_of_mem_behind
    (front back : String)
    (faultless : ∀ piece ∈ Piece.all front.toList, ¬piece.IsFault)
    (noMark : back.toList.head? ≠ some Piece.byteOrderMark)
    (small : (front ++ "\n" ++ back).utf8ByteSize < 2 ^ 32)
    (event : Event Place)
    (member : event ∈ streamOf back.toList) :
    (event.pos.shifted (byteCount front.toList + 1) (front.toList.count '\n' + 1)).Fits := by
  rw [utf8ByteSize_eq_byteCount] at small
  have fits := fits_of_mem_streamOf (front ++ "\n" ++ back).toList (Nat.le_of_lt_succ small)
    (event.map (Place.shifted (byteCount front.toList + 1) (front.toList.count '\n' + 1)))
  rw [toList_append_newline, streamOf_append_newline _ _ faultless noMark] at fits
  have posEq : (event.map (Place.shifted (byteCount front.toList + 1)
      (front.toList.count '\n' + 1))).pos = event.pos.shifted (byteCount front.toList + 1)
        (front.toList.count '\n' + 1) := by
    cases event <;> rfl
  rw [← posEq]
  exact fits (List.mem_append_right _ (List.mem_map_of_mem member))

/-- The end of the later lines of a small text. -/
theorem stop_append_newline
    (front back : String)
    (filename : Option String)
    (noErrors : (lex front filename).errors = [])
    (noMark : back.toList.head? ≠ some Piece.byteOrderMark)
    (small : (front ++ "\n" ++ back).utf8ByteSize < 2 ^ 32)
    (other : front ++ "\n" ++ back ≠ lineBreaks Position.largest) :
    (lex (front ++ "\n" ++ back) filename).stop
      = Position.exactlyBehind front (lex back filename).stop := by
  have textEq : (front ++ "\n" ++ back).toList = (front.toList ++ ['\n']) ++ back.toList := by
    simp
  rw [utf8ByteSize_eq_byteCount] at small
  have fits := (Place.fits_or_lineBreaks _ (Nat.le_of_lt_succ small)).resolve_right
    fun onlyBreaks => other (by rw [lineBreaks, ← onlyBreaks, String.ofList_toList])
  rw [textEq, Place.after_append, Place.start_after_line, Place.after_shifted] at fits
  rw [(lex_append_newline front back filename noErrors noMark).2.2]
  exact Place.behindLines_position front filename _ fits

/-- A source without errors in front of others, in a small text: first its lexemes come and then theirs,
which are moved like their errors. The end of the text is the end of the later source, moved as well,
unless the text is the largest one that consists of line breaks. -/
theorem lex_concatenation
    (front back : String)
    (filename : Option String)
    (noErrors : (lex front filename).errors = [])
    (noMark : back.toList.head? ≠ some Piece.byteOrderMark)
    (small : (front ++ "\n" ++ back).utf8ByteSize < 2 ^ 32) :
    (lex (front ++ "\n" ++ back) filename).lexemes
        = (lex front filename).lexemes
          ++ (lex back filename).lexemes.map (Lexeme.map (Position.exactlyBehind front))
      ∧ (lex (front ++ "\n" ++ back) filename).errors
        = (lex back filename).errors.map (LexError.map (Position.exactlyBehind front))
      ∧ (front ++ "\n" ++ back ≠ lineBreaks Position.largest ->
          (lex (front ++ "\n" ++ back) filename).stream
            = (lex front filename).lexemes
              ++ (lex back filename).stream.map (Lexeme.map (Position.exactlyBehind front)))
      ∧ (front ++ "\n" ++ back = lineBreaks Position.largest ->
          (lex (front ++ "\n" ++ back) filename).stop
            = ⟨Position.largest, Position.largest, filename⟩) := by
  have faultless := (faultless_of_lex front filename noErrors).not_isFault
  have moved (event : Event Place) (member : event ∈ streamOf back.toList) :
      Position.behindLines front (event.pos.position filename)
        = Position.exactlyBehind front (event.pos.position filename) :=
    Place.behindLines_position front filename _
      (fits_of_mem_behind front back faultless noMark small event member)
  obtain ⟨lexemesEq, errorsEq⟩ := lex_eq_map back filename
  have movedLexemes : (lex back filename).lexemes.map (Lexeme.map (Position.behindLines front))
      = (lex back filename).lexemes.map (Lexeme.map (Position.exactlyBehind front)) := by
    rw [lexemesEq, List.map_map, List.map_map]
    refine List.map_congr_left fun lexeme member => ?_
    have posEq := moved _ (Event.mem_of_lexeme? member)
    exact congrArg (Lexeme.mk lexeme.token · lexeme.literal) posEq
  have movedErrors : (lex back filename).errors.map (LexError.map (Position.behindLines front))
      = (lex back filename).errors.map (LexError.map (Position.exactlyBehind front)) := by
    rw [errorsEq, List.map_map, List.map_map]
    refine List.map_congr_left fun error member => ?_
    have posEq := moved _ (Event.mem_of_error? member)
    exact congrArg (LexError.mk error.cause) posEq
  obtain ⟨lexemes, errors, -⟩ := lex_append_newline front back filename noErrors noMark
  rw [movedLexemes] at lexemes
  rw [movedErrors] at errors
  refine ⟨lexemes, errors, fun other => ?_, fun isBreaks => ?_⟩
  · rw [Lexed.stream, lexemes, stop_append_newline front back filename noErrors noMark small other,
      List.append_assoc, Lexed.stream, List.map_append]
    rfl
  · rw [isBreaks, stop_lineBreaks]

/-- A word, and behind it a string that is not closed and a byte order mark that is out of place. -/
theorem lex_concatenation_faulty :
    (lex "x" none).errors = []
      ∧ "\"a\n\uFEFFy".toList.head? ≠ some Piece.byteOrderMark
      ∧ ("x" ++ "\n" ++ "\"a\n\uFEFFy").utf8ByteSize < 2 ^ 32
      ∧ (lex ("x" ++ "\n" ++ "\"a\n\uFEFFy") none).lexemes
        = (lex "x" none).lexemes
          ++ (lex "\"a\n\uFEFFy" none).lexemes.map (Lexeme.map (Position.exactlyBehind "x"))
      ∧ (lex ("x" ++ "\n" ++ "\"a\n\uFEFFy") none).errors
        = (lex "\"a\n\uFEFFy" none).errors.map (LexError.map (Position.exactlyBehind "x")) := by
  have noErrors : (lex "x" none).errors = [] := by decide +kernel
  have noMark : "\"a\n\uFEFFy".toList.head? ≠ some Piece.byteOrderMark := by decide
  have small : ("x" ++ "\n" ++ "\"a\n\uFEFFy").utf8ByteSize < 2 ^ 32 := by decide
  obtain ⟨lexemes, errors, -⟩ :=
    lex_concatenation "x" "\"a\n\uFEFFy" none noErrors noMark small
  exact ⟨noErrors, noMark, small, lexemes, errors⟩

/-- Streams that agree have the same end. -/
theorem Lexed.stop_of_stream_eq
    {P Q : Type}
    {lexed : Lexed Q}
    {later : Lexed P}
    {earlier : List (Lexeme Q)}
    {move : P -> Q}
    (equal : lexed.stream = earlier ++ later.stream.map (Lexeme.map move)) :
    lexed.stop = move later.stop := by
  have lastEq := congrArg List.getLast? equal
  rw [stream, stream, List.map_append, ← List.append_assoc, List.map_singleton,
    List.getLast?_concat, List.getLast?_concat] at lastEq
  exact congrArg Lexeme.pos (Option.some.inj lastEq)

/-- A line break more moves the end of a source that consists of line breaks by no line, where it makes the
source the largest one. -/
theorem stream_lineBreaks_ne
    (count : Nat)
    (isLargest : Position.largest = count + 1) :
    (lex ("" ++ "\n" ++ lineBreaks count) none).stream
      ≠ (lex "" none).lexemes
        ++ (lex (lineBreaks count) none).stream.map (Lexeme.map (Position.exactlyBehind "")) := by
  intro equal
  have stopEq := Lexed.stop_of_stream_eq equal
  have small : (lineBreaks count).utf8ByteSize < 2 ^ 32 := by
    rw [utf8ByteSize_lineBreaks]
    unfold Position.largest at isLargest
    omega
  have other : lineBreaks count ≠ lineBreaks Position.largest := by
    intro same
    have sizes := congrArg String.utf8ByteSize same
    rw [utf8ByteSize_lineBreaks, utf8ByteSize_lineBreaks] at sizes
    omega
  have backStop := stop_of_lex (lineBreaks count) none small
  rw [if_neg other, utf8ByteSize_lineBreaks, lineOf_lineBreaks] at backStop
  rw [← lineBreaks_succ, ← isLargest, stop_lineBreaks, backStop] at stopEq
  have noBreaks : "".toList.count '\n' = 0 := rfl
  have lineEq := congrArg Position.line stopEq
  simp only [Position.exactlyBehind, noBreaks] at lineEq
  omega

/-- The end of a source that consists of line breaks is not moved by one line where the line break in
front of the source makes it the largest one. -/
theorem lineBreaks_end_not_moved :
    (lex "" none).errors = []
      ∧ (lineBreaks (Position.largest - 1)).toList.head? ≠ some Piece.byteOrderMark
      ∧ ("" ++ "\n" ++ lineBreaks (Position.largest - 1)).utf8ByteSize < 2 ^ 32
      ∧ (lex ("" ++ "\n" ++ lineBreaks (Position.largest - 1)) none).stream
        ≠ (lex "" none).lexemes ++ (lex (lineBreaks (Position.largest - 1)) none).stream.map
          (Lexeme.map (Position.exactlyBehind "")) := by
  have isLargest : Position.largest = Position.largest - 1 + 1 := by decide
  refine ⟨by decide +kernel, ?_, ?_, stream_lineBreaks_ne (Position.largest - 1) isLargest⟩
  · rw [lineBreaks, String.toList_ofList]
    exact fun starts => absurd (List.mem_replicate.1 (List.mem_of_head? starts)).2 (by decide)
  · rw [← lineBreaks_succ, ← isLargest]
    exact small_lineBreaks

end GoFront
