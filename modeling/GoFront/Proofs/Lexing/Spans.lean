import GoFront.Proofs.Lexing.Entries
import Mathlib.Algebra.Group.Nat.Defs

/-!
# Lexemes in the bytes of a text

In a text without lexical errors every written lexeme stands at its offset as the bytes of its own
text. The stretches do not overlap, and between them there is nothing but blanks and line breaks,
except for a byte order mark at the start.
-/

namespace GoFront

/-! ## Bytes -/

/-- The bytes of a stretch of text. -/
def bytesOf (text : List Char) : List UInt8 :=
  text.flatMap String.utf8EncodeChar

@[simp] theorem bytesOf_append (first second : List Char) :
    bytesOf (first ++ second) = bytesOf first ++ bytesOf second := by
  simp [bytesOf]

theorem bytesOf_cons
    (character : Char)
    (rest : List Char) :
    bytesOf (character :: rest) = String.utf8EncodeChar character ++ bytesOf rest := by
  simp [bytesOf]

@[simp] theorem length_bytesOf (text : List Char) :
    (bytesOf text).length = byteCount text := by
  induction text with
  | nil => rfl
  | cons character rest inductionHypothesis =>
      rw [bytesOf_cons, List.length_append, String.length_utf8EncodeChar, inductionHypothesis,
        byteCount]

/-- The bytes of a source. -/
def sourceBytes (source : String) : List UInt8 :=
  source.toByteArray.data.toList

theorem sourceBytes_eq_bytesOf (source : String) :
    sourceBytes source = bytesOf source.toList := by
  rw [sourceBytes, ← String.utf8Encode_toList]
  simp [List.utf8Encode, bytesOf]

theorem utf8ByteSize_eq_byteCount (source : String) :
    source.utf8ByteSize = byteCount source.toList := by
  rw [← length_bytesOf, ← sourceBytes_eq_bytesOf]
  rfl

/-- Blanks and line breaks are one byte each. -/
theorem byte_of_mem_bytesOf
    (text : List Char)
    (blank : ∀ character ∈ text, Piece.isBlank character ∨ character = '\n')
    (byte : UInt8)
    (member : byte ∈ bytesOf text) :
    byte ∈ [0x20, 0x09, 0x0D, 0x0A] := by
  obtain ⟨character, inText, inCharacter⟩ := List.mem_flatMap.1 member
  have cases : ((character = ' ' ∨ character = '\t') ∨ character = '\r') ∨ character = '\n' := by
    simpa [Piece.isBlank] using blank character inText
  have each : (String.utf8EncodeChar character).all ([0x20, 0x09, 0x0D, 0x0A].contains ·) = true := by
    rcases cases with ((rfl | rfl) | rfl) | rfl <;> decide
  exact List.contains_iff_mem.1 (List.all_eq_true.1 each byte inCharacter)

/-! ## Entries in their text -/

namespace Piece

/-- An entry at the start of a text: a written one is spelled there, and a semicolon is inserted only
at a line break or at the end. -/
def EntryAt (entry : Entry Place) (text : List Char) : Prop :=
  match entry.written with
  | some written =>
      written <+: text ∧ written ≠ [] ∧ entry.lexeme.text = String.ofList written
        ∧ (entry.lexeme.token = .semi -> written = [';'])
  | none => entry = .semicolon entry.lexeme.pos ∧ ∀ first ∈ text.head?, first = '\n'

/-- Pieces as they come out of a text: with characters, and spelled as their kinds say. -/
def WellSpelled (pieces : List Piece) : Prop :=
  ∀ piece ∈ pieces, piece.text ≠ [] ∧ piece.SpelledByKind

/-- The entries of one piece stand in it. -/
theorem entryAt_of_mem_entries
    (place : Place)
    (due : Bool)
    (piece : Piece)
    (nonempty : piece.text ≠ [])
    (spelled : piece.SpelledByKind)
    (entry : Entry Place)
    (member : entry ∈ (piece.entries place due).1)
    (rest : List Char) :
    ∃ front back, piece.text ++ rest = front ++ back
      ∧ entry.lexeme.pos = place.after front ∧ EntryAt entry back := by
  rcases piece with ⟨kind, text⟩
  cases kind with
  | blank | byteOrderMark | fault => simp [entries] at member
  | newline =>
      have textEq : text = ['\n'] := spelled
      obtain ⟨-, rfl⟩ : due = true ∧ entry = .semicolon place := by
        cases due <;> simp_all [entries]
      exact ⟨[], text ++ rest, rfl, rfl, rfl, by simp [textEq]⟩
  | token token =>
      have written : EntryAt (.ofToken place token text) (text ++ rest) := by
        refine ⟨List.prefix_append _ _, nonempty, Entry.text_ofToken place token text spelled, ?_⟩
        rintro (rfl : token = .semi)
        exact spelled.2.1 (by decide) (by decide)
      simp only [entries] at member
      split_ifs at member with isComment breaks
      · simp only [Bool.and_eq_true, List.contains_iff_mem] at breaks
        simp only [List.mem_append, List.mem_singleton] at member
        rcases member with rfl | rfl
        · exact ⟨[], text ++ rest, rfl, rfl, written⟩
        · refine ⟨text.takeWhile (· ≠ '\n'), text.dropWhile (· ≠ '\n') ++ rest, ?_, rfl, rfl, ?_⟩
          · rw [← List.append_assoc, List.takeWhile_append_dropWhile]
          · intro first isFirst
            have firstEq := List.head?_dropWhile_not (· ≠ '\n') text
            cases dropped : text.dropWhile (· ≠ '\n') with
            | nil =>
                have := List.dropWhile_eq_nil_iff.1 dropped '\n' breaks.2
                simp at this
            | cons head tail =>
                rw [dropped] at isFirst firstEq
                obtain rfl : head = first := by simpa using isFirst
                simpa using firstEq
      · obtain rfl : entry = _ := by simpa using member
        exact ⟨[], text ++ rest, rfl, rfl, written⟩
      · obtain rfl : entry = _ := by simpa using member
        exact ⟨[], text ++ rest, rfl, rfl, written⟩

/-- Every entry of a stream stands in the text of its pieces. -/
theorem entryAt_of_mem_entryStream
    (place : Place)
    (due : Bool)
    (pieces : List Piece)
    (wellSpelled : WellSpelled pieces)
    (entry : Entry Place)
    (member : entry ∈ entryStream place due pieces) :
    ∃ front back, pieces.flatMap text = front ++ back
      ∧ entry.lexeme.pos = place.after front ∧ EntryAt entry back := by
  induction pieces generalizing place due with
  | nil =>
      obtain ⟨-, rfl⟩ : due = true ∧ entry = .semicolon place := by
        cases due <;> simp_all [entryStream]
      exact ⟨[], [], rfl, rfl, rfl, by simp⟩
  | cons piece rest inductionHypothesis =>
      obtain ⟨pieceSpelled, restSpelled⟩ := List.forall_mem_cons.1 wellSpelled
      simp only [entryStream, List.mem_append] at member
      rcases member with member | member
      · exact entryAt_of_mem_entries place due piece pieceSpelled.1 pieceSpelled.2 entry member
          (rest.flatMap text)
      · obtain ⟨front, back, textEq, pos, entryAt⟩ := inductionHypothesis _ _ restSpelled member
        exact ⟨piece.text ++ front, back, by simp [textEq], by simp [pos], entryAt⟩

/-! ## Order and coverage -/

/-- The written entry of a piece is the token that the piece is. -/
theorem filter_written_entries
    (place : Place)
    (due : Bool)
    (piece : Piece) :
    (piece.entries place due).1.filter (fun entry => entry.written.isSome)
      = match piece.kind with
        | .token token => [.ofToken place token piece.text]
        | _ => [] := by
  unfold entries
  cases piece.kind with
  | blank | byteOrderMark | fault => rfl
  | newline => cases due <;> rfl
  | token token =>
      dsimp only
      split_ifs <;> rfl

/-- Whether a written entry ends where or before another entry starts. -/
def EndsBefore (earlier later : Entry Place) : Prop :=
  ∀ written ∈ earlier.written,
    earlier.lexeme.pos.offset + byteCount written ≤ later.lexeme.pos.offset

/-- Written entries follow one another in the text. -/
theorem pairwise_entryStream
    (place : Place)
    (due : Bool)
    (pieces : List Piece)
    (wellSpelled : WellSpelled pieces) :
    ((entryStream place due pieces).filter fun entry => entry.written.isSome).Pairwise
      EndsBefore := by
  induction pieces generalizing place due with
  | nil => cases due <;> simp [entryStream, Entry.semicolon]
  | cons piece rest inductionHypothesis =>
      obtain ⟨-, restSpelled⟩ := List.forall_mem_cons.1 wellSpelled
      rw [entryStream, List.filter_append, filter_written_entries]
      refine List.pairwise_append.2 ⟨?_, inductionHypothesis _ _ restSpelled, ?_⟩
      · split <;> simp
      · intro earlier inPiece later inRest written isWritten
        obtain ⟨front, back, -, pos, -⟩ := entryAt_of_mem_entryStream _ _ rest restSpelled later
          (List.mem_filter.1 inRest).1
        split at inPiece
        · obtain rfl : earlier = _ := by simpa using inPiece
          obtain rfl : piece.text = written := by simpa [Entry.ofToken] using isWritten
          rw [pos, Place.offset_after, Place.offset_after]
          exact Nat.le_add_right _ _
        · simp at inPiece

/-- Whether a byte belongs to the text that an entry was written as. -/
def Occupies (entry : Entry Place) (offset : Nat) : Prop :=
  ∃ written ∈ entry.written,
    entry.lexeme.pos.offset ≤ offset ∧ offset < entry.lexeme.pos.offset + byteCount written

/-- What stands at a byte of faultless pieces: a written entry, a blank or a line break, or the byte
order mark at the start of the text. -/
theorem occupied_or_blank
    (place : Place)
    (due : Bool)
    (pieces : List Piece)
    (wellSpelled : WellSpelled pieces)
    (faultless : Faultless place pieces)
    (index : Nat)
    (byte : UInt8)
    (found : (bytesOf (pieces.flatMap text))[index]? = some byte) :
    (∃ entry ∈ entryStream place due pieces, Occupies entry (place.offset + index))
      ∨ byte ∈ [0x20, 0x09, 0x0D, 0x0A]
      ∨ place.offset = 0 ∧ index < 3 ∧ (pieces.flatMap text).head? = some byteOrderMark := by
  induction pieces generalizing place due index with
  | nil => simp [bytesOf] at found
  | cons piece rest inductionHypothesis =>
      obtain ⟨⟨nonempty, spelled⟩, restSpelled⟩ := List.forall_mem_cons.1 wellSpelled
      obtain ⟨noFault, markAtStart, restFaultless⟩ := faultless
      have positive := byteCount_pos piece.text nonempty
      rw [List.flatMap_cons, bytesOf_append] at found
      by_cases inPiece : index < byteCount piece.text
      · rw [List.getElem?_append_left (by simpa using inPiece)] at found
        have member := List.mem_of_getElem? found
        rcases kindEq : piece.kind with _ | _ | _ | token | cause
        · have blank : ∀ character ∈ piece.text, isBlank character := by
            simpa [SpelledByKind, kindEq] using spelled
          exact .inr (.inl (byte_of_mem_bytesOf _ (fun _ inText => .inl (blank _ inText)) _ member))
        · have textEq : piece.text = ['\n'] := by simpa [SpelledByKind, kindEq] using spelled
          refine .inr (.inl (byte_of_mem_bytesOf _ ?_ _ member))
          simp [textEq]
        · have textEq : piece.text = [byteOrderMark] := by
            simpa [SpelledByKind, kindEq] using spelled
          refine .inr (.inr ⟨markAtStart kindEq, ?_, by simp [textEq]⟩)
          rw [textEq] at inPiece
          exact inPiece
        · refine .inl ⟨.ofToken place token piece.text, ?_, piece.text, rfl, by simp, by simpa⟩
          have member : Entry.ofToken place token piece.text ∈
              (piece.entries place due).1.filter fun entry => entry.written.isSome := by
            rw [filter_written_entries, kindEq]
            exact List.mem_singleton_self _
          exact List.mem_append_left _ (List.mem_filter.1 member).1
        · exact absurd kindEq (noFault cause)
      · rw [List.getElem?_append_right (by simpa using inPiece), length_bytesOf] at found
        rcases inductionHypothesis (place.after piece.text) (piece.entries place due).2 restSpelled
          restFaultless _ found with ⟨entry, inRest, written, isWritten, start, stop⟩ | blank | atStart
        · simp only [Place.offset_after] at start stop
          refine .inl ⟨entry, List.mem_append_right _ inRest, written, isWritten, ?_, ?_⟩ <;> omega
        · exact .inr (.inl blank)
        · simp only [Place.offset_after] at atStart
          omega

end Piece

/-! ## Sources -/

/-- The entries of a source. -/
def sourceEntries (source : String) (filename : Option String) : List (Entry Position) :=
  (entriesOf source.toList).map (Entry.map (Place.position filename))

/-- The byte offset behind a lexeme that was written. -/
def Lexeme.stop (lexeme : Lexeme Position) : Nat :=
  lexeme.pos.offset + lexeme.text.utf8ByteSize

/-- What it means that entries tell a source without loss. -/
structure Lossless (source : String) (entries : List (Entry Position)) : Prop where
  inserted : ∀ entry ∈ entries, entry.written = none -> entry.lexeme.token = .semi
  spelled : ∀ entry ∈ entries, entry.written.isSome ->
    ((sourceBytes source).drop entry.lexeme.pos.offset).take entry.lexeme.text.utf8ByteSize
      = sourceBytes entry.lexeme.text
  ordered : (entries.filter fun entry => entry.written.isSome).Pairwise fun earlier later =>
    earlier.lexeme.stop ≤ later.lexeme.pos.offset
  elsewhere : ∀ index byte, (sourceBytes source)[index]? = some byte ->
    (∃ entry ∈ entries, entry.written.isSome
        ∧ entry.lexeme.pos.offset ≤ index ∧ index < entry.lexeme.stop)
      ∨ byte ∈ [0x20, 0x09, 0x0D, 0x0A]
      ∨ index < 3 ∧ [0xEF, 0xBB, 0xBF] <+: sourceBytes source
  semicolons : ∀ entry ∈ entries, entry.lexeme.token = .semi ->
    (entry.written = none ↔ (sourceBytes source)[entry.lexeme.pos.offset]? ≠ some 0x3B)

/-- Every entry stands in the text of the source, and its position is the place where it stands. -/
theorem entryAt_of_mem_entriesOf
    (source : String)
    (filename : Option String)
    (small : source.utf8ByteSize < 2 ^ 32)
    (entry : Entry Place)
    (member : entry ∈ entriesOf source.toList) :
    ∃ front back, source.toList = front ++ back
      ∧ entry.lexeme.pos.offset = byteCount front
      ∧ (entry.map (Place.position filename)).lexeme.pos.offset = byteCount front
      ∧ Piece.EntryAt entry back := by
  obtain ⟨front, back, textEq, pos, entryAt⟩ := Piece.entryAt_of_mem_entryStream _ _ _
    (Piece.spelledByKind_of_mem_all source.toList) entry member
  rw [Piece.flatMap_text_all] at textEq
  have offset : entry.lexeme.pos.offset = byteCount front := by simp [pos, Place.start]
  have bound : byteCount front ≤ Position.largest := by
    rw [utf8ByteSize_eq_byteCount, textEq, byteCount_append] at small
    unfold Position.largest
    omega
  refine ⟨front, back, textEq, offset, ?_, entryAt⟩
  simp [Entry.map, Lexeme.map, Place.position, Position.clamped, offset, bound]

/-- A written entry is as long as the text of its lexeme. -/
theorem Piece.EntryAt.byteCount_eq
    {entry : Entry Place}
    {text written : List Char}
    (entryAt : Piece.EntryAt entry text)
    (isWritten : entry.written = some written) :
    entry.lexeme.text.utf8ByteSize = byteCount written := by
  simp only [EntryAt, isWritten] at entryAt
  rw [utf8ByteSize_eq_byteCount, entryAt.2.2.1, String.toList_ofList]

section

variable {source : String} {filename : Option String} {entry : Entry Place}

/-- A written entry stands where it was written, and it ends behind its text. -/
theorem span_of_written
    {written : List Char}
    (small : source.utf8ByteSize < 2 ^ 32)
    (member : entry ∈ entriesOf source.toList)
    (isWritten : entry.written = some written) :
    (entry.map (Place.position filename)).lexeme.pos.offset = entry.lexeme.pos.offset
      ∧ (entry.map (Place.position filename)).lexeme.stop
        = entry.lexeme.pos.offset + byteCount written := by
  obtain ⟨front, back, -, offset, position, entryAt⟩ :=
    entryAt_of_mem_entriesOf source filename small entry member
  refine ⟨position.trans offset.symm, ?_⟩
  rw [Lexeme.stop, position, offset, ← entryAt.byteCount_eq isWritten]
  rfl

/-- The text of a written entry is what the source says there. -/
theorem bytes_of_written
    {written : List Char}
    (small : source.utf8ByteSize < 2 ^ 32)
    (member : entry ∈ entriesOf source.toList)
    (isWritten : entry.written = some written) :
    ((sourceBytes source).drop (entry.map (Place.position filename)).lexeme.pos.offset).take
        (entry.map (Place.position filename)).lexeme.text.utf8ByteSize
      = sourceBytes (entry.map (Place.position filename)).lexeme.text := by
  obtain ⟨front, back, textEq, -, offset, entryAt⟩ :=
    entryAt_of_mem_entriesOf source filename small entry member
  have size : (entry.map (Place.position filename)).lexeme.text.utf8ByteSize = byteCount written :=
    entryAt.byteCount_eq isWritten
  simp only [Piece.EntryAt, isWritten] at entryAt
  obtain ⟨⟨behind, rfl⟩, -, text, -⟩ := entryAt
  have text : (entry.map (Place.position filename)).lexeme.text = String.ofList written := text
  rw [offset, size, text, sourceBytes_eq_bytesOf, sourceBytes_eq_bytesOf, textEq,
    String.toList_ofList, bytesOf_append, bytesOf_append, ← length_bytesOf front,
    List.drop_left, ← length_bytesOf written, List.take_left]

/-- Written entries follow one another. -/
theorem pairwise_written (small : source.utf8ByteSize < 2 ^ 32) :
    ((sourceEntries source filename).filter fun entry => entry.written.isSome).Pairwise
      fun earlier later => earlier.lexeme.stop ≤ later.lexeme.pos.offset := by
  rw [sourceEntries, List.filter_map, List.pairwise_map]
  refine (Piece.pairwise_entryStream .start false _
    (Piece.spelledByKind_of_mem_all source.toList)).imp_of_mem ?_
  intro earlier later earlierMember laterMember endsBefore
  obtain ⟨earlierMember, earlierWritten⟩ := List.mem_filter.1 earlierMember
  obtain ⟨laterMember, laterWritten⟩ := List.mem_filter.1 laterMember
  obtain ⟨written, writtenEq⟩ := Option.isSome_iff_exists.1 earlierWritten
  obtain ⟨other, otherEq⟩ := Option.isSome_iff_exists.1 laterWritten
  rw [(span_of_written small earlierMember writtenEq).2, (span_of_written small laterMember otherEq).1]
  exact endsBefore written writtenEq

/-- Without faults, a byte that belongs to no written entry is blank or part of the byte order mark. -/
theorem written_or_blank
    {index : Nat}
    {byte : UInt8}
    (small : source.utf8ByteSize < 2 ^ 32)
    (faultless : Piece.Faultless .start (Piece.all source.toList))
    (found : (sourceBytes source)[index]? = some byte) :
    (∃ entry ∈ sourceEntries source filename, entry.written.isSome
        ∧ entry.lexeme.pos.offset ≤ index ∧ index < entry.lexeme.stop)
      ∨ byte ∈ [0x20, 0x09, 0x0D, 0x0A]
      ∨ index < 3 ∧ [0xEF, 0xBB, 0xBF] <+: sourceBytes source := by
  rw [sourceBytes_eq_bytesOf, ← Piece.flatMap_text_all source.toList] at found
  rcases Piece.occupied_or_blank .start false _ (Piece.spelledByKind_of_mem_all source.toList)
    faultless index byte found with
    ⟨entry, member, written, writtenEq, start, stop⟩ | blank | ⟨-, inMark, isMark⟩
  · simp only [Place.start, Nat.zero_add] at start stop
    obtain ⟨offsetEq, stopEq⟩ := span_of_written small member writtenEq
    exact .inl ⟨_, List.mem_map_of_mem member, Option.isSome_of_mem writtenEq,
      offsetEq ▸ start, stopEq ▸ stop⟩
  · exact .inr (.inl blank)
  · refine .inr (.inr ⟨inMark, ?_⟩)
    rw [Piece.flatMap_text_all] at isMark
    rw [sourceBytes_eq_bytesOf]
    cases textEq : source.toList with
    | nil => simp [textEq] at isMark
    | cons first rest =>
        obtain rfl : first = Piece.byteOrderMark := by simpa [textEq] using isMark
        rw [bytesOf_cons]
        exact List.prefix_append _ _

/-- A semicolon is inserted where the source has none. -/
theorem semicolon_inserted_iff
    (small : source.utf8ByteSize < 2 ^ 32)
    (member : entry ∈ entriesOf source.toList)
    (isSemicolon : entry.lexeme.token = .semi) :
    entry.written = none
      ↔ (sourceBytes source)[(entry.map (Place.position filename)).lexeme.pos.offset]? ≠ some 0x3B := by
  obtain ⟨front, back, textEq, -, offset, entryAt⟩ :=
    entryAt_of_mem_entriesOf source filename small entry member
  have byteAt : (sourceBytes source)[byteCount front]? = (bytesOf back)[0]? := by
    rw [sourceBytes_eq_bytesOf, textEq, bytesOf_append, ← length_bytesOf front,
      List.getElem?_append_right (Nat.le_refl _), Nat.sub_self]
  rw [offset, byteAt]
  cases writtenEq : entry.written with
  | none =>
      simp only [Piece.EntryAt, writtenEq] at entryAt
      refine ⟨fun _ => ?_, fun _ => rfl⟩
      cases back with
      | nil => simp [bytesOf]
      | cons first rest =>
          obtain rfl := entryAt.2 first rfl
          rw [bytesOf_cons]
          exact (by decide : some (0x0A : UInt8) ≠ some 0x3B)
  | some written =>
      simp only [Piece.EntryAt, writtenEq] at entryAt
      obtain ⟨⟨behind, rfl⟩, -, -, text⟩ := entryAt
      refine ⟨nofun, fun noSemicolon => absurd ?_ noSemicolon⟩
      rw [text isSemicolon, bytesOf_append]
      rfl

end

/-- Lexing a source without lexical errors loses nothing. -/
theorem lex_lossless
    (source : String)
    (filename : Option String)
    (small : source.utf8ByteSize < 2 ^ 32)
    (noErrors : (lex source filename).errors = []) :
    (lex source filename).lexemes = (sourceEntries source filename).map Entry.lexeme
      ∧ Lossless source (sourceEntries source filename) := by
  refine ⟨?_, ?_, ?_, pairwise_written small, ?_, ?_⟩
  · rw [lex_lexemes, sourceEntries, List.map_map]
    rfl
  · refine List.forall_mem_map.2 fun entry member notWritten => ?_
    obtain ⟨front, back, -, -, -, entryAt⟩ :=
      entryAt_of_mem_entriesOf source filename small entry member
    obtain notWritten : entry.written = none := notWritten
    simp only [Piece.EntryAt, notWritten] at entryAt
    exact congrArg (fun entry => entry.lexeme.token) entryAt.1
  · refine List.forall_mem_map.2 fun entry member isWritten => ?_
    obtain ⟨written, writtenEq⟩ : ∃ written, entry.written = some written :=
      Option.isSome_iff_exists.1 isWritten
    exact bytes_of_written small member writtenEq
  · exact fun index byte found =>
      written_or_blank small (faultless_of_lex source filename noErrors) found
  · exact List.forall_mem_map.2 fun entry member isSemicolon =>
      semicolon_inserted_iff small member isSemicolon

/-- A line of code, a comment and a line break. -/
theorem lex_lossless_line :
    "x /* ; */ ;\n".utf8ByteSize < 2 ^ 32
      ∧ (lex "x /* ; */ ;\n" none).errors = []
      ∧ (lex "x /* ; */ ;\n" none).lexemes
          = (sourceEntries "x /* ; */ ;\n" none).map Entry.lexeme
      ∧ Lossless "x /* ; */ ;\n" (sourceEntries "x /* ; */ ;\n" none) := by
  have small : "x /* ; */ ;\n".utf8ByteSize < 2 ^ 32 := by decide
  have noErrors : (lex "x /* ; */ ;\n" none).errors = [] := by decide +kernel
  exact ⟨small, noErrors, lex_lossless _ none small noErrors⟩

end GoFront
