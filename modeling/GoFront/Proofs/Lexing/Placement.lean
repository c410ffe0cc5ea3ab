import GoFront.Proofs.Lexing.Semicolons
import Mathlib.Data.Finset.Card
import Mathlib.Data.Finset.Range
import Mathlib.Data.List.Dedup

/-!
# The places of lexemes and errors

Lexemes follow one another at growing offsets, and so do errors, in every text with or without lexical
errors. Each stands on the line that the line breaks before it make. Only the end of the largest text
that consists of line breaks lies on a line that no position can show.
-/

namespace GoFront

/-! ## Line breaks among the bytes -/

/-- The byte of a line break belongs to no other character. -/
theorem count_utf8EncodeChar (character : Char) :
    (String.utf8EncodeChar character).count 0x0A = if character = '\n' then 1 else 0 := by
  split_ifs with isBreak
  · subst isBreak
    decide
  · have other : character.val.toNat ≠ 10 := fun equal =>
      isBreak (Char.ext (UInt32.toNat_inj.1 equal))
    rw [List.count_eq_zero]
    have large (value : Nat) (bound : value < 256) (isByte : 10 = UInt8.ofNat value) :
        value = 10 := by
      have := congrArg UInt8.toNat isByte
      rw [UInt8.toNat_ofNat_of_lt' bound] at this
      exact this.symm
    intro member
    unfold String.utf8EncodeChar at member
    dsimp only at member
    split_ifs at member <;> simp only [List.mem_cons, List.not_mem_nil, or_false] at member
    · exact other (large _ (by omega) member)
    · rcases member with isByte | isByte <;> have := large _ (by omega) isByte <;> omega
    · rcases member with isByte | isByte | isByte <;> have := large _ (by omega) isByte <;> omega
    · rcases member with isByte | isByte | isByte | isByte <;>
        have := large _ (by omega) isByte <;> omega

theorem count_bytesOf (text : List Char) :
    (bytesOf text).count 0x0A = text.count '\n' := by
  induction text with
  | nil => rfl
  | cons character rest inductionHypothesis =>
      rw [bytesOf_cons, List.count_append, count_utf8EncodeChar, inductionHypothesis,
        List.count_cons, Nat.add_comm]
      simp only [beq_iff_eq]

/-- A text has at least as many bytes as line breaks, and has more if it is not made of line breaks
alone. -/
theorem count_le_byteCount (text : List Char) :
    text.count '\n' ≤ byteCount text
      ∧ (text.count '\n' = byteCount text -> text = List.replicate (byteCount text) '\n') := by
  induction text with
  | nil => exact ⟨Nat.le_refl _, fun _ => rfl⟩
  | cons character rest inductionHypothesis =>
      obtain ⟨fewer, onlyBreaks⟩ := inductionHypothesis
      by_cases isBreak : character = '\n'
      · subst isBreak
        have size : byteCount ('\n' :: rest) = byteCount rest + 1 := Nat.add_comm _ _
        rw [List.count_cons_self, size]
        refine ⟨by omega, fun equal => ?_⟩
        rw [List.replicate_succ, ← onlyBreaks (by omega)]
      · have positive := character.utf8Size_pos
        rw [List.count_cons_of_ne isBreak, byteCount]
        exact ⟨by omega, fun equal => by omega⟩

theorem byteCount_lineBreaks (count : Nat) : byteCount (List.replicate count '\n') = count := by
  induction count with
  | zero => rfl
  | succ count inductionHypothesis =>
      rw [List.replicate_succ, byteCount, inductionHypothesis]
      exact Nat.add_comm _ _

/-- The source made of line breaks alone. -/
def lineBreaks (count : Nat) : String :=
  String.ofList (List.replicate count '\n')

theorem lineBreaks_succ (count : Nat) : lineBreaks (count + 1) = "" ++ "\n" ++ lineBreaks count := by
  rw [← String.toList_inj]
  simp [lineBreaks, List.replicate_succ]

theorem utf8ByteSize_lineBreaks (count : Nat) : (lineBreaks count).utf8ByteSize = count := by
  rw [utf8ByteSize_eq_byteCount, lineBreaks, String.toList_ofList, byteCount_lineBreaks]

/-- The line on which a byte of a source stands: a line break belongs to the line that it ends. -/
def lineOf (source : String) (offset : Nat) : Nat :=
  1 + ((sourceBytes source).take offset).count 0x0A

/-! ## Places of events -/

namespace Event

variable {P : Type}

/-- Where an event stands. -/
def pos : Event P -> P
  | lexeme it => it.pos
  | error it => it.pos

theorem mem_of_lexeme?
    {events : List (Event P)}
    {it : Lexeme P}
    (member : it ∈ events.filterMap lexeme?) :
    lexeme it ∈ events := by
  obtain ⟨event, isEvent, isLexeme⟩ := List.mem_filterMap.1 member
  cases event with
  | error _ => cases isLexeme
  | lexeme other => exact Option.some.inj isLexeme ▸ isEvent

theorem mem_of_error?
    {events : List (Event P)}
    {it : LexError P}
    (member : it ∈ events.filterMap error?) :
    error it ∈ events := by
  obtain ⟨event, isEvent, isError⟩ := List.mem_filterMap.1 member
  cases event with
  | lexeme _ => cases isError
  | error other => exact Option.some.inj isError ▸ isEvent

end Event

namespace Piece

/-- The events of one piece stand in it or at its end. -/
theorem pos_of_mem_events
    (place : Place)
    (due : Bool)
    (piece : Piece)
    (event : Event Place)
    (member : event ∈ (piece.events place due).1) :
    ∃ front back, piece.text = front ++ back ∧ event.pos = place.after front := by
  have atStart (posEq : event.pos = place) :
      ∃ front back, piece.text = front ++ back ∧ event.pos = place.after front :=
    ⟨[], piece.text, rfl, posEq⟩
  unfold events at member
  split at member
  · simp at member
  · split_ifs at member
    · exact atStart (by rw [List.mem_singleton.1 member]; rfl)
    · simp at member
  · split_ifs at member
    · simp at member
    · exact atStart (by rw [List.mem_singleton.1 member]; rfl)
  · rw [List.mem_singleton.1 member, error]
    split_ifs
    · exact ⟨piece.text, [], by simp, rfl⟩
    · exact ⟨[], piece.text, rfl, rfl⟩
  · dsimp only at member
    split_ifs at member
    · rcases List.mem_append.1 member with member | member
      · exact atStart (by rw [List.mem_singleton.1 member]; rfl)
      · exact ⟨_, _, List.takeWhile_append_dropWhile.symm, by rw [List.mem_singleton.1 member]; rfl⟩
    · exact atStart (by rw [List.mem_singleton.1 member]; rfl)
    · exact atStart (by rw [List.mem_singleton.1 member]; rfl)

/-- Every event of a stream stands in the text of its pieces or at its end. -/
theorem pos_of_mem_stream
    (place : Place)
    (due : Bool)
    (pieces : List Piece)
    (event : Event Place)
    (member : event ∈ stream place due pieces) :
    ∃ front back, pieces.flatMap text = front ++ back ∧ event.pos = place.after front := by
  induction pieces generalizing place due with
  | nil =>
      obtain ⟨-, rfl⟩ : due = true ∧ event = .semicolon place := by
        cases due <;> simp_all [stream]
      exact ⟨[], [], rfl, rfl⟩
  | cons piece rest inductionHypothesis =>
      rw [stream, List.mem_append] at member
      rcases member with inPiece | inRest
      · obtain ⟨front, back, textEq, posEq⟩ := pos_of_mem_events place due piece event inPiece
        exact ⟨front, back ++ rest.flatMap text, by simp [textEq], posEq⟩
      · obtain ⟨front, back, textEq, posEq⟩ := inductionHypothesis _ _ inRest
        exact ⟨piece.text ++ front, back, by simp [textEq], by simp [posEq]⟩

theorem offset_le_of_mem_stream
    (place : Place)
    (due : Bool)
    (pieces : List Piece)
    (event : Event Place)
    (member : event ∈ stream place due pieces) :
    place.offset ≤ event.pos.offset := by
  obtain ⟨front, -, -, posEq⟩ := pos_of_mem_stream place due pieces event member
  rw [posEq, Place.offset_after]
  exact Nat.le_add_right _ _

/-! ## Order -/

/-- The lexemes of one piece follow one another and stand before its end. -/
theorem lexemes_ordered
    (place : Place)
    (due : Bool)
    (piece : Piece)
    (nonempty : piece.text ≠ [])
    (spelled : piece.SpelledByKind) :
    ((piece.events place due).1.filterMap Event.lexeme?).Pairwise
        (fun earlier later => earlier.pos.offset < later.pos.offset)
      ∧ ∀ lexeme ∈ (piece.events place due).1.filterMap Event.lexeme?,
        lexeme.pos.offset < (place.after piece.text).offset := by
  have positive := byteCount_pos piece.text nonempty
  have only (lexeme : Lexeme Place) (atStart : lexeme.pos = place) :
      [lexeme].Pairwise (fun earlier later => earlier.pos.offset < later.pos.offset)
        ∧ ∀ other ∈ [lexeme], other.pos.offset < (place.after piece.text).offset := by
    refine ⟨List.pairwise_singleton _ _, fun other member => ?_⟩
    rw [List.mem_singleton.1 member, atStart, Place.offset_after]
    omega
  unfold events
  split
  · exact ⟨List.Pairwise.nil, by simp⟩
  · split_ifs
    · exact only ⟨.semi, place, none⟩ rfl
    · exact ⟨List.Pairwise.nil, by simp⟩
  · split_ifs <;> exact ⟨List.Pairwise.nil, by simp [Event.lexeme?]⟩
  · exact ⟨List.Pairwise.nil, by simp [Event.lexeme?]⟩
  · next token kindEq =>
    dsimp only
    split_ifs with isComment breaks
    · obtain ⟨-, breaks⟩ := Bool.and_eq_true_iff.1 breaks
      rw [List.contains_iff_mem] at breaks
      -- A comment begins with a slash, so its first line break does not stand at its start.
      have opened : piece.text.head? = some '/' := by
        rw [SpelledByKind, kindEq] at spelled
        exact spelled.2.2 isComment
      obtain ⟨rest, restEq⟩ := List.head?_eq_some_iff.1 opened
      have behindStart : 0 < byteCount (piece.text.takeWhile (· ≠ '\n')) :=
        byteCount_pos _ (by simp [restEq])
      have inFront := byteCount_takeWhile_lt piece.text breaks
      have pair : (([Event.lexeme (lexeme place token piece.text)]
            ++ [Event.semicolon (place.after (piece.text.takeWhile (· ≠ '\n')))]).filterMap
              Event.lexeme?)
          = [lexeme place token piece.text,
            ⟨.semi, place.after (piece.text.takeWhile (· ≠ '\n')), none⟩] := rfl
      have start : (lexeme place token piece.text).pos.offset = place.offset := rfl
      rw [pair]
      refine ⟨List.pairwise_pair.2 ?_, ?_⟩
      · rw [start, Place.offset_after]
        omega
      · rintro other (- | ⟨_, - | ⟨_, ⟨⟩⟩⟩)
        · rw [start, Place.offset_after]
          omega
        · simp only [Place.offset_after]
          omega
    · exact only (lexeme place token piece.text) rfl
    · exact only (lexeme place token piece.text) rfl

/-- The lexemes of a stream follow one another at growing offsets. -/
theorem pairwise_lexemes
    (place : Place)
    (due : Bool)
    (pieces : List Piece)
    (wellSpelled : WellSpelled pieces) :
    ((stream place due pieces).filterMap Event.lexeme?).Pairwise
      fun earlier later => earlier.pos.offset < later.pos.offset := by
  induction pieces generalizing place due with
  | nil => cases due <;> simp [stream, Event.semicolon, Event.lexeme?]
  | cons piece rest inductionHypothesis =>
      obtain ⟨⟨nonempty, spelled⟩, restSpelled⟩ := List.forall_mem_cons.1 wellSpelled
      obtain ⟨ordered, inPiece⟩ := lexemes_ordered place due piece nonempty spelled
      rw [stream, List.filterMap_append]
      refine List.pairwise_append.2 ⟨ordered, inductionHypothesis _ _ restSpelled, ?_⟩
      intro earlier earlierMember later laterMember
      have behind := offset_le_of_mem_stream _ _ rest _ (Event.mem_of_lexeme? laterMember)
      exact Nat.lt_of_lt_of_le (inPiece earlier earlierMember) behind

/-! ## Where errors stand -/

/-- What stands behind a faulty piece that is reported at its end: a line break, or nothing. -/
def EndsAtBreak (piece : Piece) (behind : List Char) : Prop :=
  ∀ cause, piece.kind = .fault cause -> cause.reportedAtEnd = true ->
    ∀ first ∈ behind.head?, first = '\n'

theorem endsAtBreak_nil (piece : Piece) : piece.EndsAtBreak [] := by
  intro cause _ _ first isFirst
  cases isFirst

theorem endsAtBreak_token
    (token : Token)
    (text behind : List Char) :
    (⟨.token token, text⟩ : Piece).EndsAtBreak behind := by
  intro cause isFault
  cases isFault

/-- Nothing in a number is reported at its end. -/
theorem reportedAtEnd_of_number
    (number : Number)
    (cause : LexCause)
    (found : number.fault? = some cause) :
    cause.reportedAtEnd = false := by
  obtain ⟨fault, member, rfl⟩ := List.exists_of_findSome?_eq_some found
  simp only [Number.faults, List.mem_cons, List.not_mem_nil, or_false] at member
  rcases member with fault | fault | fault | fault | fault | fault | fault
  · split_ifs at fault
    cases fault
    rfl
  · obtain ⟨digit, -, rfl⟩ := Option.map_eq_some_iff.1 fault.symm
    rfl
  all_goals
    split_ifs at fault
    cases fault
    rfl

theorem number_endsAtBreak (text behind : List Char) : (number text).EndsAtBreak behind := by
  intro cause isFault atEnd
  cases faultEq : (Number.split text).1.fault? with
  | none => simp [number, faultEq, ofFault?] at isFault
  | some other =>
      obtain rfl : other = cause := by simpa [number, faultEq, ofFault?] using isFault
      rw [reportedAtEnd_of_number _ other faultEq] at atEnd
      cases atEnd

/-- A quoted literal that is not closed ends at a line break or at the end of the text. -/
theorem break_of_not_closed
    (quote : Char)
    (escaped : Nat)
    (text behind : List Char)
    (textEq : text = (Quoted.read quote escaped text).text ++ behind)
    (notClosed : (Quoted.read quote escaped text).closed = false) :
    ∀ first ∈ behind.head?, first = '\n' := by
  induction text generalizing escaped with
  | nil =>
      obtain ⟨-, rfl⟩ := List.append_eq_nil_iff.1 textEq.symm
      simp
  | cons first rest inductionHypothesis =>
      cases escaped with
      | succ escaped =>
          rw [Quoted.read] at textEq notClosed
          exact inductionHypothesis escaped (List.cons.inj textEq).2 notClosed
      | zero =>
          rw [Quoted.read] at textEq notClosed
          split_ifs at textEq notClosed with isClosing isBreak isEscape
          · obtain rfl : first :: rest = behind := textEq
            simp [isBreak]
          · exact inductionHypothesis _ (List.cons.inj textEq).2 notClosed
          · exact inductionHypothesis 0 (List.cons.inj textEq).2 notClosed

/-- A string or a rune that is reported at its end is not closed. -/
theorem not_closed_of_fault?
    (literal : Quoted)
    (cause : LexCause)
    (found : literal.fault? = some cause ∨ literal.runeFault? = some cause)
    (atEnd : cause.reportedAtEnd = true) :
    literal.closed = false := by
  have ofFault (found : literal.fault? = some cause) : literal.closed = false := by
    unfold Quoted.fault? at found
    split_ifs at found with notClosed
    · simpa using notClosed
    · rw [← Option.some.inj found] at atEnd
      cases atEnd
  rcases found with found | found
  · exact ofFault found
  · unfold Quoted.runeFault? at found
    cases faultEq : literal.fault? with
    | some other =>
        rw [faultEq] at found ofFault
        exact ofFault found
    | none =>
        rw [faultEq] at found
        change (if literal.units = 1 then none else some LexCause.invalidRune) = some cause at found
        split_ifs at found
        rw [← Option.some.inj found] at atEnd
        cases atEnd

theorem blockComment_endsAtBreak
    (rest behind : List Char)
    (textEq : '/' :: '*' :: rest = (blockComment rest).text ++ behind) :
    (blockComment rest).EndsAtBreak behind := by
  cases found : commentBody? rest with
  | some body =>
      simp only [blockComment, found]
      exact endsAtBreak_token _ _ _
  | none =>
      obtain rfl : behind = [] := by simpa [blockComment, found] using textEq
      exact endsAtBreak_nil _

theorem rawString_endsAtBreak
    (rest behind : List Char)
    (textEq : '\x60' :: rest = (rawString rest).text ++ behind) :
    (rawString rest).EndsAtBreak behind := by
  by_cases closed : (rest.takeWhile (· ≠ '\x60')).length < rest.length
  · simp only [rawString, if_pos closed]
    exact endsAtBreak_token _ _ _
  · simp only [rawString, if_neg closed, List.cons_append, List.cons.injEq, true_and] at textEq
    have lengthEq := congrArg List.length textEq
    rw [List.length_append] at lengthEq
    obtain rfl : behind = [] := List.length_eq_zero_iff.1 (by omega)
    exact endsAtBreak_nil _

theorem interpretedString_endsAtBreak
    (rest behind : List Char)
    (textEq : '"' :: rest = (interpretedString rest).text ++ behind) :
    (interpretedString rest).EndsAtBreak behind := by
  rw [interpretedString, ofFault?_text] at textEq
  intro cause isFault atEnd
  refine break_of_not_closed '"' 0 rest behind (List.cons.inj textEq).2
    (not_closed_of_fault? _ cause (.inl ?_) atEnd)
  cases found : (Quoted.read '"' 0 rest).fault? with
  | none => simp [interpretedString, found, ofFault?] at isFault
  | some other => simpa [interpretedString, found, ofFault?] using isFault

theorem rune_endsAtBreak
    (rest behind : List Char)
    (textEq : '\'' :: rest = (rune rest).text ++ behind) :
    (rune rest).EndsAtBreak behind := by
  rw [rune, ofFault?_text] at textEq
  intro cause isFault atEnd
  refine break_of_not_closed '\'' 0 rest behind (List.cons.inj textEq).2
    (not_closed_of_fault? _ cause (.inr ?_) atEnd)
  cases found : (Quoted.read '\'' 0 rest).runeFault? with
  | none => simp [rune, found, ofFault?] at isFault
  | some other => simpa [rune, found, ofFault?] using isFault

theorem operator_endsAtBreak
    (first : Char)
    (rest behind : List Char) :
    (operator first rest).EndsAtBreak behind := by
  cases found : operator? (first :: rest) with
  | some token =>
      simp only [operator, found]
      exact endsAtBreak_token _ _ _
  | none =>
      intro cause isFault atEnd
      simp only [operator, found, PieceKind.fault.injEq] at isFault
      rw [← isFault] at atEnd
      cases atEnd

/-- A faulty piece that is reported at its end is followed by a line break, or by nothing. -/
theorem cut_endsAtBreak
    (first : Char)
    (rest behind : List Char)
    (textEq : first :: rest = (cut first rest).text ++ behind) :
    (cut first rest).EndsAtBreak behind := by
  revert textEq
  refine cut_cases
    (motive := fun first rest piece => first :: rest = piece.text ++ behind -> piece.EndsAtBreak behind)
    ?mark ?newline ?blank ?line ?block ?word ?number ?raw ?string ?rune ?operator first rest
  case mark | newline => rintro rest - cause ⟨⟩
  case blank => rintro first rest isBlank - cause ⟨⟩
  case line => exact fun rest _ => endsAtBreak_token _ _ _
  case block => exact fun rest => blockComment_endsAtBreak rest behind
  case word => exact fun first rest isWord _ => endsAtBreak_token _ _ _
  case number => exact fun first rest starts _ => number_endsAtBreak _ _
  case raw => exact fun rest => rawString_endsAtBreak rest behind
  case string => exact fun rest => interpretedString_endsAtBreak rest behind
  case rune => exact fun rest => rune_endsAtBreak rest behind
  case operator => exact fun first rest _ => operator_endsAtBreak first rest behind

/-- The errors of one piece: one at most, at its start or at its end. -/
theorem errors_of_piece
    (place : Place)
    (due : Bool)
    (piece : Piece)
    (error : LexError Place)
    (member : error ∈ (piece.events place due).1.filterMap Event.error?) :
    (piece.events place due).1.filterMap Event.error? = [error]
      ∧ (error.cause.reportedAtEnd = false ∧ error.pos = place
        ∨ piece.kind = .fault error.cause ∧ error.cause.reportedAtEnd = true
          ∧ error.pos = place.after piece.text) := by
  unfold events at member ⊢
  split at member
  · cases member
  · split_ifs at member <;> cases member
  · split_ifs at member ⊢
    · cases member
    · obtain rfl := List.mem_singleton.1 member
      exact ⟨rfl, .inl ⟨rfl, rfl⟩⟩
  · next cause kindEq =>
    obtain rfl := List.mem_singleton.1 member
    refine ⟨rfl, ?_⟩
    cases atEnd : cause.reportedAtEnd with
    | false => exact .inl ⟨atEnd, by simp [Piece.error, atEnd]⟩
    | true => exact .inr ⟨kindEq, atEnd, by simp [Piece.error, atEnd]⟩
  · dsimp only at member
    split_ifs at member <;> cases member

/-- Every error of a text stands in it or at its end, at a line break or at the end if it is one that
was reported there. -/
theorem exists_of_mem_errors
    (place : Place)
    (due : Bool)
    (text : List Char)
    (error : LexError Place)
    (member : error ∈ (stream place due (all text)).filterMap Event.error?) :
    ∃ front back, text = front ++ back ∧ error.pos = place.after front
      ∧ (error.cause.reportedAtEnd = true -> ∀ first ∈ back.head?, first = '\n') := by
  induction text using all_induction generalizing place due with
  | nil => cases due <;> cases member
  | cons first rest tail after cutEq restEq inductionHypothesis =>
      have textEq : first :: rest = (cut first rest).text ++ after := by
        rw [cutEq, restEq, List.cons_append]
      rw [all_cons first rest tail after cutEq restEq, stream, List.filterMap_append,
        List.mem_append] at member
      rcases member with inPiece | inRest
      · obtain ⟨-, ⟨atStart, posEq⟩ | ⟨isFault, atEnd, posEq⟩⟩ :=
          errors_of_piece place due (cut first rest) error inPiece
        · exact ⟨[], first :: rest, rfl, posEq, fun atEnd => by simp [atStart] at atEnd⟩
        · exact ⟨(cut first rest).text, after, textEq, posEq,
            fun atEnd => cut_endsAtBreak first rest after textEq error.cause isFault atEnd⟩
      · obtain ⟨front, back, afterEq, posEq, atBreak⟩ := inductionHypothesis _ _ inRest
        refine ⟨(cut first rest).text ++ front, back, ?_, by simp [posEq], atBreak⟩
        rw [textEq, afterEq, List.append_assoc]

/-- No error stands at the start of a text that begins with a line break. -/
theorem offset_lt_of_mem_errors
    (place : Place)
    (due : Bool)
    (text : List Char)
    (atBreak : ∀ first ∈ text.head?, first = '\n')
    (error : LexError Place)
    (member : error ∈ (stream place due (all text)).filterMap Event.error?) :
    place.offset < error.pos.offset := by
  cases text with
  | nil => cases due <;> cases member
  | cons first rest =>
      obtain rfl := atBreak first rfl
      have noErrors : ((⟨.newline, ['\n']⟩ : Piece).events place due).1.filterMap Event.error?
          = [] := by
        cases due <;> rfl
      have breakSize : byteCount ['\n'] = 1 := rfl
      rw [all_cons '\n' rest [] rest rfl rfl] at member
      change error ∈ (stream place due (⟨.newline, ['\n']⟩ :: all rest)).filterMap Event.error?
        at member
      rw [stream, List.filterMap_append, noErrors, List.nil_append] at member
      obtain ⟨front, -, -, posEq, -⟩ := exists_of_mem_errors _ _ rest error member
      simp only [posEq, Place.offset_after, breakSize]
      omega

/-- The errors of a text follow one another at growing offsets. -/
theorem pairwise_errors
    (place : Place)
    (due : Bool)
    (text : List Char) :
    ((stream place due (all text)).filterMap Event.error?).Pairwise
      fun earlier later => earlier.pos.offset < later.pos.offset := by
  induction text using all_induction generalizing place due with
  | nil => cases due <;> exact List.Pairwise.nil
  | cons first rest tail after cutEq restEq inductionHypothesis =>
      have textEq : first :: rest = (cut first rest).text ++ after := by
        rw [cutEq, restEq, List.cons_append]
      have positive := byteCount_pos (cut first rest).text (by simp [cutEq])
      rw [all_cons first rest tail after cutEq restEq, stream, List.filterMap_append]
      refine List.pairwise_append.2 ⟨?_, inductionHypothesis _ _, ?_⟩
      · cases errorsEq : ((cut first rest).events place due).1.filterMap Event.error? with
        | nil => exact List.Pairwise.nil
        | cons error others =>
            have single := (errors_of_piece place due (cut first rest) error (by simp [errorsEq])).1
            rw [← errorsEq, single]
            exact List.pairwise_singleton _ _
      · intro earlier inPiece later inRest
        obtain ⟨-, ⟨-, earlierPos⟩ | ⟨isFault, atEnd, earlierPos⟩⟩ :=
          errors_of_piece place due (cut first rest) earlier inPiece
        · obtain ⟨front, -, -, posEq, -⟩ := exists_of_mem_errors _ _ after later inRest
          simp only [earlierPos, posEq, Place.offset_after]
          omega
        · have atBreak := cut_endsAtBreak first rest after textEq earlier.cause isFault atEnd
          rw [earlierPos]
          exact offset_lt_of_mem_errors _ _ after atBreak later inRest

end Piece

/-! ## Places that a position can show -/

/-- A text made of line breaks alone gives neither lexemes nor errors. -/
theorem streamOf_lineBreaks (count : Nat) : streamOf (List.replicate count '\n') = [] := by
  have fromPlace (place : Place) :
      Piece.stream place false (Piece.all (List.replicate count '\n')) = [] := by
    induction count generalizing place with
    | zero => rfl
    | succ count inductionHypothesis =>
        have cutEq : Piece.cut '\n' (List.replicate count '\n') = ⟨.newline, ['\n']⟩ := rfl
        rw [List.replicate_succ,
          Piece.all_cons '\n' (List.replicate count '\n') [] (List.replicate count '\n')
            (by rw [cutEq]) rfl, cutEq]
        exact inductionHypothesis _
  exact fromPlace .start

namespace Place

/-- Whether a position can show a place. -/
def Fits (place : Place) : Prop :=
  place.offset ≤ Position.largest ∧ place.line ≤ Position.largest

theorem Fits.position_eq
    {place : Place}
    (fits : place.Fits)
    (filename : Option String) :
    place.position filename = ⟨place.offset, place.line, filename⟩ := by
  rw [position, Position.clamped, Nat.min_eq_left fits.1, Nat.min_eq_left fits.2]

/-- In a small text every place fits, unless nothing but line breaks stands in front of it and they are
the largest number of line breaks that such a text has. -/
theorem fits_or_lineBreaks
    (front : List Char)
    (small : byteCount front ≤ Position.largest) :
    (start.after front).Fits ∨ front = List.replicate Position.largest '\n' := by
  obtain ⟨fewer, onlyBreaks⟩ := count_le_byteCount front
  by_cases fits : 1 + front.count '\n' ≤ Position.largest
  · exact .inl ⟨(Nat.zero_add _).trans_le small, fits⟩
  · have sizeEq : byteCount front = Position.largest := by omega
    refine .inr ?_
    rw [← sizeEq]
    exact onlyBreaks (by omega)

end Place

/-- A position can show the place of every lexeme and every error of a small text. -/
theorem fits_of_mem_streamOf
    (text : List Char)
    (small : byteCount text ≤ Position.largest)
    (event : Event Place)
    (member : event ∈ streamOf text) :
    event.pos.Fits := by
  obtain ⟨front, back, textEq, posEq⟩ := Piece.pos_of_mem_stream _ _ _ event member
  rw [Piece.flatMap_text_all] at textEq
  have sizes : byteCount text = byteCount front + byteCount back := by
    rw [textEq, byteCount_append]
  rw [posEq]
  refine (Place.fits_or_lineBreaks front (by omega)).resolve_right fun onlyBreaks => ?_
  have frontSize := (count_le_byteCount front).1
  rw [onlyBreaks, List.count_replicate_self] at frontSize
  have noBack : back = [] := by
    by_contra nonempty
    have := byteCount_pos back nonempty
    rw [onlyBreaks] at sizes
    omega
  rw [streamOf, textEq, noBack, List.append_nil, onlyBreaks] at member
  rw [← streamOf, streamOf_lineBreaks] at member
  cases member

/-! ## Sources -/

/-- Positions that follow one another in a source and show the lines on which they stand. -/
structure Ascending (source : String) (positions : List Position) : Prop where
  ordered : positions.Pairwise fun earlier later => earlier.offset < later.offset
  inside : ∀ position ∈ positions, position.offset ≤ source.utf8ByteSize
  lines : ∀ position ∈ positions, position.line = lineOf source position.offset

/-- What it means that the lexemes and errors of a source are well placed. The end of the source is the
last lexeme of the stream; its line is exact unless the source is the largest one that consists of line
breaks. -/
structure WellPlaced (source : String) (lexed : Lexed Position) : Prop where
  oneEnd : (lexed.stream.filter fun lexeme => lexeme.token = .eof) = [⟨.eof, lexed.stop, none⟩]
  endsLast : lexed.stream.getLast? = some ⟨.eof, lexed.stop, none⟩
  endOffset : lexed.stop.offset = source.utf8ByteSize
  endLine : lexed.stop.line = if source = lineBreaks Position.largest then Position.largest
    else lineOf source lexed.stop.offset
  lexemes : Ascending source (lexed.lexemes.map Lexeme.pos)
  few : lexed.stream.length ≤ source.utf8ByteSize + 2
  errors : Ascending source (lexed.errors.map LexError.pos)
  unended : ∀ error ∈ lexed.errors,
    error.cause = .unterminatedString ∨ error.cause = .unclosedComment ->
      (sourceBytes source)[error.pos.offset]? = some 0x0A
        ∨ error.pos.offset = source.utf8ByteSize

/-- Lexemes and errors of a source are those of its stream, shown at positions. -/
theorem lex_eq_map
    (source : String)
    (filename : Option String) :
    (lex source filename).lexemes
        = ((streamOf source.toList).filterMap Event.lexeme?).map
          (Lexeme.map (Place.position filename))
      ∧ (lex source filename).errors
        = ((streamOf source.toList).filterMap Event.error?).map
          (LexError.map (Place.position filename)) :=
  ⟨Event.filterMap_lexeme?_map _ _, Event.filterMap_error?_map _ _⟩

/-- The line of a place behind a start of the source. -/
theorem lineOf_byteCount
    (source : String)
    (front back : List Char)
    (textEq : source.toList = front ++ back) :
    lineOf source (byteCount front) = 1 + front.count '\n' := by
  rw [lineOf, sourceBytes_eq_bytesOf, textEq, bytesOf_append, ← length_bytesOf, List.take_left,
    count_bytesOf]

/-- Behind line breaks alone there are as many lines and one more. -/
theorem lineOf_lineBreaks (count : Nat) : lineOf (lineBreaks count) count = 1 + count := by
  have textEq : (lineBreaks count).toList = List.replicate count '\n' ++ [] := by
    rw [lineBreaks, String.toList_ofList, List.append_nil]
  have lineEq := lineOf_byteCount (lineBreaks count) _ _ textEq
  rwa [byteCount_lineBreaks, List.count_replicate_self] at lineEq

/-- The position of a place behind a start of the source, if a position can show it. -/
theorem position_after
    (source : String)
    (filename : Option String)
    (front back : List Char)
    (textEq : source.toList = front ++ back)
    (fits : (Place.start.after front).Fits) :
    (Place.start.after front).position filename
      = ⟨byteCount front, lineOf source (byteCount front), filename⟩ := by
  rw [fits.position_eq, lineOf_byteCount source front back textEq, Place.offset_after, Place.start,
    Nat.zero_add]
  rfl

/-- The position of every event of a small source. -/
theorem position_of_mem_streamOf
    (source : String)
    (filename : Option String)
    (small : source.utf8ByteSize < 2 ^ 32)
    (event : Event Place)
    (member : event ∈ streamOf source.toList) :
    event.pos.offset ≤ source.utf8ByteSize
      ∧ event.pos.position filename
        = ⟨event.pos.offset, lineOf source event.pos.offset, filename⟩ := by
  rw [utf8ByteSize_eq_byteCount] at small ⊢
  have fits := fits_of_mem_streamOf source.toList (Nat.le_of_lt_succ small) event member
  obtain ⟨front, back, textEq, posEq⟩ := Piece.pos_of_mem_stream _ _ _ event member
  rw [Piece.flatMap_text_all] at textEq
  rw [posEq] at fits ⊢
  have offsetEq : (Place.start.after front).offset = byteCount front := Nat.zero_add _
  rw [offsetEq]
  refine ⟨?_, position_after source filename front back textEq fits⟩
  rw [textEq, byteCount_append]
  exact Nat.le_add_right _ _

/-- Places of events that follow one another give positions that follow one another. -/
theorem Ascending.of_places
    (source : String)
    (filename : Option String)
    (small : source.utf8ByteSize < 2 ^ 32)
    (places : List Place)
    (ordered : places.Pairwise fun earlier later => earlier.offset < later.offset)
    (ofEvents : ∀ place ∈ places, ∃ event ∈ streamOf source.toList, event.pos = place) :
    Ascending source (places.map (Place.position filename)) := by
  have positionOf (place : Place) (member : place ∈ places) :
      place.offset ≤ source.utf8ByteSize
        ∧ place.position filename = ⟨place.offset, lineOf source place.offset, filename⟩ := by
    obtain ⟨event, eventMember, rfl⟩ := ofEvents place member
    exact position_of_mem_streamOf source filename small event eventMember
  refine ⟨List.pairwise_map.2 ?_, List.forall_mem_map.2 ?_, List.forall_mem_map.2 ?_⟩
  · refine ordered.imp_of_mem fun {earlier later} earlierMember laterMember before => ?_
    rw [(positionOf earlier earlierMember).2, (positionOf later laterMember).2]
    exact before
  · intro place member
    rw [(positionOf place member).2]
    exact (positionOf place member).1
  · intro place member
    rw [(positionOf place member).2]

/-- There are no more positions than offsets up to the end of the source. -/
theorem Ascending.length_le
    {source : String}
    {positions : List Position}
    (ascending : Ascending source positions) :
    positions.length ≤ source.utf8ByteSize + 1 := by
  have distinct : (positions.map Position.offset).Nodup :=
    List.pairwise_map.2 (ascending.ordered.imp Nat.ne_of_lt)
  have inRange : (positions.map Position.offset).toFinset
      ⊆ Finset.range (source.utf8ByteSize + 1) := by
    intro offset member
    obtain ⟨position, isPosition, rfl⟩ := List.mem_map.1 (List.mem_toFinset.1 member)
    exact Finset.mem_range.2 (Nat.lt_succ_of_le (ascending.inside position isPosition))
  have := Finset.card_le_card inRange
  rwa [List.toFinset_card_of_nodup distinct, Finset.card_range, List.length_map] at this

/-- No lexeme of a stream of pieces is the end of the text. -/
theorem Piece.ne_eof_of_mem_stream
    (pieces : List Piece)
    (wellSpelled : WellSpelled pieces)
    (place : Place)
    (due : Bool)
    (lexeme : Lexeme Place)
    (member : lexeme ∈ (stream place due pieces).filterMap Event.lexeme?) :
    lexeme.token ≠ .eof := by
  rw [← map_lexeme_entryStream] at member
  obtain ⟨entry, entryMember, rfl⟩ := List.mem_map.1 member
  rcases cases_of_mem_entryStream entryMember with ⟨pos, rfl⟩ | ⟨piece, isPiece, token, pos, kindEq, rfl⟩
  · exact nofun
  · have spelled := (wellSpelled piece isPiece).2
    rw [SpelledByKind, kindEq] at spelled
    exact spelled.1

/-- What was reported at its end stands at a line break or at the end of the source. -/
theorem break_of_mem_errors
    (source : String)
    (filename : Option String)
    (small : source.utf8ByteSize < 2 ^ 32)
    (error : LexError Place)
    (member : error ∈ (streamOf source.toList).filterMap Event.error?)
    (atEnd : error.cause.reportedAtEnd = true) :
    (sourceBytes source)[(error.pos.position filename).offset]? = some 0x0A
      ∨ (error.pos.position filename).offset = source.utf8ByteSize := by
  obtain ⟨front, back, textEq, posEq, atBreak⟩ :=
    Piece.exists_of_mem_errors .start false source.toList error member
  have fits : error.pos.Fits := by
    rw [utf8ByteSize_eq_byteCount] at small
    exact fits_of_mem_streamOf _ (Nat.le_of_lt_succ small) _ (Event.mem_of_error? member)
  rw [posEq] at fits ⊢
  rw [position_after source filename front back textEq fits]
  cases back with
  | nil =>
      rw [utf8ByteSize_eq_byteCount, textEq, List.append_nil]
      exact .inr rfl
  | cons first rest =>
      obtain rfl := atBreak atEnd first rfl
      refine .inl ?_
      rw [sourceBytes_eq_bytesOf, textEq, bytesOf_append, ← length_bytesOf front,
        List.getElem?_append_right (Nat.le_refl _), Nat.sub_self, bytesOf_cons]
      rfl

/-- The position of the end of a small source. -/
theorem stop_of_lex
    (source : String)
    (filename : Option String)
    (small : source.utf8ByteSize < 2 ^ 32) :
    (lex source filename).stop = ⟨source.utf8ByteSize,
      if source = lineBreaks Position.largest then Position.largest
      else lineOf source source.utf8ByteSize, filename⟩ := by
  have stopEq : (lex source filename).stop = (Place.start.after source.toList).position filename := rfl
  have bound : byteCount source.toList ≤ Position.largest := by
    rw [utf8ByteSize_eq_byteCount] at small
    exact Nat.le_of_lt_succ small
  rw [stopEq, utf8ByteSize_eq_byteCount]
  split_ifs with isBreaks
  · have textEq : source.toList = List.replicate Position.largest '\n' := by
      rw [isBreaks, lineBreaks, String.toList_ofList]
    have lineCount : source.toList.count '\n' = Position.largest := by
      rw [textEq, List.count_replicate_self]
    have sizeEq : byteCount source.toList = Position.largest :=
      Nat.le_antisymm bound (lineCount ▸ (count_le_byteCount source.toList).1)
    rw [Place.position, Position.clamped, Place.after, lineCount, sizeEq, Place.start, Nat.zero_add,
      Nat.min_self, Nat.min_eq_right (Nat.le_add_left _ _)]
  · refine position_after source filename source.toList [] (List.append_nil _).symm
      ((Place.fits_or_lineBreaks source.toList bound).resolve_right fun textEq => isBreaks ?_)
    rw [lineBreaks, ← textEq, String.ofList_toList]

/-- The largest source that consists of line breaks is small. -/
theorem small_lineBreaks : (lineBreaks Position.largest).utf8ByteSize < 2 ^ 32 := by
  rw [utf8ByteSize_lineBreaks]
  decide

/-- The end of the largest source that consists of line breaks. -/
theorem stop_lineBreaks (filename : Option String) :
    (lex (lineBreaks Position.largest) filename).stop
      = ⟨Position.largest, Position.largest, filename⟩ := by
  rw [stop_of_lex _ filename small_lineBreaks, if_pos rfl, utf8ByteSize_lineBreaks]

/-- The lexemes and errors of every small source are well placed. -/
theorem lex_wellPlaced
    (source : String)
    (filename : Option String)
    (small : source.utf8ByteSize < 2 ^ 32) :
    WellPlaced source (lex source filename) := by
  have wellSpelled := Piece.spelledByKind_of_mem_all source.toList
  obtain ⟨lexemesEq, errorsEq⟩ := lex_eq_map source filename
  have stopEq := stop_of_lex source filename small
  have notEnd : ∀ lexeme ∈ (lex source filename).lexemes, lexeme.token ≠ .eof := by
    rw [lexemesEq]
    exact List.forall_mem_map.2 fun lexeme member =>
      Piece.ne_eof_of_mem_stream _ wellSpelled .start false lexeme member
  have lexemes : Ascending source ((lex source filename).lexemes.map Lexeme.pos) := by
    have placesEq : (lex source filename).lexemes.map Lexeme.pos
        = (((streamOf source.toList).filterMap Event.lexeme?).map Lexeme.pos).map
          (Place.position filename) := by
      rw [lexemesEq, List.map_map, List.map_map]
      rfl
    rw [placesEq]
    refine .of_places source filename small _
      (List.pairwise_map.2 (Piece.pairwise_lexemes .start false _ wellSpelled)) ?_
    exact List.forall_mem_map.2 fun lexeme member => ⟨_, Event.mem_of_lexeme? member, rfl⟩
  have errors : Ascending source ((lex source filename).errors.map LexError.pos) := by
    have placesEq : (lex source filename).errors.map LexError.pos
        = (((streamOf source.toList).filterMap Event.error?).map LexError.pos).map
          (Place.position filename) := by
      rw [errorsEq, List.map_map, List.map_map]
      rfl
    rw [placesEq]
    refine .of_places source filename small _
      (List.pairwise_map.2 (Piece.pairwise_errors .start false source.toList)) ?_
    exact List.forall_mem_map.2 fun error member => ⟨_, Event.mem_of_error? member, rfl⟩
  have lexemeCount := lexemes.length_le
  rw [List.length_map] at lexemeCount
  refine ⟨?_, List.getLast?_concat, by rw [stopEq], by rw [stopEq], lexemes, ?_, errors, ?_⟩
  · rw [Lexed.stream, List.filter_append, List.filter_eq_nil_iff.2 (by simpa using notEnd)]
    rfl
  · rw [Lexed.stream, List.length_append, List.length_singleton]
    omega
  · rw [errorsEq]
    refine List.forall_mem_map.2 fun error member isCause => ?_
    refine break_of_mem_errors source filename small error member ?_
    rcases isCause with isCause | isCause <;>
      exact (congrArg LexCause.reportedAtEnd isCause : error.cause.reportedAtEnd = _)

/-- A string that is not closed on its line, a stray character and a comment that is never closed. -/
theorem lex_wellPlaced_errors :
    "x \"a\n# y /*\n".utf8ByteSize < 2 ^ 32
      ∧ (lex "x \"a\n# y /*\n" none).errors.map (fun error => (error.pos.offset, error.pos.line))
        = [(4, 1), (5, 2), (12, 3)]
      ∧ WellPlaced "x \"a\n# y /*\n" (lex "x \"a\n# y /*\n" none) := by
  have small : "x \"a\n# y /*\n".utf8ByteSize < 2 ^ 32 := by decide
  exact ⟨small, by decide +kernel, lex_wellPlaced _ none small⟩

/-- The end of the largest source that consists of line breaks stands on a line that no position can
show. -/
theorem lineBreaks_end_not_shown :
    (lineBreaks Position.largest).utf8ByteSize < 2 ^ 32
      ∧ ∃ lexeme ∈ (lex (lineBreaks Position.largest) none).stream,
        lexeme.pos.line ≠ lineOf (lineBreaks Position.largest) lexeme.pos.offset := by
  have lineEq : lineOf (lineBreaks Position.largest) Position.largest = 1 + Position.largest :=
    lineOf_lineBreaks Position.largest
  refine ⟨small_lineBreaks, ⟨.eof, (lex (lineBreaks Position.largest) none).stop, none⟩,
    by simp [Lexed.stream], ?_⟩
  rw [stop_lineBreaks]
  dsimp only
  rw [lineEq]
  omega

end GoFront
