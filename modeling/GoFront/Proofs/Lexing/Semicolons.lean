import GoFront.Proofs.Lexing.Spans

/-!
# Where semicolons are inserted

Between two consecutive tokens of a text without lexical errors there are only comments, and one
inserted semicolon if the first token ends a statement and a line break, or the end of the text,
follows it. The semicolon stands at that line break and among the comments in the order of their
places.
-/

namespace GoFront

namespace Entry

variable {P : Type}

/-- Whether an entry is a comment. -/
def isComment (entry : Entry P) : Bool :=
  entry.written.isSome && entry.lexeme.token.isComment

@[simp] theorem isComment_ofToken
    (place : Place)
    (token : Token)
    (text : List Char) :
    (ofToken place token text).isComment = token.isComment := rfl

/-- A semicolon inserted at a place, between the comments that start before it and those that start
behind it. -/
def SemicolonAmong (place : Place) (entries : List (Entry Place)) : Prop :=
  ∃ earlier later, entries = earlier ++ .semicolon place :: later
    ∧ (∀ comment ∈ earlier, comment.isComment ∧ comment.lexeme.pos.offset < place.offset)
    ∧ (∀ comment ∈ later, comment.isComment ∧ place.offset < comment.lexeme.pos.offset)

/-- What stands in a gap that begins at a place: comments only, or comments and the semicolon that is
inserted there. -/
def InGap
    (place : Place)
    (gap : List Char)
    (inserted : Bool)
    (between : List (Entry Place)) : Prop :=
  if inserted then SemicolonAmong (place.after (gap.takeWhile (· ≠ '\n'))) between
  else ∀ entry ∈ between, entry.isComment

theorem inGap_false
    (place : Place)
    (gap : List Char)
    (between : List (Entry Place)) :
    InGap place gap false between ↔ ∀ entry ∈ between, entry.isComment := by
  simp [InGap]

/-- A stretch without line breaks moves the start of a gap. -/
theorem InGap.behind
    {place : Place}
    {stretch gap : List Char}
    {inserted : Bool}
    {between : List (Entry Place)}
    (inGap : InGap (place.after stretch) gap inserted between)
    (noBreak : '\n' ∉ stretch) :
    InGap place (stretch ++ gap) inserted between := by
  have passed : (stretch ++ gap).takeWhile (· ≠ '\n') = stretch ++ gap.takeWhile (· ≠ '\n') := by
    apply List.takeWhile_append_of_pos
    rintro character inStretch
    simpa using fun equal : character = '\n' => noBreak (equal ▸ inStretch)
  rwa [InGap, passed, Place.after_append]

/-- Comments that start before the first line break of a gap can be put before its entries. -/
theorem InGap.append
    {place : Place}
    {gap : List Char}
    {inserted : Bool}
    {comments between : List (Entry Place)}
    (inGap : InGap place gap inserted between)
    (before : ∀ comment ∈ comments, comment.isComment
      ∧ comment.lexeme.pos.offset < (place.after (gap.takeWhile (· ≠ '\n'))).offset) :
    InGap place gap inserted (comments ++ between) := by
  cases inserted with
  | false =>
      rw [inGap_false] at inGap ⊢
      exact List.forall_mem_append.2 ⟨fun comment member => (before comment member).1, inGap⟩
  | true =>
      obtain ⟨earlier, later, rfl, earlierComments, laterComments⟩ := inGap
      refine ⟨comments ++ earlier, later, by simp, ?_, laterComments⟩
      exact List.forall_mem_append.2 ⟨before, earlierComments⟩

end Entry

namespace Piece

open Entry

/-- No entry starts before its stream. -/
theorem offset_le_of_mem_entryStream
    (place : Place)
    (due : Bool)
    (pieces : List Piece)
    (wellSpelled : WellSpelled pieces)
    (entry : Entry Place)
    (member : entry ∈ entryStream place due pieces) :
    place.offset ≤ entry.lexeme.pos.offset := by
  obtain ⟨front, back, -, pos, -⟩ :=
    entryAt_of_mem_entryStream place due pieces wellSpelled entry member
  rw [pos, Place.offset_after]
  exact Nat.le_add_right _ _

/-- The text of a line break or a comment is longer than what stands before its first line break. -/
theorem byteCount_takeWhile_lt
    (text : List Char)
    (breaks : '\n' ∈ text) :
    byteCount (text.takeWhile (· ≠ '\n')) < byteCount text := by
  have rest : text.dropWhile (· ≠ '\n') ≠ [] := by
    intro allPassed
    have := List.dropWhile_eq_nil_iff.1 allPassed '\n' breaks
    simp at this
  have parts := congrArg byteCount
    (List.takeWhile_append_dropWhile (p := (· ≠ '\n')) (l := text))
  have positive := byteCount_pos _ rest
  rw [byteCount_append] at parts
  omega

/-- Entries that are no code and come first belong to the gap. -/
theorem gap_of_append
    {front stream between rest : List (Entry Place)}
    (split : front ++ stream = between ++ rest)
    (notCode : ∀ entry ∈ front, entry.isCode = false)
    (restCode : ∀ entry ∈ rest.head?, entry.isCode) :
    ∃ tail, between = front ++ tail ∧ stream = tail ++ rest := by
  induction front generalizing between with
  | nil => exact ⟨between, rfl, split⟩
  | cons entry front inductionHypothesis =>
      obtain ⟨entryNotCode, frontNotCode⟩ := List.forall_mem_cons.1 notCode
      cases between with
      | nil =>
          have isCode := restCode entry (by simp [← show _ = rest from split])
          simp [entryNotCode] at isCode
      | cons head tail =>
          obtain ⟨rfl, tailEq⟩ := List.cons.inj split
          obtain ⟨rest, rfl, streamEq⟩ := inductionHypothesis tailEq frontNotCode
          exact ⟨rest, rfl, streamEq⟩

/-- The semicolon that is inserted at a line break of a stretch, if one is. -/
def insertedAt
    (place : Place)
    (due : Bool)
    (stretch : List Char) : List (Entry Place) :=
  if due && stretch.contains '\n' then
    [.semicolon (place.after (stretch.takeWhile (· ≠ '\n')))]
  else []

/-- A piece between two tokens of code adds at most a comment, and a semicolon behind it if there is a
line break in its text that ends a statement. -/
theorem entries_between
    (place : Place)
    (due : Bool)
    (piece : Piece)
    (spelled : piece.SpelledByKind)
    (noFault : ∀ cause, piece.kind ≠ .fault cause)
    (markAtStart : piece.kind = .byteOrderMark -> place.offset = 0)
    (notCode : ∀ token, piece.kind = .token token -> token.isComment) :
    ∃ comments : List (Entry Place),
      (∀ comment ∈ comments, comment.isComment ∧ comment.lexeme.pos = place
        ∧ piece.text.head? = some '/')
      ∧ piece.entries place due
        = (comments ++ insertedAt place due piece.text, due && !piece.text.contains '\n') := by
  rcases kindEq : piece.kind with _ | _ | _ | token | cause
  · have blank : ∀ character ∈ piece.text, isBlank character := by
      simpa [SpelledByKind, kindEq] using spelled
    have noBreak : '\n' ∉ piece.text := fun breaks => absurd (blank '\n' breaks) (by decide)
    exact ⟨[], by simp, by simp [entries, kindEq, insertedAt, noBreak]⟩
  · have textEq : piece.text = ['\n'] := by simpa [SpelledByKind, kindEq] using spelled
    exact ⟨[], by simp, by simp [entries, kindEq, insertedAt, textEq]⟩
  · have textEq : piece.text = [byteOrderMark] := by
      simpa [SpelledByKind, kindEq] using spelled
    have noBreak : '\n' ∉ piece.text := by
      rw [textEq]
      decide
    exact ⟨[], by simp, by simp [entries, kindEq, insertedAt, noBreak, markAtStart kindEq]⟩
  · have isComment := notCode token kindEq
    have opened : piece.text.head? = some '/' := by
      rw [SpelledByKind, kindEq] at spelled
      exact spelled.2.2 isComment
    refine ⟨[.ofToken place token piece.text], by simp [isComment, opened], ?_⟩
    cases due <;> by_cases breaks : '\n' ∈ piece.text <;>
      simp [entries, kindEq, isComment, insertedAt, breaks]
  · exact absurd kindEq (noFault cause)

/-- The gap in front of the first code of a stream or of its end, the text behind it, and the entries
in it. -/
structure IsGap
    (place : Place)
    (due : Bool)
    (gap back : List Char)
    (between rest : List (Entry Place)) : Prop where
  next : ∀ entry ∈ rest.head?, entry.lexeme.pos = place.after gap
  atEnd : rest = [] -> back = []
  inGap : InGap place gap (due && (gap.contains '\n' || rest.isEmpty)) between

/-- A stretch without line breaks and without entries belongs to the gap behind it. -/
theorem IsGap.behind
    {place : Place}
    {due : Bool}
    {stretch gap back : List Char}
    {between rest : List (Entry Place)}
    (isGap : IsGap (place.after stretch) due gap back between rest)
    (noBreak : '\n' ∉ stretch) :
    IsGap place due (stretch ++ gap) back between rest := by
  refine ⟨by simpa using isGap.next, isGap.atEnd, ?_⟩
  have same : (stretch ++ gap).contains '\n' = gap.contains '\n' := by simp [noBreak]
  rw [same]
  exact isGap.inGap.behind noBreak

/-- Where no line break would end a statement, any stretch belongs to the gap behind it. -/
theorem IsGap.behind_settled
    {place : Place}
    {stretch gap back : List Char}
    {between rest : List (Entry Place)}
    (isGap : IsGap (place.after stretch) false gap back between rest) :
    IsGap place false (stretch ++ gap) back between rest := by
  refine ⟨by simpa using isGap.next, isGap.atEnd, ?_⟩
  have inGap := isGap.inGap
  rw [Bool.false_and, inGap_false] at inGap ⊢
  exact inGap

/-- Comments that start before the first line break of a gap belong to it. -/
theorem IsGap.append
    {place : Place}
    {due : Bool}
    {gap back : List Char}
    {comments between rest : List (Entry Place)}
    (isGap : IsGap place due gap back between rest)
    (before : ∀ comment ∈ comments, comment.isComment
      ∧ comment.lexeme.pos.offset < (place.after (gap.takeWhile (· ≠ '\n'))).offset) :
    IsGap place due gap back (comments ++ between) rest :=
  ⟨isGap.next, isGap.atEnd, isGap.inGap.append before⟩

/-- A line break that ends a statement puts a semicolon before the comments behind it. -/
theorem IsGap.behind_break
    {place : Place}
    {stretch gap back : List Char}
    {between rest : List (Entry Place)}
    (isGap : IsGap (place.after stretch) false gap back between rest)
    (breaks : '\n' ∈ stretch)
    (behind : ∀ entry ∈ between, (place.after stretch).offset ≤ entry.lexeme.pos.offset) :
    IsGap place true (stretch ++ gap) back
      (.semicolon (place.after (stretch.takeWhile (· ≠ '\n'))) :: between) rest := by
  refine ⟨by simpa using isGap.next, isGap.atEnd, ?_⟩
  have comments := isGap.inGap
  rw [Bool.false_and, inGap_false] at comments
  have stops : (stretch ++ gap).takeWhile (· ≠ '\n') = stretch.takeWhile (· ≠ '\n') := by
    rw [List.takeWhile_append, if_neg]
    intro allPassed
    have shorter := byteCount_takeWhile_lt stretch breaks
    rw [(List.takeWhile_prefix _).eq_of_length allPassed] at shorter
    exact Nat.lt_irrefl _ shorter
  have contained : (stretch ++ gap).contains '\n' = true := by simp [breaks]
  rw [contained, Bool.true_or, Bool.and_true]
  refine ⟨[], between, by rw [stops]; rfl, by simp, fun entry member => ⟨comments entry member, ?_⟩⟩
  have shorter := byteCount_takeWhile_lt stretch breaks
  have start := behind entry member
  rw [stops]
  simp only [Place.offset_after] at start ⊢
  omega

/-- A stretch belongs to the gap behind it, with the semicolon that is inserted in it. -/
theorem IsGap.behind_stretch
    {place : Place}
    {due : Bool}
    {stretch gap back : List Char}
    {between rest : List (Entry Place)}
    (isGap : IsGap (place.after stretch) (due && !stretch.contains '\n') gap back between rest)
    (behind : ∀ entry ∈ between, (place.after stretch).offset ≤ entry.lexeme.pos.offset) :
    IsGap place due (stretch ++ gap) back (insertedAt place due stretch ++ between) rest := by
  by_cases breaks : '\n' ∈ stretch
  · have contained : stretch.contains '\n' = true := by simpa using breaks
    rw [contained, Bool.not_true, Bool.and_false] at isGap
    cases due with
    | false => exact isGap.behind_settled
    | true =>
        rw [insertedAt, contained, Bool.true_and, if_pos rfl]
        exact isGap.behind_break breaks behind
  · have noBreak : stretch.contains '\n' = false := by simpa using breaks
    rw [noBreak, Bool.not_false, Bool.and_true] at isGap
    rw [insertedAt, noBreak, Bool.and_false, if_neg Bool.false_ne_true]
    exact isGap.behind breaks

section

variable {place : Place} {due : Bool} {piece : Piece} {pieces : List Piece}
  {between rest : List (Entry Place)}

/-- Nothing stands in the gap in front of a piece that is code. -/
theorem isGap_of_code
    {token : Token}
    {behind : List (Entry Place)}
    (isToken : piece.kind = .token token)
    (notComment : token.isComment = false)
    (split : (piece.entries place due).1 ++ behind = between ++ rest)
    (noCode : ∀ entry ∈ between, entry.isCode = false)
    (back : List Char) :
    IsGap place due [] back between rest := by
  simp only [entries, isToken, notComment, Bool.false_eq_true, if_false, List.cons_append,
    List.nil_append] at split
  cases between with
  | nil =>
      obtain rfl : _ = rest := split
      refine ⟨?_, ?_, ?_⟩ <;> simp [inGap_false]
  | cons head tail =>
      obtain ⟨rfl, -⟩ := List.cons.inj split
      have notCode := (List.forall_mem_cons.1 noCode).1
      simp [notComment] at notCode

/-- A piece that is no code belongs to the gap that begins with it. -/
theorem exists_gap_behind
    (wellSpelled : WellSpelled (piece :: pieces))
    (faultless : Faultless place (piece :: pieces))
    (notCode : ∀ token, piece.kind = .token token -> token.isComment)
    (split : entryStream place due (piece :: pieces) = between ++ rest)
    (restCode : ∀ entry ∈ rest.head?, entry.isCode) :
    ∃ tail, tail <:+ between
      ∧ entryStream (place.after piece.text) (due && !piece.text.contains '\n') pieces = tail ++ rest
      ∧ ∀ gap back,
        IsGap (place.after piece.text) (due && !piece.text.contains '\n') gap back tail rest ->
          IsGap place due (piece.text ++ gap) back between rest := by
  obtain ⟨⟨-, spelled⟩, restSpelled⟩ := List.forall_mem_cons.1 wellSpelled
  obtain ⟨noFault, markAtStart, -⟩ := faultless
  obtain ⟨comments, areComments, entriesEq⟩ :=
    entries_between place due piece spelled noFault markAtStart notCode
  simp only [entryStream, entriesEq, List.append_assoc] at split
  have commentsNotCode : ∀ entry ∈ comments, entry.isCode = false := by
    intro entry member
    have isComment := (areComments entry member).1
    simp_all [Entry.isComment, isCode]
  have semicolonNotCode : ∀ entry ∈ insertedAt place due piece.text, entry.isCode = false := by
    intro entry member
    unfold insertedAt at member
    split_ifs at member
    · rw [List.mem_singleton.1 member]
      rfl
    · simp at member
  obtain ⟨afterComments, rfl, semicolonEq⟩ := gap_of_append split commentsNotCode restCode
  obtain ⟨tail, rfl, tailEq⟩ := gap_of_append semicolonEq semicolonNotCode restCode
  refine ⟨tail, (List.suffix_append _ _).trans (List.suffix_append _ _), tailEq,
    fun gap back isGap => (isGap.behind_stretch ?_).append ?_⟩
  · intro entry member
    have inStream := List.mem_append_left rest member
    rw [← tailEq] at inStream
    exact offset_le_of_mem_entryStream _ _ pieces restSpelled entry inStream
  · intro comment member
    obtain ⟨isComment, pos, opened⟩ := areComments comment member
    obtain ⟨inner, textEq⟩ := List.head?_eq_some_iff.1 opened
    refine ⟨isComment, ?_⟩
    have positive := Char.utf8Size_pos '/'
    simp only [pos, textEq, Place.offset_after, List.cons_append, byteCount,
      List.takeWhile_cons_of_pos (p := (· ≠ '\n')) (a := '/') (by decide)]
    omega

end

/-- In front of the first code of a stream, or of its end, there is a gap. -/
theorem exists_gap
    (place : Place)
    (due : Bool)
    (pieces : List Piece)
    (wellSpelled : WellSpelled pieces)
    (faultless : Faultless place pieces)
    (between rest : List (Entry Place))
    (split : entryStream place due pieces = between ++ rest)
    (noCode : ∀ entry ∈ between, entry.isCode = false)
    (restCode : ∀ entry ∈ rest.head?, entry.isCode) :
    ∃ gap back, pieces.flatMap text = gap ++ back
      ∧ IsGap place due gap back between rest := by
  induction pieces generalizing place due between with
  | nil =>
      refine ⟨[], [], rfl, ?_⟩
      cases due with
      | false =>
          obtain ⟨rfl, rfl⟩ : between = [] ∧ rest = [] := by simpa [entryStream] using split
          exact ⟨by simp, by simp, by simp [inGap_false]⟩
      | true =>
          have split : [.semicolon place] ++ [] = between ++ rest := split
          obtain ⟨tail, rfl, tailEq⟩ := gap_of_append split (by simp) restCode
          obtain ⟨rfl, rfl⟩ : tail = [] ∧ rest = [] := by simpa using tailEq
          exact ⟨by simp, by simp, [], [], rfl, by simp, by simp⟩
  | cons piece pieces inductionHypothesis =>
      by_cases code : ∃ token, piece.kind = .token token ∧ token.isComment = false
      · obtain ⟨token, isToken, notComment⟩ := code
        exact ⟨[], _, rfl, isGap_of_code isToken notComment split noCode _⟩
      · have notCode : ∀ token, piece.kind = .token token -> token.isComment := by
          intro token isToken
          by_contra notComment
          exact code ⟨token, isToken, by simpa using notComment⟩
        obtain ⟨tail, isSuffix, tailEq, belongs⟩ :=
          exists_gap_behind wellSpelled faultless notCode split restCode
        obtain ⟨gap, back, textEq, isGap⟩ := inductionHypothesis _ _
          (List.forall_mem_cons.1 wellSpelled).2 faultless.2.2 tail tailEq
          fun entry member => noCode entry (isSuffix.subset member)
        exact ⟨piece.text ++ gap, back, by simp [textEq], belongs gap back isGap⟩

/-! ## Code in its stream -/

/-- Code in the entries of a piece is all that the piece adds. -/
theorem entries_of_code
    (place : Place)
    (due : Bool)
    (piece : Piece)
    (code : Entry Place)
    (member : code ∈ (piece.entries place due).1)
    (isCode : code.isCode) :
    ∃ token, piece.kind = .token token ∧ code = .ofToken place token piece.text
      ∧ piece.entries place due = ([code], token.endsStatement) := by
  unfold entries at member ⊢
  rcases kindEq : piece.kind with _ | _ | _ | token | cause <;> simp only [kindEq] at member
  · simp at member
  · split_ifs at member
    · rw [List.mem_singleton.1 member] at isCode
      simp at isCode
    · simp at member
  · simp at member
  · split_ifs at member with isComment breaks
    · rcases List.mem_append.1 member with member | member <;>
        rw [List.mem_singleton.1 member] at isCode <;> simp [isComment] at isCode
    · rw [List.mem_singleton.1 member] at isCode
      simp [isComment] at isCode
    · obtain rfl := List.mem_singleton.1 member
      exact ⟨token, rfl, rfl, if_neg isComment⟩
  · simp at member

/-- Code in a stream comes from a piece, and the stream goes on behind that piece. -/
theorem exists_piece_of_code
    (place : Place)
    (due : Bool)
    (pieces : List Piece)
    (before after : List (Entry Place))
    (code : Entry Place)
    (split : entryStream place due pieces = before ++ code :: after)
    (isCode : code.isCode) :
    ∃ earlier token written later, pieces = earlier ++ ⟨.token token, written⟩ :: later
      ∧ code = .ofToken (place.after (earlier.flatMap text)) token written
      ∧ after = entryStream (place.after (earlier.flatMap text ++ written)) token.endsStatement
          later := by
  induction pieces generalizing place due before with
  | nil =>
      have member : code ∈ entryStream place due [] := by simp [split]
      unfold entryStream at member
      split_ifs at member
      · rw [List.mem_singleton.1 member] at isCode
        simp at isCode
      · simp at member
  | cons piece pieces inductionHypothesis =>
      have behind (inner : List (Entry Place))
          (streamEq : entryStream (place.after piece.text) (piece.entries place due).2 pieces
            = inner ++ code :: after) :
          ∃ earlier token written later,
            piece :: pieces = earlier ++ ⟨.token token, written⟩ :: later
              ∧ code = .ofToken (place.after (earlier.flatMap text)) token written
              ∧ after = entryStream (place.after (earlier.flatMap text ++ written))
                  token.endsStatement later := by
        obtain ⟨earlier, token, written, later, rfl, codeEq, afterEq⟩ :=
          inductionHypothesis _ _ inner streamEq
        exact ⟨piece :: earlier, token, written, later, rfl, by simpa using codeEq,
          by simpa using afterEq⟩
      simp only [entryStream] at split
      rcases List.append_eq_append_iff.1 split with ⟨inner, rfl, streamEq⟩ | ⟨inner, entriesEq, restEq⟩
      · exact behind inner streamEq
      · cases inner with
        | nil => exact behind [] restEq.symm
        | cons head tail =>
            obtain ⟨rfl, afterEq⟩ := List.cons.inj restEq
            obtain ⟨token, kindEq, codeEq, allEq⟩ :=
              entries_of_code place due piece code (by simp [entriesEq]) isCode
            rw [allEq] at entriesEq afterEq
            have tailEq : tail = [] := by
              have lengths := congrArg List.length entriesEq
              simp only [List.length_append, List.length_cons, List.length_nil] at lengths
              exact List.eq_nil_of_length_eq_zero (by omega)
            refine ⟨[], token, piece.text, pieces, ?_, codeEq, ?_⟩
            · rw [← kindEq]
              rfl
            · rw [afterEq, tailEq]
              rfl

end Piece

/-! ## Sources -/

/-- What it means that the inserted semicolons among the entries of a text are exactly those that the
language asks for: none before the first code, and between two pieces of code, or behind the last one,
what belongs into the gap. -/
structure InsertedExactly (text : List Char) (entries : List (Entry Place)) : Prop where
  beforeCode : ∀ between rest, entries = between ++ rest ->
    (∀ entry ∈ between, entry.isCode = false) ->
    (∀ entry ∈ rest.head?, entry.isCode) ->
    ∀ entry ∈ between, entry.isComment
  behindCode : ∀ before code between rest, entries = before ++ code :: (between ++ rest) ->
    code.isCode ->
    (∀ entry ∈ between, entry.isCode = false) ->
    (∀ entry ∈ rest.head?, entry.isCode) ->
    ∃ front written gap back,
      text = front ++ (written ++ (gap ++ back))
        ∧ code = .ofToken (Place.start.after front) code.lexeme.token written
        ∧ (∀ next ∈ rest.head?, next.lexeme.pos = Place.start.after (front ++ (written ++ gap)))
        ∧ (rest = [] -> back = [])
        ∧ Entry.InGap (Place.start.after (front ++ written)) gap
            (code.lexeme.token.endsStatement && (gap.contains '\n' || rest.isEmpty)) between

/-- In a source without lexical errors semicolons are inserted exactly where the language asks for
them. -/
theorem semicolons_exact
    (source : String)
    (filename : Option String)
    (noErrors : (lex source filename).errors = []) :
    (lex source filename).lexemes
        = (entriesOf source.toList).map (fun entry =>
            entry.lexeme.map (Place.position filename))
      ∧ InsertedExactly source.toList (entriesOf source.toList) := by
  have wellSpelled : Piece.WellSpelled (Piece.all source.toList) :=
    Piece.spelledByKind_of_mem_all source.toList
  have faultless := faultless_of_lex source filename noErrors
  refine ⟨lex_lexemes source filename, ?_, ?_⟩
  · intro between rest split noCode restCode
    obtain ⟨gap, back, -, isGap⟩ := Piece.exists_gap .start false _ wellSpelled faultless between
      rest split noCode restCode
    have inGap := isGap.inGap
    rwa [Bool.false_and, Entry.inGap_false] at inGap
  · intro before code between rest split isCode noCode restCode
    obtain ⟨earlier, token, written, later, piecesEq, codeEq, restEq⟩ :=
      Piece.exists_piece_of_code .start false _ before (between ++ rest) code split isCode
    rw [piecesEq] at wellSpelled faultless
    have laterSpelled := (List.forall_mem_cons.1 (List.forall_mem_append.1 wellSpelled).2).2
    have laterFaultless := (Piece.Faultless.append.1 faultless).2.2.2
    obtain ⟨gap, back, textEq, isGap⟩ := Piece.exists_gap _ _ later laterSpelled
      (by simpa using laterFaultless) between rest restEq.symm noCode restCode
    have tokenEq : code.lexeme.token = token := by
      rw [codeEq]
      rfl
    refine ⟨earlier.flatMap Piece.text, written, gap, back, ?_, ?_, ?_, isGap.atEnd, ?_⟩
    · rw [← Piece.flatMap_text_all source.toList, piecesEq]
      simp [textEq]
    · rw [tokenEq]
      exact codeEq
    · simpa using isGap.next
    · rw [tokenEq]
      exact isGap.inGap

/-- Semicolons are inserted at the line break in a comment, in front of what follows, and at the end of the
text. -/
theorem semicolons_exact_comment :
    (lex "x /* a\n */ y" none).errors = []
      ∧ (lex "x /* a\n */ y" none).lexemes
        = [⟨.ident, ⟨0, 1, none⟩, some "x"⟩, ⟨.blockComment, ⟨2, 1, none⟩, some "/* a\n */"⟩,
          ⟨.semi, ⟨6, 1, none⟩, none⟩, ⟨.ident, ⟨11, 2, none⟩, some "y"⟩, ⟨.semi, ⟨12, 2, none⟩, none⟩]
      ∧ (lex "x /* a\n */ y" none).lexemes
        = (entriesOf "x /* a\n */ y".toList).map (fun entry => entry.lexeme.map (Place.position none))
      ∧ InsertedExactly "x /* a\n */ y".toList (entriesOf "x /* a\n */ y".toList) := by
  have noErrors : (lex "x /* a\n */ y" none).errors = [] := by decide +kernel
  refine ⟨noErrors, ?_, semicolons_exact _ none noErrors⟩
  decide +kernel

end GoFront
