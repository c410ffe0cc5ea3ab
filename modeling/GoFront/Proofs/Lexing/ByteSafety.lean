import GoFront.Proofs.Lexing.ByteNumbers
import GoFront.Proofs.Lexing.ByteQuotes
import GoFront.Proofs.Lexing.ByteSearches
import GoFront.Proofs.Lexing.Munch

/-!
# Safety of scanning bytes

Wherever a literal or a comment begins that is scanned byte by byte, the scan succeeds, whatever stands
behind its opening: no step of it leaves the text, overflows or stops inside a character. It stops where the
piece ends that is cut there.
-/

namespace GoFront
namespace Bytes

open Text

/-! ## Openings -/

/-- The beginning of a piece that is scanned byte by byte. -/
inductive Opening
  | comment
  | raw
  | string
  | rune
  | digit (value : Char) (isDigit : value.isDigit = true)
  | point (value : Char) (isDigit : value.isDigit = true)

namespace Opening

/-- The first character. -/
def first : Opening -> Char
  | comment => '/'
  | raw => '\x60'
  | string => '"'
  | rune => '\''
  | digit value _ => value
  | point _ _ => '.'

/-- The characters that have been matched behind the first one. -/
def others : Opening -> List Char
  | comment => ['*']
  | raw | string | rune | digit _ _ => []
  | point value _ => [value]

/-- The characters of an opening. -/
def text (opening : Opening) : List Char :=
  opening.first :: opening.others

/-- Scans what stands behind an opening, of which the offsets of its start and its end are given. -/
def scan (source : List UInt8) (start stop : Nat) : Opening -> Checked Scanned
  | comment => scanComment source stop
  | raw => scanRaw source stop
  | string => scanString source stop
  | rune => scanRune source stop
  | digit _ _ | point _ _ => scanNumber source start stop

/-- The piece that is cut from an opening and what stands behind it. -/
def piece (opening : Opening) (rest : List Char) : Piece :=
  Piece.cut opening.first (opening.others ++ rest)

end Opening

/-- A piece is a start of the text from which it is cut. -/
theorem Opening.piece_isPrefix
    (opening : Opening)
    (rest : List Char) :
    (opening.piece rest).text <+: opening.text ++ rest := by
  obtain ⟨tail, textEq, starts⟩ := Piece.exists_cut_text opening.first (opening.others ++ rest)
  rw [Opening.piece, textEq]
  exact List.cons_prefix_cons.2 ⟨rfl, starts⟩

/-! ## Where numbers are cut -/

theorem cut_of_isDigit
    {first : Char}
    (isDigit : first.isDigit = true)
    (rest : List Char) :
    Piece.cut first rest = Piece.number (first :: rest) := by
  have isAscii := isAscii_of_isDigitOf (Number.isDigitOf_decimal_of_isDigit first isDigit)
  have told : first.isDigit = true ->
      Piece.isBlank first = false ∧ Piece.startsWord first = false :=
    ascii_cases isAscii (by decide +kernel)
  obtain ⟨noBlank, noWord⟩ := told isDigit
  have differs (other : Char) (noDigit : other.isDigit = false) : first ≠ other := by
    rintro rfl
    rw [isDigit] at noDigit
    cases noDigit
  simp [Piece.cut, isDigit, noBlank, noWord, differs Piece.byteOrderMark (by decide),
    differs '\n' (by decide), differs '/' (by decide)]

theorem cut_of_point
    {digit : Char}
    (isDigit : digit.isDigit = true)
    (rest : List Char) :
    Piece.cut '.' (digit :: rest) = Piece.number ('.' :: digit :: rest) := by
  simp [Piece.cut, isDigit, Piece.byteOrderMark, Piece.isBlank,
    show Piece.startsWord '.' = false by decide]

/-- What has been matched of a number belongs to it. -/
theorem first_isPrefix
    {first : Char}
    (isDigit : first.isDigit = true)
    (rest : List Char) :
    [first] <+: (Number.split (first :: rest)).1.text := by
  have starts : (Number.split (first :: rest)).1.text <+: first :: rest :=
    ⟨_, Number.split_append _⟩
  obtain ⟨head, tail, textEq⟩ := List.exists_cons_of_ne_nil
    (Number.split_text_ne_nil_of_isDigit first rest isDigit)
  rw [textEq] at starts ⊢
  rw [(List.cons_prefix_cons.1 starts).1]
  exact ⟨tail, rfl⟩

theorem point_isPrefix
    {digit : Char}
    (isDigit : digit.isDigit = true)
    (rest : List Char) :
    ['.', digit] <+: (Number.split ('.' :: digit :: rest)).1.text := by
  have starts : (Number.split ('.' :: digit :: rest)).1.text <+: '.' :: digit :: rest :=
    ⟨_, Number.split_append _⟩
  obtain ⟨head, tail, textEq⟩ := List.exists_cons_of_ne_nil
    (Number.split_text_ne_nil_of_point (digit :: rest) isDigit)
  rw [textEq] at starts
  obtain ⟨rfl, tailStarts⟩ := List.cons_prefix_cons.1 starts
  obtain ⟨next, others, rfl⟩ := List.exists_cons_of_ne_nil
    (Number.tail_ne_nil_of_point (digit :: rest) tail isDigit textEq)
  rw [textEq, (List.cons_prefix_cons.1 tailStarts).1]
  exact ⟨others, rfl⟩

/-! ## Every scan succeeds -/

/-- Where an opening stands, its scan finds the piece that is cut there. -/
theorem scan_finds
    {source : List UInt8}
    {start : Nat}
    {rest : List Char}
    (opening : Opening)
    (stands : Stands source start (opening.text ++ rest)) :
    Finds (opening.scan source start (start + byteCount opening.text)) start (opening.piece rest) := by
  have behind := stands.after opening.text
  cases opening with
  | comment =>
      have whole : Opening.comment.piece rest = Piece.blockComment rest := rfl
      rw [whole]
      exact scanComment_finds behind
  | raw =>
      have whole : Opening.raw.piece rest = Piece.rawString rest := rfl
      rw [whole]
      exact scanRaw_finds behind
  | string =>
      have whole : Opening.string.piece rest = Piece.interpretedString rest := rfl
      rw [whole]
      exact scanString_finds behind
  | rune =>
      have whole : Opening.rune.piece rest = Piece.rune rest := rfl
      rw [whole]
      exact scanRune_finds behind
  | digit value isDigit =>
      have whole : (Opening.digit value isDigit).piece rest = Piece.number (value :: rest) :=
        cut_of_isDigit isDigit rest
      rw [whole]
      exact scanNumber_finds stands (.inl isDigit) (first_isPrefix isDigit rest)
  | point value isDigit =>
      have whole : (Opening.point value isDigit).piece rest
          = Piece.number ('.' :: value :: rest) :=
        cut_of_point isDigit rest
      rw [whole]
      exact scanNumber_finds stands (.inr ⟨rfl, isDigit⟩) (point_isPrefix isDigit rest)

/-! ## Literals of lexemes -/

/-- A stretch of text is what stands between two offsets that lie between characters. -/
def IsSlice (source : List UInt8) (start stop : Nat) (text : List Char) : Prop :=
  isBoundary source start = true ∧ isBoundary source stop = true
    ∧ slice source start stop = .ok (bytesOf text)

theorem Stands.isSlice
    {source : List UInt8}
    {start : Nat}
    {text behind : List Char}
    (stands : Stands source start (text ++ behind)) :
    IsSlice source start (start + byteCount text) text :=
  ⟨stands.isBoundary, (stands.after text).isBoundary, stands.slice_eq⟩

/-- The literal of a lexeme is the text of a piece that is cut where the lexeme stands. -/
theorem exists_cut_of_mem_lexemes
    {source : String}
    {filename : Option String}
    {lexeme : Lexeme Position}
    {literal : String}
    (isLexeme : lexeme ∈ (lex source filename).lexemes)
    (isLiteral : literal ∈ lexeme.literal) :
    ∃ front first rest, source.toList = front ++ first :: rest
      ∧ Piece.cut first rest = ⟨.token lexeme.token, literal.toList⟩
      ∧ lexeme.pos.offset = min (byteCount front) Position.largest := by
  rw [lex_lexemes, List.mem_map] at isLexeme
  obtain ⟨entry, isEntry, rfl⟩ := isLexeme
  have isWritten : entry.written = some literal.toList := by
    rcases Piece.cases_of_mem_entryStream isEntry with ⟨pos, rfl⟩ | ⟨piece, -, token, pos, -, rfl⟩
    · cases isLiteral
    · change literal ∈ (if token.isLiteral || token.isComment then
        some (String.ofList piece.text) else none) at isLiteral
      split_ifs at isLiteral
      · obtain rfl := Option.mem_some.1 isLiteral
        exact congrArg some String.toList_ofList.symm
      · cases isLiteral
  obtain ⟨earlier, token, later, allEq, rfl⟩ := Piece.exists_piece_of_written isEntry isWritten
  obtain ⟨first, tail, after, textEq, cutEq, -, -⟩ :=
    Piece.exists_cut_of_all_eq (Piece.all_of_append allEq).symm
  refine ⟨earlier.flatMap Piece.text, first, tail ++ after, ?_, cutEq, ?_⟩
  · rw [← textEq, ← List.flatMap_append, ← allEq, Piece.flatMap_text_all]
  · simp [Entry.ofToken, Piece.lexeme, Lexeme.map, Place.position, Position.clamped, Place.start]

/-- If a piece begins with an opening, it is the one that is cut from the opening. -/
theorem Opening.piece_eq_of_isPrefix
    {opening : Opening}
    {first : Char}
    {rest : List Char}
    (opens : opening.text <+: (Piece.cut first rest).text) :
    ∃ behind, first :: rest = opening.text ++ behind
      ∧ opening.piece behind = Piece.cut first rest := by
  obtain ⟨tail, cutEq, after, rfl⟩ := Piece.exists_cut_text first rest
  obtain ⟨others, othersEq⟩ := opens
  rw [cutEq] at othersEq
  obtain ⟨sameFirst, sameTail⟩ : opening.first = first ∧ opening.others ++ others = tail :=
    List.cons.inj othersEq
  refine ⟨others ++ after, ?_, ?_⟩
  · rw [← List.append_assoc, othersEq, List.cons_append]
  · rw [Opening.piece, ← List.append_assoc, sameTail, sameFirst]

/-- Scanning is safe in every source. Wherever an opening stands, its scan succeeds and stops between
characters, behind the piece that is cut there. Behind every backslash an escape is found that ends in the
text. The literal of every lexeme is what stands at its position, and if it begins with an opening it is
what the scan finds there. -/
theorem scans_are_safe
    (source : String)
    (filename : Option String) :
    (∀ (front rest : List Char) (opening : Opening),
      source.toList = front ++ (opening.text ++ rest) ->
        Finds
          (opening.scan (sourceBytes source) (byteCount front)
            (byteCount front + byteCount opening.text))
          (byteCount front) (opening.piece rest)
        ∧ IsSlice (sourceBytes source) (byteCount front)
          (byteCount front + byteCount (opening.piece rest).text) (opening.piece rest).text)
    ∧ (∀ (front rest : List Char) (quote : Char),
      IsQuote quote -> source.toList = front ++ '\\' :: rest ->
        ∃ behind escape,
          tailFrom (sourceBytes source) (byteCount front + 1) = .ok behind
          ∧ escapeLength behind (ofChar quote) = .ok (ofEscape escape)
          ∧ escape.width ≤ behind.length)
    ∧ ∀ lexeme ∈ (lex source filename).lexemes, ∀ literal ∈ lexeme.literal,
      ∃ start,
        lexeme.pos.offset = min start Position.largest
        ∧ IsSlice (sourceBytes source) start (start + literal.utf8ByteSize) literal.toList
        ∧ ∀ opening : Opening, opening.text <+: literal.toList ->
          Finds (opening.scan (sourceBytes source) start (start + byteCount opening.text)) start
            ⟨.token lexeme.token, literal.toList⟩ := by
  have standsAt {front behind : List Char} (textEq : source.toList = front ++ behind) :
      Stands (sourceBytes source) (byteCount front) behind :=
    ⟨front, by rw [sourceBytes_eq_bytesOf, textEq], rfl⟩
  refine ⟨fun front rest opening textEq => ?_, fun front rest quote isQuote textEq => ?_,
    fun lexeme isLexeme literal isLiteral => ?_⟩
  · obtain ⟨behind, restEq⟩ := opening.piece_isPrefix rest
    have stands := standsAt textEq
    exact ⟨scan_finds opening stands, Stands.isSlice (by rwa [restEq])⟩
  · have behindStands : Stands (sourceBytes source) (byteCount front + 1) rest :=
      (standsAt textEq).after ['\\']
    refine ⟨bytesOf rest, _, behindStands.tailFrom_eq, escapeLength_eq isQuote rest, ?_⟩
    rw [length_bytesOf]
    exact Nat.le_trans (escape_width quote rest).1 (length_le_byteCount rest)
  · obtain ⟨front, first, rest, textEq, cutEq, position⟩ :=
      exists_cut_of_mem_lexemes isLexeme isLiteral
    obtain ⟨tail, textOfCut, behind, restEq⟩ := Piece.exists_cut_text first rest
    have literalEq : literal.toList = first :: tail := by rw [← textOfCut, cutEq]
    have stands : Stands (sourceBytes source) (byteCount front) (literal.toList ++ behind) := by
      rw [literalEq, List.cons_append, restEq]
      exact standsAt textEq
    refine ⟨byteCount front, position, ?_, fun opening opens => ?_⟩
    · rw [utf8ByteSize_eq_byteCount]
      exact stands.isSlice
    · have cutOpens : opening.text <+: (Piece.cut first rest).text := by rwa [cutEq]
      obtain ⟨afterOpening, openingEq, pieceEq⟩ := Opening.piece_eq_of_isPrefix cutOpens
      have found := scan_finds opening (standsAt (openingEq ▸ textEq))
      rwa [pieceEq, cutEq] at found

/-- A rune, and a string with an escape in front of a character of several bytes. -/
theorem scans_are_safe_escapes :
    ("'\\n'+\"\\é\"".toList = "'\\n'+".toList ++ (Opening.string.text ++ "\\é\"".toList)
        ∧ Finds (scanString (sourceBytes "'\\n'+\"\\é\"") 6) 5
          ⟨.fault .invalidEscape, "\"\\é\"".toList⟩)
      ∧ (IsQuote '\'' ∧ "'\\n'+\"\\é\"".toList = ['\''] ++ '\\' :: "n'+\"\\é\"".toList
        ∧ ∃ behind escape,
          tailFrom (sourceBytes "'\\n'+\"\\é\"") 2 = .ok behind
          ∧ escapeLength behind (ofChar '\'') = .ok (ofEscape escape)
          ∧ escape.width ≤ behind.length)
      ∧ ⟨.runeLit, ⟨0, 1, none⟩, some "'\\n'"⟩ ∈ (lex "'\\n'+\"\\é\"" none).lexemes
      ∧ Opening.rune.text <+: "'\\n'".toList
      ∧ ∃ start,
        0 = min start Position.largest
        ∧ Finds (scanRune (sourceBytes "'\\n'+\"\\é\"") (start + 1)) start
          ⟨.token .runeLit, "'\\n'".toList⟩ := by
  have textEq : "'\\n'+\"\\é\"".toList = "'\\n'+".toList ++ (Opening.string.text ++ "\\é\"".toList) := by
    decide
  have escapeEq : "'\\n'+\"\\é\"".toList = ['\''] ++ '\\' :: "n'+\"\\é\"".toList := by
    decide
  have isLexeme : (⟨.runeLit, ⟨0, 1, none⟩, some "'\\n'"⟩ : Lexeme Position)
      ∈ (lex "'\\n'+\"\\é\"" none).lexemes := by
    decide
  have opens : Opening.rune.text <+: "'\\n'".toList := by
    decide
  obtain ⟨start, position, -, found⟩ := (scans_are_safe _ none).2.2 _ isLexeme "'\\n'" rfl
  exact ⟨⟨textEq, ((scans_are_safe _ none).1 _ _ .string textEq).1⟩,
    ⟨.inr rfl, escapeEq, (scans_are_safe _ none).2.1 _ _ _ (.inr rfl) escapeEq⟩,
    isLexeme, opens, start, position, found .rune opens⟩

/-- Inside a character a stop is refused. -/
example : bump (bytesOf ['é']) 0 1 = .error .insideCharacter := by
  decide

end Bytes
end GoFront
