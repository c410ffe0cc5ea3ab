import GoFront.Proofs.Lexing.QuotedLiterals

/-!
# The longest token

A word is the longest run of letters and digits that starts where it stands, and it is a keyword exactly
if it is spelled like one. An operator has the longest spelling that starts where it stands, and what
stands there opens neither a comment nor a number.
-/

namespace GoFront

open Text

/-! ## Longest runs -/

/-- Whether a stretch is the longest start of a text in which every character continues the stretch. -/
structure LongestRun (continues : Char -> Bool) (stretch text : List Char) : Prop where
  isStart : stretch <+: text
  continued : ∀ character ∈ stretch, continues character = true
  longest : ∀ longer, longer <+: text -> (∀ character ∈ longer, continues character = true) ->
    longer <+: stretch

theorem longestRun_takeWhile
    (continues : Char -> Bool)
    (text : List Char) :
    LongestRun continues (text.takeWhile continues) text := by
  refine ⟨List.takeWhile_prefix _, fun _ => List.mem_takeWhile_imp, ?_⟩
  rintro longer ⟨behind, rfl⟩ continued
  rw [List.takeWhile_append_of_pos continued]
  exact List.prefix_append _ _

/-! ## Operators by their length -/

namespace Token

theorem isOperator_eq (token : Token) : token.isOperator = operators.contains token := by
  cases token <;> rfl

/-- In front of an operator stand only operators with spellings that are no shorter. -/
theorem pairwise_operators :
    operators.Pairwise fun earlier later =>
      later.spelling.toList.length ≤ earlier.spelling.toList.length := by
  decide +kernel

end Token

/-- The operator that is found at the start of a text has the longest spelling of all operators with
which the text begins. -/
theorem Piece.operator?_longest
    {token other : Token}
    {text : List Char}
    (found : operator? text = some token)
    (isOperator : other.isOperator = true)
    (starts : other.spelling.toList <+: text) :
    other.spelling.toList.length ≤ token.spelling.toList.length := by
  obtain ⟨-, earlier, later, operatorsEq, noneEarlier⟩ := List.find?_eq_some_iff_append.1 found
  have isMember : other ∈ Token.operators := by
    rwa [Token.isOperator_eq, List.contains_iff_mem] at isOperator
  have sorted := Token.pairwise_operators
  rw [operatorsEq] at isMember sorted
  rcases List.mem_append.1 isMember with inEarlier | inLater
  · have notStart := noneEarlier other inEarlier
    rw [List.isPrefixOf_iff_prefix.2 starts] at notStart
    cases notStart
  · rcases List.mem_cons.1 inLater with rfl | inLater
    · exact Nat.le_refl _
    · exact (List.pairwise_cons.1 (List.pairwise_append.1 sorted).2.1).1 other inLater

/-! ## Letters and digits -/

namespace Text

namespace CodePoints

/-- Ranges that lie below a code point do not hold it. -/
theorem contains_dropWhile
    {others : CodePoints}
    {low point : Nat}
    (above : low ≤ point) :
    others.contains point = true ->
      contains (others.dropWhile fun other => other.2 < low) point = true := by
  induction others with
  | nil => exact id
  | cons other others inductionHypothesis =>
      intro isMember
      rw [List.dropWhile_cons]
      split_ifs with below
      · rw [contains] at isMember
        split_ifs at isMember
        rcases Bool.or_eq_true_iff.1 isMember with inRange | later
        · have below := of_decide_eq_true below
          have inRange := of_decide_eq_true inRange
          omega
        · exact inductionHypothesis later
      · exact isMember

/-- Whether two sets of code points have none in common. The ranges of the second that lie below a range of
the first are passed over, as the further ranges of the first lie higher. -/
def areApart : (ranges others : CodePoints) -> Bool
  | [], _ => true
  | (low, high) :: ranges, others =>
      let later := others.dropWhile fun other => other.2 < low
      later.head?.all (fun other => high < other.1) && areApart ranges later

theorem contains_of_areApart
    {ranges others : CodePoints}
    {point : Nat}
    (apart : areApart ranges others = true)
    (isMember : ranges.contains point = true) :
    others.contains point = false := by
  induction ranges generalizing others with
  | nil => cases isMember
  | cons range ranges inductionHypothesis =>
      obtain ⟨low, high⟩ := range
      rw [contains] at isMember
      split_ifs at isMember with below
      rw [areApart, Bool.and_eq_true] at apart
      rw [Bool.eq_false_iff]
      intro isOther
      have kept := contains_dropWhile (Nat.le_of_not_lt below) isOther
      refine absurd kept (Bool.eq_false_iff.1 ?_)
      rcases Bool.or_eq_true_iff.1 isMember with inRange | later
      · have inRange := of_decide_eq_true inRange
        cases laterEq : others.dropWhile fun other => other.2 < low with
        | nil => rfl
        | cons next behind =>
            rw [laterEq, List.head?_cons, Option.all_some, decide_eq_true_iff] at apart
            rw [contains, if_pos (Nat.lt_of_le_of_lt inRange apart.1)]
      · exact inductionHypothesis apart.2 later

end CodePoints

/-- No decimal digit is a letter. -/
theorem isLetter_of_isDecimalDigit
    {character : Char}
    (isDigit : isDecimalDigit character = true) :
    isLetter character = false := by
  have apart : CodePoints.areApart decimalDigits letters = true := by decide +kernel
  exact CodePoints.contains_of_areApart apart isDigit

end Text

/-! ## Words and operators where they are cut -/

/-- Whether a token is an identifier or a keyword. -/
def Token.isWord (token : Token) : Bool :=
  token == .ident || token.isKeyword

namespace Piece

/-- A number is no word and no operator. -/
theorem number_token_apart (number : Number) :
    number.token.isWord = false ∧ number.token.isOperator = false := by
  unfold Number.token
  split_ifs <;> exact ⟨rfl, rfl⟩

/-- A word is an identifier or a keyword. -/
theorem mem_of_word
    {text : List Char}
    {token : Token}
    (kindEq : (word text).kind = .token token) :
    token ∈ Token.ident :: Token.keywords := by
  rw [← PieceKind.token.inj kindEq]
  cases found : Token.keyword? (String.ofList text) with
  | none => exact List.mem_cons_self
  | some keyword => exact List.mem_cons_of_mem _ (List.mem_of_find?_eq_some found)

/-- What is cut as an operator is one of them. -/
theorem operator_eq_of_token
    {first : Char}
    {rest : List Char}
    {token : Token}
    (kindEq : (operator first rest).kind = .token token) :
    operator? (first :: rest) = some token
      ∧ (operator first rest).text = token.spelling.toList := by
  unfold operator at kindEq ⊢
  split at kindEq
  · next found operatorEq =>
      obtain rfl : found = token := PieceKind.token.inj kindEq
      exact ⟨operatorEq, by simp only⟩
  · cases kindEq

/-- Whether a piece that is cut from a text is told by the class of its token: an identifier or a keyword
is the word at the start of the text, and an operator is the one that is found there. -/
def ToldByClass (first : Char) (rest : List Char) (piece : Piece) : Prop :=
  ∀ token, piece.kind = .token token ->
    (token.isWord = true ->
        startsWord first = true ∧ piece = word (first :: rest.takeWhile continuesWord))
      ∧ (token.isOperator = true ->
        operator? (first :: rest) = some token ∧ piece.text = token.spelling.toList)

section

variable {first : Char} {rest : List Char} {piece : Piece} {token : Token}

theorem ToldByClass.of_apart
    (kindEq : piece.kind = .token token)
    (isApart : token.isWord = false ∧ token.isOperator = false) :
    ToldByClass first rest piece := by
  intro other otherEq
  obtain rfl : token = other := PieceKind.token.inj (kindEq.symm.trans otherEq)
  simp [isApart]

theorem ToldByClass.of_noToken
    (noToken : ∀ token, piece.kind ≠ .token token) :
    ToldByClass first rest piece :=
  fun token kindEq => absurd kindEq (noToken token)

theorem ToldByClass.ofFault
    (isApart : token.isWord = false ∧ token.isOperator = false)
    (text : List Char)
    (fault : Option LexCause) :
    ToldByClass first rest (ofFault? token text fault) := by
  cases fault with
  | none => exact .of_apart rfl isApart
  | some cause => exact .of_noToken fun _ kindEq => by cases kindEq

/-- Words are no operators. -/
theorem toldByClass_word (isWord : startsWord first = true) :
    ToldByClass first rest (word (first :: rest.takeWhile continuesWord)) := by
  intro token kindEq
  refine ⟨fun _ => ⟨isWord, rfl⟩, fun isOperator => ?_⟩
  have apart : ∀ keyword ∈ Token.ident :: Token.keywords, keyword.isOperator = false := by decide
  rw [apart token (mem_of_word kindEq)] at isOperator
  cases isOperator

/-- Operators are no words. -/
theorem toldByClass_operator (first : Char) (rest : List Char) :
    ToldByClass first rest (operator first rest) := by
  intro token kindEq
  have isFound := operator_eq_of_token kindEq
  have apart : ∀ operator ∈ Token.operators, operator.isWord = false := by decide
  refine ⟨fun isWord => ?_, fun _ => isFound⟩
  rw [apart token (List.mem_of_find?_eq_some isFound.1)] at isWord
  cases isWord

/-- Only words are cut to identifiers and keywords, and only operators to operators. -/
theorem toldByClass_cut (first : Char) (rest : List Char) :
    ToldByClass first rest (cut first rest) := by
  refine cut_cases (motive := ToldByClass)
    ?mark ?newline ?blank ?line ?block ?word ?number ?raw ?string ?rune ?operator first rest
  case mark | newline => exact fun _ => .of_noToken fun _ kindEq => by cases kindEq
  case blank => exact fun _ _ _ => .of_noToken fun _ kindEq => by cases kindEq
  case line => exact fun _ => .of_apart rfl ⟨rfl, rfl⟩
  case block =>
    intro rest
    unfold blockComment
    split
    · exact .of_apart rfl ⟨rfl, rfl⟩
    · exact .of_noToken fun _ kindEq => by cases kindEq
  case word => exact fun first rest isWord => toldByClass_word isWord
  case number => exact fun _ _ _ => .ofFault (number_token_apart _) _ _
  case raw =>
    intro rest
    simp only [rawString]
    split
    · exact .of_apart rfl ⟨rfl, rfl⟩
    · exact .of_noToken fun _ kindEq => by cases kindEq
  case string | rune => exact fun _ => .ofFault ⟨rfl, rfl⟩ _ _
  case operator => exact toldByClass_operator

/-- A decimal digit that starts no number starts nothing at all. -/
theorem cut_of_foreignDigit
    (isDecimal : isDecimalDigit first = true)
    (isForeign : first.isDigit = false)
    (rest : List Char) :
    (cut first rest).kind = .fault (.unknownCharacter first) := by
  have differs (other : Char) (noDigit : isDecimalDigit other = false) : first ≠ other := by
    rintro rfl
    rw [isDecimal] at noDigit
    cases noDigit
  have noOperator : operator? (first :: rest) = none := by
    have apart : ∀ operator ∈ Token.operators,
        operator.spelling.toList.head?.all (!isDecimalDigit ·) = true := by
      decide +kernel
    refine List.find?_eq_none.2 fun operator isOperator starts => ?_
    cases spelled : operator.spelling.toList with
    | nil => exact spelling_ne_nil operator isOperator spelled
    | cons other spelling =>
        rw [spelled, List.isPrefixOf_iff_prefix, List.cons_prefix_cons] at starts
        have noDigit := apart operator isOperator
        rw [spelled, List.head?_cons, Option.all_some, Bool.not_eq_true'] at noDigit
        exact differs other noDigit starts.1.symm
  have noLetter : startsWord first = false := by
    simp [startsWord, isLetter_of_isDecimalDigit isDecimal, differs '_' (by decide)]
  have noBlank : isBlank first = false := by
    simp [isBlank, differs ' ' (by decide), differs '\t' (by decide),
      differs '\r' (by decide)]
  simp [cut, operator, noOperator, noLetter, noBlank, isForeign,
    differs byteOrderMark (by decide), differs '\n' (by decide),
    differs '/' (by decide), differs '.' (by decide),
    differs '\x60' (by decide), differs '"' (by decide),
    differs '\'' (by decide)]

/-- Of the operators that begin with a point one is the point and the other has three of them. -/
theorem spelling_of_point
    {tail : List Char}
    (isOperator : token ∈ Token.operators)
    (spelled : token.spelling.toList = '.' :: tail) :
    tail = [] ∨ tail = ['.', '.'] := by
  have points : ∀ operator ∈ Token.operators, operator.spelling.toList.head? = some '.' ->
      operator.spelling.toList.tail = [] ∨ operator.spelling.toList.tail = ['.', '.'] := by
    decide +kernel
  simpa [spelled] using points token isOperator

/-- What stands where an operator is cut opens no comment and no number. -/
theorem cut_of_opening
    {second : Char}
    (opens : first = '/' ∧ (second = '/' ∨ second = '*') ∨ first = '.' ∧ second.isDigit = true)
    (behind : List Char)
    (kindEq : (cut first (second :: behind)).kind = .token token) :
    token.isOperator = false := by
  rcases opens with ⟨rfl, rfl | rfl⟩ | ⟨rfl, isDigit⟩
  · obtain rfl : Token.lineComment = token := PieceKind.token.inj kindEq
    rfl
  · change (blockComment behind).kind = _ at kindEq
    unfold blockComment at kindEq
    split at kindEq
    · obtain rfl := PieceKind.token.inj kindEq
      rfl
    · cases kindEq
  · have cutEq : cut '.' (second :: behind) = number ('.' :: second :: behind) := by
      simp [cut, isDigit, byteOrderMark, isBlank, show startsWord '.' = false by decide]
    rw [cutEq] at kindEq
    change (ofFault? _ _ (Number.split ('.' :: second :: behind)).1.fault?).kind = _ at kindEq
    cases faultEq : (Number.split ('.' :: second :: behind)).1.fault? with
    | none =>
        rw [faultEq] at kindEq
        exact PieceKind.token.inj kindEq ▸ (number_token_apart _).2
    | some cause =>
        rw [faultEq] at kindEq
        cases kindEq

/-- A text from which an operator is cut does not begin with the opening of a comment or of a number. -/
theorem not_opening_of_operator
    {opening second : Char}
    (opens : opening = '/' ∧ (second = '/' ∨ second = '*')
      ∨ opening = '.' ∧ second.isDigit = true)
    (kindEq : (cut first rest).kind = .token token)
    (isOperator : token.isOperator = true) :
    ¬[opening, second] <+: first :: rest := by
  intro starts
  obtain ⟨rfl, behind, rfl⟩ := List.cons_prefix_cons.1 starts
  exact absurd isOperator (by simp [cut_of_opening opens behind kindEq])

/-- A digit of another script that stands behind a point is left over by an operator, and it is a fault. -/
theorem exists_fault_behind_point
    {digit : Char}
    {tail after : List Char}
    (isDecimal : isDecimalDigit digit = true)
    (isForeign : digit.isDigit = false)
    (found : operator? ('.' :: digit :: rest) = some token)
    (spelled : token.spelling.toList = '.' :: tail)
    (restEq : digit :: rest = tail ++ after) :
    ∃ piece ∈ all after, piece.IsFault := by
  rcases spelling_of_point (List.mem_of_find?_eq_some found) spelled with rfl | rfl
  · obtain rfl : digit :: rest = after := restEq
    obtain ⟨digitTail, digitText, later, laterEq⟩ := exists_cut_text digit rest
    refine ⟨cut digit rest, ?_, _, cut_of_foreignDigit isDecimal isForeign rest⟩
    rw [all_cons digit rest digitTail later digitText laterEq.symm]
    exact List.mem_cons_self
  · obtain rfl : digit = '.' := (List.cons.inj restEq).1
    exact absurd isDecimal (by decide)

/-- A word is the keyword that is spelled like it, if there is one. -/
theorem eq_keyword_iff
    {keyword : Token}
    {text : List Char}
    (isKeyword : keyword.isKeyword = true)
    (kindEq : (word text).kind = .token token) :
    token = keyword ↔ Token.keyword? (String.ofList text) = some keyword := by
  have tokenEq : (Token.keyword? (String.ofList text)).getD .ident = token :=
    PieceKind.token.inj kindEq
  rw [← tokenEq]
  cases found : Token.keyword? (String.ofList text) with
  | none =>
      refine ⟨?_, nofun⟩
      rintro rfl
      cases isKeyword
  | some spelled => exact Option.some_inj.symm

end

/-! ## The longest match -/

/-- What the longest match asks of a token that is written at the start of a text. -/
structure Munched (token : Token) (written text : List Char) : Prop where
  isStart : written <+: text
  word : token.isWord = true -> ∃ first run rest,
    written = first :: run
      ∧ text = first :: rest
      ∧ (first = '_' ∨ isLetter first = true)
      ∧ LongestRun (fun next => next = '_' || isLetter next || isDecimalDigit next) run rest
  keyword : token.isWord = true -> ∀ keyword : Token, keyword.isKeyword = true ->
    (token = keyword ↔ Token.keyword? (String.ofList written) = some keyword)
  operator : token.isOperator = true ->
    written = token.spelling.toList
      ∧ ∀ other : Token, other.isOperator = true -> other.spelling.toList <+: text ->
        other.spelling.toList.length ≤ written.length
  opensNothing : token.isOperator = true ->
    ¬['/', '/'] <+: text
      ∧ ¬['/', '*'] <+: text
      ∧ ∀ digit, isDecimalDigit digit = true -> ¬['.', digit] <+: text

/-- The first of the pieces of a text is the one that is cut there. -/
theorem exists_cut_of_all_eq
    {piece : Piece}
    {text : List Char}
    {later : List Piece}
    (allEq : all text = piece :: later) :
    ∃ first tail after, text = first :: (tail ++ after)
      ∧ cut first (tail ++ after) = piece
      ∧ piece.text = first :: tail
      ∧ later = all after := by
  obtain ⟨first, rest, rfl⟩ : ∃ first rest, text = first :: rest :=
    List.exists_cons_of_ne_nil (by rintro rfl; cases allEq)
  obtain ⟨tail, textEq, after, rfl⟩ := exists_cut_text first rest
  rw [all_cons first _ tail after textEq rfl] at allEq
  obtain ⟨rfl, rfl⟩ := List.cons.inj allEq
  exact ⟨first, tail, after, rfl, rfl, textEq, rfl⟩

/-- The first of the pieces of a text is its longest match, if what follows it is no fault. -/
theorem munched_of_all_eq
    {token : Token}
    {written text : List Char}
    {later : List Piece}
    (allEq : all text = ⟨.token token, written⟩ :: later)
    (faultless : ∀ piece ∈ later, ¬piece.IsFault) :
    Munched token written text := by
  obtain ⟨first, tail, after, rfl, cutEq, writtenEq, rfl⟩ := exists_cut_of_all_eq allEq
  obtain rfl : written = first :: tail := writtenEq
  have kindEq : (cut first (tail ++ after)).kind = .token token := by rw [cutEq]
  have textEq : (cut first (tail ++ after)).text = first :: tail := by rw [cutEq]
  obtain ⟨ofWord, ofOperator⟩ := toldByClass_cut first (tail ++ after) token kindEq
  refine ⟨List.prefix_append (first :: tail) after, fun isWord => ?_, fun isWord keyword isKeyword => ?_,
    fun isOperator => ?_, fun isOperator => ?_⟩
  · obtain ⟨starts, wordEq⟩ := ofWord isWord
    have longest := longestRun_takeWhile continuesWord (tail ++ after)
    have runEq : (tail ++ after).takeWhile continuesWord = tail := by
      rw [wordEq] at textEq
      exact (List.cons.inj textEq).2
    rw [runEq] at longest
    exact ⟨first, tail, tail ++ after, rfl, rfl, by simpa [startsWord] using starts, longest⟩
  · obtain ⟨-, wordEq⟩ := ofWord isWord
    rw [wordEq] at kindEq textEq
    obtain textEq : first :: (tail ++ after).takeWhile continuesWord = first :: tail := textEq
    rw [textEq] at kindEq
    exact eq_keyword_iff isKeyword kindEq
  · obtain ⟨found, spelled⟩ := ofOperator isOperator
    rw [textEq] at spelled
    rw [spelled]
    exact ⟨rfl, fun other otherOperator starts => operator?_longest found otherOperator starts⟩
  · refine ⟨not_opening_of_operator (.inl ⟨rfl, .inl rfl⟩) kindEq isOperator,
      not_opening_of_operator (.inl ⟨rfl, .inr rfl⟩) kindEq isOperator,
      fun digit isDecimal starts => ?_⟩
    by_cases isDigit : digit.isDigit = true
    · exact not_opening_of_operator (.inr ⟨rfl, isDigit⟩) kindEq isOperator starts
    · obtain ⟨rfl, behind, restEq⟩ := List.cons_prefix_cons.1 starts
      obtain ⟨found, spelled⟩ := ofOperator isOperator
      rw [textEq] at spelled
      rw [← restEq] at found
      obtain ⟨piece, inLater, isFault⟩ := exists_fault_behind_point isDecimal
        (by simpa using isDigit) found spelled.symm restEq
      exact faultless piece inLater isFault

end Piece

/-! ## Sources -/

/-- A written entry is the token of a piece, at the place of the piece. -/
theorem Piece.exists_piece_of_written
    {place : Place}
    {due : Bool}
    {pieces : List Piece}
    {entry : Entry Place}
    {written : List Char}
    (member : entry ∈ entryStream place due pieces)
    (isWritten : entry.written = some written) :
    ∃ earlier token later, pieces = earlier ++ ⟨.token token, written⟩ :: later
      ∧ entry = .ofToken (place.after (earlier.flatMap text)) token written := by
  induction pieces generalizing place due with
  | nil =>
      obtain ⟨-, rfl⟩ : due = true ∧ entry = .semicolon place := by
        cases due <;> simp_all [entryStream]
      cases isWritten
  | cons piece rest inductionHypothesis =>
      rw [entryStream, List.mem_append] at member
      rcases member with inPiece | inRest
      · have inWritten : entry ∈ (piece.entries place due).1.filter fun entry =>
            entry.written.isSome :=
          List.mem_filter.2 ⟨inPiece, by simp [isWritten]⟩
        rw [filter_written_entries] at inWritten
        obtain ⟨kind, text⟩ := piece
        cases kind with
        | token token =>
            obtain rfl := List.mem_singleton.1 inWritten
            obtain rfl : text = written := Option.some.inj isWritten
            exact ⟨[], token, rest, rfl, rfl⟩
        | _ => cases inWritten
      · obtain ⟨earlier, token, later, rfl, rfl⟩ := inductionHypothesis inRest
        exact ⟨piece :: earlier, token, later, rfl, by simp⟩

/-- Tokens are cut by the longest match. In a source without lexical errors every lexeme that is written
stands at its place as its text. An identifier or a keyword is the longest word that starts there, and it
is the keyword that is spelled like it, if there is one. An operator has the longest spelling that starts
there, and neither a comment nor a number is opened there. -/
theorem tokens_munch_maximally
    (source : String)
    (filename : Option String)
    (noErrors : (lex source filename).errors = []) :
    (lex source filename).lexemes
        = (entriesOf source.toList).map (fun entry =>
            entry.lexeme.map (Place.position filename))
      ∧ ∀ entry ∈ entriesOf source.toList, ∀ written ∈ entry.written,
        entry.lexeme.text = String.ofList written
          ∧ ∃ front text, source.toList = front ++ text
            ∧ entry.lexeme.pos = Place.start.after front
            ∧ Piece.Munched entry.lexeme.token written text := by
  have faultless := (faultless_of_lex source filename noErrors).not_isFault
  refine ⟨lex_lexemes source filename, fun entry member written isWritten => ?_⟩
  obtain ⟨earlier, token, later, allEq, rfl⟩ := Piece.exists_piece_of_written member isWritten
  have isPiece : ⟨.token token, written⟩ ∈ Piece.all source.toList := by simp [allEq]
  refine ⟨Entry.text_ofToken _ _ _ (Piece.spelledByKind_of_mem_all _ _ isPiece).2,
    earlier.flatMap Piece.text, (⟨.token token, written⟩ :: later).flatMap Piece.text, ?_, rfl, ?_⟩
  · rw [← List.flatMap_append, ← allEq, Piece.flatMap_text_all]
  · refine Piece.munched_of_all_eq (Piece.all_of_append allEq).symm fun piece inLater => ?_
    exact faultless piece (by simp [allEq, inLater])

/-- A word that begins like a keyword is no keyword, an operator of three characters is not cut short, and two
points are not the beginning of three. -/
theorem tokens_munch_maximally_operators :
    (lex "fors&^=a..b" none).errors = []
      ∧ (lex "fors&^=a..b" none).lexemes
        = [⟨.ident, ⟨0, 1, none⟩, some "fors"⟩, ⟨.andNotAssign, ⟨4, 1, none⟩, none⟩,
          ⟨.ident, ⟨7, 1, none⟩, some "a"⟩, ⟨.dot, ⟨8, 1, none⟩, none⟩, ⟨.dot, ⟨9, 1, none⟩, none⟩,
          ⟨.ident, ⟨10, 1, none⟩, some "b"⟩, ⟨.semi, ⟨11, 1, none⟩, none⟩]
      ∧ (lex "fors&^=a..b" none).lexemes
        = (entriesOf "fors&^=a..b".toList).map (fun entry => entry.lexeme.map (Place.position none))
      ∧ ∀ entry ∈ entriesOf "fors&^=a..b".toList, ∀ written ∈ entry.written,
        entry.lexeme.text = String.ofList written
          ∧ ∃ front text, "fors&^=a..b".toList = front ++ text
            ∧ entry.lexeme.pos = Place.start.after front
            ∧ Piece.Munched entry.lexeme.token written text := by
  have noErrors : (lex "fors&^=a..b" none).errors = [] := by decide +kernel
  refine ⟨noErrors, ?_, tokens_munch_maximally _ none noErrors⟩
  decide +kernel

end GoFront
