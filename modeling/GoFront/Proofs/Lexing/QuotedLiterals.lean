import GoFront.Proofs.Lexing.Isolation
import GoFront.Proofs.Lexing.Placement

/-!
# Literals in quotes, and comments

The literals that stand in quotes, by the rules of their grammar. A text that begins with a quote is
lexed to one literal exactly if it is such a literal. A comment between marks ends at the first closing
mark, and it is a fault exactly if there is none.
-/

namespace GoFront

open Text

/-! ## Rules -/

/-- What may follow a backslash in a literal with the given quote. -/
inductive EscapeLit (quote : Char) : List Char -> Prop
  | letter
      {letter : Char}
      (isLetter : letter ∈ ['a', 'b', 'f', 'n', 'r', 't', 'v', '\\']) : EscapeLit quote [letter]
  | quote : EscapeLit quote [quote]
  | octal
      {digits : List Char}
      (isLength : digits.length = 3)
      (areDigits : ∀ digit ∈ digits, isDigitOf .octal digit = true)
      (isSmall : digitsValue .octal digits ≤ 255) : EscapeLit quote digits
  | byte
      {digits : List Char}
      (isLength : digits.length = 2)
      (areDigits : ∀ digit ∈ digits, isDigitOf .hexadecimal digit = true) :
      EscapeLit quote ('x' :: digits)
  | short
      {digits : List Char}
      (isLength : digits.length = 4)
      (areDigits : ∀ digit ∈ digits, isDigitOf .hexadecimal digit = true)
      (isScalar : (digitsValue .hexadecimal digits).isValidChar) : EscapeLit quote ('u' :: digits)
  | long
      {digits : List Char}
      (isLength : digits.length = 8)
      (areDigits : ∀ digit ∈ digits, isDigitOf .hexadecimal digit = true)
      (isScalar : (digitsValue .hexadecimal digits).isValidChar) : EscapeLit quote ('U' :: digits)

/-- One character of the value of a literal with the given quote, as it is written. -/
inductive QuotedUnit (quote : Char) : List Char -> Prop
  | plain
      {character : Char}
      (isPlain : character ∉ ['\n', '\\', quote]) : QuotedUnit quote [character]
  | escape
      {text : List Char}
      (isEscape : EscapeLit quote text) : QuotedUnit quote ('\\' :: text)

/-- What stands between quotes, and how many units it has. -/
inductive QuotedUnits (quote : Char) : Nat -> List Char -> Prop
  | none : QuotedUnits quote 0 []
  | next
      {count : Nat}
      {unit rest : List Char}
      (isUnit : QuotedUnit quote unit)
      (units : QuotedUnits quote count rest) : QuotedUnits quote (count + 1) (unit ++ rest)

/-- The literals of the grammar that stand in quotes. -/
inductive QuotedLit : Token -> List Char -> Prop
  | raw
      {body : List Char}
      (noQuote : '\x60' ∉ body) : QuotedLit .rawStringLit ('\x60' :: body ++ ['\x60'])
  | interpreted
      {count : Nat}
      {body : List Char}
      (units : QuotedUnits '"' count body) : QuotedLit .stringLit ('"' :: body ++ ['"'])
  | rune
      {body : List Char}
      (unit : QuotedUnits '\'' 1 body) : QuotedLit .runeLit ('\'' :: body ++ ['\''])

/-! ## Escapes -/

namespace EscapeSequence

section

variable {quote : Char} {text : List Char}

theorem isScalar_iff (value : Nat) : isScalar value = true ↔ value.isValidChar := by
  simp [isScalar, Nat.isValidChar]

/-- A numeric escape is valid if all of its digits stand behind the characters that announce it, and
their value is allowed. -/
theorem numeric_of_digits
    {base : Base}
    {digits : List Char}
    (allowed : Nat -> Bool)
    (lead behind : List Char)
    (areDigits : ∀ digit ∈ digits, isDigitOf base digit = true)
    (isAllowed : allowed (digitsValue base digits) = true) :
    numeric lead.length digits.length base allowed (lead ++ digits ++ behind)
      = ⟨(lead ++ digits).length, true⟩ := by
  have digitsEq : ((lead ++ digits ++ behind).drop lead.length).take digits.length = digits := by
    rw [List.append_assoc, List.drop_left, List.take_left]
  have allDigits : digits.takeWhile (isDigitOf base) = digits := List.takeWhile_eq_self_iff.2 areDigits
  simp only [numeric, digitsEq, allDigits, isAllowed]
  simp

theorem exists_digits_of_numeric
    {count : Nat}
    {base : Base}
    {allowed : Nat -> Bool}
    (lead text : List Char)
    (isValid : (numeric lead.length count base allowed (lead ++ text)).valid = true) :
    ∃ digits behind, text = digits ++ behind
      ∧ digits.length = count
      ∧ (∀ digit ∈ digits, isDigitOf base digit = true)
      ∧ allowed (digitsValue base digits) = true := by
  simp only [numeric, List.drop_left, Bool.and_eq_true, decide_eq_true_eq] at isValid
  obtain ⟨isLength, isAllowed⟩ := isValid
  obtain ⟨behind, behindEq⟩ :=
    (List.takeWhile_prefix (isDigitOf base)).trans (List.take_prefix count text)
  exact ⟨_, behind, behindEq.symm, isLength, fun digit => List.mem_takeWhile_imp, isAllowed⟩

end

end EscapeSequence

section

variable {quote : Char} {text : List Char}

/-- Octal digits stand for no escape of their own and are no quote. -/
theorem ordinary_of_isDigitOf
    {digit : Char}
    (isQuote : IsQuote quote)
    (isDigit : isDigitOf .octal digit = true) :
    digit ∉ EscapeSequence.letters ∧ digit ≠ quote := by
  have noLetter : EscapeSequence.letters.any (isDigitOf .octal) = false := by decide
  refine ⟨fun isLetter => ?_, ?_⟩
  · exact absurd isDigit (List.any_eq_false.1 noLetter digit isLetter)
  · rintro rfl
    rw [isQuote.isDigitOf] at isDigit
    cases isDigit

/-- An escape of the grammar is read as a whole. -/
theorem EscapeLit.read
    (isQuote : IsQuote quote)
    (isEscape : EscapeLit quote text)
    (behind : List Char) :
    EscapeSequence.read quote (text ++ behind) = ⟨text.length, true⟩ := by
  have announced : ∀ letter ∈ ['x', 'u', 'U'],
      letter ∉ EscapeSequence.letters ∧ letter ≠ quote ∧ isDigitOf .octal letter = false := by
    rcases isQuote with rfl | rfl <;>
      simp [EscapeSequence.letters, isDigitOf, digitValue?, hexValue?, Base.radix]
  cases isEscape with
  | letter isLetter =>
      have isLetter : _ ∈ EscapeSequence.letters := isLetter
      simp [EscapeSequence.read, isLetter]
  | quote => simp [EscapeSequence.read]
  | octal isLength areDigits isSmall =>
      obtain ⟨first, rest, rfl⟩ := List.exists_cons_of_length_eq_add_one isLength
      have isDigit := areDigits first List.mem_cons_self
      have ordinary := ordinary_of_isDigitOf isQuote isDigit
      have numeric := EscapeSequence.numeric_of_digits (fun value => value ≤ 255) [] behind
        areDigits (by simpa using isSmall)
      rw [isLength] at numeric
      simpa [EscapeSequence.read, ordinary, isDigit] using numeric
  | @byte digits isLength areDigits =>
      have ordinary := announced 'x' (by simp)
      have numeric := EscapeSequence.numeric_of_digits (fun _ => true) ['x'] behind
        areDigits rfl
      rw [isLength] at numeric
      simpa [EscapeSequence.read, ordinary] using numeric
  | @short digits isLength areDigits isScalar =>
      have ordinary := announced 'u' (by simp)
      have numeric := EscapeSequence.numeric_of_digits EscapeSequence.isScalar ['u']
        behind areDigits ((EscapeSequence.isScalar_iff _).2 isScalar)
      rw [isLength] at numeric
      simpa [EscapeSequence.read, ordinary] using numeric
  | @long digits isLength areDigits isScalar =>
      have ordinary := announced 'U' (by simp)
      have numeric := EscapeSequence.numeric_of_digits EscapeSequence.isScalar ['U']
        behind areDigits ((EscapeSequence.isScalar_iff _).2 isScalar)
      rw [isLength] at numeric
      simpa [EscapeSequence.read, ordinary] using numeric

/-- What is read as a valid escape begins with an escape of the grammar. -/
theorem exists_escape_of_valid
    (isValid : (EscapeSequence.read quote text).valid = true) :
    ∃ escape behind, text = escape ++ behind ∧ EscapeLit quote escape := by
  cases text with
  | nil => cases isValid
  | cons first rest =>
      rw [EscapeSequence.read] at isValid
      split_ifs at isValid with isLetter isOctal isX isU isLong
      · rw [Bool.or_eq_true, List.contains_iff_mem, decide_eq_true_eq] at isLetter
        refine ⟨[first], rest, rfl, ?_⟩
        rcases isLetter with isLetter | rfl
        · exact .letter isLetter
        · exact .quote
      · obtain ⟨digits, behind, textEq, isLength, areDigits, isSmall⟩ :=
          EscapeSequence.exists_digits_of_numeric [] (first :: rest) isValid
        exact ⟨digits, behind, textEq, .octal isLength areDigits (by simpa using isSmall)⟩
      · obtain ⟨digits, behind, rfl, isLength, areDigits, -⟩ :=
          EscapeSequence.exists_digits_of_numeric [first] rest isValid
        exact ⟨first :: digits, behind, rfl, isX ▸ .byte isLength areDigits⟩
      · obtain ⟨digits, behind, rfl, isLength, areDigits, isScalar⟩ :=
          EscapeSequence.exists_digits_of_numeric [first] rest isValid
        exact ⟨first :: digits, behind, rfl,
          isU ▸ .short isLength areDigits ((EscapeSequence.isScalar_iff _).1 isScalar)⟩
      · obtain ⟨digits, behind, rfl, isLength, areDigits, isScalar⟩ :=
          EscapeSequence.exists_digits_of_numeric [first] rest isValid
        exact ⟨first :: digits, behind, rfl,
          isLong ▸ .long isLength areDigits ((EscapeSequence.isScalar_iff _).1 isScalar)⟩

/-! ## Literals -/

/-- The characters of an escape that has been counted are passed over. -/
theorem Quoted.read_escaped
    (escaped behind : List Char) :
    Quoted.read quote escaped.length (escaped ++ behind)
      = { Quoted.read quote 0 behind with text := escaped ++ (Quoted.read quote 0 behind).text } := by
  induction escaped with
  | nil => rfl
  | cons first rest inductionHypothesis =>
      simp [Quoted.read, inductionHypothesis, Quoted.behind]

/-- A unit of the grammar is counted as one, and the rest is read behind it. -/
theorem QuotedUnit.read
    (isQuote : IsQuote quote)
    (isUnit : QuotedUnit quote text)
    (behind : List Char) :
    Quoted.read quote 0 (text ++ behind)
      = { Quoted.read quote 0 behind with
          text := text ++ (Quoted.read quote 0 behind).text
          units := (Quoted.read quote 0 behind).units + 1 } := by
  cases isUnit with
  | plain isPlain =>
      simp only [List.mem_cons, List.not_mem_nil, or_false, not_or] at isPlain
      simp [Quoted.read, isPlain, Quoted.behindUnit]
  | escape isEscape =>
      have ordinary : '\\' ≠ quote := by
        rcases isQuote with rfl | rfl <;> decide
      simp [Quoted.read, ordinary, isEscape.read isQuote, Quoted.read_escaped, Quoted.behindUnit]

/-- What the grammar allows between quotes is read up to the closing quote. -/
theorem QuotedUnits.read
    {count : Nat}
    (isQuote : IsQuote quote)
    (units : QuotedUnits quote count text)
    (behind : List Char) :
    Quoted.read quote 0 (text ++ quote :: behind) = ⟨text ++ [quote], count, true, true⟩ := by
  induction units with
  | none => simp [Quoted.read]
  | next isUnit _ inductionHypothesis =>
      rw [List.append_assoc, isUnit.read isQuote, inductionHypothesis]
      simp

/-- What is read without a fault up to a closing quote is what the grammar allows. -/
theorem exists_units_of_read
    (isQuote : IsQuote quote)
    (closed : (Quoted.read quote 0 text).closed = true)
    (isValid : (Quoted.read quote 0 text).escapesValid = true) :
    ∃ body, (Quoted.read quote 0 text).text = body ++ [quote]
      ∧ QuotedUnits quote (Quoted.read quote 0 text).units body := by
  induction lengthEq : text.length using Nat.strong_induction_on generalizing text with
  | _ length inductionHypothesis =>
      have behindUnit
          {unit behind : List Char}
          (isUnit : QuotedUnit quote unit)
          (some : unit ≠ [])
          (textEq : text = unit ++ behind) :
          ∃ body, (Quoted.read quote 0 text).text = body ++ [quote]
            ∧ QuotedUnits quote (Quoted.read quote 0 text).units body := by
        have isShorter : behind.length < length := by
          have positive := List.length_pos_iff.2 some
          rw [← lengthEq, textEq, List.length_append]
          omega
        rw [textEq, isUnit.read isQuote] at closed isValid ⊢
        obtain ⟨body, bodyEq, units⟩ := inductionHypothesis _ isShorter closed isValid rfl
        refine ⟨unit ++ body, ?_, .next isUnit units⟩
        simp only [bodyEq, List.append_assoc]
      cases text with
      | nil => cases closed
      | cons first rest =>
          by_cases isClosing : first = quote
          · simpa [Quoted.read, isClosing] using QuotedUnits.none
          · by_cases isEscape : first = '\\'
            · have escapeValid : (EscapeSequence.read quote rest).valid = true := by
                rw [Quoted.read, if_neg isClosing, if_neg (by simp [isEscape]), if_pos isEscape]
                  at isValid
                exact (Bool.and_eq_true_iff.1 isValid).1
              obtain ⟨escape, behind, rfl, isEscapeLit⟩ := exists_escape_of_valid escapeValid
              subst isEscape
              exact behindUnit (.escape isEscapeLit) (List.cons_ne_nil _ _) rfl
            · have notBreak : first ≠ '\n' := by
                rintro rfl
                rw [Quoted.read, if_neg isClosing, if_pos rfl] at closed
                cases closed
              have isPlain : QuotedUnit quote [first] :=
                .plain (by simp [notBreak, isEscape, isClosing])
              exact behindUnit isPlain (List.cons_ne_nil _ _) rfl

/-- What is read without a fault is what the grammar allows up to a closing quote. -/
theorem exists_units_of_fault?
    (isQuote : IsQuote quote)
    (faultless : (Quoted.read quote 0 text).fault? = none) :
    ∃ body, (Quoted.read quote 0 text).text = body ++ [quote]
      ∧ QuotedUnits quote (Quoted.read quote 0 text).units body := by
  have closed := Quoted.closed_of_fault? faultless
  exact exists_units_of_read isQuote closed (by simpa [Quoted.fault?, closed] using faultless)

/-- A rune has no fault if it is a literal without one and has one unit. -/
theorem Quoted.runeFault?_eq_none_iff (literal : Quoted) :
    literal.runeFault? = none ↔ literal.fault? = none ∧ literal.units = 1 := by
  cases faultEq : literal.fault? <;> simp [Quoted.runeFault?, faultEq]

end

/-! ## Pieces -/

namespace Piece

section

variable {rest : List Char}

theorem rawString_eq_token_iff (token : Token) :
    rawString rest = ⟨.token token, '\x60' :: rest⟩ ↔ QuotedLit token ('\x60' :: rest) := by
  constructor
  · intro isToken
    simp only [rawString] at isToken
    split_ifs at isToken with closed
    · obtain ⟨rfl, textEq⟩ : token = .rawStringLit
          ∧ '\x60' :: rest.takeWhile (· ≠ '\x60') ++ ['\x60'] = '\x60' :: rest := by
        simpa [eq_comm] using isToken
      rw [← textEq]
      refine .raw fun member => ?_
      simpa using List.mem_takeWhile_imp member
    · simp at isToken
  · intro isLiteral
    generalize textEq : '\x60' :: rest = text at isLiteral
    cases isLiteral with
    | @raw body noQuote =>
        obtain rfl : rest = body ++ ['\x60'] := (List.cons.inj textEq).2
        have plain : ∀ character ∈ body, decide (character ≠ '\x60') = true :=
          fun character member => decide_eq_true (ne_of_mem_of_not_mem member noQuote)
        have bodyEq : (body ++ ['\x60']).takeWhile (· ≠ '\x60') = body := by
          rw [List.takeWhile_append_of_pos plain]
          simp
        simp only [rawString, bodyEq]
        rw [if_pos (by simp)]
    | interpreted | rune => cases textEq

/-- A literal takes in a text without a fault if the text is what the grammar allows up to a closing
quote. -/
theorem read_eq_text_iff
    {quote : Char}
    (isQuote : IsQuote quote) :
    (Quoted.read quote 0 rest).text = rest ∧ (Quoted.read quote 0 rest).fault? = none
      ↔ ∃ body, rest = body ++ [quote]
        ∧ QuotedUnits quote (Quoted.read quote 0 rest).units body := by
  constructor
  · rintro ⟨textEq, faultless⟩
    obtain ⟨body, bodyEq, units⟩ := exists_units_of_fault? isQuote faultless
    exact ⟨body, textEq.symm.trans bodyEq, units⟩
  · rintro ⟨body, rfl, units⟩
    rw [units.read isQuote]
    exact ⟨rfl, rfl⟩

theorem interpretedString_eq_token_iff (token : Token) :
    interpretedString rest = ⟨.token token, '"' :: rest⟩ ↔ QuotedLit token ('"' :: rest) := by
  rw [interpretedString, ofFault?_eq_token_iff, List.cons_inj_right, read_eq_text_iff (.inl rfl)]
  constructor
  · rintro ⟨rfl, body, restEq, units⟩
    rw [restEq]
    exact .interpreted units
  · intro isLiteral
    generalize textEq : '"' :: rest = text at isLiteral
    cases isLiteral with
    | @interpreted count body units =>
        obtain rfl : rest = body ++ ['"'] := (List.cons.inj textEq).2
        rw [units.read (.inl rfl)]
        exact ⟨rfl, body, rfl, units⟩
    | raw | rune => cases textEq

theorem rune_eq_token_iff (token : Token) :
    rune rest = ⟨.token token, '\'' :: rest⟩ ↔ QuotedLit token ('\'' :: rest) := by
  rw [rune, ofFault?_eq_token_iff, List.cons_inj_right, Quoted.runeFault?_eq_none_iff,
    ← and_assoc (b := _ = none), read_eq_text_iff (.inr rfl)]
  constructor
  · rintro ⟨rfl, ⟨body, restEq, units⟩, single⟩
    rw [restEq]
    exact .rune (single ▸ units)
  · intro isLiteral
    generalize textEq : '\'' :: rest = text at isLiteral
    cases isLiteral with
    | @rune body unit =>
        obtain rfl : rest = body ++ ['\''] := (List.cons.inj textEq).2
        rw [unit.read (.inr rfl)]
        exact ⟨rfl, ⟨body, rfl, unit⟩, rfl⟩
    | raw | interpreted => cases textEq

/-- The quotes that open literals. -/
def quotes : List Char := ['"', '\'', '\x60']

/-- A text that begins with a quote is one piece without a fault exactly if it is a literal. -/
theorem cut_eq_token_iff
    {first : Char}
    (opens : first ∈ quotes)
    (token : Token) :
    cut first rest = ⟨.token token, first :: rest⟩ ↔ QuotedLit token (first :: rest) := by
  simp only [quotes, List.mem_cons, List.not_mem_nil, or_false] at opens
  rcases opens with rfl | rfl | rfl
  · exact interpretedString_eq_token_iff token
  · exact rune_eq_token_iff token
  · exact rawString_eq_token_iff token

end

end Piece

/-! ## Texts -/

theorem Piece.kind_of_quote
    {first : Char}
    (opens : first ∈ Piece.quotes)
    (rest : List Char) :
    (∃ token, (Piece.cut first rest).kind = .token token
        ∧ token ∈ [Token.stringLit, .runeLit, .rawStringLit])
      ∨ (Piece.cut first rest).IsFault := by
  have ofFault?_kind (token : Token) (text : List Char) (fault : Option LexCause) :
      (Piece.ofFault? token text fault).kind = .token token
        ∨ (Piece.ofFault? token text fault).IsFault := by
    cases fault with
    | none => exact .inl rfl
    | some cause => exact .inr ⟨cause, rfl⟩
  simp only [Piece.quotes, List.mem_cons, List.not_mem_nil, or_false] at opens
  rcases opens with rfl | rfl | rfl
  · exact (ofFault?_kind .stringLit _ _).imp_left fun kindEq => ⟨_, kindEq, by simp⟩
  · exact (ofFault?_kind .runeLit _ _).imp_left fun kindEq => ⟨_, kindEq, by simp⟩
  · change (∃ token, (Piece.rawString rest).kind = .token token ∧ _) ∨ (Piece.rawString rest).IsFault
    simp only [Piece.rawString]
    split_ifs
    · exact .inl ⟨.rawStringLit, rfl, by simp⟩
    · exact .inr ⟨.unterminatedString, rfl⟩

theorem Piece.events_of_quote
    {token : Token}
    (isQuoted : token ∈ [Token.stringLit, .runeLit, .rawStringLit])
    (place : Place)
    (due : Bool)
    (text : List Char) :
    (⟨.token token, text⟩ : Piece).events place due
      = ([.lexeme ⟨token, place, some (String.ofList text)⟩], true) := by
  simp only [List.mem_cons, List.not_mem_nil, or_false] at isQuoted
  rcases isQuoted with rfl | rfl | rfl <;> rfl

/-- A text that begins with a quote is lexed to one literal, without errors, exactly if it is a literal
of the grammar. -/
theorem lex_literal_iff
    {source : String}
    {first : Char}
    {rest : List Char}
    (filename : Option String)
    (token : Token)
    (opens : first ∈ Piece.quotes)
    (sourceEq : source.toList = first :: rest) :
    (lex source filename).errors = []
        ∧ (lex source filename).stream
          = [⟨token, Place.start.position filename, some source⟩,
              ⟨.semi, (lex source filename).stop, none⟩,
              ⟨.eof, (lex source filename).stop, none⟩]
      ↔ QuotedLit token source.toList := by
  obtain ⟨tail, textEq, behind, restEq⟩ := Piece.exists_cut_text first rest
  have allEq := Piece.all_cons first rest tail behind textEq restEq.symm
  rw [← sourceEq] at allEq
  rw [sourceEq, ← Piece.cut_eq_token_iff opens, ← sourceEq]
  constructor
  · rintro ⟨noErrors, streamEq⟩
    have faultless := faultless_of_lex source filename noErrors
    rw [allEq] at faultless
    obtain ⟨written, kindEq, isQuoted⟩ := (Piece.kind_of_quote opens rest).resolve_right
      fun ⟨cause, isFault⟩ => faultless.1 cause isFault
    have cutEq : Piece.cut first rest = ⟨.token written, (Piece.cut first rest).text⟩ := by
      rw [← kindEq]
    have headEq : (lex source filename).stream.head?
        = some ⟨written, Place.start.position filename,
            some (String.ofList (Piece.cut first rest).text)⟩ := by
      simp only [Lexed.stream, lex, streamOf, allEq, Piece.stream]
      rw [cutEq, Piece.events_of_quote isQuoted]
      rfl
    rw [streamEq] at headEq
    obtain ⟨rfl, -, literalEq⟩ := Lexeme.mk.inj (Option.some.inj headEq)
    rw [cutEq, Option.some.inj literalEq, String.toList_ofList]
  · intro isToken
    have isQuoted : token ∈ [Token.stringLit, .runeLit, .rawStringLit] := by
      rcases Piece.kind_of_quote opens rest with ⟨written, kindEq, isQuoted⟩ | ⟨cause, isFault⟩
      · rw [isToken] at kindEq
        exact PieceKind.token.inj kindEq ▸ isQuoted
      · rw [isToken] at isFault
        cases isFault
    have allEq : Piece.all source.toList = [⟨.token token, source.toList⟩] := by
      have whole : (Piece.cut first rest).text = first :: rest := by
        rw [isToken, sourceEq]
      have alone := Piece.all_cons first rest rest [] whole (List.append_nil rest).symm
      rwa [isToken, ← sourceEq] at alone
    have streamEq : streamOf source.toList
        = [.lexeme ⟨token, .start, some source⟩,
            .semicolon (Place.start.after source.toList)] := by
      rw [streamOf, allEq, Piece.stream, Piece.events_of_quote isQuoted, String.ofList_toList]
      rfl
    simp only [Lexed.stream, lex, streamEq]
    exact ⟨rfl, rfl⟩

/-! ## Comments -/

/-- A comment body that ends at the first closing mark of a text. -/
structure ClosesFirst (text body behind : List Char) : Prop where
  textEq : text = body ++ '*' :: '/' :: behind
  isFirst : ¬['*', '/'] <:+: body ++ ['*']

namespace Piece

theorem commentBody?_eq_some
    {text body behind : List Char}
    (closes : ClosesFirst text body behind) :
    commentBody? text = some (body ++ ['*', '/']) := by
  obtain ⟨rfl, isFirst⟩ := closes
  induction body with
  | nil => rfl
  | cons first body inductionHypothesis =>
      have notClosing : ¬(first = '*' ∧ (body ++ '*' :: '/' :: behind).head? = some '/') := by
        rintro ⟨rfl, isSlash⟩
        cases body with
        | nil => simp at isSlash
        | cons second body =>
            obtain rfl : second = '/' := by simpa using isSlash
            exact isFirst ⟨[], body ++ ['*'], by simp⟩
      have later : ¬['*', '/'] <:+: body ++ ['*'] := fun isInside =>
        isFirst (isInside.trans (List.suffix_cons first _).isInfix)
      rw [List.cons_append, commentBody?_cons, if_neg notClosing, inductionHypothesis later]
      rfl

theorem commentBody?_eq_none_iff (text : List Char) :
    commentBody? text = none ↔ ¬['*', '/'] <:+: text := by
  induction text with
  | nil => simp [commentBody?]
  | cons first rest inductionHypothesis =>
      have closing_iff : ['*', '/'] <+: first :: rest ↔ first = '*' ∧ rest.head? = some '/' := by
        rw [List.cons_prefix_cons, eq_comm, List.head?_eq_some_iff]
        exact and_congr_right fun _ => exists_congr fun behind => eq_comm
      rw [commentBody?_cons, List.infix_cons_iff, closing_iff]
      split_ifs with isClosing
      · simp [isClosing]
      · simp [isClosing, inductionHypothesis]

/-- What follows some pieces of a text is cut by itself. -/
theorem all_of_append
    {text : List Char}
    {front back : List Piece}
    (allEq : all text = front ++ back) :
    back = all (back.flatMap Piece.text) := by
  induction front generalizing text with
  | nil =>
      rw [List.nil_append] at allEq
      rw [← allEq, flatMap_text_all]
  | cons piece front inductionHypothesis =>
      cases text with
      | nil => cases allEq
      | cons first rest =>
          obtain ⟨tail, textEq, behind, restEq⟩ := exists_cut_text first rest
          rw [all_cons first rest tail behind textEq restEq.symm] at allEq
          exact inductionHypothesis (List.cons.inj allEq).2

/-- The stream of the last pieces is the end of the stream of all of them. -/
theorem exists_stream_append
    (place : Place)
    (due : Bool)
    (front back : List Piece) :
    ∃ events behind, stream place due (front ++ back)
      = events ++ stream (place.after (front.flatMap Piece.text)) behind back := by
  induction front generalizing place due with
  | nil => exact ⟨[], due, rfl⟩
  | cons piece front inductionHypothesis =>
      obtain ⟨events, behind, streamEq⟩ :=
        inductionHypothesis (place.after piece.text) (piece.events place due).2
      refine ⟨(piece.events place due).1 ++ events, behind, ?_⟩
      simp only [List.cons_append, stream, streamEq, List.flatMap_cons, Place.after_append,
        List.append_assoc]

/-- A token is among what its piece adds to the stream. -/
theorem mem_events_of_token
    (place : Place)
    (due : Bool)
    (token : Token)
    (text : List Char) :
    .lexeme (lexeme place token text) ∈ ((⟨.token token, text⟩ : Piece).events place due).1 := by
  simp only [events]
  split_ifs <;> simp

/-- A comment takes in its first closing mark, and what stands behind it is cut by itself. -/
theorem all_closedComment
    {text body behind : List Char}
    (closes : ClosesFirst text body behind) :
    all ('/' :: '*' :: text)
      = ⟨.token .blockComment, '/' :: '*' :: (body ++ ['*', '/'])⟩ :: all behind := by
  have cutEq : cut '/' ('*' :: text)
      = ⟨.token .blockComment, '/' :: '*' :: (body ++ ['*', '/'])⟩ := by
    change blockComment text = _
    rw [blockComment, commentBody?_eq_some closes]
  have restEq : '*' :: text = '*' :: (body ++ ['*', '/']) ++ behind := by
    simp [closes.textEq]
  rw [all_cons '/' _ _ _ (by rw [cutEq]) restEq, cutEq]

/-- A comment that is never closed takes in all of the text. -/
theorem all_unclosedComment
    {text : List Char}
    (neverCloses : ¬['*', '/'] <:+: text) :
    all ('/' :: '*' :: text) = [⟨.fault .unclosedComment, '/' :: '*' :: text⟩] := by
  have cutEq : cut '/' ('*' :: text) = ⟨.fault .unclosedComment, '/' :: '*' :: text⟩ := by
    change blockComment text = _
    rw [blockComment, (commentBody?_eq_none_iff text).2 neverCloses]
  rw [all_cons '/' _ _ [] (by rw [cutEq]) (List.append_nil _).symm, cutEq, all_nil]

end Piece

theorem exists_closesFirst
    {text : List Char}
    (closes : ['*', '/'] <:+: text) :
    ∃ body behind, ClosesFirst text body behind := by
  induction text with
  | nil => simp at closes
  | cons first rest inductionHypothesis =>
      by_cases isClosing : ['*', '/'] <+: first :: rest
      · obtain ⟨behind, textEq⟩ := isClosing
        exact ⟨[], behind, textEq.symm, by decide⟩
      · obtain ⟨body, behind, rfl, isFirst⟩ :=
          inductionHypothesis ((List.infix_cons_iff.1 closes).resolve_left isClosing)
        refine ⟨first :: body, behind, rfl, fun isInside => ?_⟩
        rcases List.infix_cons_iff.1 isInside with atStart | later
        · refine isClosing (atStart.trans ?_)
          exact List.cons_prefix_cons.2 ⟨rfl, by simp⟩
        · exact isFirst later

/-- What a comment at a token start adds to the lexemes and errors of a text. -/
theorem lex_comment
    {source : String}
    {front back : List Piece}
    {text : List Char}
    (filename : Option String)
    (allEq : Piece.all source.toList = front ++ back)
    (opens : back.flatMap Piece.text = '/' :: '*' :: text) :
    (∀ body behind, ClosesFirst text body behind ->
        back = ⟨.token .blockComment, '/' :: '*' :: (body ++ ['*', '/'])⟩ :: Piece.all behind
          ∧ ⟨.blockComment, (Place.start.after (front.flatMap Piece.text)).position filename,
              some (String.ofList ('/' :: '*' :: (body ++ ['*', '/'])))⟩
            ∈ (lex source filename).lexemes)
      ∧ (¬['*', '/'] <:+: text ->
        back = [⟨.fault .unclosedComment, '/' :: '*' :: text⟩]
          ∧ ⟨.unclosedComment, (lex source filename).stop⟩ ∈ (lex source filename).errors) := by
  have backEq := Piece.all_of_append allEq
  rw [opens] at backEq
  obtain ⟨events, due, streamEq⟩ := Piece.exists_stream_append .start false front back
  have inStream {event : Event Place}
      (member : event ∈ Piece.stream (Place.start.after (front.flatMap Piece.text)) due back) :
      event.map (Place.position filename)
        ∈ (streamOf source.toList).map (Event.map (Place.position filename)) := by
    rw [streamOf, allEq, streamEq]
    exact List.mem_map_of_mem (List.mem_append_right events member)
  constructor
  · intro body behind closes
    rw [Piece.all_closedComment closes] at backEq
    have isLexeme : Event.lexeme ⟨.blockComment, Place.start.after (front.flatMap Piece.text),
        some (String.ofList ('/' :: '*' :: (body ++ ['*', '/'])))⟩
        ∈ Piece.stream (Place.start.after (front.flatMap Piece.text)) due back := by
      rw [backEq]
      exact List.mem_append_left _ (Piece.mem_events_of_token _ due .blockComment _)
    exact ⟨backEq, List.mem_filterMap.2 ⟨_, inStream isLexeme, rfl⟩⟩
  · intro neverCloses
    rw [Piece.all_unclosedComment neverCloses] at backEq
    have stopEq : Place.start.after source.toList
        = (Place.start.after (front.flatMap Piece.text)).after ('/' :: '*' :: text) := by
      rw [← opens, ← Place.after_append, ← List.flatMap_append, ← allEq, Piece.flatMap_text_all]
    have isError : Event.error ⟨.unclosedComment, Place.start.after source.toList⟩
        ∈ Piece.stream (Place.start.after (front.flatMap Piece.text)) due back := by
      rw [backEq, stopEq]
      exact List.mem_cons_self
    exact ⟨backEq, List.mem_filterMap.2 ⟨_, inStream isError, rfl⟩⟩

/-- Literals in quotes and comments are told exactly. A text that begins with a quote is lexed without
errors to one lexeme, and the semicolon behind it, exactly if it is a literal of the grammar. A comment
that opens where a token starts ends at the first closing mark behind its opening, and it is an error at
the end of the text exactly if there is none. -/
theorem quotedLiterals_and_comments_exact
    (source : String)
    (filename : Option String) :
    (∀ first rest token, first ∈ Piece.quotes -> source.toList = first :: rest ->
        ((lex source filename).errors = []
            ∧ (lex source filename).stream
              = [⟨token, Place.start.position filename, some source⟩,
                  ⟨.semi, (lex source filename).stop, none⟩,
                  ⟨.eof, (lex source filename).stop, none⟩]
          ↔ QuotedLit token source.toList))
      ∧ ∀ front back text, Piece.all source.toList = front ++ back ->
        back.flatMap Piece.text = '/' :: '*' :: text ->
          (∀ body behind, ClosesFirst text body behind ->
              back = ⟨.token .blockComment, '/' :: '*' :: (body ++ ['*', '/'])⟩ :: Piece.all behind
                ∧ ⟨.blockComment, (Place.start.after (front.flatMap Piece.text)).position filename,
                    some (String.ofList ('/' :: '*' :: (body ++ ['*', '/'])))⟩
                  ∈ (lex source filename).lexemes)
            ∧ ((∃ piece, back.head? = some piece ∧ piece.kind = .fault .unclosedComment)
              ↔ ¬['*', '/'] <:+: text)
            ∧ (¬['*', '/'] <:+: text ->
              back = [⟨.fault .unclosedComment, '/' :: '*' :: text⟩]
                ∧ ⟨.unclosedComment, (lex source filename).stop⟩
                  ∈ (lex source filename).errors) := by
  refine ⟨fun first rest token opens sourceEq => lex_literal_iff filename token opens sourceEq,
    fun front back text allEq opens => ?_⟩
  obtain ⟨closed, unclosed⟩ := lex_comment filename allEq opens
  refine ⟨closed, ⟨?_, fun neverCloses => ?_⟩, unclosed⟩
  · rintro ⟨piece, isFirst, isFault⟩ closes
    obtain ⟨body, behind, closesFirst⟩ := exists_closesFirst closes
    rw [(closed body behind closesFirst).1] at isFirst
    obtain rfl := Option.some.inj isFirst
    cases isFault
  · rw [(unclosed neverCloses).1]
    exact ⟨_, rfl, rfl⟩

/-- A string with an escape, and a comment whose opening is no closing mark. -/
theorem quotedLiterals_and_comments_exact_string :
    ((lex "\"a\\u00e9\"" none).errors = []
        ∧ (lex "\"a\\u00e9\"" none).stream
          = [⟨.stringLit, Place.start.position none, some "\"a\\u00e9\""⟩,
              ⟨.semi, (lex "\"a\\u00e9\"" none).stop, none⟩,
              ⟨.eof, (lex "\"a\\u00e9\"" none).stop, none⟩])
      ∧ QuotedLit .stringLit "\"a\\u00e9\"".toList
      ∧ ⟨.unclosedComment, (lex "x/*/" none).stop⟩ ∈ (lex "x/*/" none).errors := by
  have isLexed : (lex "\"a\\u00e9\"" none).errors = []
      ∧ (lex "\"a\\u00e9\"" none).stream
        = [⟨.stringLit, Place.start.position none, some "\"a\\u00e9\""⟩,
            ⟨.semi, (lex "\"a\\u00e9\"" none).stop, none⟩,
            ⟨.eof, (lex "\"a\\u00e9\"" none).stop, none⟩] := by
    decide
  have literal := (quotedLiterals_and_comments_exact "\"a\\u00e9\"" none).1 '"' "a\\u00e9\"".toList
    .stringLit (by decide) (by decide)
  have comment := (quotedLiterals_and_comments_exact "x/*/" none).2 [⟨.token .ident, ['x']⟩]
    [⟨.fault .unclosedComment, "/*/".toList⟩] ['/'] (by decide) (by decide)
  exact ⟨isLexed, literal.1 isLexed, (comment.2.2 (by decide)).2⟩

end GoFront
