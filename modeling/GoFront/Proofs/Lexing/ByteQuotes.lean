import GoFront.Proofs.Lexing.ByteTexts
import GoFront.Proofs.Lexing.QuotedLiterals

/-!
# Quoted literals in bytes

A literal between quotes is read byte by byte as it is read character by character. A malformed escape may
be left in the middle of a character: the bytes that are left of it are passed over without being counted,
so that reading stops between characters.
-/

namespace GoFront
namespace Bytes

open Text

/-! ## Escapes -/

theorem digitValue?_lt
    {base : Base}
    {character : Char}
    {digit : Nat}
    (isDigit : digitValue? base character = some digit) :
    digit < base.radix := by
  have := (Option.filter_eq_some_iff.1 isDigit).2
  simpa using this

/-- A value that leaves room for more digits has room for the first of them. -/
theorem digit_fits
    {base : Base}
    {value digit left : Nat}
    (fits : (value + 1) * base.radix ^ (left + 1) ≤ UInt32.size)
    (small : digit < base.radix) :
    (value * base.radix + digit + 1) * base.radix ^ left ≤ UInt32.size
      ∧ value * base.radix + digit < UInt32.size := by
  have positive : 0 < base.radix ^ left := Nat.pow_pos (by omega)
  have next : value * base.radix + digit + 1 ≤ (value + 1) * base.radix := by
    rw [Nat.succ_mul]
    omega
  have room : (value * base.radix + digit + 1) * base.radix ^ left ≤ UInt32.size :=
    calc (value * base.radix + digit + 1) * base.radix ^ left
      _ ≤ (value + 1) * base.radix * base.radix ^ left := Nat.mul_le_mul_right _ next
      _ = (value + 1) * base.radix ^ (left + 1) := by rw [Nat.mul_assoc, Nat.pow_succ']
      _ ≤ UInt32.size := fits
  exact ⟨room, Nat.le_trans (Nat.le_mul_of_pos_right _ positive) room⟩

/-- Digits are read into a value that stays within 32 bits if the value in front of them leaves room. -/
theorem escapeDigits_eq
    {rest : List UInt8}
    {base : Base}
    {start left done value : Nat}
    {behind : List Char}
    (stands : Stands rest (start + done) behind)
    (fits : (value + 1) * base.radix ^ left ≤ UInt32.size) :
    escapeDigits rest base start left done value
      = .ok (if ((behind.take left).takeWhile (isDigitOf base)).length = left then
          .ok (((behind.take left).takeWhile (isDigitOf base)).foldl
            (fun value digit => value * base.radix + (digitValue? base digit).getD 0) value)
        else .error (start + done + ((behind.take left).takeWhile (isDigitOf base)).length)) := by
  induction left generalizing done value behind with
  | zero => rfl
  | succ left inductionHypothesis =>
      rw [escapeDigits, stands.getElem?_eq]
      cases behind with
      | nil => rfl
      | cons character behind =>
          rw [List.head?_cons, Option.map_some, Option.bind_some, digitValue?_toChar_lead,
            List.take_succ_cons]
          cases worth : digitValue? base character with
          | none =>
              have notDigit : isDigitOf base character = false := by rw [isDigitOf, worth]; rfl
              simp [notDigit]
          | some digit =>
              have isDigit : isDigitOf base character = true := by rw [isDigitOf, worth]; rfl
              obtain ⟨room, below⟩ := digit_fits fits (digitValue?_lt worth)
              have productFits : within32 (value * base.radix) = .ok (value * base.radix) :=
                if_pos (Nat.lt_of_le_of_lt (Nat.le_add_right _ digit) below)
              have sumFits : within32 (value * base.radix + digit)
                  = .ok (value * base.radix + digit) := if_pos below
              have behindStands : Stands rest (start + (done + 1)) behind := by
                have := Stands.after [character] stands
                rwa [byteCount_of_ascii (by simpa using isAscii_of_digitValue? worth)] at this
              simp only [productFits, sumFits, Checked.ok_bind]
              rw [inductionHypothesis behindStands room, List.takeWhile_cons_of_pos isDigit,
                List.length_cons, List.foldl_cons, worth, Option.getD_some]
              simp only [Nat.add_right_cancel_iff, Nat.add_assoc, Nat.add_comm 1]

/-- What an escape takes in: as many characters as belong to it if it is valid, and otherwise as many as
are skipped. -/
def ofEscape (escape : EscapeSequence) : Except Nat Nat :=
  if escape.valid then .ok escape.width else .error escape.width

theorem numericEscape_eq
    {rest : List UInt8}
    {base : Base}
    {start count : Nat}
    {text : List Char}
    (stands : Stands rest start (text.drop start))
    (fits : base.radix ^ count ≤ UInt32.size)
    (allowed : Nat -> Bool) :
    numericEscape rest base start count allowed
      = .ok (ofEscape (EscapeSequence.numeric start count base allowed text)) := by
  have digits := @escapeDigits_eq rest base start count 0 0 _ stands (by simpa using fits)
  rw [numericEscape, digits, Checked.ok_bind, EscapeSequence.numeric, ofEscape]
  generalize ((text.drop start).take count).takeWhile (isDigitOf base) = found
  by_cases complete : found.length = count
  · simp only [complete, if_true, decide_true, Bool.true_and]
    rfl
  · simp [complete]

/-- Letters of escapes are told by their bytes. -/
theorem contains_lead (character : Char) :
    (EscapeSequence.letters.map ofChar).contains (lead character)
      = EscapeSequence.letters.contains character := by
  have each : EscapeSequence.letters.all (fun letter => letter.toNat < 128) = true := by
    decide
  have ascii (letter : Char) (isLetter : letter ∈ EscapeSequence.letters) : letter.toNat < 128 :=
    of_decide_eq_true (List.all_eq_true.1 each letter isLetter)
  rw [Bool.eq_iff_iff, List.contains_iff_mem, List.contains_iff_mem, List.mem_map]
  constructor
  · rintro ⟨letter, isLetter, same⟩
    rwa [(lead_eq_iff (ascii letter isLetter)).1 same.symm]
  · exact fun isLetter => ⟨character, isLetter, (lead_of_ascii (ascii character isLetter)).symm⟩

/-- Octal digits are told by their bytes. -/
theorem isOctal_lead (character : Char) :
    (decide (ofChar '0' ≤ lead character) && decide (lead character ≤ ofChar '7'))
      = isDigitOf .octal character := by
  have least : (ofChar '0').toNat = 48 := by decide
  have most : (ofChar '7').toNat = 55 := by decide
  simp only [UInt8.le_iff_toNat_le, least, most]
  by_cases small : character.toNat < 128
  · rw [lead_of_ascii small]
    exact ascii_cases small (by decide +kernel)
  · have high := le_lead (Nat.le_of_not_lt small)
    have notDigit : isDigitOf .octal character = false := by
      rw [isDigitOf, digitValue?, hexValue?_eq_none (Nat.le_of_not_lt small)]
      rfl
    have above : ¬ (lead character).toNat ≤ 55 := by omega
    rw [notDigit, decide_eq_false above, Bool.and_false]

/-- The escape behind a backslash is as long in bytes as in characters, unless it is no more than a single
character. -/
theorem escapeLength_eq
    {quote : Char}
    (isQuote : IsQuote quote)
    (text : List Char) :
    escapeLength (bytesOf text) (ofChar quote) = .ok (ofEscape (EscapeSequence.read quote text)) := by
  have quoteAscii : quote.toNat < 128 := by
    rcases isQuote with rfl | rfl <;> decide
  cases text with
  | nil => rfl
  | cons character rest =>
      have headEq : (bytesOf (character :: rest)).head? = some (lead character) := by
        obtain ⟨others, encoded, -⟩ := exists_bytesOf_cons character rest
        rw [encoded, List.head?_cons]
      have whole := stands_start (character :: rest)
      have behind (isAscii : character.toNat < 128) :
          Stands (bytesOf (character :: rest)) 1 ((character :: rest).drop 1) := by
        have := Stands.after [character] whole
        rwa [byteCount_of_ascii (by simpa using isAscii)] at this
      have isX : lead character = ofChar 'x' ↔ character = 'x' := lead_eq_iff (by decide)
      have isU : lead character = ofChar 'u' ↔ character = 'u' := lead_eq_iff (by decide)
      have isLong : lead character = ofChar 'U' ↔ character = 'U' := lead_eq_iff (by decide)
      have isBreak : lead character = ofChar '\n' ↔ character = '\n' := lead_eq_iff (by decide)
      simp only [escapeLength, headEq, EscapeSequence.read, contains_lead, lead_eq_iff quoteAscii,
        isX, isU, isLong, isBreak]
      rw [isOctal_lead]
      split_ifs with isLetter isOctal isX isU isLong isBreak
      · rfl
      · exact numericEscape_eq whole (by decide) _
      · exact numericEscape_eq (behind (isX ▸ by decide)) (by decide) _
      · exact numericEscape_eq (behind (isU ▸ by decide)) (by decide) _
      · exact numericEscape_eq (behind (isLong ▸ by decide)) (by decide) _
      · rfl
      · rfl

/-- An escape stays in its text, and is written in ASCII or is no more than a single character. -/
theorem numeric_width
    {start : Nat}
    {text : List Char}
    (inText : start ≤ text.length)
    (startAscii : ∀ character ∈ text.take start, character.toNat < 128)
    (count : Nat)
    (base : Base)
    (allowed : Nat -> Bool) :
    (EscapeSequence.numeric start count base allowed text).width ≤ text.length
      ∧ ∀ character ∈ text.take (EscapeSequence.numeric start count base allowed text).width,
        character.toNat < 128 := by
  generalize digitsEq : ((text.drop start).take count).takeWhile (isDigitOf base) = digits
  have isPrefix : digits <+: text.drop start := by
    rw [← digitsEq]
    exact (List.takeWhile_prefix _).trans (List.take_prefix _ _)
  have taken : text.take (start + digits.length) = text.take start ++ digits := by
    rw [List.take_add, ← List.prefix_iff_eq_take.1 isPrefix]
  have short := isPrefix.length_le
  rw [List.length_drop] at short
  rw [EscapeSequence.numeric, digitsEq, taken]
  refine ⟨show start + digits.length ≤ _ by omega, fun character member => ?_⟩
  obtain inStart | inDigits := List.mem_append.1 member
  · exact startAscii character inStart
  · rw [← digitsEq] at inDigits
    have isDigit : isDigitOf base character = true := List.mem_takeWhile_imp inDigits
    exact isAscii_of_isDigitOf isDigit

theorem escape_width
    (quote : Char)
    (text : List Char) :
    (EscapeSequence.read quote text).width ≤ text.length
      ∧ ((EscapeSequence.read quote text).width = 1
        ∨ ∀ character ∈ text.take (EscapeSequence.read quote text).width,
          character.toNat < 128) := by
  cases text with
  | nil => exact ⟨Nat.le_refl 0, .inr (by simp [EscapeSequence.read])⟩
  | cons first rest =>
      have announced (isAscii : first.toNat < 128) :
          ∀ character ∈ (first :: rest).take 1, character.toNat < 128 := by
        simpa using isAscii
      have long : 1 ≤ (first :: rest).length := Nat.le_add_left 1 _
      rw [EscapeSequence.read]
      split_ifs with isLetter isOctal isX isU isLong isBreak
      · exact ⟨long, .inl rfl⟩
      · exact (numeric_width (Nat.zero_le _) (by simp) _ _ _).imp_right .inr
      · exact (numeric_width long (announced (isX ▸ by decide)) _ _ _).imp_right .inr
      · exact (numeric_width long (announced (isU ▸ by decide)) _ _ _).imp_right .inr
      · exact (numeric_width long (announced (isLong ▸ by decide)) _ _ _).imp_right .inr
      · exact ⟨Nat.zero_le _, .inr (by simp)⟩
      · exact ⟨long, .inl rfl⟩

/-! ## Reading on -/

section

variable {ahead : List UInt8} {quote byte : UInt8} {offset units : Nat} {badEscape : Bool}

theorem quotedFrom_of_none (found : ahead[offset]? = none) :
    quotedFrom ahead quote offset units badEscape
      = .ok (offset, .error .unterminatedString) := by
  rw [quotedFrom]
  split
  · rfl
  · next other => simp [found] at other

theorem quotedFrom_of_some (found : ahead[offset]? = some byte) :
    quotedFrom ahead quote offset units badEscape
      = if byte = quote then
          .ok (offset + 1, if badEscape then .error .invalidEscape else .ok units)
        else if byte = ofChar '\n' then .ok (offset, .error .unterminatedString)
        else if byte = ofChar '\\' then do
          let rest ← tailFrom ahead (offset + 1)
          match ← escapeLength rest quote with
          | .ok length => quotedFrom ahead quote (offset + (1 + length)) (units + 1) badEscape
          | .error skipped => quotedFrom ahead quote (offset + (1 + skipped)) (units + 1) true
        else
          quotedFrom ahead quote (offset + 1) (if continues byte then units else units + 1)
            badEscape := by
  rw [quotedFrom]
  split
  · next other => simp [found] at other
  · next other same =>
      obtain rfl := Option.some.inj (found.symm.trans same)
      rfl

end

section

variable {ahead : List UInt8} {quote : Char} {offset units : Nat} {badEscape : Bool}

theorem toNat_lt_of_isQuote (isQuote : IsQuote quote) : quote.toNat < 128 := by
  rcases isQuote with rfl | rfl <;> decide

/-- A byte that continues a character is passed over without being counted. -/
theorem quotedFrom_of_continues
    {byte : UInt8}
    (isQuote : IsQuote quote)
    (found : ahead[offset]? = some byte)
    (continued : continues byte = true) :
    quotedFrom ahead (ofChar quote) offset units badEscape
      = quotedFrom ahead (ofChar quote) (offset + 1) units badEscape := by
  have other {ascii : Char} (isAscii : ascii.toNat < 128) : byte ≠ ofChar ascii := by
    rintro rfl
    have high := ((continues_iff _).1 continued).1
    rw [toNat_ofChar isAscii] at high
    omega
  rw [quotedFrom_of_some found, if_neg (other (toNat_lt_of_isQuote isQuote)),
    if_neg (other (by decide)), if_neg (other (by decide)), continued, if_pos rfl]

/-- From the middle of a character reading goes on behind it. -/
theorem quotedFrom_inside
    {character : Char}
    {behind : List Char}
    (isQuote : IsQuote quote)
    (stands : Stands ahead offset (character :: behind))
    {distance : Nat}
    (positive : 0 < distance)
    (inside : distance ≤ byteCount [character]) :
    quotedFrom ahead (ofChar quote) (offset + distance) units badEscape
      = quotedFrom ahead (ofChar quote) (offset + byteCount [character]) units badEscape := by
  obtain ⟨left, sizeEq⟩ := Nat.exists_eq_add_of_le inside
  induction left generalizing distance with
  | zero => rw [sizeEq, Nat.add_zero]
  | succ left inductionHypothesis =>
      obtain ⟨byte, found, continued⟩ := stands.exists_continues positive (by omega)
      rw [quotedFrom_of_continues isQuote found continued]
      exact inductionHypothesis (Nat.succ_pos distance) (by omega) (by omega)

/-- From what an escape takes in reading goes on between characters. -/
theorem quotedFrom_escaped
    {rest : List Char}
    (isQuote : IsQuote quote)
    (stands : Stands ahead offset rest) :
    quotedFrom ahead (ofChar quote) (offset + (EscapeSequence.read quote rest).width) units badEscape
      = quotedFrom ahead (ofChar quote)
        (offset + byteCount (rest.take (EscapeSequence.read quote rest).width)) units badEscape := by
  obtain ⟨short, single | isAscii⟩ := escape_width quote rest
  · rw [single] at short ⊢
    obtain ⟨character, behind, rfl⟩ := List.exists_cons_of_length_pos short
    exact quotedFrom_inside isQuote stands Nat.one_pos (byteCount_pos [character] (by simp))
  · rw [byteCount_of_ascii isAscii, List.length_take_of_le short]

/-- An escape is passed over as one unit. -/
theorem quotedFrom_of_backslash
    {rest : List Char}
    (isQuote : IsQuote quote)
    (stands : Stands ahead offset ('\\' :: rest)) :
    quotedFrom ahead (ofChar quote) offset units badEscape
      = quotedFrom ahead (ofChar quote)
        (offset + byteCount ('\\' :: rest.take (EscapeSequence.read quote rest).width)) (units + 1)
        (badEscape || !(EscapeSequence.read quote rest).valid) := by
  have here : ahead[offset]? = some (ofChar '\\') := stands.getElem?_eq
  have restStands : Stands ahead (offset + 1) rest := Stands.after ['\\'] stands
  have noQuote : ofChar '\\' ≠ ofChar quote := by
    rcases isQuote with rfl | rfl <;> decide
  have counted : offset + byteCount ('\\' :: rest.take (EscapeSequence.read quote rest).width)
      = offset + 1 + byteCount (rest.take (EscapeSequence.read quote rest).width) := by
    rw [Nat.add_assoc]
    rfl
  rw [quotedFrom_of_some here, if_neg noQuote, if_neg (by decide), if_pos rfl,
    restStands.tailFrom_eq, Checked.ok_bind, escapeLength_eq isQuote, Checked.ok_bind, counted,
    ← quotedFrom_escaped isQuote restStands, ofEscape, Nat.add_assoc]
  cases (EscapeSequence.read quote rest).valid
  · rw [Bool.not_false, Bool.or_true]
    rfl
  · rw [Bool.not_true, Bool.or_false]
    rfl

/-- Every other character is a unit of its own. -/
theorem quotedFrom_of_plain
    {character : Char}
    {rest : List Char}
    (isQuote : IsQuote quote)
    (stands : Stands ahead offset (character :: rest))
    (noQuote : character ≠ quote)
    (noBreak : character ≠ '\n')
    (noEscape : character ≠ '\\') :
    quotedFrom ahead (ofChar quote) offset units badEscape
      = quotedFrom ahead (ofChar quote) (offset + byteCount [character]) (units + 1) badEscape := by
  have here : ahead[offset]? = some (lead character) := stands.getElem?_eq
  have other {ascii : Char} (isAscii : ascii.toNat < 128) (differs : character ≠ ascii) :
      lead character ≠ ofChar ascii :=
    mt (lead_eq_iff isAscii).1 differs
  rw [quotedFrom_of_some here, if_neg (other (toNat_lt_of_isQuote isQuote) noQuote),
    if_neg (other (by decide) noBreak), if_neg (other (by decide) noEscape), continues_lead,
    if_neg Bool.false_ne_true,
    quotedFrom_inside isQuote stands Nat.one_pos (byteCount_pos [character] (by simp))]

/-- The number of units of a literal or its fault, when some units and perhaps a malformed escape stand in
front of it. -/
def quotedOutcome
    (units : Nat)
    (badEscape : Bool)
    (literal : Quoted) : Except LexCause Nat :=
  if !literal.closed then .error .unterminatedString
  else if badEscape || !literal.escapesValid then .error .invalidEscape
  else .ok (units + literal.units)

/-- A unit that has been read is counted with those in front. -/
theorem quotedOutcome_behindUnit
    (units : Nat)
    (badEscape : Bool)
    (character : Char)
    (valid : Bool)
    (literal : Quoted) :
    quotedOutcome units badEscape (literal.behindUnit character valid)
      = quotedOutcome (units + 1) (badEscape || !valid) literal := by
  simp only [quotedOutcome, Quoted.behindUnit, Bool.not_and, Bool.or_assoc, Nat.add_assoc,
    Nat.add_comm 1]

/-- A literal is read in bytes as it is read in characters, up to the same place between characters. -/
theorem quotedFrom_eq
    (isQuote : IsQuote quote)
    {behind : List Char}
    (stands : Stands ahead offset behind) :
    quotedFrom ahead (ofChar quote) offset units badEscape
      = .ok (offset + byteCount (Quoted.read quote 0 behind).text,
          quotedOutcome units badEscape (Quoted.read quote 0 behind)) := by
  induction lengthEq : behind.length using Nat.strong_induction_on
    generalizing behind offset units badEscape with
  | _ length inductionHypothesis =>
      cases behind with
      | nil =>
          have atEnd : ahead[offset]? = none := stands.getElem?_eq
          rw [quotedFrom_of_none atEnd]
          rfl
      | cons character rest =>
          have shorter : rest.length < length := by
            rw [← lengthEq]
            exact Nat.lt_succ_self rest.length
          have here : ahead[offset]? = some (lead character) := stands.getElem?_eq
          simp only [Quoted.read]
          split_ifs with closes breaks escapes
          · subst closes
            have isAscii := toNat_lt_of_isQuote isQuote
            rw [quotedFrom_of_some here, if_pos (lead_of_ascii isAscii),
              byteCount_of_ascii (by simpa using isAscii)]
            simp [quotedOutcome]
          · have isBreak : lead character = ofChar '\n' := (lead_eq_iff (by decide)).2 breaks
            have noQuote : lead character ≠ ofChar quote :=
              mt (lead_eq_iff (toNat_lt_of_isQuote isQuote)).1 closes
            rw [quotedFrom_of_some here, if_neg noQuote, if_pos isBreak]
            rfl
          · subst escapes
            generalize widthEq : (EscapeSequence.read quote rest).width = width
            have short : (rest.take width).length = width := by
              rw [List.length_take_of_le (widthEq ▸ (escape_width quote rest).1)]
            have readEscaped := @Quoted.read_escaped quote (rest.take width) (rest.drop width)
            rw [short, List.take_append_drop] at readEscaped
            have behindStands : Stands ahead (offset + byteCount ('\\' :: rest.take width))
                (rest.drop width) :=
              Stands.after _ (by rwa [List.cons_append, List.take_append_drop])
            rw [quotedFrom_of_backslash isQuote stands, widthEq,
              inductionHypothesis (rest.drop width).length (by rw [List.length_drop]; omega)
                behindStands rfl,
              readEscaped, quotedOutcome_behindUnit, Nat.add_assoc, ← byteCount_append]
            rfl
          · have restStands : Stands ahead (offset + byteCount [character]) rest :=
              Stands.after [character] stands
            rw [quotedFrom_of_plain isQuote stands closes breaks escapes,
              inductionHypothesis rest.length shorter restStands rfl, quotedOutcome_behindUnit,
              Nat.add_assoc, ← byteCount_append, Bool.not_true, Bool.or_false]
            rfl

end

/-! ## Whole literals -/

section

variable {source : List UInt8} {start : Nat} {rest : List Char}

/-- Reading stops between characters. -/
theorem quoted_eq
    {quote : Char}
    (isQuote : IsQuote quote)
    (stands : Stands source (start + 1) rest) :
    quoted source (ofChar quote) (start + 1)
      = .ok (start + byteCount (quote :: (Quoted.read quote 0 rest).text),
          quotedOutcome 0 false (Quoted.read quote 0 rest)) := by
  obtain ⟨behind, restEq⟩ := Quoted.read_prefix quote 0 rest
  have literalStands : Stands source (start + 1) ((Quoted.read quote 0 rest).text ++ behind) := by
    rwa [restEq]
  rw [quoted, stands.tailFrom_eq, Checked.ok_bind, quotedFrom_eq isQuote (stands_start rest),
    Nat.zero_add, Checked.ok_bind]
  dsimp only
  rw [literalStands.bump_eq, Checked.ok_bind, byteCount,
    utf8Size_of_ascii (toNat_lt_of_isQuote isQuote), Nat.add_assoc]

theorem scanString_finds (stands : Stands source (start + 1) rest) :
    Finds (scanString source (start + 1)) start (Piece.interpretedString rest) := by
  refine finds_ofFault ?_
  rw [scanString, quoted_eq (.inl rfl) stands, Checked.ok_bind]
  generalize Quoted.read '"' 0 rest = literal
  obtain ⟨text, units, closed, escapesValid⟩ := literal
  cases closed <;> cases escapesValid <;> rfl

theorem scanRune_finds (stands : Stands source (start + 1) rest) :
    Finds (scanRune source (start + 1)) start (Piece.rune rest) := by
  refine finds_ofFault ?_
  rw [scanRune, quoted_eq (.inr rfl) stands, Checked.ok_bind]
  generalize Quoted.read '\'' 0 rest = literal
  obtain ⟨text, units, closed, escapesValid⟩ := literal
  cases closed
  · rfl
  cases escapesValid
  · rfl
  -- only a single unit makes a rune
  match units with
  | 0 => rfl
  | 1 => rfl
  | units + 2 => simp [quotedOutcome, Quoted.runeFault?, Quoted.fault?]

end

end Bytes
end GoFront
