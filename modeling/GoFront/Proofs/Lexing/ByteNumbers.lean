import GoFront.Proofs.Lexing.ByteRuns

/-!
# Numbers in bytes

A number that begins with a digit, or with a point in front of a digit, is read byte by byte up to where it
ends among characters. It gets the same token, and the first fault that was noted is its first fault.
-/

namespace GoFront
namespace Bytes

open Text Numeral

/-! ## What is judged at the end -/

theorem findSome?_id_cons
    (first : Option LexCause)
    (faults : List (Option LexCause)) :
    (first :: faults).findSome? id = first.or (faults.findSome? id) := by
  cases first <;> rfl

/-- The first fault of a number is the first that is noted. -/
theorem fault?_eq (number : Number) :
    number.fault?
      = (((((misplacedIf (Number.hasLooseSeparator number.whole)).or
          ((Number.strayDigit? number.digitBase number.whole).map
            (.invalidDigit · number.digitBase))).or
          (misplacedIf (Number.hasOuterSeparator (number.fraction.getD [])))).or
          (exponentFault? number.exponent)).or
          (if number.base = .hexadecimal && number.fraction.isSome && number.exponent.isNone then
            some .missingHexExponent
          else none)).or
          (if Number.digitCount number.whole + Number.digitCount (number.fraction.getD []) = 0 then
            some (.missingDigits number.base)
          else none) := by
  simp only [Number.fault?, Number.faults, findSome?_id_cons, List.findSome?_nil, Option.or_none,
    Option.or_assoc, exponentFault?, misplacedIf]

theorem fault?_of_decimal
    {number : Number}
    (isDecimal : number.base = .decimal)
    (someDigit : Number.digitCount number.whole + Number.digitCount (number.fraction.getD []) ≠ 0) :
    number.fault?
      = (((misplacedIf (Number.hasLooseSeparator number.whole)).or
          ((Number.strayDigit? number.digitBase number.whole).map
            (.invalidDigit · number.digitBase))).or
          (misplacedIf (Number.hasOuterSeparator (number.fraction.getD [])))).or
          (exponentFault? number.exponent) := by
  rw [fault?_eq, if_neg someDigit, isDecimal]
  exact (Option.or_none).trans Option.or_none

/-- The token of a number in front of the mark of an imaginary number. -/
def bodyToken (number : Number) : Token :=
  if number.exponent.isSome then .floatLit
  else if number.fraction.isSome then .floatLit
  else .intLit

theorem token_eq (number : Number) :
    number.token = if number.imaginary then .imagLit else bodyToken number := by
  obtain ⟨base, lead, whole, fraction, exponent, imaginary⟩ := number
  cases imaginary <;> cases fraction <;> cases exponent <;> rfl

section

variable {base : Base} {whole : List Char} {fault? : Option LexCause}

/-- A digit that a base lacks is written in ASCII. -/
theorem isAscii_of_strayDigit?
    {larger : Base}
    (isRun : ∀ character ∈ whole, Number.continuesRun larger character = true) :
    ∀ stray ∈ Number.strayDigit? base whole, stray.toNat < 128 := fun stray isStray =>
  isAscii_of_continuesRun (isRun stray (List.mem_of_find?_eq_some isStray))

/-- A digit that the base lacks is reported as the character that it is. -/
theorem noteInvalid_eq
    {stray? : Option Char}
    (isAscii : ∀ stray ∈ stray?, stray.toNat < 128)
    (base : Base)
    (fault? : Option LexCause) :
    (((stray?.map ofChar).map fun stray => note fault? (.invalidDigit (toChar stray) base)).getD fault?)
      = fault?.or (stray?.map (.invalidDigit · base)) := by
  cases stray? with
  | none => exact (Option.or_none).symm
  | some stray =>
      have same : toChar (ofChar stray) = stray := toChar_ofChar (isAscii stray rfl)
      simp only [Option.map_some, Option.getD_some, same, note_eq]

/-- In a run of decimal digits the digits that base eight lacks are eight and nine. -/
theorem find?_eq_strayDigit?
    (isRun : ∀ character ∈ whole, Number.continuesRun .decimal character = true) :
    (bytesOf whole).find? (fun byte => byte = ofChar '8' || byte = ofChar '9')
      = (Number.strayDigit? .octal whole).map ofChar := by
  have told {character : Char} (isAscii : character.toNat < 128) :
      Number.continuesRun .decimal character = true ->
        (decide (ofChar character = ofChar '8') || decide (ofChar character = ofChar '9'))
          = (decide (character ≠ '_') && !isDigitOf .octal character) :=
    ascii_cases isAscii (by decide +kernel)
  induction whole with
  | nil => rfl
  | cons character rest inductionHypothesis =>
      obtain ⟨continues, restRun⟩ := List.forall_mem_cons.1 isRun
      have isAscii := isAscii_of_continuesRun continues
      rw [bytesOf_cons, utf8EncodeChar_of_ascii isAscii, List.singleton_append, List.find?_cons,
        told isAscii continues, Number.strayDigit?, List.find?_cons]
      cases decide (character ≠ '_') && !isDigitOf .octal character
      · exact inductionHypothesis restRun
      · rfl

end

/-! ## Numbers whose base is announced -/

section

variable {source : List UInt8} {start : Nat} {text : List Char}

theorem scan_congr
    {stop stop' : Nat}
    {token token' : Token}
    {fault? fault?' : Option LexCause}
    (sameStop : stop = stop')
    (sameToken : token = token')
    (sameFault : fault? = fault?') :
    (.ok ⟨stop, token, fault?⟩ : Checked NumberScan) = .ok ⟨stop', token', fault?'⟩ := by
  rw [sameStop, sameToken, sameFault]

/-- An announced base is told by a zero and a letter. -/
theorem exists_announcing
    (announces : (Number.splitBase text).1 ≠ .decimal) :
    ∃ letter rest, letter ∈ prefixLetters (Number.splitBase text).1
      ∧ text = '0' :: letter :: rest
      ∧ Number.splitBase text = ((Number.splitBase text).1, ['0', letter], rest) := by
  obtain ⟨letter, isLetter, leadEq⟩ := exists_letter_of_splitBase announces
    (by
      have shape := ((Number.splitBase_shape text).resolve_left fun isDecimal =>
        announces isDecimal.1).2 []
      rwa [List.append_nil] at shape)
  have joined := Number.splitBase_append text
  rw [leadEq] at joined
  refine ⟨letter, (Number.splitBase text).2.2, isLetter, joined.symm, ?_⟩
  rw [← leadEq]

theorem isAscii_of_prefixLetter
    {base : Base}
    {letter : Char}
    (isLetter : letter ∈ prefixLetters base) :
    letter.toNat < 128 := by
  have each : (prefixLetters base).all (fun letter => letter.toNat < 128) = true := by
    cases base <;> decide
  exact of_decide_eq_true (List.all_eq_true.1 each letter isLetter)

theorem ne_nul_of_prefixLetter
    {base : Base}
    {letter : Char}
    (isLetter : letter ∈ prefixLetters base) :
    letter ≠ '\x00' := by
  rintro rfl
  cases base <;> revert isLetter <;> decide

/-- Letters that announce a base are told whether they are upper case or not. -/
theorem announcing_letter (byte : UInt8) :
    (byte ||| 0x20 = ofChar 'x' ∨ byte ||| 0x20 = ofChar 'b' ∨ byte ||| 0x20 = ofChar 'o')
      ↔ ∃ base, byte ∈ (prefixLetters base).map ofChar := by
  have here : (byte ||| 0x20 = ofChar 'x' ∨ byte ||| 0x20 = ofChar 'b' ∨ byte ||| 0x20 = ofChar 'o')
      ↔ [Base.binary, .octal, .decimal, .hexadecimal].any (fun base =>
        ((prefixLetters base).map ofChar).contains byte) = true := by
    refine byte_cases ?_ byte
    decide +kernel
  rw [here, List.any_eq_true]
  constructor
  · rintro ⟨base, -, isLetter⟩
    exact ⟨base, List.contains_iff_mem.1 isLetter⟩
  · rintro ⟨base, isLetter⟩
    exact ⟨base, by cases base <;> simp, List.contains_iff_mem.2 isLetter⟩

theorem announcesBase_iff (stands : Stands source start text) :
    announcesBase source start = true ↔ (Number.splitBase text).1 ≠ .decimal := by
  have isZero : byteAt source start = ofChar '0' ↔ text.head? = some '0' :=
    stands.byteAt_eq_iff (by decide) (by decide)
  simp only [announcesBase, Bool.and_eq_true, decide_eq_true_iff, ← Bool.decide_or, or_assoc,
    announcing_letter]
  constructor
  · rintro ⟨zero, base, isLetter⟩
    obtain ⟨behind, rfl⟩ := List.head?_eq_some_iff.1 (isZero.1 zero)
    obtain ⟨letter, member, sameByte⟩ := List.mem_map.1 isLetter
    have behindStands : Stands source (start + 1) behind := stands.after ['0']
    have letterEq : behind.head? = some letter :=
      (behindStands.byteAt_eq_iff (isAscii_of_prefixLetter member)
        (ne_nul_of_prefixLetter member)).1 sameByte.symm
    obtain ⟨rest, rfl⟩ := List.head?_eq_some_iff.1 letterEq
    rw [splitBase_announced member]
    rintro rfl
    cases member
  · intro announces
    obtain ⟨letter, rest, member, rfl, -⟩ := exists_announcing announces
    have behindStands : Stands source (start + 1) (letter :: rest) := stands.after ['0']
    refine ⟨isZero.2 rfl, _, List.mem_map.2 ⟨letter, member, ?_⟩⟩
    rw [behindStands.byteAt_eq_lead, lead_of_ascii (isAscii_of_prefixLetter member)]

theorem baseOf_eq
    {base : Base}
    {letter : Char}
    (isLetter : letter ∈ prefixLetters base) :
    baseOf (ofChar letter) = base := by
  have each : (prefixLetters base).all (fun letter => baseOf (ofChar letter) = base) = true := by
    cases base <;> decide
  exact of_decide_eq_true (List.all_eq_true.1 each letter isLetter)

/-- Digits behind an announced base are read up to their end. -/
theorem announcedRun_eq
    {base : Base}
    {letter : Char}
    {rest : List Char}
    (stands : Stands source start ('0' :: letter :: rest))
    (isLetter : letter ∈ prefixLetters base) :
    digitRun source (baseOf (byteAt source (start + 1))) (start + 2) 0 none false none
      = .ok (⟨start + byteCount (['0', letter] ++ (Number.run base rest).1),
            Number.digitCount (Number.run base rest).1,
            (Number.strayDigit? base (Number.run base rest).1).map ofChar⟩,
          misplacedIf (Number.hasLooseSeparator (Number.run base rest).1))
      ∧ baseOf (byteAt source (start + 1)) = base := by
  have isAscii := isAscii_of_prefixLetter isLetter
  have letterStands : Stands source (start + 1) (letter :: rest) := stands.after ['0']
  have counted : byteCount ['0', letter] = 2 :=
    byteCount_of_ascii (by simpa using isAscii)
  have restStands : Stands source (start + 2) rest := by
    rw [← counted]
    exact stands.after ['0', letter]
  have isBase : baseOf (byteAt source (start + 1)) = base := by
    rw [letterStands.byteAt_eq_lead, lead_of_ascii isAscii, baseOf_eq isLetter]
  refine ⟨?_, isBase⟩
  rw [isBase, digitRun_eq restStands, byteCount_append, counted, Nat.zero_add, Option.none_or,
    Option.none_or, Nat.add_assoc]
  rfl

theorem split_plain
    {base : Base}
    {lead rest : List Char}
    (isPlain : base ∈ [Base.binary, .octal])
    (baseEq : Number.splitBase text = (base, lead, rest)) :
    (Number.split text).1
      = ⟨base, lead, (Number.run base rest).1, none, none,
          (Number.splitImaginary (Number.run base rest).2).1⟩ := by
  cases base with
  | decimal | hexadecimal => simp at isPlain
  | binary | octal => simp only [Number.split, baseEq]

theorem split_hexadecimal
    {lead rest unscaled behind : List Char}
    {fraction? : Option (List Char)}
    {exponent? : Option Exponent}
    (baseEq : Number.splitBase text = (.hexadecimal, lead, rest))
    (fractionEq : Number.splitFraction .hexadecimal false (Number.run .hexadecimal rest).2
      = (fraction?, unscaled))
    (exponentEq : Number.splitExponent 'p' 'P' unscaled = (exponent?, behind)) :
    (Number.split text).1
      = ⟨.hexadecimal, lead, (Number.run .hexadecimal rest).1, fraction?, exponent?,
          (Number.splitImaginary behind).1⟩ := by
  simp only [Number.split, baseEq, fractionEq, exponentEq]

theorem digitCount_nil : Number.digitCount [] = 0 := rfl

theorem digitBase_of_ne
    {number : Number}
    (announces : number.base ≠ .decimal) :
    number.digitBase = number.base := by
  simp [Number.digitBase, announces]

theorem prefixedNumber_eq
    (stands : Stands source start text)
    (announces : (Number.splitBase text).1 ≠ .decimal) :
    prefixedNumber source start
      = .ok ⟨start + byteCount (body (Number.split text).1), bodyToken (Number.split text).1,
          (Number.split text).1.fault?⟩ := by
  obtain ⟨letter, rest, isLetter, rfl, baseEq⟩ := exists_announcing announces
  generalize (Number.splitBase ('0' :: letter :: rest)).1 = base at announces isLetter baseEq
  obtain ⟨runEq, isBase⟩ := announcedRun_eq stands isLetter
  rw [prefixedNumber]
  dsimp only
  rw [runEq, isBase, Checked.ok_bind]
  dsimp only
  rw [noteInvalid_eq (isAscii_of_strayDigit? (Number.continuesRun_of_mem_run base rest))]
  cases base with
  | decimal => exact absurd rfl announces
  | binary | octal =>
      rw [if_neg (by decide), Checked.ok_bind]
      rw [split_plain (by decide) baseEq, fault?_eq, digitBase_of_ne announces]
      dsimp only
      rw [noteIf_eq]
      simp [body_eq, bodyToken, digitCount_nil]
  | hexadecimal =>
      rcases fractionEq : Number.splitFraction .hexadecimal false (Number.run .hexadecimal rest).2
        with ⟨fraction?, unscaled⟩
      rcases exponentEq : Number.splitExponent 'p' 'P' unscaled with ⟨exponent?, behind⟩
      have behindStands : Stands source
          (start + byteCount (['0', letter] ++ (Number.run .hexadecimal rest).1))
          (Number.run .hexadecimal rest).2 :=
        Stands.after _ (by rwa [List.append_assoc, Number.run_append])
      rw [if_pos rfl, hexadecimalRest_eq behindStands fractionEq exponentEq, Checked.ok_bind,
        split_hexadecimal baseEq fractionEq exponentEq, fault?_eq, digitBase_of_ne announces]
      dsimp only
      rw [noteIf_eq]
      simp only [body_eq, byteCount_append, Nat.add_assoc, bodyToken, decide_true, Bool.true_and]

/-! ## Numbers whose base is not announced -/

theorem splitBase_eq_of_decimal
    (isDecimal : (Number.splitBase text).1 = .decimal) :
    Number.splitBase text = (.decimal, [], text) := by
  have noLead := ((Number.splitBase_shape text).resolve_right fun announced =>
    announced.1 isDecimal).2
  have joined := Number.splitBase_append text
  rw [noLead, List.nil_append] at joined
  exact Prod.ext isDecimal (Prod.ext noLead joined)

theorem split_decimal
    {unscaled behind : List Char}
    {fraction? : Option (List Char)}
    {exponent? : Option Exponent}
    (isDecimal : (Number.splitBase text).1 = .decimal)
    (fractionEq : Number.splitFraction .decimal true (Number.run .decimal text).2
      = (fraction?, unscaled))
    (exponentEq : Number.splitExponent 'e' 'E' unscaled = (exponent?, behind)) :
    (Number.split text).1
      = ⟨.decimal, [], (Number.run .decimal text).1, fraction?, exponent?,
          (Number.splitImaginary behind).1⟩ := by
  simp only [Number.split, splitBase_eq_of_decimal isDecimal, fractionEq, exponentEq]

/-- Decimal numbers have no stray digits. -/
theorem strayDigit?_run (text : List Char) :
    Number.strayDigit? .decimal (Number.run .decimal text).1 = none :=
  strayDigit?_eq_none.2
    ((forall_continuesRun_iff (by simp)).1 (Number.continuesRun_of_mem_run .decimal text))

theorem digitCount_run_ne_zero
    {first : Char}
    (isDigit : first.isDigit = true)
    (rest : List Char) :
    Number.digitCount (Number.run .decimal (first :: rest)).1 ≠ 0 := by
  have isDecimal := Number.isDigitOf_decimal_of_isDigit first isDigit
  have continues : Number.continuesRun .decimal first = true := continuesRun_iff.2 (.inr isDecimal)
  rw [run_cons, if_pos continues, digitCount_cons (ne_separator isDecimal)]
  exact Nat.succ_ne_zero _

theorem isSome_splitImaginary (behind : List Char) :
    (Number.splitImaginary behind).1 = true ↔ behind.head? = some 'i' := by
  unfold Number.splitImaginary
  split
  · simp
  · next noMark =>
      refine ⟨nofun, fun isMark => ?_⟩
      obtain ⟨rest, rfl⟩ := List.head?_eq_some_iff.1 isMark
      exact absurd rfl (noMark rest)

theorem pointNumber_eq
    {first : Char}
    {rest : List Char}
    (stands : Stands source start ('.' :: first :: rest))
    (isDigit : first.isDigit = true) :
    pointNumber source start
      = .ok ⟨start + byteCount (body (Number.split ('.' :: first :: rest)).1),
          bodyToken (Number.split ('.' :: first :: rest)).1,
          (Number.split ('.' :: first :: rest)).1.fault?⟩ := by
  have noPoint : ¬ (some first == some '.') = true := fun isPoint => by
    rw [beq_iff_eq, Option.some_inj] at isPoint
    exact absurd (isPoint ▸ isDigit) (by decide)
  have noWhole : Number.run .decimal ('.' :: first :: rest) = ([], '.' :: first :: rest) := rfl
  have fractionEq : Number.splitFraction .decimal true (Number.run .decimal ('.' :: first :: rest)).2
      = (some (Number.run .decimal (first :: rest)).1, (Number.run .decimal (first :: rest)).2) := by
    rw [noWhole, Number.splitFraction, List.head?_cons, if_neg (by simpa using noPoint)]
  rcases exponentEq : Number.splitExponent 'e' 'E' (Number.run .decimal (first :: rest)).2
    with ⟨exponent?, behind⟩
  have fractionStands : Stands source
      (start + byteCount ('.' :: (Number.run .decimal (first :: rest)).1))
      (Number.run .decimal (first :: rest)).2 :=
    Stands.after _ (by rwa [List.cons_append, Number.run_append])
  rw [pointNumber, fraction_eq stands, Checked.ok_bind]
  dsimp only
  rw [optionalExponent_eq fractionStands (by decide) (by decide), exponentEq,
    split_decimal rfl fractionEq exponentEq, noWhole]
  refine scan_congr ?_ ?_ ?_
  · rw [body_eq, Nat.add_assoc, ← byteCount_append]
    rfl
  · rw [bodyToken, Option.isSome_some, if_pos rfl]
  · rw [fault?_of_decimal rfl]
    · rfl
    · rw [digitCount_nil, Nat.zero_add]
      exact digitCount_run_ne_zero isDigit rest

theorem bodyToken_eq_intLit_iff {number : Number} :
    bodyToken number = .intLit ↔ number.exponent = none ∧ number.fraction = none := by
  rw [bodyToken]
  cases number.exponent <;> cases number.fraction <;> simp

/-- What can be wrong with the whole digits of a number whose base is not announced. They are judged as
octal digits if there is a leading zero and nothing but digits. -/
def wholeFault? (text : List Char) (token : Token) (behind : List Char) : Option LexCause :=
  if (Number.run .decimal text).1.head? = some '0' ∧ token = .intLit ∧ behind.head? ≠ some 'i' then
    (Number.strayDigit? .octal (Number.run .decimal text).1).map (.invalidDigit · .octal)
  else none

/-- Where the whole digits are judged there is nothing else that could be wrong. -/
theorem or_wholeFault?
    (number : Number)
    (text behind : List Char)
    (fault? : Option LexCause) :
    ((fault?.or (misplacedIf (Number.hasOuterSeparator (number.fraction.getD [])))).or
        (exponentFault? number.exponent)).or (wholeFault? text (bodyToken number) behind)
      = ((fault?.or (wholeFault? text (bodyToken number) behind)).or
          (misplacedIf (Number.hasOuterSeparator (number.fraction.getD [])))).or
          (exponentFault? number.exponent) := by
  by_cases integer : bodyToken number = .intLit
  · obtain ⟨noExponent, noFraction⟩ := bodyToken_eq_intLit_iff.1 integer
    simp only [noExponent, noFraction, Option.getD_none, misplacedIf_hasOuterSeparator_nil,
      exponentFault?_none, Option.or_none]
  · have noFault : wholeFault? text (bodyToken number) behind = none :=
      if_neg fun octal => integer octal.2.1
    rw [noFault, Option.or_none, Option.or_none]

theorem map_strayDigit?_eq
    (text behind : List Char)
    (fraction? : Option (List Char))
    (exponent? : Option Exponent) :
    let number : Number := ⟨.decimal, [], (Number.run .decimal text).1, fraction?, exponent?,
      (Number.splitImaginary behind).1⟩
    (Number.strayDigit? number.digitBase number.whole).map (LexCause.invalidDigit · number.digitBase)
      = wholeFault? text (bodyToken number) behind := by
  intro number
  have unmarked : (!(Number.splitImaginary behind).1) = true ↔ behind.head? ≠ some 'i' := by
    rw [Bool.not_eq_true', ← Bool.not_eq_true, isSome_splitImaginary]
  have octal_iff : (decide (number.base = .decimal) && number.isInteger
        && number.whole.head? == some '0') = true
      ↔ number.whole.head? = some '0' ∧ bodyToken number = .intLit ∧ behind.head? ≠ some 'i' := by
    simp only [Number.isInteger, bodyToken_eq_intLit_iff, number, Bool.and_eq_true, unmarked,
      Option.isNone_iff_eq_none, beq_iff_eq, decide_true, true_and]
    tauto
  rw [wholeFault?, Number.digitBase]
  by_cases octal : number.whole.head? = some '0' ∧ bodyToken number = .intLit
      ∧ behind.head? ≠ some 'i'
  · rw [if_pos (octal_iff.2 octal), if_pos octal]
  · rw [if_neg (mt octal_iff.1 octal), if_neg octal, strayDigit?_run]
    rfl

/-- The whole digits of an integer with a leading zero are judged as octal digits. -/
theorem judgeWhole_eq
    {scan : NumberScan}
    {behind : List Char}
    (stands : Stands source start text)
    (endStands : Stands source scan.stop behind) :
    judgeWhole source start (start + byteCount (Number.run .decimal text).1) scan
      = .ok ⟨scan.stop, scan.token, scan.fault?.or (wholeFault? text scan.token behind)⟩ := by
  have isRun := Number.continuesRun_of_mem_run .decimal text
  have isZero : byteAt source start = ofChar '0' ↔ (Number.run .decimal text).1.head? = some '0' :=
    (stands.byteAt_eq_iff (by decide) (by decide)).trans (head?_run (by decide) _).symm
  have isMark : byteAt source scan.stop = ofChar 'i' ↔ behind.head? = some 'i' :=
    endStands.byteAt_eq_iff (by decide) (by decide)
  have whole : Stands source start
      ((Number.run .decimal text).1 ++ (Number.run .decimal text).2) := by
    rwa [Number.run_append]
  simp only [judgeWhole, wholeFault?, isZero, ne_eq, isMark, ← Bool.decide_and, decide_eq_true_iff,
    and_assoc]
  split_ifs with octal
  · rw [whole.slice_eq, Checked.ok_bind, find?_eq_strayDigit? isRun,
      noteInvalid_eq (isAscii_of_strayDigit? isRun)]
  · rw [Option.or_none]

theorem plainNumber_eq
    {first : Char}
    {rest : List Char}
    (stands : Stands source start (first :: rest))
    (isDigit : first.isDigit = true)
    (isDecimal : (Number.splitBase (first :: rest)).1 = .decimal) :
    plainNumber source start
      = .ok ⟨start + byteCount (body (Number.split (first :: rest)).1),
          bodyToken (Number.split (first :: rest)).1, (Number.split (first :: rest)).1.fault?⟩ := by
  rcases fractionEq : Number.splitFraction .decimal true (Number.run .decimal (first :: rest)).2
    with ⟨fraction?, unscaled⟩
  rcases exponentEq : Number.splitExponent 'e' 'E' unscaled with ⟨exponent?, behind⟩
  have wholeStands := stands.behindRun .decimal
  have fractionStands := wholeStands.behindFraction fractionEq
  have exponentStands := fractionStands.behindExponent exponentEq
  rw [plainNumber, digitRun_eq stands, Checked.ok_bind]
  dsimp only
  rw [optionalFraction_eq wholeStands, fractionEq, Checked.ok_bind,
    optionalExponent_eq fractionStands (by decide) (by decide), exponentEq, Checked.ok_bind]
  dsimp only
  rw [Option.none_or, judgeWhole_eq stands exponentStands,
    split_decimal isDecimal fractionEq exponentEq]
  refine scan_congr ?_ ?_ ?_
  · rw [body_eq, byteCount_append, byteCount_append, ← Nat.add_assoc, ← Nat.add_assoc]
    rfl
  · rfl
  · rw [fault?_of_decimal rfl (Nat.ne_of_gt (Nat.add_pos_left
      (Nat.pos_of_ne_zero (digitCount_run_ne_zero isDigit rest)) _))]
    rw [map_strayDigit?_eq]
    exact or_wholeFault? ⟨.decimal, [], _, fraction?, exponent?, _⟩ _ _ _

/-! ## Whole numbers -/

/-- Behind its body a number has its mark, if it is imaginary. -/
theorem exists_behind_body (text : List Char) :
    ∃ behind, body (Number.split text).1 ++ behind = text
      ∧ ((Number.split text).1.imaginary = true ↔ behind.head? = some 'i') := by
  have joined := Number.splitBase_append text
  rcases baseEq : Number.splitBase text with ⟨base, lead, rest⟩
  rw [baseEq] at joined
  cases base with
  | binary | octal =>
      simp only [Number.split, baseEq, body_eq, Option.map_none, Option.getD_none, List.append_nil,
        List.append_assoc]
      exact ⟨_, by rw [Number.run_append, joined], isSome_splitImaginary _⟩
  | decimal | hexadecimal =>
      simp only [Number.split, baseEq, body_eq, List.append_assoc]
      refine ⟨_, ?_, isSome_splitImaginary _⟩
      rw [Number.splitExponent_append, Number.splitFraction_append, Number.run_append, joined]

section

variable {first : Char} {rest : List Char}

theorem numberBody_eq
    (stands : Stands source start (first :: rest))
    (starts : first.isDigit = true ∨ first = '.' ∧ rest.head?.any Char.isDigit = true) :
    numberBody source start
      = .ok ⟨start + byteCount (body (Number.split (first :: rest)).1),
          bodyToken (Number.split (first :: rest)).1, (Number.split (first :: rest)).1.fault?⟩ := by
  have isPoint : byteAt source start = ofChar '.' ↔ first = '.' :=
    (stands.byteAt_eq_iff (by decide) (by decide)).trans Option.some_inj
  rw [numberBody]
  split_ifs with point announces
  · obtain rfl := isPoint.1 point
    have digitNext := (starts.resolve_left (by decide)).2
    cases rest with
    | nil => cases digitNext
    | cons second behind => exact pointNumber_eq stands digitNext
  · exact prefixedNumber_eq stands ((announcesBase_iff stands).1 announces)
  · have isDigit := starts.resolve_right fun pointNext => point (isPoint.2 pointNext.1)
    exact plainNumber_eq stands isDigit (not_not.1 (mt (announcesBase_iff stands).2 announces))

/-- A number is read up to its end. -/
theorem number_eq
    (stands : Stands source start (first :: rest))
    (starts : first.isDigit = true ∨ first = '.' ∧ rest.head?.any Char.isDigit = true) :
    number source start
      = .ok ⟨start + byteCount (Number.split (first :: rest)).1.text,
          (Number.split (first :: rest)).1.token, (Number.split (first :: rest)).1.fault?⟩ := by
  obtain ⟨behind, joined, marked⟩ := exists_behind_body (first :: rest)
  have bodyStands : Stands source
      (start + byteCount (body (Number.split (first :: rest)).1)) behind :=
    Stands.after _ (by rwa [joined])
  have isMark : byteAt source (start + byteCount (body (Number.split (first :: rest)).1)) = ofChar 'i'
      ↔ (Number.split (first :: rest)).1.imaginary = true :=
    (bodyStands.byteAt_eq_iff (by decide) (by decide)).trans marked.symm
  rw [number, numberBody_eq stands starts, Checked.ok_bind, if_congr isMark rfl rfl, text_eq_body,
    token_eq, byteCount_append, ← Nat.add_assoc]
  cases (Number.split (first :: rest)).1.imaginary <;> rfl

/-- Behind what has been matched of it, a number is passed over to its end. -/
theorem scanNumber_finds
    {matched : List Char}
    (stands : Stands source start (first :: rest))
    (starts : first.isDigit = true ∨ first = '.' ∧ rest.head?.any Char.isDigit = true)
    (isMatched : matched <+: (Number.split (first :: rest)).1.text) :
    Finds (scanNumber source start (start + byteCount matched)) start
      (Piece.number (first :: rest)) := by
  obtain ⟨tail, textEq⟩ := isMatched
  have counted : start + byteCount (Number.split (first :: rest)).1.text
      = start + byteCount matched + byteCount tail := by
    rw [← textEq, byteCount_append, Nat.add_assoc]
  have endStands : Stands source (start + byteCount matched + byteCount tail)
      (Number.split (first :: rest)).2 := by
    rw [← counted]
    exact Stands.after _ (by rwa [Number.split_append])
  refine finds_ofFault ?_
  rw [scanNumber, number_eq stands starts, Checked.ok_bind, counted]
  dsimp only
  rw [if_neg (Nat.not_lt.2 (Nat.le_add_right _ _)), Nat.add_sub_cancel_left,
    endStands.bump_to, Checked.ok_bind]

end

end

end Bytes
end GoFront
