import GoFront.Proofs.Lexing.ByteTexts
import GoFront.Proofs.Lexing.Numerals

/-!
# Runs of digits in bytes

The parts of a number are read byte by byte as they are split and judged character by character. What is
noted while a part is read is what can be wrong with it, in reading order.
-/

namespace GoFront
namespace Bytes

open Text Numeral

/-! ## Faults in reading order -/

/-- The fault of a separator in the wrong place. -/
def misplacedIf (misplaced : Bool) : Option LexCause :=
  if misplaced then some .misplacedSeparator else none

theorem misplacedIf_or (first second : Bool) :
    misplacedIf (first || second) = (misplacedIf first).or (misplacedIf second) := by
  cases first <;> rfl

theorem note_eq (fault? : Option LexCause) (cause : LexCause) :
    note fault? cause = fault?.or (some cause) := by
  cases fault? <;> rfl

theorem noteIf_eq
    (isFault : Prop)
    [Decidable isFault]
    (cause : LexCause)
    (fault? : Option LexCause) :
    (if isFault then note fault? cause else fault?)
      = fault?.or (if isFault then some cause else none) := by
  split_ifs
  · exact note_eq fault? cause
  · exact (Option.or_none).symm

theorem noteSeparator_eq (misplaced : Bool) (fault? : Option LexCause) :
    noteSeparator misplaced fault? = fault?.or (misplacedIf misplaced) :=
  noteIf_eq (misplaced = true) _ fault?

/-! ## Runs of digits -/

section

variable {base : Base} {character : Char} {run : List Char}

/-- A run with the separator in front of it, if there is one. -/
def withSeparator (behindSeparator : Bool) (run : List Char) : List Char :=
  if behindSeparator then '_' :: run else run

theorem hasLooseSeparator_withSeparator_nil (behindSeparator : Bool) :
    Number.hasLooseSeparator (withSeparator behindSeparator []) = behindSeparator := by
  cases behindSeparator <;> rfl

theorem hasLooseSeparator_withSeparator_separator
    (behindSeparator : Bool)
    (run : List Char) :
    Number.hasLooseSeparator (withSeparator behindSeparator ('_' :: run))
      = (behindSeparator || Number.hasLooseSeparator (withSeparator true run)) := by
  cases behindSeparator <;> rfl

theorem hasLooseSeparator_withSeparator_digit
    (behindSeparator : Bool)
    (noSeparator : character ≠ '_')
    (run : List Char) :
    Number.hasLooseSeparator (withSeparator behindSeparator (character :: run))
      = Number.hasLooseSeparator run := by
  rw [Bool.eq_iff_iff]
  cases behindSeparator <;> simp [withSeparator, hasLooseSeparator_cons, noSeparator]

/-- The digits that continue a run of a base. -/
def runBase (base : Base) : Base :=
  if base = .hexadecimal then .hexadecimal else .decimal

/-- A decimal digit is at least zero, and a digit of a base if it is worth less than the radix. -/
theorem decimal_worth
    (base : Base)
    (isDecimal : isDigitOf .decimal character = true) :
    ofChar '0' ≤ ofChar character
      ∧ (isDigitOf base character = true
        ↔ ¬ base.radix ≤ (ofChar character).toNat - (ofChar '0').toNat) := by
  have isAscii := isAscii_of_isDigitOf isDecimal
  revert isDecimal
  refine ascii_cases isAscii ?_
  cases base <;> decide +kernel

theorem continuesRun_iff :
    Number.continuesRun base character = true
      ↔ character = '_' ∨ isDigitOf (runBase base) character = true := by
  rw [Number.continuesRun, Bool.or_eq_true, beq_iff_eq]
  rfl

/-- A digit that continues a run is a digit of the base, or the base is small. -/
theorem isDigitOf_of_runBase
    (isDigit : isDigitOf (runBase base) character = true)
    (large : ¬ base.radix < 10) :
    isDigitOf base character = true := by
  cases base with
  | binary | octal => exact absurd (by decide) large
  | decimal | hexadecimal => exact isDigit

/-- The first digit that a base lacks is noted. -/
theorem noteStray_eq
    (isDigit : isDigitOf (runBase base) character = true)
    (stray? : Option UInt8) :
    noteStray base (lead character) stray?
      = .ok (stray?.or (if isDigitOf base character then none else some (ofChar character))) := by
  rw [noteStray]
  cases stray? with
  | some stray => rw [Option.isNone_some, Bool.and_false]; rfl
  | none =>
      rw [Option.isNone_none, Bool.and_true, Option.none_or]
      by_cases small : base.radix < 10
      · have isDecimal : isDigitOf .decimal character = true := by
          cases base with
          | binary | octal | decimal => exact isDigit
          | hexadecimal => exact absurd small (by decide)
        obtain ⟨least, isDigit_iff⟩ := decimal_worth base isDecimal
        rw [if_pos (decide_eq_true small), lead_of_ascii (isAscii_of_isDigitOf isDecimal), above,
          if_pos least,
          Checked.ok_bind, if_congr isDigit_iff rfl rfl, ite_not]
      · rw [if_neg (by simpa using small), if_pos (isDigitOf_of_runBase isDigit small)]

end

section

variable
  {source : List UInt8} {base : Base} {offset count : Nat} {stray? : Option UInt8}
  {behindSeparator : Bool} {fault? : Option LexCause} {character : Char}

theorem digitRun_of_none (found : source[offset]? = none) :
    digitRun source base offset count stray? behindSeparator fault?
      = .ok (⟨offset, count, stray?⟩, noteSeparator behindSeparator fault?) := by
  rw [digitRun]
  split
  · rfl
  · next other => simp [found] at other

/-- A run goes on with the byte at its offset if that is a separator or a digit. -/
theorem digitRun_of_byte
    {byte : UInt8}
    (found : source[offset]? = some byte) :
    digitRun source base offset count stray? behindSeparator fault?
      = if byte = ofChar '_' then
          digitRun source base (offset + 1) count stray? true (noteSeparator behindSeparator fault?)
        else if isDigitOf (runBase base) (toChar byte) then do
          let stray? ← noteStray base byte stray?
          digitRun source base (offset + 1) (count + 1) stray? false fault?
        else .ok (⟨offset, count, stray?⟩, noteSeparator behindSeparator fault?) := by
  rw [digitRun]
  split
  · next other => simp [found] at other
  · next other same =>
      obtain rfl := Option.some.inj (found.symm.trans same)
      rfl

theorem digitRun_of_some (found : source[offset]? = some (lead character)) :
    digitRun source base offset count stray? behindSeparator fault?
      = if character = '_' then
          digitRun source base (offset + 1) count stray? true (noteSeparator behindSeparator fault?)
        else if isDigitOf (runBase base) character then
          digitRun source base (offset + 1) (count + 1)
            (stray?.or (if isDigitOf base character then none else some (ofChar character))) false
            fault?
        else .ok (⟨offset, count, stray?⟩, noteSeparator behindSeparator fault?) := by
  have isSeparator : lead character = ofChar '_' ↔ character = '_' := lead_eq_iff (by decide)
  have isDigit_eq : isDigitOf (runBase base) (toChar (lead character))
      = isDigitOf (runBase base) character := by
    rw [isDigitOf, digitValue?_toChar_lead, isDigitOf]
  rw [digitRun_of_byte found, if_congr isSeparator rfl rfl, isDigit_eq]
  by_cases isDigit : isDigitOf (runBase base) character = true
  · rw [if_pos isDigit, if_pos isDigit, noteStray_eq isDigit, Checked.ok_bind]
  · rw [if_neg isDigit, if_neg isDigit]

end

theorem digitCount_cons
    {character : Char}
    (noSeparator : character ≠ '_')
    (run : List Char) :
    Number.digitCount (character :: run) = Number.digitCount run + 1 := by
  simp [Number.digitCount, noSeparator]

theorem map_strayDigit?_cons
    {character : Char}
    (noSeparator : character ≠ '_')
    (base : Base)
    (run : List Char) :
    (Number.strayDigit? base (character :: run)).map ofChar
      = (if isDigitOf base character then none else some (ofChar character)).or
        ((Number.strayDigit? base run).map ofChar) := by
  rw [Number.strayDigit?, List.find?_cons]
  cases isDigit : isDigitOf base character
  · simp [noSeparator]
  · simp [Number.strayDigit?]

theorem run_nil (base : Base) : (Number.run base []).1 = [] := rfl

theorem run_cons
    (base : Base)
    (character : Char)
    (rest : List Char) :
    (Number.run base (character :: rest)).1
      = if Number.continuesRun base character then character :: (Number.run base rest).1 else [] := by
  rw [Number.run, Number.run, List.span_eq_takeWhile_dropWhile, List.span_eq_takeWhile_dropWhile,
    List.takeWhile_cons]

/-- A run of digits is read up to its end. -/
theorem digitRun_eq
    {source : List UInt8}
    {base : Base}
    {offset : Nat}
    {behind : List Char}
    (stands : Stands source offset behind)
    (count : Nat)
    (stray? : Option UInt8)
    (behindSeparator : Bool)
    (fault? : Option LexCause) :
    digitRun source base offset count stray? behindSeparator fault?
      = .ok (⟨offset + byteCount (Number.run base behind).1,
            count + Number.digitCount (Number.run base behind).1,
            stray?.or ((Number.strayDigit? base (Number.run base behind).1).map ofChar)⟩,
          fault?.or (misplacedIf (Number.hasLooseSeparator
            (withSeparator behindSeparator (Number.run base behind).1)))) := by
  induction behind generalizing offset count stray? behindSeparator fault? with
  | nil =>
      have found : source[offset]? = none := stands.getElem?_eq
      rw [digitRun_of_none found, noteSeparator_eq, run_nil,
        hasLooseSeparator_withSeparator_nil]
      simp [Number.strayDigit?, Number.digitCount, byteCount]
  | cons character rest inductionHypothesis =>
      have found : source[offset]? = some (lead character) := stands.getElem?_eq
      rw [digitRun_of_some found]
      by_cases continues : Number.continuesRun base character = true
      · have single : byteCount [character] = 1 :=
          byteCount_of_ascii (by simpa using isAscii_of_continuesRun continues)
        have restStands : Stands source (offset + 1) rest := by
          rw [← single]
          exact stands.after [character]
        have counted (run : List Char) :
            offset + 1 + byteCount run = offset + byteCount (character :: run) := by
          rw [Nat.add_assoc, ← single, ← byteCount_append]
          rfl
        rw [run_cons, if_pos continues]
        by_cases isSeparator : character = '_'
        · rw [if_pos isSeparator, inductionHypothesis restStands, counted, noteSeparator_eq,
            isSeparator, hasLooseSeparator_withSeparator_separator, misplacedIf_or, Option.or_assoc]
          rfl
        · have isDigit := (continuesRun_iff.1 continues).resolve_left isSeparator
          rw [if_neg isSeparator, if_pos isDigit, inductionHypothesis restStands, counted,
            hasLooseSeparator_withSeparator_digit _ isSeparator, Option.or_assoc,
            digitCount_cons isSeparator, map_strayDigit?_cons isSeparator, Nat.add_assoc,
            Nat.add_comm 1]
          rfl
      · rw [run_cons, if_neg continues, if_neg, if_neg, noteSeparator_eq,
          hasLooseSeparator_withSeparator_nil]
        · simp [Number.strayDigit?, Number.digitCount, byteCount]
        · exact fun isDigit => continues (continuesRun_iff.2 (.inr isDigit))
        · exact fun isSeparator => continues (continuesRun_iff.2 (.inl isSeparator))

/-! ## Fractions and exponents -/

section

variable {source : List UInt8} {offset : Nat} {behind : List Char}

theorem Stands.behindRun
    (base : Base)
    (stands : Stands source offset behind) :
    Stands source (offset + byteCount (Number.run base behind).1) (Number.run base behind).2 :=
  Stands.after _ (by rwa [Number.run_append])

theorem Stands.behindFraction
    {base : Base}
    {lonePoint : Bool}
    {fraction? : Option (List Char)}
    {rest : List Char}
    (stands : Stands source offset behind)
    (isFraction : Number.splitFraction base lonePoint behind = (fraction?, rest)) :
    Stands source (offset + byteCount ((fraction?.map fun digits => '.' :: digits).getD [])) rest := by
  have joined := Number.splitFraction_append base lonePoint behind
  rw [isFraction] at joined
  exact Stands.after _ (by rwa [joined])

theorem Stands.behindExponent
    {lower upper : Char}
    {exponent? : Option Exponent}
    {rest : List Char}
    (stands : Stands source offset behind)
    (isExponent : Number.splitExponent lower upper behind = (exponent?, rest)) :
    Stands source (offset + byteCount ((exponent?.map Exponent.text).getD [])) rest := by
  have joined := Number.splitExponent_append lower upper behind
  rw [isExponent] at joined
  exact Stands.after _ (by rwa [joined])

/-- A character that continues runs begins the run of a text if it begins the text. -/
theorem head?_run
    {base : Base}
    {first : Char}
    (continues : Number.continuesRun base first = true)
    (behind : List Char) :
    (Number.run base behind).1.head? = some first ↔ behind.head? = some first := by
  cases behind with
  | nil => rfl
  | cons character rest =>
      rw [run_cons]
      split_ifs with here
      · rfl
      · simp only [List.head?_nil, List.head?_cons, reduceCtorEq, Option.some_inj, false_iff]
        rintro rfl
        exact here continues

theorem innerRun_eq
    (stands : Stands source offset behind)
    (base : Base)
    (fault? : Option LexCause) :
    innerRun source base offset fault?
      = .ok (⟨offset + byteCount (Number.run base behind).1,
            Number.digitCount (Number.run base behind).1,
            (Number.strayDigit? base (Number.run base behind).1).map ofChar⟩,
          fault?.or (misplacedIf (Number.hasOuterSeparator (Number.run base behind).1))) := by
  have isSeparator : byteAt source offset = ofChar '_' ↔ behind.head? = some '_' :=
    stands.byteAt_eq_iff (by decide) (by decide)
  have misplaced : decide (byteAt source offset = ofChar '_')
      = ((Number.run base behind).1.head? == some '_') := by
    rw [Bool.eq_iff_iff, decide_eq_true_iff, beq_iff_eq, isSeparator,
      head?_run (continuesRun_iff.2 (.inl rfl))]
  rw [innerRun, digitRun_eq stands, noteSeparator_eq, Nat.zero_add, Option.none_or, misplaced,
    Option.or_assoc, ← misplacedIf_or]
  rfl

/-- What can be wrong with an exponent. -/
def exponentFault? (exponent? : Option Exponent) : Option LexCause :=
  let digits := (exponent?.map Exponent.digits).getD []
  (misplacedIf (Number.hasOuterSeparator digits)).or
    (if exponent?.isSome && Number.digitCount digits = 0 then some .missingExponent else none)

@[simp] theorem exponentFault?_none : exponentFault? none = none := rfl

@[simp] theorem misplacedIf_hasOuterSeparator_nil :
    misplacedIf (Number.hasOuterSeparator []) = none := rfl

/-- The exponent with a given letter in front of a text. -/
def exponentOf (letter : Char) (behind : List Char) : Exponent :=
  ⟨letter, (Number.splitSign behind).1, (Number.run .decimal (Number.splitSign behind).2).1⟩

theorem splitExponent_cons
    (lower upper letter : Char)
    (behind : List Char) :
    (Number.splitExponent lower upper (letter :: behind)).1
      = if letter = lower || letter = upper then some (exponentOf letter behind) else none := by
  rw [Number.splitExponent]
  split_ifs <;> rfl

/-- A sign is passed over if there is one. -/
theorem signEnd_eq (stands : Stands source offset behind) :
    (if byteAt source offset = ofChar '+' || byteAt source offset = ofChar '-' then offset + 1
      else offset)
      = offset + byteCount (Number.splitSign behind).1 := by
  have isPlus : byteAt source offset = ofChar '+' ↔ behind.head? = some '+' :=
    stands.byteAt_eq_iff (by decide) (by decide)
  have isMinus : byteAt source offset = ofChar '-' ↔ behind.head? = some '-' :=
    stands.byteAt_eq_iff (by decide) (by decide)
  simp only [isPlus, isMinus, ← Bool.decide_or, decide_eq_true_iff]
  split_ifs with signed
  · rcases signed with plus | minus
    · obtain ⟨rest, rfl⟩ := List.head?_eq_some_iff.1 plus
      rfl
    · obtain ⟨rest, rfl⟩ := List.head?_eq_some_iff.1 minus
      rfl
  · obtain ⟨noPlus, noMinus⟩ := not_or.1 signed
    unfold Number.splitSign
    split
    · exact absurd rfl noPlus
    · exact absurd rfl noMinus
    · rfl

/-- An exponent is read from its letter on. -/
theorem exponent_eq
    {letter : Char}
    (stands : Stands source offset (letter :: behind))
    (isAscii : letter.toNat < 128)
    (fault? : Option LexCause) :
    exponent source offset fault?
      = .ok ⟨offset + byteCount (exponentOf letter behind).text, .floatLit,
          fault?.or (exponentFault? (some (exponentOf letter behind)))⟩ := by
  have single : byteCount [letter] = 1 := byteCount_of_ascii (by simpa using isAscii)
  have restStands : Stands source (offset + 1) behind := by
    rw [← single]
    exact stands.after [letter]
  have digitStands : Stands source (offset + 1 + byteCount (Number.splitSign behind).1)
      (Number.splitSign behind).2 :=
    Stands.after _ (by rwa [Number.splitSign_append])
  have counted : offset + 1 + byteCount (Number.splitSign behind).1
      + byteCount (Number.run .decimal (Number.splitSign behind).2).1
      = offset + byteCount (exponentOf letter behind).text := by
    rw [Exponent.text, exponentOf, byteCount_append, ← List.singleton_append, byteCount_append,
      single, Nat.add_assoc, Nat.add_assoc, Nat.add_assoc]
  rw [exponent]
  dsimp only
  rw [signEnd_eq restStands, innerRun_eq digitStands, Checked.ok_bind, counted, exponentFault?,
    ← Option.or_assoc]
  by_cases missing : Number.digitCount (Number.run .decimal (Number.splitSign behind).2).1 = 0
  · simp [missing, note_eq, exponentOf]
  · simp [missing, exponentOf]

theorem optionalExponent_eq
    {lower upper : Char}
    {scan : NumberScan}
    (stands : Stands source scan.stop behind)
    (lowerPlain : lower.toNat < 128 ∧ lower ≠ '\x00')
    (upperPlain : upper.toNat < 128 ∧ upper ≠ '\x00') :
    optionalExponent source lower upper scan
      = .ok ⟨scan.stop + byteCount
            (((Number.splitExponent lower upper behind).1.map Exponent.text).getD []),
          if (Number.splitExponent lower upper behind).1.isSome then .floatLit else scan.token,
          scan.fault?.or (exponentFault? (Number.splitExponent lower upper behind).1)⟩ := by
  have isLower := stands.byteAt_eq_iff lowerPlain.1 lowerPlain.2
  have isUpper := stands.byteAt_eq_iff upperPlain.1 upperPlain.2
  simp only [optionalExponent, isLower, isUpper]
  cases behind with
  | nil =>
      have nothing : (Number.splitExponent lower upper []).1 = none := rfl
      rw [nothing, exponentFault?_none, Option.or_none]
      rfl
  | cons letter rest =>
      rw [splitExponent_cons]
      simp only [List.head?_cons, Option.some_inj]
      by_cases opens : (letter = lower || letter = upper) = true
      · have letterAscii : letter.toNat < 128 := by
          rcases (by simpa using opens : letter = lower ∨ letter = upper) with rfl | rfl
          · exact lowerPlain.1
          · exact upperPlain.1
        rw [if_pos opens, if_pos opens]
        exact exponent_eq stands letterAscii scan.fault?
      · rw [if_neg opens, if_neg opens, exponentFault?_none, Option.or_none]
        rfl

theorem splitFraction_point
    (base : Base)
    (lonePoint : Bool)
    (rest : List Char) :
    (Number.splitFraction base lonePoint ('.' :: rest)).1
      = if lonePoint && rest.head? == some '.' then none else some (Number.run base rest).1 := by
  rw [Number.splitFraction]
  split_ifs <;> rfl

theorem splitFraction_of_ne
    {base : Base}
    {lonePoint : Bool}
    (noPoint : behind.head? ≠ some '.') :
    Number.splitFraction base lonePoint behind = (none, behind) := by
  unfold Number.splitFraction
  split
  · exact absurd rfl noPoint
  · rfl

/-- A fraction is read from its point on. -/
theorem fraction_eq
    (stands : Stands source offset ('.' :: behind))
    (base : Base)
    (fault? : Option LexCause) :
    innerRun source base (offset + 1) fault?
      = .ok (⟨offset + byteCount ('.' :: (Number.run base behind).1),
            Number.digitCount (Number.run base behind).1,
            (Number.strayDigit? base (Number.run base behind).1).map ofChar⟩,
          fault?.or (misplacedIf (Number.hasOuterSeparator (Number.run base behind).1))) := by
  have restStands : Stands source (offset + 1) behind := stands.after ['.']
  rw [innerRun_eq restStands, Nat.add_assoc]
  rfl

theorem optionalFraction_eq
    {scan : NumberScan}
    (stands : Stands source scan.stop behind) :
    optionalFraction source scan
      = .ok ⟨scan.stop + byteCount
            (((Number.splitFraction .decimal true behind).1.map fun digits => '.' :: digits).getD []),
          if (Number.splitFraction .decimal true behind).1.isSome then .floatLit else scan.token,
          scan.fault?.or (misplacedIf (Number.hasOuterSeparator
            ((Number.splitFraction .decimal true behind).1.getD [])))⟩ := by
  have isPoint : byteAt source scan.stop = ofChar '.' ↔ behind.head? = some '.' :=
    stands.byteAt_eq_iff (by decide) (by decide)
  rw [optionalFraction]
  by_cases point : behind.head? = some '.'
  · obtain ⟨rest, rfl⟩ := List.head?_eq_some_iff.1 point
    have restStands : Stands source (scan.stop + 1) rest := stands.after ['.']
    have isSecond : byteAt source (scan.stop + 1) = ofChar '.' ↔ rest.head? = some '.' :=
      restStands.byteAt_eq_iff (by decide) (by decide)
    rw [splitFraction_point]
    by_cases second : rest.head? = some '.'
    · simp [isSecond.2 second, second, misplacedIf, Number.hasOuterSeparator,
        Number.hasLooseSeparator, byteCount]
    · have opens : (decide (byteAt source scan.stop = ofChar '.')
          && decide (byteAt source (scan.stop + 1) ≠ ofChar '.')) = true := by
        simp [isPoint, isSecond, second]
      rw [if_pos opens, if_neg (by simpa using second), fraction_eq stands]
      rfl
  · rw [splitFraction_of_ne point]
    simp [isPoint, point, misplacedIf, Number.hasOuterSeparator, Number.hasLooseSeparator, byteCount]

theorem hexadecimalFraction_eq
    {scan : NumberScan}
    (stands : Stands source scan.stop behind) :
    hexadecimalFraction source scan
      = .ok (⟨scan.stop + byteCount
              (((Number.splitFraction .hexadecimal false behind).1.map fun digits =>
                '.' :: digits).getD []),
            if (Number.splitFraction .hexadecimal false behind).1.isSome then .floatLit
            else scan.token,
            scan.fault?.or (misplacedIf (Number.hasOuterSeparator
              ((Number.splitFraction .hexadecimal false behind).1.getD [])))⟩,
          Number.digitCount ((Number.splitFraction .hexadecimal false behind).1.getD [])) := by
  have isPoint : byteAt source scan.stop = ofChar '.' ↔ behind.head? = some '.' :=
    stands.byteAt_eq_iff (by decide) (by decide)
  rw [hexadecimalFraction]
  by_cases point : behind.head? = some '.'
  · obtain ⟨rest, rfl⟩ := List.head?_eq_some_iff.1 point
    rw [if_pos (isPoint.2 point), fraction_eq stands]
    rfl
  · rw [splitFraction_of_ne point, if_neg (mt isPoint.1 point)]
    simp [misplacedIf, Number.hasOuterSeparator, Number.hasLooseSeparator, Number.digitCount,
      byteCount]

theorem isSome_splitExponent
    (lower upper : Char)
    (behind : List Char) :
    (Number.splitExponent lower upper behind).1.isSome
      = (behind.head? = some lower || behind.head? = some upper) := by
  cases behind with
  | nil => rfl
  | cons letter rest =>
      simp only [splitExponent_cons, List.head?_cons, Option.some_inj]
      split_ifs with opens
      · exact opens.symm
      · exact (Bool.eq_false_iff.2 opens).symm

theorem isSome_splitFraction (behind : List Char) :
    (Number.splitFraction .hexadecimal false behind).1.isSome = (behind.head? = some '.' : Bool) := by
  by_cases point : behind.head? = some '.'
  · obtain ⟨rest, rfl⟩ := List.head?_eq_some_iff.1 point
    rfl
  · rw [splitFraction_of_ne point, decide_eq_false point]
    rfl

theorem hexadecimalRest_eq
    {scan : NumberScan}
    {fraction? : Option (List Char)}
    {exponent? : Option Exponent}
    {unscaled rest : List Char}
    (stands : Stands source scan.stop behind)
    (isFraction : Number.splitFraction .hexadecimal false behind = (fraction?, unscaled))
    (isExponent : Number.splitExponent 'p' 'P' unscaled = (exponent?, rest)) :
    hexadecimalRest source scan
      = .ok (⟨scan.stop + byteCount ((fraction?.map fun digits => '.' :: digits).getD [])
              + byteCount ((exponent?.map Exponent.text).getD []),
            if exponent?.isSome then .floatLit
            else if fraction?.isSome then .floatLit
            else scan.token,
            ((scan.fault?.or (misplacedIf (Number.hasOuterSeparator (fraction?.getD [])))).or
              (exponentFault? exponent?)).or
              (if fraction?.isSome && exponent?.isNone then some .missingHexExponent else none)⟩,
          Number.digitCount (fraction?.getD [])) := by
  have fractionStands := stands.behindFraction isFraction
  have isPoint : byteAt source scan.stop = ofChar '.' ↔ behind.head? = some '.' :=
    stands.byteAt_eq_iff (by decide) (by decide)
  have isLower {stop : Nat} (stands : Stands source stop unscaled) :
      byteAt source stop = ofChar 'p' ↔ unscaled.head? = some 'p' :=
    stands.byteAt_eq_iff (by decide) (by decide)
  have isUpper {stop : Nat} (stands : Stands source stop unscaled) :
      byteAt source stop = ofChar 'P' ↔ unscaled.head? = some 'P' :=
    stands.byteAt_eq_iff (by decide) (by decide)
  have pointed := isSome_splitFraction behind
  have scaled := isSome_splitExponent 'p' 'P' unscaled
  rw [isFraction] at pointed
  rw [isExponent] at scaled
  rw [hexadecimalRest, hexadecimalFraction_eq stands, isFraction, Checked.ok_bind]
  dsimp only
  rw [optionalExponent_eq fractionStands (by decide) (by decide), isExponent, Checked.ok_bind]
  simp only [isPoint, isLower fractionStands, isUpper fractionStands, ← pointed, ← scaled]
  rw [noteIf_eq, ← Option.not_isSome]

end

end Bytes
end GoFront
