import GoFront.Proofs.Lexing.ByteNumbers

/-!
# Numbers in any bytes

Numbers are written in ASCII. A byte that is no ASCII character ends a number, whether it belongs to a
character or not. So nothing changes if it is replaced by the byte of a character that no number has, and
what is known of numbers in texts is known of numbers in any bytes.
-/

namespace GoFront
namespace Bytes

open Text Numeral

/-! ## Masked bytes -/

/-- Bytes that are no ASCII characters are replaced by a character that no number has. -/
def mask (byte : UInt8) : UInt8 :=
  if byte < 128 then byte else 1

section

variable {byte : UInt8} {base : Base}

theorem mask_of_lt (isAscii : byte.toNat < 128) : mask byte = byte :=
  if_pos (UInt8.lt_iff_toNat_lt.2 isAscii)

theorem mask_of_not_lt (notAscii : ¬ byte.toNat < 128) : mask byte = 1 :=
  if_neg fun low => notAscii (UInt8.lt_iff_toNat_lt.1 low)

theorem mask_lt (byte : UInt8) : (mask byte).toNat < 128 := by
  by_cases isAscii : byte.toNat < 128
  · rwa [mask_of_lt isAscii]
  · rw [mask_of_not_lt isAscii]
    decide

/-- Only a byte that is kept is masked as a character of a number. -/
theorem lt_of_mask_ne (visible : mask byte ≠ 1) : byte.toNat < 128 := by
  by_contra notAscii
  exact visible (mask_of_not_lt notAscii)

/-- What holds of ASCII bytes only, and not of the one that replaces the others, holds of a byte exactly if
it holds of what the byte is masked as. -/
theorem mask_iff
    (holds : UInt8 -> Prop)
    (ascii : ∀ byte, holds byte -> byte.toNat < 128)
    (hidden : ¬ holds 1)
    (byte : UInt8) :
    holds (mask byte) ↔ holds byte := by
  by_cases isAscii : byte.toNat < 128
  · rw [mask_of_lt isAscii]
  · rw [mask_of_not_lt isAscii]
    exact iff_of_false hidden fun here => isAscii (ascii byte here)

theorem mask_eq_iff
    {ascii : Char}
    (isAscii : ascii.toNat < 128)
    (visible : ascii ≠ '\x01') :
    mask byte = ofChar ascii ↔ byte = ofChar ascii := by
  refine mask_iff (fun byte => byte = ofChar ascii) ?_ ?_ byte
  · rintro byte rfl
    rwa [toNat_ofChar isAscii]
  · intro same
    have sameNumber := congrArg UInt8.toNat same
    rw [toNat_ofChar isAscii] at sameNumber
    exact visible (Char.toNat_inj.1 sameNumber.symm)

/-- Letters that announce a base are not masked. -/
theorem or_mask_eq_iff
    {letter : Char}
    (isAscii : letter.toNat < 128)
    (visible : (1 ||| 0x20 : UInt8) ≠ ofChar letter) :
    mask byte ||| 0x20 = ofChar letter ↔ byte ||| 0x20 = ofChar letter := by
  refine mask_iff (fun byte => byte ||| 0x20 = ofChar letter) ?_ visible byte
  intro byte same
  have sameNumber := congrArg UInt8.toNat same
  rw [toNat_ofChar isAscii, UInt8.toNat_or] at sameNumber
  exact Nat.lt_of_le_of_lt Nat.left_le_or (sameNumber ▸ isAscii)

theorem isDigitOf_mask : isDigitOf base (toChar (mask byte)) = isDigitOf base (toChar byte) := by
  rw [Bool.eq_iff_iff]
  refine mask_iff (fun byte => isDigitOf base (toChar byte) = true) ?_ ?_ byte
  · exact fun byte => isAscii_of_isDigitOf
  · cases base <;> decide

theorem isDigit_mask (byte : UInt8) : (toChar (mask byte)).isDigit = (toChar byte).isDigit := by
  rw [Bool.eq_iff_iff]
  refine mask_iff (fun byte => (toChar byte).isDigit = true) ?_ (by decide) byte
  intro byte isDigit
  exact isAscii_of_isDigitOf (Number.isDigitOf_decimal_of_isDigit _ isDigit)

theorem mask_of_isDigitOf (isDigit : isDigitOf base (toChar byte) = true) : mask byte = byte := by
  refine mask_of_lt ?_
  have isAscii := isAscii_of_isDigitOf isDigit
  rwa [toNat_toChar] at isAscii

/-- Whether a byte is eight or nine is told of what it is masked as, and neither is masked. -/
theorem find?_map_mask (bytes : List UInt8) :
    (bytes.map mask).find? (fun byte => byte = ofChar '8' || byte = ofChar '9')
      = bytes.find? (fun byte => byte = ofChar '8' || byte = ofChar '9') := by
  have told : (fun byte => decide (byte = ofChar '8') || decide (byte = ofChar '9')) ∘ mask
      = fun byte => decide (byte = ofChar '8') || decide (byte = ofChar '9') := by
    funext byte
    simp (disch := decide) only [Function.comp_apply, mask_eq_iff]
  rw [List.find?_map, told]
  cases foundEq : bytes.find? (fun byte => byte = ofChar '8' || byte = ofChar '9') with
  | none => rfl
  | some found =>
      have isDigit := List.find?_some foundEq
      simp only [Bool.or_eq_true, decide_eq_true_iff] at isDigit
      have kept : mask found = found := by
        rcases isDigit with rfl | rfl <;> rfl
      rw [Option.map_some, kept]

end

/-! ## Numbers in masked bytes -/

section

variable {source : List UInt8} {base : Base} {offset start : Nat} {fault? : Option LexCause}

theorem byteAt_mask (source : List UInt8) (offset : Nat) :
    byteAt (source.map mask) offset = mask (byteAt source offset) := by
  rw [byteAt, byteAt, List.getElem?_map]
  cases source[offset]? <;> rfl

/-- The byte at an offset is told from the characters of numbers as before. -/
theorem byteAt_mask_eq_iff
    {ascii : Char}
    (isAscii : ascii.toNat < 128)
    (visible : ascii ≠ '\x01') :
    byteAt (source.map mask) offset = ofChar ascii ↔ byteAt source offset = ofChar ascii := by
  rw [byteAt_mask, mask_eq_iff isAscii visible]

theorem getElem?_mask
    {byte : UInt8}
    (found : source[offset]? = some byte) :
    (source.map mask)[offset]? = some (mask byte) := by
  rw [List.getElem?_map, found, Option.map_some]

/-- A run goes on with the digits of its base, which are not masked. -/
theorem digitRun_mask
    (source : List UInt8)
    (base : Base)
    (offset count : Nat)
    (stray? : Option UInt8)
    (behindSeparator : Bool)
    (fault? : Option LexCause) :
    digitRun (source.map mask) base offset count stray? behindSeparator fault?
      = digitRun source base offset count stray? behindSeparator fault? := by
  induction offset, count, stray?, behindSeparator, fault? using digitRun.induct source base with
  | case1 offset count stray? behindSeparator fault? found =>
      have foundMasked : (source.map mask)[offset]? = none := by
        rw [List.getElem?_map, found, Option.map_none]
      rw [digitRun_of_none found, digitRun_of_none foundMasked]
  | case2 offset count stray? behindSeparator fault? found inductionHypothesis =>
      have kept : mask (ofChar '_') = ofChar '_' := rfl
      rw [digitRun_of_byte found, digitRun_of_byte (getElem?_mask found), kept, if_pos rfl, if_pos rfl,
        inductionHypothesis]
  | case3 offset count stray? behindSeparator fault? byte found noSeparator isDigit
      inductionHypothesis =>
      have kept : mask byte = byte := mask_of_isDigitOf isDigit
      have isRunDigit : isDigitOf (runBase base) (toChar byte) = true := isDigit
      rw [digitRun_of_byte found, digitRun_of_byte (getElem?_mask found), kept, if_neg noSeparator,
        if_neg noSeparator, if_pos isRunDigit, if_pos isRunDigit]
      simp only [inductionHypothesis]
  | case4 offset count stray? behindSeparator fault? byte found noSeparator noDigit =>
      have noSeparatorMasked : mask byte ≠ ofChar '_' :=
        (mask_eq_iff (by decide) (by decide)).not.2 noSeparator
      have noRunDigit : ¬ isDigitOf (runBase base) (toChar byte) = true := noDigit
      rw [digitRun_of_byte found, digitRun_of_byte (getElem?_mask found), if_neg noSeparator,
        if_neg noSeparatorMasked, isDigitOf_mask, if_neg noRunDigit, if_neg noRunDigit]

theorem innerRun_mask :
    innerRun (source.map mask) base offset fault? = innerRun source base offset fault? := by
  simp (disch := decide) only [innerRun, digitRun_mask, byteAt_mask_eq_iff]

theorem exponent_mask :
    exponent (source.map mask) offset fault? = exponent source offset fault? := by
  simp (disch := decide) only [exponent, innerRun_mask, byteAt_mask_eq_iff]

variable {scan : NumberScan}

/-- Whether there is an exponent is told by its letters. -/
theorem optionalExponent_mask
    {lower upper : Char}
    (lowerAscii : lower.toNat < 128 ∧ lower ≠ '\x01')
    (upperAscii : upper.toNat < 128 ∧ upper ≠ '\x01') :
    optionalExponent (source.map mask) lower upper scan
      = optionalExponent source lower upper scan := by
  rw [optionalExponent, optionalExponent, exponent_mask]
  simp only [byteAt_mask_eq_iff lowerAscii.1 lowerAscii.2, byteAt_mask_eq_iff upperAscii.1 upperAscii.2]

theorem pointNumber_mask : pointNumber (source.map mask) start = pointNumber source start := by
  simp (disch := decide) only [pointNumber, innerRun_mask, optionalExponent_mask]

theorem hexadecimalFraction_mask :
    hexadecimalFraction (source.map mask) scan = hexadecimalFraction source scan := by
  simp (disch := decide) only [hexadecimalFraction, innerRun_mask, byteAt_mask_eq_iff]

theorem hexadecimalRest_mask :
    hexadecimalRest (source.map mask) scan = hexadecimalRest source scan := by
  simp (disch := decide) only [hexadecimalRest, hexadecimalFraction_mask, optionalExponent_mask,
    byteAt_mask_eq_iff]

theorem baseOf_mask (byte : UInt8) : baseOf (mask byte) = baseOf byte := by
  simp (disch := decide) only [baseOf, or_mask_eq_iff]

theorem prefixedNumber_mask :
    prefixedNumber (source.map mask) start = prefixedNumber source start := by
  simp only [prefixedNumber, byteAt_mask, baseOf_mask, digitRun_mask, hexadecimalRest_mask]

theorem optionalFraction_mask :
    optionalFraction (source.map mask) scan = optionalFraction source scan := by
  simp (disch := decide) only [optionalFraction, innerRun_mask, byteAt_mask_eq_iff, ne_eq]

theorem slice_mask (start stop : Nat) :
    slice (source.map mask) start stop = (slice source start stop).map (List.map mask) := by
  rw [slice, slice, List.length_map]
  split_ifs
  · rw [← List.map_take, ← List.map_drop]
    rfl
  · rfl

theorem judgeWhole_mask
    (start wholeStop : Nat) :
    judgeWhole (source.map mask) start wholeStop scan = judgeWhole source start wholeStop scan := by
  simp (disch := decide) only [judgeWhole, byteAt_mask_eq_iff, ne_eq, slice_mask]
  congr 1
  cases slice source start wholeStop with
  | error fault => rfl
  | ok digits =>
      simp only [Except.map, Checked.ok_bind, find?_map_mask]

theorem plainNumber_mask : plainNumber (source.map mask) start = plainNumber source start := by
  simp (disch := decide) only [plainNumber, digitRun_mask, optionalFraction_mask, optionalExponent_mask,
    judgeWhole_mask]

theorem announcesBase_mask :
    announcesBase (source.map mask) offset = announcesBase source offset := by
  simp (disch := decide) only [announcesBase, byteAt_mask, mask_eq_iff, or_mask_eq_iff]

theorem numberBody_mask : numberBody (source.map mask) start = numberBody source start := by
  simp (disch := decide) only [numberBody, byteAt_mask_eq_iff, pointNumber_mask, announcesBase_mask,
    prefixedNumber_mask, plainNumber_mask]

/-- A number is read from masked bytes as from the bytes themselves. -/
theorem number_mask : number (source.map mask) start = number source start := by
  simp (disch := decide) only [number, numberBody_mask, byteAt_mask_eq_iff]

end

/-! ## Numbers in any bytes -/

section

variable {source : List UInt8}

/-- The text whose bytes the masked bytes are. -/
def maskedText (source : List UInt8) : List Char :=
  source.map fun byte => toChar (mask byte)

theorem ofChar_toChar (byte : UInt8) : ofChar (toChar byte) = byte :=
  UInt8.toUInt8_toUInt32 byte

theorem toChar_mask_eq_iff
    {ascii : Char}
    (isAscii : ascii.toNat < 128)
    (visible : ascii ≠ '\x01')
    (byte : UInt8) :
    toChar (mask byte) = ascii ↔ byte = ofChar ascii := by
  rw [← mask_eq_iff isAscii visible]
  constructor
  · rintro rfl
    exact (ofChar_toChar _).symm
  · intro same
    rw [same, toChar_ofChar isAscii]

theorem isAscii_of_mem_maskedText :
    ∀ character ∈ maskedText source, character.toNat < 128 := by
  intro character member
  obtain ⟨byte, -, rfl⟩ := List.mem_map.1 member
  exact mask_lt byte

theorem byteCount_maskedText (source : List UInt8) :
    byteCount (maskedText source) = source.length := by
  rw [byteCount_of_ascii isAscii_of_mem_maskedText, maskedText, List.length_map]

theorem bytesOf_maskedText (source : List UInt8) : bytesOf (maskedText source) = source.map mask := by
  induction source with
  | nil => rfl
  | cons byte rest inductionHypothesis =>
      have isAscii : (toChar (mask byte)).toNat < 128 := mask_lt byte
      rw [maskedText, List.map_cons, bytesOf_cons, utf8EncodeChar_of_ascii isAscii, ofChar_toChar]
      exact congrArg (mask byte :: ·) inductionHypothesis

theorem maskedText_bytesOf
    {text : List Char}
    (isAscii : ∀ character ∈ text, character.toNat < 128) :
    maskedText (bytesOf text) = text := by
  induction text with
  | nil => rfl
  | cons character rest inductionHypothesis =>
      obtain ⟨here, behind⟩ := List.forall_mem_cons.1 isAscii
      have kept : mask (ofChar character) = ofChar character :=
        mask_of_lt (by rwa [toNat_ofChar here])
      rw [bytesOf_cons, utf8EncodeChar_of_ascii here, List.singleton_append, maskedText, List.map_cons,
        kept, toChar_ofChar here]
      exact congrArg (character :: ·) (inductionHypothesis behind)

/-- Where nothing is masked, the bytes are those of the text. -/
theorem bytesOf_maskedText_of_visible
    (visible : ∀ character ∈ maskedText source, character ≠ '\x01') :
    bytesOf (maskedText source) = source := by
  rw [bytesOf_maskedText]
  refine (List.map_congr_left ?_).trans (List.map_id source)
  intro byte member
  have notHidden := visible _ (List.mem_map_of_mem member)
  exact mask_of_lt (lt_of_mask_ne fun hidden => notHidden (congrArg toChar hidden))

theorem visible_of_shape
    {number : Number}
    (shape : number.Shape) :
    ∀ character ∈ number.text, character ≠ '\x01' := by
  refine forall_mem_of_shape ?_ (by simp [marks]) shape
  rintro base character continues rfl
  cases base <;> exact absurd continues (by decide)

/-- Bytes are those of a literal exactly if they are a literal once they are masked. -/
theorem literal_maskedText_iff (token : Token) :
    Literal token (maskedText source) ↔ ∃ text, source = bytesOf text ∧ Literal token text := by
  constructor
  · intro isLiteral
    obtain ⟨number, wellMade, textEq, -⟩ := isLiteral.exists_number
    have visible := visible_of_shape (wellMade_iff.1 wellMade).1
    rw [textEq] at visible
    exact ⟨maskedText source, (bytesOf_maskedText_of_visible visible).symm, isLiteral⟩
  · rintro ⟨text, rfl, isLiteral⟩
    obtain ⟨number, wellMade, textEq, -⟩ := isLiteral.exists_number
    have isAscii := isAscii_of_shape (wellMade_iff.1 wellMade).1
    rw [textEq] at isAscii
    rwa [maskedText_bytesOf isAscii]

/-- A number takes in none of the bytes that are masked. -/
theorem isAscii_of_mem_take
    {number : Number}
    (shape : number.Shape)
    (isPrefix : number.text <+: maskedText source) :
    ∀ byte ∈ source.take number.text.length, byte.toNat < 128 := by
  intro byte member
  have inText : toChar (mask byte) ∈ number.text := by
    rw [List.prefix_iff_eq_take.1 isPrefix, maskedText, ← List.map_take]
    exact List.mem_map_of_mem member
  exact lt_of_mask_ne fun hidden =>
    visible_of_shape shape _ inText (congrArg toChar hidden)

/-- A number is a token of all the bytes exactly if it is a token of the whole text. -/
theorem scan_eq_iff (text : List Char) (token : Token) :
    (⟨byteCount (Number.split text).1.text, (Number.split text).1.token,
        (Number.split text).1.fault?⟩ : NumberScan) = ⟨byteCount text, token, none⟩
      ↔ Piece.number text = ⟨.token token, text⟩ := by
  have isWhole : byteCount (Number.split text).1.text = byteCount text
      ↔ (Number.split text).1.text = text := by
    refine ⟨fun sameCount => ?_, congrArg byteCount⟩
    have joined := Number.split_append text
    have counted := congrArg byteCount joined
    rw [byteCount_append] at counted
    by_cases noRest : (Number.split text).2 = []
    · rwa [noRest, List.append_nil] at joined
    · have positive := byteCount_pos _ noRest
      omega
  rw [number_eq_token_iff_split, NumberScan.mk.injEq, isWhole, eq_comm (a := token)]
  exact and_left_comm

/-- Any bytes that begin with a digit, or with a point in front of a digit, begin with a number, which is
read without a stop. It is a faultless token of all the bytes exactly if they are those of a literal of
that token. In any case it ends within the bytes and behind the first of them, or the second if the first
is a point, and there are ASCII characters only in front of its end. -/
theorem number_of_bytes
    (first : UInt8)
    (rest : List UInt8)
    (starts : (toChar first).isDigit = true
      ∨ first = ofChar '.' ∧ rest.head?.any (fun byte => (toChar byte).isDigit) = true) :
    ∃ scan, number (first :: rest) 0 = .ok scan
      ∧ (∀ token, scan = ⟨(first :: rest).length, token, none⟩
        ↔ ∃ text, first :: rest = bytesOf text ∧ Literal token text)
      ∧ (if first = ofChar '.' then 2 else 1) ≤ scan.stop
      ∧ scan.stop ≤ (first :: rest).length
      ∧ ∀ byte ∈ (first :: rest).take scan.stop, byte.toNat < 128 := by
  have isPoint : toChar (mask first) = '.' ↔ first = ofChar '.' :=
    toChar_mask_eq_iff (by decide) (by decide) first
  have startsMasked : (toChar (mask first)).isDigit = true
      ∨ toChar (mask first) = '.' ∧ (maskedText rest).head?.any Char.isDigit = true := by
    rw [isDigit_mask, isPoint, maskedText, List.head?_map, Option.any_map]
    simpa only [Function.comp_def, isDigit_mask] using starts
  have stands : Stands ((first :: rest).map mask) 0 (toChar (mask first) :: maskedText rest) := by
    rw [← bytesOf_maskedText]
    exact stands_start _
  have textCount : byteCount (toChar (mask first) :: maskedText rest) = (first :: rest).length :=
    byteCount_maskedText (first :: rest)
  have isNumber := number_eq stands startsMasked
  rw [number_mask] at isNumber
  have shape := Number.split_shape (toChar (mask first) :: maskedText rest)
  have isPrefix : (Number.split (toChar (mask first) :: maskedText rest)).1.text
      <+: maskedText (first :: rest) :=
    ⟨_, Number.split_append _⟩
  have numberCount := byteCount_of_ascii (isAscii_of_shape shape)
  refine ⟨_, isNumber, fun token => ?_, ?_, ?_, ?_⟩
  · rw [← literal_maskedText_iff, Nat.zero_add, ← textCount, scan_eq_iff]
    exact number_eq_token_iff_literal startsMasked token
  · rw [Nat.zero_add, ← if_congr isPoint rfl rfl]
    exact least_le_byteCount startsMasked
  · rw [Nat.zero_add, ← textCount]
    exact byteCount_split_le _
  · rw [Nat.zero_add, numberCount]
    exact isAscii_of_mem_take shape isPrefix

end

end Bytes
end GoFront
