import GoFront.Proofs.Lexing.ByteScanning
import GoFront.Proofs.Lexing.Spans

/-!
# Texts as bytes

The first byte of a character tells ASCII characters apart, and no other byte begins a character. Steps
that start and stop between characters succeed.
-/

namespace GoFront
namespace Bytes

/-! ## Characters -/

/-- The first byte of a character. -/
def lead (character : Char) : UInt8 :=
  (String.utf8EncodeChar character).headD 0

/-- What can be told of bytes one by one holds of all of them. -/
@[elab_as_elim]
theorem byte_cases
    {motive : UInt8 -> Prop}
    (each : ∀ number : Fin 256, motive (UInt8.ofNat number))
    (byte : UInt8) :
    motive byte := by
  have here := each ⟨byte.toNat, byte.toNat_lt⟩
  rwa [UInt8.ofNat_toNat] at here

theorem continues_iff (byte : UInt8) :
    continues byte = true ↔ 128 ≤ byte.toNat ∧ byte.toNat < 192 := by
  refine byte_cases ?_ byte
  decide +kernel

theorem utf8Size_of_ascii
    {character : Char}
    (isAscii : character.toNat < 128) :
    character.utf8Size = 1 :=
  Char.utf8Size_eq_one_iff.2 (UInt32.le_iff_toNat_le.2 (Nat.le_of_lt_succ isAscii))

theorem utf8EncodeChar_of_ascii
    {character : Char}
    (isAscii : character.toNat < 128) :
    String.utf8EncodeChar character = [ofChar character] :=
  String.utf8EncodeChar_eq_singleton (utf8Size_of_ascii isAscii)

theorem toNat_ofChar
    {character : Char}
    (isAscii : character.toNat < 128) :
    (ofChar character).toNat = character.toNat := by
  have fits : character.toNat < 256 := by omega
  rw [ofChar, Char.toUInt8, UInt32.toNat_toUInt8]
  exact Nat.mod_eq_of_lt fits

/-- A character outside ASCII begins with a byte of its own kind, and other bytes continue it. -/
theorem exists_utf8EncodeChar
    {character : Char}
    (notAscii : 128 ≤ character.toNat) :
    ∃ first others, String.utf8EncodeChar character = first :: others
      ∧ 192 ≤ first.toNat ∧ ∀ byte ∈ others, continues byte = true := by
  have further (value : Nat) : continues (UInt8.ofNat (value % 64 + 128)) = true := by
    rw [continues_iff, UInt8.toNat_ofNat_of_lt' (by show _ < 256; omega)]
    omega
  have large : ¬ character.val.toNat ≤ 127 := by
    change ¬ character.toNat ≤ 127
    omega
  rw [String.utf8EncodeChar, if_neg large]
  split_ifs
  all_goals
    refine ⟨_, _, rfl, ?_, by simp only [List.forall_mem_cons, further, true_and]; nofun⟩
    rw [UInt8.toNat_ofNat_of_lt' (by show _ < 256; omega)]
    omega

theorem lead_of_ascii
    {character : Char}
    (isAscii : character.toNat < 128) :
    lead character = ofChar character := by
  rw [lead, utf8EncodeChar_of_ascii isAscii]
  rfl

theorem le_lead
    {character : Char}
    (notAscii : 128 ≤ character.toNat) :
    192 ≤ (lead character).toNat := by
  obtain ⟨first, others, encoded, high, -⟩ := exists_utf8EncodeChar notAscii
  rwa [lead, encoded]

/-- The first byte of a character tells whether it is a given ASCII character. -/
theorem lead_eq_iff
    {character ascii : Char}
    (isAscii : ascii.toNat < 128) :
    lead character = ofChar ascii ↔ character = ascii := by
  refine ⟨fun same => ?_, fun same => by rw [same, lead_of_ascii isAscii]⟩
  have sameNumber := congrArg UInt8.toNat same
  rw [toNat_ofChar isAscii] at sameNumber
  by_cases small : character.toNat < 128
  · rw [lead_of_ascii small, toNat_ofChar small] at sameNumber
    exact Char.toNat_inj.1 sameNumber
  · have high := le_lead (Nat.le_of_not_lt small)
    omega

/-- No character begins with a byte that continues one. -/
theorem continues_lead (character : Char) : continues (lead character) = false := by
  rw [Bool.eq_false_iff, Ne, continues_iff]
  by_cases small : character.toNat < 128
  · rw [lead_of_ascii small, toNat_ofChar small]
    omega
  · have high := le_lead (Nat.le_of_not_lt small)
    omega

theorem toNat_toChar (byte : UInt8) : (toChar byte).toNat = byte.toNat := by
  rfl

theorem toChar_ofChar
    {character : Char}
    (isAscii : character.toNat < 128) :
    toChar (ofChar character) = character := by
  rw [← Char.toNat_inj, toNat_toChar, toNat_ofChar isAscii]

theorem hexValue?_eq_none
    {character : Char}
    (notAscii : 128 ≤ character.toNat) :
    Text.hexValue? character = none := by
  have noRange {least most : Char} (isAscii : most.toNat < 128) :
      (decide (least ≤ character) && decide (character ≤ most)) = false := by
    have above : ¬ character ≤ most := fun below => by
      have := Nat.le_trans notAscii (show character.toNat ≤ most.toNat from below)
      omega
    rw [decide_eq_false above, Bool.and_false]
  rw [Text.hexValue?, noRange (by decide), noRange (by decide), noRange (by decide)]
  rfl

theorem isAscii_of_digitValue?
    {base : Text.Base}
    {character : Char}
    {digit : Nat}
    (isDigit : Text.digitValue? base character = some digit) :
    character.toNat < 128 := by
  by_contra notAscii
  rw [Text.digitValue?, hexValue?_eq_none (Nat.le_of_not_lt notAscii)] at isDigit
  cases isDigit

theorem isAscii_of_isDigitOf
    {base : Text.Base}
    {character : Char}
    (isDigit : Text.isDigitOf base character = true) :
    character.toNat < 128 := by
  obtain ⟨digit, worth⟩ := Option.isSome_iff_exists.1 isDigit
  exact isAscii_of_digitValue? worth

/-- What can be told of ASCII characters one by one holds of all of them. -/
@[elab_as_elim]
theorem ascii_cases
    {motive : Char -> Prop}
    {character : Char}
    (isAscii : character.toNat < 128)
    (each : ∀ number : Fin 128, motive (Char.ofNat number)) :
    motive character := by
  have here := each ⟨character.toNat, isAscii⟩
  rwa [Char.ofNat_toNat] at here

/-- As a digit the first byte of a character is worth what the character is. -/
theorem digitValue?_toChar_lead
    (base : Text.Base)
    (character : Char) :
    Text.digitValue? base (toChar (lead character)) = Text.digitValue? base character := by
  by_cases small : character.toNat < 128
  · rw [lead_of_ascii small, toChar_ofChar small]
  · have large : 128 ≤ (toChar (lead character)).toNat := by
      rw [toNat_toChar]
      have high := le_lead (Nat.le_of_not_lt small)
      omega
    rw [Text.digitValue?, Text.digitValue?, hexValue?_eq_none large,
      hexValue?_eq_none (Nat.le_of_not_lt small)]

/-- The bytes of a character are its first one and bytes that continue it. -/
theorem exists_bytesOf_cons
    (character : Char)
    (behind : List Char) :
    ∃ others, bytesOf (character :: behind) = lead character :: (others ++ bytesOf behind)
      ∧ others.length + 1 = byteCount [character]
      ∧ ∀ byte ∈ others, continues byte = true := by
  have counted := length_bytesOf [character]
  rw [bytesOf_cons, List.length_append] at counted
  by_cases small : character.toNat < 128
  · rw [utf8EncodeChar_of_ascii small] at counted
    refine ⟨[], ?_, counted, by simp⟩
    rw [bytesOf_cons, utf8EncodeChar_of_ascii small, lead_of_ascii small]
    rfl
  · obtain ⟨first, others, encoded, -, continued⟩ := exists_utf8EncodeChar (Nat.le_of_not_lt small)
    rw [encoded] at counted
    refine ⟨others, ?_, counted, continued⟩
    rw [bytesOf_cons, lead, encoded]
    rfl

/-- ASCII characters are counted like their bytes. -/
theorem byteCount_of_ascii
    {text : List Char}
    (isAscii : ∀ character ∈ text, character.toNat < 128) :
    byteCount text = text.length := by
  induction text with
  | nil => rfl
  | cons character rest inductionHypothesis =>
      obtain ⟨here, behind⟩ := List.forall_mem_cons.1 isAscii
      rw [byteCount, utf8Size_of_ascii here, inductionHypothesis behind, List.length_cons,
        Nat.add_comm]

/-- No character has less than one byte. -/
theorem length_le_byteCount (text : List Char) : text.length ≤ byteCount text := by
  induction text with
  | nil => exact Nat.le_refl 0
  | cons character rest inductionHypothesis =>
      have positive := character.utf8Size_pos
      rw [byteCount, List.length_cons]
      omega

/-! ## Places between characters -/

/-- An offset lies between characters, of which those behind it are given. -/
def Stands (bytes : List UInt8) (offset : Nat) (behind : List Char) : Prop :=
  ∃ front, bytes = bytesOf (front ++ behind) ∧ offset = byteCount front

theorem stands_start (text : List Char) : Stands (bytesOf text) 0 text :=
  ⟨[], rfl, rfl⟩

namespace Stands

variable {bytes : List UInt8} {offset : Nat} {taken behind : List Char} {character : Char}

theorem drop_eq (stands : Stands bytes offset behind) : bytes.drop offset = bytesOf behind := by
  obtain ⟨front, rfl, rfl⟩ := stands
  rw [bytesOf_append, ← length_bytesOf front, List.drop_left]

theorem length_eq (stands : Stands bytes offset behind) :
    bytes.length = offset + byteCount behind := by
  obtain ⟨front, rfl, rfl⟩ := stands
  rw [length_bytesOf, byteCount_append]

theorem getElem?_add
    (stands : Stands bytes offset behind)
    (distance : Nat) :
    bytes[offset + distance]? = (bytesOf behind)[distance]? := by
  rw [← stands.drop_eq, List.getElem?_drop]

theorem getElem?_eq (stands : Stands bytes offset behind) :
    bytes[offset]? = behind.head?.map lead := by
  have found := stands.getElem?_add 0
  rw [Nat.add_zero] at found
  rw [found]
  cases behind with
  | nil => rfl
  | cons character behind =>
      obtain ⟨others, encoded, -⟩ := exists_bytesOf_cons character behind
      rw [encoded]
      rfl

/-- Behind the first byte of a character stand bytes that continue it. -/
theorem exists_continues
    {distance : Nat}
    (stands : Stands bytes offset (character :: behind))
    (positive : 0 < distance)
    (inside : distance < byteCount [character]) :
    ∃ byte, bytes[offset + distance]? = some byte ∧ continues byte = true := by
  obtain ⟨others, encoded, count, continued⟩ := exists_bytesOf_cons character behind
  obtain ⟨further, rfl⟩ := Nat.exists_eq_add_of_lt positive
  have inOthers : further < others.length := by omega
  refine ⟨others[further], ?_, continued _ (List.getElem_mem inOthers)⟩
  rw [stands.getElem?_add, encoded, Nat.zero_add, List.getElem?_cons_succ,
    List.getElem?_append_left inOthers, List.getElem?_eq_getElem inOthers]

theorem after
    (taken : List Char)
    (stands : Stands bytes offset (taken ++ behind)) :
    Stands bytes (offset + byteCount taken) behind := by
  obtain ⟨front, rfl, rfl⟩ := stands
  exact ⟨front ++ taken, by rw [List.append_assoc], (byteCount_append front taken).symm⟩

theorem isBoundary (stands : Stands bytes offset behind) : isBoundary bytes offset = true := by
  rw [Bytes.isBoundary, stands.getElem?_eq]
  cases behind with
  | nil => simp [stands.length_eq, byteCount]
  | cons character behind => simp [continues_lead]

theorem tailFrom_eq (stands : Stands bytes offset behind) :
    tailFrom bytes offset = .ok (bytesOf behind) := by
  rw [tailFrom, if_pos (by rw [stands.length_eq]; omega), stands.drop_eq]

theorem slice_eq (stands : Stands bytes offset (taken ++ behind)) :
    slice bytes offset (offset + byteCount taken) = .ok (bytesOf taken) := by
  have inRange : offset + byteCount taken ≤ bytes.length := by
    rw [stands.length_eq, byteCount_append]
    omega
  rw [slice, if_pos (by simpa using inRange), List.drop_take, stands.drop_eq, bytesOf_append,
    Nat.add_sub_cancel_left, ← length_bytesOf taken, List.take_left]

/-- A stop is moved on to any place between characters. -/
theorem bump_to
    {count : Nat}
    (stands : Stands bytes (offset + count) behind) :
    bump bytes offset count = .ok (offset + count) := by
  have inRange : ¬ bytes.length < offset + count := by
    rw [stands.length_eq]
    omega
  rw [bump, if_neg inRange, if_pos stands.isBoundary]

theorem bump_eq (stands : Stands bytes offset (taken ++ behind)) :
    bump bytes offset (byteCount taken) = .ok (offset + byteCount taken) :=
  (stands.after taken).bump_to

theorem byteAt_eq_lead (stands : Stands bytes offset (character :: behind)) :
    byteAt bytes offset = lead character := by
  rw [byteAt, stands.getElem?_eq]
  rfl

/-- The byte at an offset tells whether a given ASCII character stands there. -/
theorem byteAt_eq_iff
    {ascii : Char}
    (stands : Stands bytes offset behind)
    (isAscii : ascii.toNat < 128)
    (notNul : ascii ≠ '\x00') :
    byteAt bytes offset = ofChar ascii ↔ behind.head? = some ascii := by
  rw [byteAt, stands.getElem?_eq]
  cases behind with
  | nil =>
      refine ⟨fun same => absurd ?_ notNul, nofun⟩
      have sameNumber := congrArg UInt8.toNat same
      rw [toNat_ofChar isAscii] at sameNumber
      exact Char.toNat_inj.1 sameNumber.symm
  | cons character behind =>
      rw [List.head?_cons, Option.map_some, Option.getD_some, Option.some_inj]
      exact lead_eq_iff isAscii

end Stands

/-! ## What is found -/

/-- A scanner succeeds on a piece that starts at an offset. -/
def Finds (result : Checked Scanned) (start : Nat) (piece : Piece) : Prop :=
  ∃ scanned, result = .ok scanned
    ∧ scanned.stop = start + byteCount piece.text ∧ scanned.kind = piece.kind

theorem finds_ofFault
    {result : Checked Scanned}
    {start : Nat}
    {token : Token}
    {text : List Char}
    {fault? : Option LexCause}
    (found : result = .ok ⟨start + byteCount text, token, fault?⟩) :
    Finds result start (Piece.ofFault? token text fault?) := by
  refine ⟨_, found, by rw [Piece.ofFault?_text], ?_⟩
  cases fault? <;> rfl

end Bytes
end GoFront
