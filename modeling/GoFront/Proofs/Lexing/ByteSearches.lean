import GoFront.Proofs.Lexing.ByteTexts
import GoFront.Proofs.Lexing.Seams

/-!
# Raw strings and comments in bytes

The end of a raw string and the end of a comment are searched for as bytes. A byte of the closing mark is
never found inside a character, so the searches stop where they would stop among characters.
-/

namespace GoFront
namespace Bytes

/-! ## Searching a byte -/

section

variable {ascii : Char} {text behind : List Char}

/-- The byte of an ASCII character stands nowhere but for that character. -/
theorem ne_ofChar_of_mem_bytesOf
    (isAscii : ascii.toNat < 128)
    (missing : ascii ∉ text) :
    ∀ byte ∈ bytesOf text, (byte == ofChar ascii) = false := by
  induction text with
  | nil => exact nofun
  | cons character rest inductionHypothesis =>
      obtain ⟨differs, missingBehind⟩ := not_or.1 (mt List.mem_cons.2 missing)
      obtain ⟨others, encoded, -, continued⟩ := exists_bytesOf_cons character rest
      rw [encoded]
      intro byte member
      rw [beq_eq_false_iff_ne]
      obtain rfl | inRest := List.mem_cons.1 member
      · exact fun same => differs ((lead_eq_iff isAscii).1 same).symm
      obtain inOthers | inRest := List.mem_append.1 inRest
      · rintro rfl
        have high := ((continues_iff _).1 (continued _ inOthers)).1
        rw [toNat_ofChar isAscii] at high
        omega
      · exact beq_eq_false_iff_ne.1 (inductionHypothesis missingBehind byte inRest)

theorem findIdx?_of_notMem
    (isAscii : ascii.toNat < 128)
    (missing : ascii ∉ text) :
    (bytesOf text).findIdx? (· == ofChar ascii) = none :=
  List.findIdx?_eq_none_iff.2 (ne_ofChar_of_mem_bytesOf isAscii missing)

/-- The first place of an ASCII character is found behind the bytes in front of it. -/
theorem findIdx?_append
    (isAscii : ascii.toNat < 128)
    (missing : ascii ∉ text) :
    (bytesOf (text ++ ascii :: behind)).findIdx? (· == ofChar ascii) = some (byteCount text) := by
  rw [bytesOf_append, List.findIdx?_append, findIdx?_of_notMem isAscii missing, bytesOf_cons,
    utf8EncodeChar_of_ascii isAscii, List.singleton_append, List.findIdx?_cons, beq_self_eq_true,
    length_bytesOf]
  simp

end

/-! ## Raw strings -/

theorem rawString_of_notMem
    {text : List Char}
    (missing : '\x60' ∉ text) :
    Piece.rawString text = ⟨.fault .unterminatedString, '\x60' :: text⟩ := by
  have whole : text.takeWhile (· ≠ '\x60') = text :=
    List.takeWhile_eq_self_iff.2 fun character member => by
      rw [decide_eq_true_iff]
      rintro rfl
      exact missing member
  simp only [Piece.rawString, whole, Nat.lt_irrefl, if_false]

theorem rawString_append
    {text : List Char}
    (missing : '\x60' ∉ text)
    (behind : List Char) :
    Piece.rawString (text ++ '\x60' :: behind)
      = ⟨.token .rawStringLit, '\x60' :: (text ++ ['\x60'])⟩ := by
  have body : (text ++ '\x60' :: behind).takeWhile (· ≠ '\x60') = text := by
    rw [List.takeWhile_append_of_pos fun character member => by
      rw [decide_eq_true_iff]
      rintro rfl
      exact missing member]
    simp
  simp only [Piece.rawString, body]
  rw [if_pos (by simp)]
  rfl

theorem scanRaw_finds
    {source : List UInt8}
    {start : Nat}
    {rest : List Char}
    (stands : Stands source (start + 1) rest) :
    Finds (scanRaw source (start + 1)) start (Piece.rawString rest) := by
  rw [scanRaw, stands.tailFrom_eq, Checked.ok_bind]
  by_cases closes : '\x60' ∈ rest
  · obtain ⟨text, behind, rfl, missing⟩ := List.eq_append_cons_of_mem closes
    have closed : Stands source (start + 1) ((text ++ ['\x60']) ++ behind) := by
      simpa using stands
    have moved := closed.bump_eq
    rw [byteCount_append, show byteCount ['\x60'] = 1 from rfl] at moved
    rw [findIdx?_append (by decide) missing, rawString_append missing]
    dsimp only
    rw [moved, Checked.ok_bind]
    refine ⟨_, rfl, ?_, rfl⟩
    rw [byteCount, byteCount_append, Nat.add_assoc]
    rfl
  · have moved := (show Stands source (start + 1) (rest ++ []) by rwa [List.append_nil]).bump_eq
    rw [findIdx?_of_notMem (by decide) closes, rawString_of_notMem closes]
    dsimp only
    rw [length_bytesOf, moved, Checked.ok_bind]
    refine ⟨_, rfl, ?_, rfl⟩
    rw [byteCount, Nat.add_assoc]
    rfl

/-! ## Comments -/

section

variable {text : List Char}

theorem commentBody?_append_of_notMem
    (missing : '*' ∉ text)
    (behind : List Char) :
    Piece.commentBody? (text ++ behind) = (Piece.commentBody? behind).map (text ++ ·) := by
  induction text with
  | nil => simp
  | cons first rest inductionHypothesis =>
      obtain ⟨differs, missingBehind⟩ := not_or.1 (mt List.mem_cons.2 missing)
      rw [List.cons_append, Piece.commentBody?_cons, if_neg fun closing => differs closing.1.symm,
        inductionHypothesis missingBehind, Option.map_map]
      rfl

theorem commentBody?_of_notMem (missing : '*' ∉ text) : Piece.commentBody? text = none := by
  have whole := commentBody?_append_of_notMem missing []
  rwa [List.append_nil] at whole

variable {source ahead : List UInt8} {start : Nat}

theorem commentLength?_of_none
    (inRange : start ≤ ahead.length)
    (found : (ahead.drop start).findIdx? (· == ofChar '*') = none) :
    commentLength? ahead start = .ok none := by
  rw [commentLength?, dif_pos inRange]
  split
  · rfl
  · next other => simp [found] at other

theorem commentLength?_of_some
    {distance : Nat}
    (inRange : start ≤ ahead.length)
    (found : (ahead.drop start).findIdx? (· == ofChar '*') = some distance) :
    commentLength? ahead start
      = if ahead[start + distance + 1]? = some (ofChar '/') then .ok (some (start + distance + 2))
        else commentLength? ahead (start + distance + 1) := by
  rw [commentLength?, dif_pos inRange]
  split
  · next other => simp [found] at other
  · next other same =>
      obtain rfl := Option.some.inj (found.symm.trans same)
      rfl

/-- The closing mark of a comment is searched for in bytes as it is among characters. -/
theorem commentLength?_eq (stands : Stands ahead start text) :
    commentLength? ahead start
      = .ok ((Piece.commentBody? text).map fun body => start + byteCount body) := by
  induction lengthEq : text.length using Nat.strong_induction_on generalizing text start with
  | _ length inductionHypothesis =>
      have inRange : start ≤ ahead.length := by
        rw [stands.length_eq]
        exact Nat.le_add_right _ _
      by_cases closes : '*' ∈ text
      · obtain ⟨front, behind, rfl, missing⟩ := List.eq_append_cons_of_mem closes
        have found := @findIdx?_append '*' front behind (by decide) missing
        rw [← stands.drop_eq] at found
        have shorter : behind.length < length := by
          rw [← lengthEq, List.length_append, List.length_cons]
          omega
        have behindStands : Stands ahead (start + byteCount front + 1) behind :=
          stands.after.after ['*']
        have isSlash : ahead[start + byteCount front + 1]? = some (ofChar '/')
            ↔ behind.head? = some '/' := by
          rw [behindStands.getElem?_eq, Option.map_eq_some_iff]
          simp only [lead_eq_iff (show '/'.toNat < 128 by decide), exists_eq_right]
        rw [commentLength?_of_some inRange found, commentBody?_append_of_notMem missing,
          Piece.commentBody?_cons, if_congr isSlash rfl rfl]
        by_cases slash : behind.head? = some '/'
        · rw [if_pos slash, if_pos ⟨rfl, slash⟩]
          rw [Option.map_some, Option.map_some, byteCount_append, ← Nat.add_assoc]
          rfl
        · rw [if_neg slash, if_neg fun closing => slash closing.2,
            inductionHypothesis behind.length shorter behindStands rfl, Option.map_map,
            Option.map_map]
          congr 2
          funext body
          rw [Function.comp_apply, Function.comp_apply, byteCount_append, byteCount, ← Nat.add_assoc,
            ← Nat.add_assoc]
          rfl
      · rw [commentLength?_of_none inRange, commentBody?_of_notMem closes]
        · rfl
        · rw [stands.drop_eq]
          exact findIdx?_of_notMem (by decide) closes

/-- A comment ends behind its first closing mark, or with the text. -/
theorem scanComment_finds (stands : Stands source (start + 2) text) :
    Finds (scanComment source (start + 2)) start (Piece.blockComment text) := by
  rw [scanComment, stands.tailFrom_eq, Checked.ok_bind, commentLength?_eq (stands_start text),
    Checked.ok_bind, Piece.blockComment]
  cases bodyEq : Piece.commentBody? text with
  | none =>
      have moved := (show Stands source (start + 2) (text ++ []) by rwa [List.append_nil]).bump_eq
      simp only [Option.map_none]
      rw [length_bytesOf, moved, Checked.ok_bind]
      refine ⟨_, rfl, ?_, rfl⟩
      rw [byteCount, byteCount, ← Nat.add_assoc, ← Nat.add_assoc]
      rfl
  | some body =>
      obtain ⟨behind, rfl⟩ := Piece.commentBody?_prefix text body bodyEq
      simp only [Option.map_some, Nat.zero_add]
      rw [stands.bump_eq, Checked.ok_bind]
      refine ⟨_, rfl, ?_, rfl⟩
      rw [byteCount, byteCount, ← Nat.add_assoc, ← Nat.add_assoc]
      rfl

end

end Bytes
end GoFront
