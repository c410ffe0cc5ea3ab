import GoFront.Lexer.Stream
import Mathlib.Data.List.TakeDrop
import Mathlib.Data.List.TakeWhile
import Mathlib.Tactic.SplitIfs

/-!
# Cutting loses nothing

Each piece begins with the first character of the text from which it is cut and is a start of that
text. So the pieces of a text put together are the text, and what follows a piece is cut as if it stood
alone.
-/

namespace GoFront

/-! ## Numbers -/

namespace Number

theorem run_append (base : Text.Base) (text : List Char) :
    (run base text).1 ++ (run base text).2 = text := by
  simp [run, List.span_eq_takeWhile_dropWhile]

theorem splitFraction_append
    (base : Text.Base)
    (lonePoint : Bool)
    (text : List Char) :
    ((splitFraction base lonePoint text).1.map fun digits => '.' :: digits).getD []
        ++ (splitFraction base lonePoint text).2 = text := by
  unfold splitFraction
  split
  · split
    · simp
    · simp [run_append]
  · simp

theorem splitSign_append (text : List Char) :
    (splitSign text).1 ++ (splitSign text).2 = text := by
  unfold splitSign
  split <;> simp

theorem splitExponent_append
    (lower upper : Char)
    (text : List Char) :
    ((splitExponent lower upper text).1.map Exponent.text).getD []
        ++ (splitExponent lower upper text).2 = text := by
  unfold splitExponent
  split
  next letter rest =>
    split
    · simp [Exponent.text, run_append, splitSign_append]
    · simp
  next => simp

theorem splitImaginary_append (text : List Char) :
    (if (splitImaginary text).1 then ['i'] else []) ++ (splitImaginary text).2 = text := by
  unfold splitImaginary
  split <;> simp

theorem splitBase_append (text : List Char) :
    (splitBase text).2.1 ++ (splitBase text).2.2 = text := by
  unfold splitBase
  split
  · split_ifs <;> simp
  · simp

/-- A number and what follows it are the text from which it was split. -/
theorem split_append (text : List Char) :
    (split text).1.text ++ (split text).2 = text := by
  rcases baseEq : splitBase text with ⟨base, lead, afterBase⟩
  have startEq : lead ++ afterBase = text := by
    simpa [baseEq] using splitBase_append text
  cases base with
  | binary | octal =>
      simp only [split, baseEq, Number.text, Option.map_none, Option.getD_none, List.append_nil,
        List.append_assoc]
      rw [splitImaginary_append, run_append, startEq]
  | decimal | hexadecimal =>
      simp only [split, baseEq, Number.text, List.append_assoc]
      rw [splitImaginary_append, splitExponent_append, splitFraction_append, run_append, startEq]

theorem isDigitOf_decimal_of_isDigit
    (character : Char)
    (isDigit : character.isDigit) :
    Text.isDigitOf .decimal character := by
  have bounds : '0' ≤ character ∧ character ≤ '9' := by
    simpa [Char.isDigit, Char.le_def] using isDigit
  have low : 48 ≤ character.toNat := bounds.1
  have high : character.toNat ≤ 57 := bounds.2
  have value : character.toNat - '0'.toNat < Text.Base.decimal.radix := by
    change character.toNat - 48 < 10
    omega
  have found : Text.hexValue? character = some (character.toNat - '0'.toNat) := by
    simp [Text.hexValue?, bounds]
  rw [Text.isDigitOf, Text.digitValue?, found, Option.filter_some, if_pos (by simpa using value)]
  rfl

theorem run_ne_nil_of_isDigit
    (first : Char)
    (rest : List Char)
    (isDigit : first.isDigit) :
    (run .decimal (first :: rest)).1 ≠ [] := by
  have continues : continuesRun .decimal first := by
    simp [continuesRun, isDigitOf_decimal_of_isDigit first isDigit]
  simp [run, List.span_eq_takeWhile_dropWhile, continues]

/-- A number that starts with a digit takes that digit in. -/
theorem split_text_ne_nil_of_isDigit
    (first : Char)
    (rest : List Char)
    (isDigit : first.isDigit) :
    (split (first :: rest)).1.text ≠ [] := by
  have wholeNonempty := run_ne_nil_of_isDigit first rest isDigit
  rcases baseEq : splitBase (first :: rest) with ⟨base, lead, afterBase⟩
  have leadOrWhole : lead ≠ [] ∨ (base = .decimal ∧ afterBase = first :: rest) := by
    unfold splitBase at baseEq
    split at baseEq
    · split_ifs at baseEq <;> obtain ⟨rfl, rfl, rfl⟩ := baseEq <;> simp_all
    · simp_all
  rcases leadOrWhole with leadNonempty | ⟨rfl, rfl⟩
  · simp [split, baseEq, Number.text, leadNonempty]
  · simp [split, baseEq, Number.text, wholeNonempty]

/-- A number that starts with a point before a digit takes the point and the digits in. -/
theorem exists_split_text_of_point
    (rest : List Char)
    (digitNext : rest.head?.any Char.isDigit) :
    ∃ behind, (split ('.' :: rest)).1.text = '.' :: ((run .decimal rest).1 ++ behind) := by
  have noRun : run .decimal ('.' :: rest) = ([], '.' :: rest) := by
    rw [run, List.span_eq_takeWhile_dropWhile]
    simp [show continuesRun .decimal '.' = false by decide]
  have notLone : rest.head? ≠ some '.' := by
    intro lone
    rw [lone] at digitNext
    exact absurd digitNext (by decide)
  have base : splitBase ('.' :: rest) = (.decimal, [], '.' :: rest) := by
    simp [splitBase]
  simp [split, base, noRun, splitFraction, notLone, Number.text]

theorem split_text_ne_nil_of_point
    (rest : List Char)
    (digitNext : rest.head?.any Char.isDigit) :
    (split ('.' :: rest)).1.text ≠ [] := by
  obtain ⟨behind, textEq⟩ := exists_split_text_of_point rest digitNext
  rw [textEq]
  exact List.cons_ne_nil _ _

end Number

/-! ## Quoted literals -/

namespace Quoted

/-- A quoted literal is a start of the text from which it is read. -/
theorem read_prefix
    (quote : Char)
    (escaped : Nat)
    (text : List Char) :
    (read quote escaped text).text <+: text := by
  induction text generalizing escaped with
  | nil => simp [read]
  | cons first rest inductionHypothesis =>
      cases escaped with
      | succ escaped => simpa [read, behind] using inductionHypothesis escaped
      | zero =>
          simp only [read]
          split_ifs
          · simp
          · simp
          · simpa [behindUnit] using inductionHypothesis _
          · simpa [behindUnit] using inductionHypothesis 0

end Quoted

/-! ## Pieces -/

namespace Piece

/-- The body of a comment is a start of the text behind the opening mark. -/
theorem commentBody?_prefix
    (text body : List Char)
    (found : commentBody? text = some body) :
    body <+: text := by
  induction text generalizing body with
  | nil => simp [commentBody?] at found
  | cons first rest inductionHypothesis =>
      unfold commentBody? at found
      split at found
      · simp at found
      · next tail equal =>
          obtain ⟨rfl, rfl⟩ := List.cons.inj equal
          simp only [Option.some.injEq] at found
          subst found
          simp
      · next character tail _ equal =>
          obtain ⟨rfl, rfl⟩ := List.cons.inj equal
          obtain ⟨inner, innerFound, rfl⟩ := Option.map_eq_some_iff.1 found
          simpa using inductionHypothesis inner innerFound

/-- What stands before a character, and the character itself, are a start of the text. -/
theorem takeWhile_ne_append_prefix
    (stop : Char)
    (text : List Char)
    (found : (text.takeWhile (· ≠ stop)).length < text.length) :
    text.takeWhile (· ≠ stop) ++ [stop] <+: text := by
  induction text with
  | nil => simp at found
  | cons first rest inductionHypothesis =>
      by_cases equal : first = stop
      · subst equal
        simp
      · simp only [ne_eq, equal, not_false_eq_true, decide_true, List.takeWhile_cons_of_pos,
          List.length_cons, Nat.add_lt_add_iff_right] at found
        simpa [equal] using inductionHypothesis found

theorem spelling_ne_nil
    (token : Token)
    (isOperator : token ∈ Token.operators) :
    token.spelling.toList ≠ [] := by
  revert token
  decide

@[simp] theorem ofFault?_text
    (token : Token)
    (text : List Char)
    (fault : Option LexCause) :
    (ofFault? token text fault).text = text := by
  cases fault <;> rfl

theorem ofFault?_eq_token_iff
    {token written : Token}
    {text whole : List Char}
    {fault : Option LexCause} :
    ofFault? written text fault = ⟨.token token, whole⟩
      ↔ token = written ∧ text = whole ∧ fault = none := by
  cases fault <;> simp [ofFault?, eq_comm]

/-- The first characters of a text decide how its first piece is cut. -/
theorem cut_cases
    {motive : Char -> List Char -> Piece -> Prop}
    (ofMark : ∀ rest, motive byteOrderMark rest ⟨.byteOrderMark, [byteOrderMark]⟩)
    (ofBreak : ∀ rest, motive '\n' rest ⟨.newline, ['\n']⟩)
    (ofBlank : ∀ first rest, isBlank first ->
      motive first rest ⟨.blank, first :: rest.takeWhile isBlank⟩)
    (ofLine : ∀ rest, motive '/' ('/' :: rest)
      ⟨.token .lineComment, '/' :: ('/' :: rest).takeWhile (· ≠ '\n')⟩)
    (ofBlock : ∀ rest, motive '/' ('*' :: rest) (blockComment rest))
    (ofWord : ∀ first rest, startsWord first ->
      motive first rest (word (first :: rest.takeWhile continuesWord)))
    (ofNumber : ∀ first rest, first.isDigit ∨ first = '.' ∧ rest.head?.any Char.isDigit ->
      motive first rest (number (first :: rest)))
    (ofRaw : ∀ rest, motive '\x60' rest (rawString rest))
    (ofString : ∀ rest, motive '"' rest (interpretedString rest))
    (ofRune : ∀ rest, motive '\'' rest (rune rest))
    (ofOperator : ∀ first rest, motive first rest (operator first rest))
    (first : Char)
    (rest : List Char) :
    motive first rest (cut first rest) := by
  have behindSlash {next : Char} (isNext : (first = '/' && rest.head? = some next) = true) :
      first = '/' ∧ ∃ tail, rest = next :: tail := by
    obtain ⟨isSlash, isNext⟩ := Bool.and_eq_true_iff.1 isNext
    exact ⟨of_decide_eq_true isSlash, List.head?_eq_some_iff.1 (of_decide_eq_true isNext)⟩
  unfold cut
  refine iteInduction (fun isMark => isMark ▸ ofMark rest) fun _ => ?_
  refine iteInduction (fun isBreak => isBreak ▸ ofBreak rest) fun _ => ?_
  refine iteInduction (fun isBlank => ofBlank first rest isBlank) fun _ => ?_
  refine iteInduction (fun isLine => ?_) fun _ => ?_
  · obtain ⟨rfl, tail, rfl⟩ := behindSlash isLine
    exact ofLine tail
  refine iteInduction (fun isBlock => ?_) fun _ => ?_
  · obtain ⟨rfl, tail, rfl⟩ := behindSlash isBlock
    exact ofBlock tail
  refine iteInduction (fun isWord => ofWord first rest isWord) fun _ => ?_
  refine iteInduction (fun isNumber => ofNumber first rest ?_) fun _ => ?_
  · simpa only [Bool.or_eq_true, Bool.and_eq_true, decide_eq_true_eq] using isNumber
  refine iteInduction (fun isRaw => isRaw ▸ ofRaw rest) fun _ => ?_
  refine iteInduction (fun isString => isString ▸ ofString rest) fun _ => ?_
  refine iteInduction (fun isRune => isRune ▸ ofRune rest) fun _ => ?_
  exact ofOperator first rest

/-- A piece begins with the first character of its text, and goes on as the text goes on. -/
theorem exists_cut_text
    (first : Char)
    (rest : List Char) :
    ∃ tail, (cut first rest).text = first :: tail ∧ tail <+: rest := by
  have ofPrefix {first : Char} {rest text : List Char} (starts : text <+: first :: rest)
      (nonempty : text ≠ []) : ∃ tail, text = first :: tail ∧ tail <+: rest := by
    cases text with
    | nil => exact absurd rfl nonempty
    | cons head tail =>
        obtain ⟨rfl, tailStarts⟩ := List.cons_prefix_cons.1 starts
        exact ⟨tail, rfl, tailStarts⟩
  refine cut_cases (motive := fun first rest piece => ∃ tail, piece.text = first :: tail ∧ tail <+: rest)
    ?mark ?newline ?blank ?line ?block ?word ?number ?raw ?string ?rune ?operator first rest
  case mark | newline => exact fun rest => ⟨[], rfl, List.nil_prefix⟩
  case blank => exact fun first rest isBlank => ⟨_, rfl, List.takeWhile_prefix _⟩
  case line => exact fun rest => ⟨_, rfl, List.takeWhile_prefix _⟩
  case block =>
    intro rest
    unfold blockComment
    split
    · next body found =>
      exact ⟨_, rfl, List.cons_prefix_cons.2 ⟨rfl, commentBody?_prefix _ _ found⟩⟩
    · exact ⟨_, rfl, List.prefix_rfl⟩
  case word => exact fun first rest isWord => ⟨_, rfl, List.takeWhile_prefix _⟩
  case number =>
    intro first rest starts
    apply ofPrefix
    · rw [number, ofFault?_text]
      exact ⟨_, Number.split_append _⟩
    · rw [number, ofFault?_text]
      rcases starts with isDigit | ⟨rfl, digitNext⟩
      · exact Number.split_text_ne_nil_of_isDigit first rest isDigit
      · exact Number.split_text_ne_nil_of_point rest digitNext
  case raw =>
    intro rest
    simp only [rawString]
    split
    · next closed => exact ⟨_, rfl, takeWhile_ne_append_prefix _ rest closed⟩
    · exact ⟨_, rfl, List.takeWhile_prefix _⟩
  case string | rune => exact fun rest => ⟨_, ofFault?_text _ _ _, Quoted.read_prefix _ _ _⟩
  case operator =>
    intro first rest
    unfold operator
    split
    · next token found =>
        refine ofPrefix ?_ (spelling_ne_nil token (List.mem_of_find?_eq_some found))
        simpa using List.find?_some found
    · exact ⟨[], rfl, List.nil_prefix⟩

/-! ## All pieces of a text -/

theorem cutFrom_eq_all_drop
    (covered : Nat)
    (text : List Char) :
    cutFrom covered text = all (text.drop covered) := by
  induction text generalizing covered with
  | nil => simp [all, cutFrom]
  | cons first rest inductionHypothesis =>
      cases covered with
      | zero => rfl
      | succ covered => simpa [cutFrom] using inductionHypothesis covered

@[simp] theorem all_nil : all [] = [] := rfl

/-- What follows a piece is cut as if it stood alone. -/
theorem all_cons
    (first : Char)
    (rest tail after : List Char)
    (cutEq : (cut first rest).text = first :: tail)
    (restEq : rest = tail ++ after) :
    all (first :: rest) = cut first rest :: all after := by
  simp only [all, cutFrom, cutEq, List.length_cons, Nat.add_sub_cancel]
  rw [cutFrom_eq_all_drop, restEq, List.drop_left]
  rfl

/-- What holds of the empty text, and of a text if it holds of what follows its first piece, holds of
every text. -/
theorem all_induction
    {motive : List Char -> Prop}
    (nil : motive [])
    (cons : forall first rest tail after,
      (cut first rest).text = first :: tail -> rest = tail ++ after ->
        motive after -> motive (first :: rest))
    (text : List Char) : motive text := by
  induction length : text.length using Nat.strong_induction_on generalizing text with
  | _ bound inductionHypothesis =>
      cases text with
      | nil => exact nil
      | cons first rest =>
          obtain ⟨tail, cutEq, after, restEq⟩ := exists_cut_text first rest
          refine cons first rest tail after cutEq restEq.symm ?_
          refine inductionHypothesis after.length ?_ after rfl
          simp only [← restEq, List.length_cons, List.length_append] at length
          omega

/-- The pieces of a text put together are the text. -/
theorem flatMap_text_all (text : List Char) :
    (all text).flatMap Piece.text = text := by
  induction text using all_induction with
  | nil => rfl
  | cons first rest tail after cutEq restEq inductionHypothesis =>
      rw [all_cons first rest tail after cutEq restEq, List.flatMap_cons, inductionHypothesis,
        cutEq, restEq, List.cons_append]

/-! ## The text of a piece -/

/-- What the kind of a piece says about its text. -/
def SpelledByKind (piece : Piece) : Prop :=
  match piece.kind with
  | .blank => ∀ character ∈ piece.text, isBlank character
  | .newline => piece.text = ['\n']
  | .byteOrderMark => piece.text = [byteOrderMark]
  | .token token =>
      token ≠ .eof
        ∧ (!token.isLiteral -> !token.isComment -> piece.text = token.spelling.toList)
        ∧ (token.isComment -> piece.text.head? = some '/')
  | .fault _ => True

theorem literal_spelledByKind
    (token : Token)
    (isLiteral : token.isLiteral)
    (text : List Char) :
    (⟨.token token, text⟩ : Piece).SpelledByKind := by
  have notComment : token.isComment = false := by
    cases token <;> first | rfl | exact absurd isLiteral (by decide)
  refine ⟨?_, fun notLiteral => ?_, fun isComment => ?_⟩
  · rintro rfl
    exact absurd isLiteral (by decide)
  · simp [isLiteral] at notLiteral
  · simp [notComment] at isComment

/-- Keywords, operators and punctuation are spelled in one way. -/
theorem fixed_spelledByKind
    (token : Token)
    (fixed : token ∈ Token.keywords ++ Token.operators)
    (text : List Char)
    (spelled : text = token.spelling.toList) :
    (⟨.token token, text⟩ : Piece).SpelledByKind := by
  have plain : ∀ token ∈ Token.keywords ++ Token.operators,
      token ≠ .eof ∧ token.isComment = false := by decide
  refine ⟨(plain token fixed).1, fun _ _ => spelled, fun isComment => ?_⟩
  simp [(plain token fixed).2] at isComment

theorem ofFault?_spelledByKind
    (token : Token)
    (isLiteral : token.isLiteral)
    (text : List Char)
    (fault : Option LexCause) :
    (ofFault? token text fault).SpelledByKind := by
  cases fault with
  | some cause => trivial
  | none => exact literal_spelledByKind token isLiteral text

theorem number_token_isLiteral (number : Number) : number.token.isLiteral := by
  unfold Number.token
  split_ifs <;> decide

theorem word_spelledByKind (text : List Char) : (word text).SpelledByKind := by
  unfold word
  cases found : Token.keyword? (String.ofList text) with
  | none => exact literal_spelledByKind .ident (by decide) text
  | some token =>
      have spelled : token.spelling = String.ofList text := by
        simpa using List.find?_some found
      have isKeyword : token ∈ Token.keywords := List.mem_of_find?_eq_some found
      exact fixed_spelledByKind token (List.mem_append_left _ isKeyword) text (by simp [spelled])

theorem operator_spelledByKind
    (first : Char)
    (rest : List Char) :
    (operator first rest).SpelledByKind := by
  unfold operator
  split
  · next token found =>
      have isOperator : token ∈ Token.operators := List.mem_of_find?_eq_some found
      exact fixed_spelledByKind token (List.mem_append_right _ isOperator) _ rfl
  · trivial

/-- Pieces are spelled as their kinds say. -/
theorem cut_spelledByKind
    (first : Char)
    (rest : List Char) :
    (cut first rest).SpelledByKind := by
  refine cut_cases (motive := fun _ _ piece => piece.SpelledByKind)
    ?mark ?newline ?blank ?line ?block ?word ?number ?raw ?string ?rune ?operator first rest
  case mark | newline => exact fun rest => rfl
  case blank =>
    intro first rest isBlank character member
    rcases List.mem_cons.1 member with rfl | member
    · exact isBlank
    · exact List.mem_takeWhile_imp member
  case line => exact fun rest => ⟨by decide, fun _ isCode => absurd isCode (by decide), fun _ => rfl⟩
  case block =>
    intro rest
    unfold blockComment
    split
    · exact ⟨by decide, fun _ isCode => absurd isCode (by decide), fun _ => rfl⟩
    · trivial
  case word => exact fun first rest isWord => word_spelledByKind _
  case number => exact fun first rest starts => ofFault?_spelledByKind _ (number_token_isLiteral _) _ _
  case raw =>
    intro rest
    simp only [rawString]
    split
    · exact literal_spelledByKind .rawStringLit (by decide) _
    · trivial
  case string | rune => exact fun rest => ofFault?_spelledByKind _ (by decide) _ _
  case operator => exact operator_spelledByKind

/-- Every piece of a text has characters and is spelled as its kind says. -/
theorem spelledByKind_of_mem_all
    (text : List Char)
    (piece : Piece)
    (member : piece ∈ all text) :
    piece.text ≠ [] ∧ piece.SpelledByKind := by
  induction text using all_induction with
  | nil => simp at member
  | cons first rest tail after cutEq restEq inductionHypothesis =>
      rw [all_cons first rest tail after cutEq restEq, List.mem_cons] at member
      rcases member with rfl | member
      · exact ⟨by simp [cutEq], cut_spelledByKind first rest⟩
      · exact inductionHypothesis member

end Piece
end GoFront
