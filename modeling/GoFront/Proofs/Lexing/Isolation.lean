import GoFront.Proofs.Lexing.Lines

/-!
# Tokens by themselves

A token is cut in the same way from its own text, whatever followed it in the text from which it came,
as long as a blank or the end of the text follows it now.
-/

namespace GoFront

/-- Whether a text is empty or begins with a blank. -/
def BlankNext (text : List Char) : Prop :=
  ∀ next ∈ text.head?, next = ' '

theorem blankNext_nil : BlankNext [] := by
  intro next isNext
  cases isNext

theorem blankNext_cons (rest : List Char) : BlankNext (' ' :: rest) := by
  rintro next ⟨⟩
  rfl

/-- Whether a text goes on in a way that does not continue a stretch. -/
def StopsAt (continues : Char -> Bool) (text : List Char) : Prop :=
  ∀ next ∈ text.head?, continues next = false

theorem BlankNext.stopsAt
    {text : List Char}
    (blank : BlankNext text)
    {continues : Char -> Bool}
    (stops : continues ' ' = false) :
    StopsAt continues text := by
  intro next isNext
  rw [blank next isNext]
  exact stops

theorem stopsAt_cons
    {continues : Char -> Bool}
    {first : Char}
    (rest : List Char)
    (stops : continues first = false) :
    StopsAt continues (first :: rest) := by
  rintro next ⟨⟩
  exact stops

/-- A stretch ends where what follows it does not continue it. -/
theorem span_append_of_stopsAt
    (continues : Char -> Bool)
    (text more : List Char)
    (all : ∀ character ∈ text, continues character = true)
    (stops : StopsAt continues more) :
    (text ++ more).span continues = (text, more) := by
  have nothing : more.takeWhile continues = [] ∧ more.dropWhile continues = more := by
    cases more with
    | nil => exact ⟨rfl, rfl⟩
    | cons next rest => simp [stops next rfl]
  rw [List.span_eq_takeWhile_dropWhile, List.takeWhile_append_of_pos all,
    List.dropWhile_append_of_pos all, nothing.1, nothing.2, List.append_nil]

/-- The longest stretch at the start of a text is found again in front of something else that stops it. -/
theorem takeWhile_takeWhile_append
    (continues : Char -> Bool)
    (text more : List Char)
    (stops : StopsAt continues more) :
    (text.takeWhile continues ++ more).takeWhile continues = text.takeWhile continues := by
  have spanEq := span_append_of_stopsAt continues (text.takeWhile continues) more
    (fun character member => List.mem_takeWhile_imp member) stops
  rw [List.span_eq_takeWhile_dropWhile] at spanEq
  exact (Prod.mk.inj spanEq).1

theorem StopsAt.append
    {continues : Char -> Bool}
    {text more : List Char}
    (stops : StopsAt continues text)
    (moreStops : StopsAt continues more) :
    StopsAt continues (text ++ more) := by
  cases text with
  | nil => exact moreStops
  | cons first rest => exact stops

/-- A character that continues a stretch is none of those that do not. -/
theorem contains_of_continues
    {continues : Char -> Bool}
    {others : List Char}
    (apart : others.any continues = false)
    (character : Char)
    (isContinued : continues character = true) :
    others.contains character = false := by
  rw [Bool.eq_false_iff]
  intro isOther
  exact List.any_eq_false.1 apart character (List.contains_iff_mem.1 isOther) isContinued

theorem stopsAt_of_continues
    {continues : Char -> Bool}
    {others text : List Char}
    (apart : others.any continues = false)
    (all : ∀ character ∈ text, continues character = true) :
    StopsAt others.contains text := fun next isNext =>
  contains_of_continues apart next (all next (List.mem_of_mem_head? isNext))

/-! ## Numbers -/

namespace Number

/-- An exponent as it is split from a text. -/
structure ExponentShape (lower upper : Char) (exponent : Exponent) : Prop where
  letter : exponent.letter = lower ∨ exponent.letter = upper
  sign : exponent.sign = [] ∨ exponent.sign = ['+'] ∨ exponent.sign = ['-']
  digits : ∀ character ∈ exponent.digits, continuesRun .decimal character = true

/-- A number as it is split from a text. -/
structure Shape (number : Number) : Prop where
  lead : number.base = .decimal ∧ number.lead = []
    ∨ number.base ≠ .decimal
      ∧ ∀ rest, splitBase (number.lead ++ rest) = (number.base, number.lead, rest)
  whole : ∀ character ∈ number.whole, continuesRun number.base character = true
  fraction : ∀ digits ∈ number.fraction, ∀ character ∈ digits,
    continuesRun number.base character = true
  exponent : ∀ exponent ∈ number.exponent,
    number.base = .decimal ∧ ExponentShape 'e' 'E' exponent
      ∨ number.base = .hexadecimal ∧ ExponentShape 'p' 'P' exponent
  plain : number.base = .binary ∨ number.base = .octal ->
    number.fraction = none ∧ number.exponent = none

theorem continuesRun_of_mem_run
    (base : Text.Base)
    (text : List Char)
    (character : Char)
    (member : character ∈ (run base text).1) :
    continuesRun base character = true := by
  rw [run, List.span_eq_takeWhile_dropWhile] at member
  exact List.mem_takeWhile_imp member

theorem splitBase_shape (text : List Char) :
    (splitBase text).1 = .decimal ∧ (splitBase text).2.1 = []
      ∨ (splitBase text).1 ≠ .decimal ∧ ∀ rest,
        splitBase ((splitBase text).2.1 ++ rest) = ((splitBase text).1, (splitBase text).2.1, rest) := by
  rcases text with _ | ⟨first, _ | ⟨letter, rest⟩⟩
  · exact .inl ⟨rfl, rfl⟩
  · by_cases zero : first = '0'
    · subst zero
      exact .inl ⟨rfl, rfl⟩
    · simp [splitBase]
  · by_cases zero : first = '0'
    · subst zero
      simp only [splitBase]
      split_ifs with isX isB isO
      · exact .inr ⟨by simp, fun rest => by simp [isX]⟩
      · exact .inr ⟨by simp, fun rest => by simp [isX, isB]⟩
      · exact .inr ⟨by simp, fun rest => by simp [isX, isB, isO]⟩
      · exact .inl ⟨rfl, rfl⟩
    · simp [splitBase, zero]

theorem splitFraction_shape
    (base : Text.Base)
    (lonePoint : Bool)
    (text digits : List Char)
    (found : (splitFraction base lonePoint text).1 = some digits) :
    ∀ character ∈ digits, continuesRun base character = true := by
  unfold splitFraction at found
  split at found
  · next rest =>
    split_ifs at found
    obtain rfl := Option.some.inj found
    exact continuesRun_of_mem_run base rest
  · cases found

theorem splitExponent_shape
    (lower upper : Char)
    (text : List Char)
    (exponent : Exponent)
    (found : (splitExponent lower upper text).1 = some exponent) :
    ExponentShape lower upper exponent := by
  unfold splitExponent at found
  split at found
  · next letter rest =>
    split_ifs at found with isLetter
    obtain rfl := Option.some.inj found
    refine ⟨by simpa using isLetter, ?_, continuesRun_of_mem_run .decimal _⟩
    unfold splitSign
    split <;> simp
  · cases found

/-- A number that was split from a text has the shape of a number. -/
theorem split_shape (text : List Char) : (split text).1.Shape := by
  have baseShape := splitBase_shape text
  rcases baseEq : splitBase text with ⟨base, lead, rest⟩
  rw [baseEq] at baseShape
  cases base with
  | binary | octal =>
      simp only [split, baseEq]
      exact ⟨baseShape, continuesRun_of_mem_run _ rest, by simp, by simp, fun _ => ⟨rfl, rfl⟩⟩
  | decimal =>
      simp only [split, baseEq]
      exact ⟨baseShape, continuesRun_of_mem_run _ rest, splitFraction_shape _ _ _,
        fun exponent found => .inl ⟨rfl, splitExponent_shape _ _ _ exponent found⟩, by simp⟩
  | hexadecimal =>
      simp only [split, baseEq]
      exact ⟨baseShape, continuesRun_of_mem_run _ rest, splitFraction_shape _ _ _,
        fun exponent found => .inr ⟨rfl, splitExponent_shape _ _ _ exponent found⟩, by simp⟩

/-! ### Numbers read again -/

/-- The mark of an imaginary number, and what follows the number. -/
def imaginaryText (imaginary : Bool) (back : List Char) : List Char :=
  (if imaginary then ['i'] else []) ++ back

/-- The exponent of a number, and what follows it. -/
def exponentText (exponent : Option Exponent) (back : List Char) : List Char :=
  (exponent.map Exponent.text).getD [] ++ back

/-- The fraction of a number, and what follows it. -/
def fractionText (fraction : Option (List Char)) (back : List Char) : List Char :=
  (fraction.map fun digits => '.' :: digits).getD [] ++ back

theorem text_append (number : Number) (back : List Char) :
    number.text ++ back = number.lead ++ (number.whole ++ fractionText number.fraction
      (exponentText number.exponent (imaginaryText number.imaginary back))) := by
  simp only [text, fractionText, exponentText, imaginaryText, List.append_assoc]

section

variable {back : List Char}

theorem stopsAt_imaginaryText
    {continues : Char -> Bool}
    (imaginary : Bool)
    (mark : continues 'i' = false)
    (stops : StopsAt continues back) :
    StopsAt continues (imaginaryText imaginary back) := by
  cases imaginary with
  | false => exact stops
  | true => exact stopsAt_cons back mark

theorem stopsAt_exponentText
    {continues : Char -> Bool}
    (exponent : Option Exponent)
    (letter : ∀ found ∈ exponent, continues found.letter = false)
    (stops : StopsAt continues back) :
    StopsAt continues (exponentText exponent back) := by
  cases exponent with
  | none => exact stops
  | some found => exact stopsAt_cons _ (letter found rfl)

theorem stopsAt_fractionText
    {continues : Char -> Bool}
    (fraction : Option (List Char))
    (point : continues '.' = false)
    (stops : StopsAt continues back) :
    StopsAt continues (fractionText fraction back) := by
  cases fraction with
  | none => exact stops
  | some digits => exact stopsAt_cons _ point

theorem run_append_of_stopsAt
    (base : Text.Base)
    (digits : List Char)
    (all : ∀ character ∈ digits, continuesRun base character = true)
    (stops : StopsAt (continuesRun base) back) :
    run base (digits ++ back) = (digits, back) :=
  span_append_of_stopsAt _ digits back all stops

theorem splitImaginary_imaginaryText
    (imaginary : Bool)
    (noMark : StopsAt ['i'].contains back) :
    splitImaginary (imaginaryText imaginary back) = (imaginary, back) := by
  cases imaginary with
  | true => rfl
  | false =>
      change splitImaginary back = _
      unfold splitImaginary
      split
      · exact absurd (noMark 'i' rfl) (by decide)
      · rfl

theorem splitSign_of_stopsAt (noSign : StopsAt ['+', '-'].contains back) :
    splitSign back = ([], back) := by
  unfold splitSign
  split
  · exact absurd (noSign '+' rfl) (by decide)
  · exact absurd (noSign '-' rfl) (by decide)
  · rfl

theorem splitExponent_exponentText
    (lower upper : Char)
    (exponent : Option Exponent)
    (shape : ∀ found ∈ exponent, ExponentShape lower upper found)
    (noLetter : StopsAt [lower, upper].contains back)
    (noDigit : StopsAt (continuesRun .decimal) back)
    (noSign : StopsAt ['+', '-'].contains back) :
    splitExponent lower upper (exponentText exponent back) = (exponent, back) := by
  cases exponent with
  | none =>
      cases back with
      | nil => rfl
      | cons first rest =>
          have other : ¬(first = lower || first = upper) = true := by
            simpa using noLetter first rfl
          change splitExponent lower upper (first :: rest) = _
          rw [splitExponent, if_neg other]
  | some found =>
      obtain ⟨letter, sign, digits⟩ := found
      obtain ⟨isLetter, isSign, allDigits⟩ := shape _ rfl
      have isLetter : (letter = lower || letter = upper) = true := by simpa using isLetter
      have signEq : splitSign (sign ++ (digits ++ back)) = (sign, digits ++ back) := by
        rcases isSign with rfl | rfl | rfl
        · have digitsNoSign : StopsAt ['+', '-'].contains digits :=
            stopsAt_of_continues (by decide) allDigits
          exact splitSign_of_stopsAt (digitsNoSign.append noSign)
        · rfl
        · rfl
      change splitExponent lower upper (letter :: (sign ++ digits ++ back)) = _
      rw [List.append_assoc, splitExponent, if_pos isLetter, signEq]
      dsimp only
      rw [run_append_of_stopsAt .decimal digits allDigits noDigit]

theorem splitFraction_fractionText
    (base : Text.Base)
    (lonePoint : Bool)
    (fraction : Option (List Char))
    (allDigits : ∀ digits ∈ fraction, ∀ character ∈ digits, continuesRun base character = true)
    (noPoint : StopsAt ['.'].contains back)
    (noDigit : StopsAt (continuesRun base) back) :
    splitFraction base lonePoint (fractionText fraction back) = (fraction, back) := by
  cases fraction with
  | none =>
      change splitFraction base lonePoint back = _
      unfold splitFraction
      split
      · exact absurd (noPoint '.' rfl) (by decide)
      · rfl
  | some digits =>
      have apart : ['.'].any (continuesRun base) = false := by
        cases base <;> decide
      have digitsNoPoint : StopsAt ['.'].contains digits :=
        stopsAt_of_continues apart (allDigits digits rfl)
      have notLone : ¬(lonePoint && (digits ++ back).head? == some '.') = true := by
        intro lone
        have isPoint : (digits ++ back).head? = some '.' := by
          simpa using (Bool.and_eq_true_iff.1 lone).2
        exact absurd (digitsNoPoint.append noPoint '.' isPoint) (by decide)
      change splitFraction base lonePoint ('.' :: (digits ++ back)) = _
      rw [splitFraction, if_neg notLone, run_append_of_stopsAt base digits (allDigits digits rfl) noDigit]

/-- The letters that announce a base behind a zero. -/
def baseLetters : List Char := ['x', 'X', 'b', 'B', 'o', 'O']

/-- Only a zero in front of a letter announces a base. -/
theorem splitBase_of_stopsAt
    (digits : List Char)
    (allDigits : ∀ character ∈ digits, continuesRun .decimal character = true)
    (noZero : StopsAt ['0'].contains back)
    (noLetter : StopsAt baseLetters.contains back) :
    splitBase (digits ++ back) = (.decimal, [], digits ++ back) := by
  have apart : baseLetters.any (continuesRun .decimal) = false := by decide
  unfold splitBase
  split
  · next letter rest textEq =>
    have second : baseLetters.contains letter = false := by
      rcases digits with _ | ⟨first, _ | ⟨next, digits⟩⟩
      · rw [List.nil_append] at textEq
        rw [textEq] at noZero
        exact absurd (noZero '0' rfl) (by decide)
      · obtain ⟨-, backEq⟩ := List.cons.inj textEq
        have backEq : back = letter :: rest := backEq
        exact noLetter letter (by rw [backEq]; rfl)
      · obtain ⟨-, restEq⟩ := List.cons.inj textEq
        obtain ⟨rfl, -⟩ := List.cons.inj restEq
        exact contains_of_continues apart next (allDigits next (by simp))
    have others : letter ≠ 'x' ∧ letter ≠ 'X' ∧ letter ≠ 'b' ∧ letter ≠ 'B' ∧ letter ≠ 'o'
        ∧ letter ≠ 'O' := by simpa [baseLetters] using second
    simp [others, textEq]
  · rfl

end

/-- A number is split again from its own text. -/
theorem split_text_append
    (number : Number)
    (back : List Char)
    (shape : number.Shape)
    (blank : BlankNext back) :
    split (number.text ++ back) = (number, back) := by
  obtain ⟨base, lead, whole, fraction, exponent, imaginary⟩ := number
  obtain ⟨leadShape, wholeShape, fractionShape, exponentShape, plain⟩ := shape
  dsimp only at leadShape wholeShape fractionShape exponentShape plain
  have afterNumber {continues : Char -> Bool} (isBlank : continues ' ' = false) :
      StopsAt continues back := blank.stopsAt isBlank
  have afterExponent {continues : Char -> Bool} (isBlank : continues ' ' = false)
      (isMark : continues 'i' = false) : StopsAt continues (imaginaryText imaginary back) :=
    stopsAt_imaginaryText imaginary isMark (afterNumber isBlank)
  have afterFraction {continues : Char -> Bool} (lower upper : Char)
      (shape : ∀ found ∈ exponent, ExponentShape lower upper found)
      (stops : [' ', 'i', lower, upper].any continues = false) :
      StopsAt continues (exponentText exponent (imaginaryText imaginary back)) := by
    have stopsAll : ∀ next ∈ [' ', 'i', lower, upper], continues next = false := fun next member =>
      Bool.eq_false_iff.2 (List.any_eq_false.1 stops next member)
    refine stopsAt_exponentText exponent (fun found member => ?_)
      (afterExponent (stopsAll ' ' (by simp)) (stopsAll 'i' (by simp)))
    rcases (shape found member).letter with letter | letter <;>
      exact stopsAll found.letter (by simp [letter])
  have imaginaryEq := splitImaginary_imaginaryText imaginary (afterNumber (by decide))
  rw [text_append]
  dsimp only
  cases base with
  | binary | octal =>
      obtain ⟨rfl, rfl⟩ := plain (by simp)
      have leadEq := (leadShape.resolve_left (by simp)).2
      have runEq := run_append_of_stopsAt _ whole wholeShape (afterExponent (by decide) (by decide))
      change split (lead ++ (whole ++ imaginaryText imaginary back)) = _
      simp only [split, leadEq, runEq, imaginaryEq]
  | decimal =>
      obtain ⟨-, rfl⟩ := leadShape.resolve_right (by simp)
      have exponents : ∀ found ∈ exponent, ExponentShape 'e' 'E' found := fun found member =>
        ((exponentShape found member).resolve_right (by simp)).2
      have exponentEq := splitExponent_exponentText 'e' 'E' exponent exponents
        (afterExponent (by decide) (by decide)) (afterExponent (by decide) (by decide))
        (afterExponent (by decide) (by decide))
      have fractionEq := splitFraction_fractionText .decimal true fraction fractionShape
        (afterFraction 'e' 'E' exponents (by decide)) (afterFraction 'e' 'E' exponents (by decide))
      have runEq := run_append_of_stopsAt .decimal whole wholeShape
        (stopsAt_fractionText fraction (by decide) (afterFraction 'e' 'E' exponents (by decide)))
      have baseEq := splitBase_of_stopsAt whole wholeShape
        (stopsAt_fractionText fraction (by decide) (afterFraction 'e' 'E' exponents (by decide)))
        (stopsAt_fractionText fraction (by decide) (afterFraction 'e' 'E' exponents (by decide)))
      simp only [List.nil_append, split, baseEq, runEq, fractionEq, exponentEq, imaginaryEq]
  | hexadecimal =>
      have leadEq := (leadShape.resolve_left (by simp)).2
      have exponents : ∀ found ∈ exponent, ExponentShape 'p' 'P' found := fun found member =>
        ((exponentShape found member).resolve_left (by simp)).2
      have exponentEq := splitExponent_exponentText 'p' 'P' exponent exponents
        (afterExponent (by decide) (by decide)) (afterExponent (by decide) (by decide))
        (afterExponent (by decide) (by decide))
      have fractionEq := splitFraction_fractionText .hexadecimal false fraction fractionShape
        (afterFraction 'p' 'P' exponents (by decide)) (afterFraction 'p' 'P' exponents (by decide))
      have runEq := run_append_of_stopsAt .hexadecimal whole wholeShape
        (stopsAt_fractionText fraction (by decide) (afterFraction 'p' 'P' exponents (by decide)))
      simp only [split, leadEq, runEq, fractionEq, exponentEq, imaginaryEq]

end Number
/-! ## Quoted literals -/

/-- A stretch ends no later than a character that does not continue it, whatever follows that. -/
theorem takeWhile_take_append_of_mem
    (continues : Char -> Bool)
    (text more : List Char)
    (stop : Char)
    (member : stop ∈ text)
    (stops : continues stop = false)
    (count : Nat) :
    ((text ++ more).take count).takeWhile continues = (text.take count).takeWhile continues := by
  induction text generalizing count with
  | nil => cases member
  | cons first rest inductionHypothesis =>
      cases count with
      | zero => rfl
      | succ count =>
          cases isNext : continues first with
          | false => simp [isNext]
          | true =>
              have inRest : stop ∈ rest := by
                refine (List.mem_cons.1 member).resolve_left ?_
                rintro rfl
                rw [isNext] at stops
                cases stops
              simp [isNext, inductionHypothesis inRest]

/-- A quote that no escape sequence contains, other than as the escaped character. -/
def IsQuote (quote : Char) : Prop :=
  quote = '"' ∨ quote = '\''

theorem IsQuote.isDigitOf
    {quote : Char}
    (isQuote : IsQuote quote)
    (base : Text.Base) :
    Text.isDigitOf base quote = false := by
  rcases isQuote with rfl | rfl <;> cases base <;> decide

/-- An escape sequence in front of the closing quote does not depend on what follows the quote. -/
theorem EscapeSequence.read_append_of_mem
    (quote : Char)
    (text more : List Char)
    (isQuote : IsQuote quote)
    (member : quote ∈ text) :
    read quote (text ++ more) = read quote text := by
  have numericEq (start count : Nat) (base : Text.Base) (allowed : Nat -> Bool)
      (inText : start ≤ text.length) (member : quote ∈ text.drop start) :
      numeric start count base allowed (text ++ more) = numeric start count base allowed text := by
    simp only [numeric]
    rw [List.drop_append_of_le_length inText,
      takeWhile_take_append_of_mem _ _ _ quote member (isQuote.isDigitOf base)]
  cases text with
  | nil => cases member
  | cons first rest =>
      have octal := numericEq 0 3 .octal (fun value => value ≤ 255) (Nat.zero_le _) member
      have inRest (letter : Char) (isFirst : first = letter) (other : letter ≠ quote) :
          quote ∈ (first :: rest).drop 1 := by
        refine (List.mem_cons.1 member).resolve_left fun equal => other ?_
        rw [equal, isFirst]
      have letters : 'x' ≠ quote ∧ 'u' ≠ quote ∧ 'U' ≠ quote := by
        rcases isQuote with rfl | rfl <;> decide
      have behindFirst : 1 ≤ (first :: rest).length := Nat.succ_le_succ (Nat.zero_le _)
      simp only [List.cons_append] at octal numericEq
      simp only [List.cons_append, read, octal]
      split_ifs with isLetter isOctal isX isU isLong
      · rfl
      · rfl
      · exact numericEq 1 2 _ _ behindFirst (inRest 'x' isX letters.1)
      · exact numericEq 1 4 _ _ behindFirst (inRest 'u' isU letters.2.1)
      · exact numericEq 1 8 _ _ behindFirst (inRest 'U' isLong letters.2.2)
      · rfl
      · rfl

namespace Quoted

/-- A closed literal contains its closing quote. -/
theorem mem_of_closed
    (quote : Char)
    (escaped : Nat)
    (text : List Char)
    (closed : (read quote escaped text).closed = true) :
    quote ∈ (read quote escaped text).text := by
  induction text generalizing escaped with
  | nil => simp [read] at closed
  | cons first rest inductionHypothesis =>
      cases escaped with
      | succ escaped => exact List.mem_cons_of_mem _ (inductionHypothesis escaped closed)
      | zero =>
          rw [read] at closed ⊢
          split_ifs at closed ⊢ with isClosing isBreak isEscape
          · simp [isClosing]
          · exact List.mem_cons_of_mem _ (inductionHypothesis _ closed)
          · exact List.mem_cons_of_mem _ (inductionHypothesis 0 closed)

/-- A closed literal is read again from its own text. -/
theorem read_text_append
    (quote : Char)
    (escaped : Nat)
    (text back : List Char)
    (isQuote : IsQuote quote)
    (closed : (read quote escaped text).closed = true) :
    read quote escaped ((read quote escaped text).text ++ back) = read quote escaped text := by
  induction text generalizing escaped with
  | nil => simp [read] at closed
  | cons first rest inductionHypothesis =>
      cases escaped with
      | succ escaped =>
          have inner := inductionHypothesis escaped closed
          simp only [read, behind, List.cons_append, inner]
      | zero =>
          by_cases isClosing : first = quote
          · simp [read, isClosing]
          by_cases isBreak : first = '\n'
          · rw [read, if_neg isClosing, if_pos isBreak] at closed
            cases closed
          by_cases isEscape : first = '\\'
          · have readEq (rest : List Char) : read quote 0 (first :: rest)
                = (read quote (EscapeSequence.read quote rest).width rest).behindUnit first
                  (EscapeSequence.read quote rest).valid := by
              rw [read, if_neg isClosing, if_neg isBreak, if_pos isEscape]
            rw [readEq] at closed ⊢
            have innerClosed : (read quote (EscapeSequence.read quote rest).width rest).closed = true :=
              closed
            obtain ⟨behindLiteral, restEq⟩ := read_prefix quote (EscapeSequence.read quote rest).width rest
            have member := mem_of_closed _ _ _ innerClosed
            have sameEscape : EscapeSequence.read quote
                ((read quote (EscapeSequence.read quote rest).width rest).text ++ back)
                = EscapeSequence.read quote rest := by
              rw [EscapeSequence.read_append_of_mem _ _ _ isQuote member,
                ← EscapeSequence.read_append_of_mem _ _ behindLiteral isQuote member, restEq]
            change read quote 0 (first :: (_ ++ back)) = _
            rw [readEq, sameEscape, inductionHypothesis _ innerClosed]
          · have readEq (rest : List Char) : read quote 0 (first :: rest)
                = (read quote 0 rest).behindUnit first true := by
              rw [read, if_neg isClosing, if_neg isBreak, if_neg isEscape]
            rw [readEq] at closed ⊢
            change read quote 0 (first :: ((read quote 0 rest).text ++ back)) = _
            rw [readEq, inductionHypothesis 0 closed]

end Quoted
/-! ## Pieces -/

/-- A number that starts with a point in front of a digit takes that digit in. -/
theorem Number.tail_ne_nil_of_point
    (rest tail : List Char)
    (digitNext : rest.head?.any Char.isDigit)
    (textEq : (split ('.' :: rest)).1.text = '.' :: tail) :
    tail ≠ [] := by
  obtain ⟨behind, taken⟩ := exists_split_text_of_point rest digitNext
  cases rest with
  | nil => cases digitNext
  | cons digit rest =>
      have digits := run_ne_nil_of_isDigit digit rest digitNext
      rintro rfl
      simp [taken, digits] at textEq

namespace Piece

/-- Whether a piece is a token and no comment. -/
def IsCode (piece : Piece) : Prop :=
  ∃ token, piece.kind = .token token ∧ token.isComment = false

/-- A token that is no comment, with its text. -/
structure IsCodeOf (text : List Char) (piece : Piece) : Prop where
  isCode : piece.IsCode
  textEq : piece.text = text

theorem not_isCode
    {piece : Piece}
    (kind : ∀ token, piece.kind = .token token -> token.isComment = true) :
    ¬piece.IsCode := by
  rintro ⟨token, isToken, isCode⟩
  rw [kind token isToken] at isCode
  cases isCode

/-- What is admitted by a choice is admitted by the branch that is taken, and a choice that takes the same
branch agrees with it if the branches agree. -/
theorem choice_eq
    {admits : Piece -> Prop}
    {condition condition' : Prop}
    [Decidable condition]
    [Decidable condition']
    {first second first' second' : Piece}
    (firstEq : condition -> admits first -> condition' ∧ first' = first)
    (secondEq : ¬condition -> admits second -> ¬condition' ∧ second' = second)
    (admitted : admits (if condition then first else second)) :
    (if condition' then first' else second') = if condition then first else second := by
  by_cases holds : condition
  · rw [if_pos holds] at admitted ⊢
    obtain ⟨same, equal⟩ := firstEq holds admitted
    rw [if_pos same, equal]
  · rw [if_neg holds] at admitted ⊢
    obtain ⟨same, equal⟩ := secondEq holds admitted
    rw [if_neg same, equal]

section

variable {first : Char} {rest tail back : List Char}

theorem word_isolated
    (textEq : (word (first :: rest.takeWhile continuesWord)).text = first :: tail)
    (blank : BlankNext back) :
    word (first :: (tail ++ back).takeWhile continuesWord)
      = word (first :: rest.takeWhile continuesWord) := by
  obtain rfl : rest.takeWhile continuesWord = tail := (List.cons.inj textEq).2
  rw [takeWhile_takeWhile_append _ _ _ (blank.stopsAt (by decide +kernel))]

theorem number_isolated
    (textEq : (number (first :: rest)).text = first :: tail)
    (blank : BlankNext back) :
    number (first :: (tail ++ back)) = number (first :: rest) := by
  rw [number, ofFault?_text] at textEq
  rw [number, number, ← List.cons_append, ← textEq,
    Number.split_text_append _ back (Number.split_shape _) blank]

theorem rawString_isolated
    (textEq : (rawString rest).text = first :: tail)
    (isCode : (rawString rest).IsCode) :
    rawString (tail ++ back) = rawString rest := by
  by_cases closed : (rest.takeWhile (· ≠ '\x60')).length < rest.length
  · have bodyEq : rest.takeWhile (· ≠ '\x60') ++ ['\x60'] = tail := by
      rw [rawString] at textEq
      simp only [if_pos closed] at textEq
      exact (List.cons.inj textEq).2
    have body : (tail ++ back).takeWhile (· ≠ '\x60') = rest.takeWhile (· ≠ '\x60') := by
      rw [← bodyEq, List.append_assoc]
      exact takeWhile_takeWhile_append (· ≠ '\x60') rest _ (stopsAt_cons _ (by decide))
    have stillClosed : (rest.takeWhile (· ≠ '\x60')).length < (tail ++ back).length := by
      rw [← bodyEq]
      simp only [List.length_append, List.length_singleton]
      omega
    rw [rawString, rawString]
    simp only [body, if_pos closed, if_pos stillClosed]
  · obtain ⟨token, isToken, -⟩ := isCode
    rw [rawString] at isToken
    simp only [if_neg closed] at isToken
    cases isToken

theorem interpretedString_isolated
    (textEq : (interpretedString rest).text = first :: tail)
    (isCode : (interpretedString rest).IsCode) :
    interpretedString (tail ++ back) = interpretedString rest := by
  obtain ⟨token, isToken, -⟩ := isCode
  have faultless : ¬(ofFault? .stringLit ('"' :: (Quoted.read '"' 0 rest).text)
      (Quoted.read '"' 0 rest).fault?).IsFault := by
    rintro ⟨cause, isFault⟩
    exact nomatch isToken.symm.trans isFault
  have closed := Quoted.closed_of_fault? (ofFault?_isFault faultless)
  rw [interpretedString, ofFault?_text] at textEq
  rw [interpretedString, interpretedString, ← (List.cons.inj textEq).2,
    Quoted.read_text_append '"' 0 rest back (.inl rfl) closed]

theorem rune_isolated
    (textEq : (rune rest).text = first :: tail)
    (isCode : (rune rest).IsCode) :
    rune (tail ++ back) = rune rest := by
  obtain ⟨token, isToken, -⟩ := isCode
  have faultless : ¬(ofFault? .runeLit ('\'' :: (Quoted.read '\'' 0 rest).text)
      (Quoted.read '\'' 0 rest).runeFault?).IsFault := by
    rintro ⟨cause, isFault⟩
    exact nomatch isToken.symm.trans isFault
  have noFault := ofFault?_isFault faultless
  have closed : (Quoted.read '\'' 0 rest).closed = true := by
    refine Quoted.closed_of_fault? ?_
    cases found : (Quoted.read '\'' 0 rest).fault? with
    | none => rfl
    | some cause => simp [Quoted.runeFault?, found] at noFault
  rw [rune, ofFault?_text] at textEq
  rw [rune, rune, ← (List.cons.inj textEq).2,
    Quoted.read_text_append '\'' 0 rest back (.inr rfl) closed]

/-- What has no blank starts a text in front of a blank only if it starts the text itself. -/
theorem isPrefixOf_append_blank
    (start text : List Char)
    (noBlank : ' ' ∉ start)
    (blank : BlankNext back) :
    start.isPrefixOf (text ++ back) = start.isPrefixOf text := by
  induction start generalizing text with
  | nil => simp
  | cons head start inductionHypothesis =>
      rw [List.mem_cons, not_or] at noBlank
      cases text with
      | nil =>
          cases back with
          | nil => rfl
          | cons next rest =>
              obtain rfl := blank next rfl
              have other : (head == ' ') = false := by simpa using Ne.symm noBlank.1
              simp [List.isPrefixOf, other]
      | cons next rest => simp [List.isPrefixOf, inductionHypothesis rest noBlank.2]

theorem operator_isolated
    (textEq : (operator first rest).text = first :: tail)
    (isCode : (operator first rest).IsCode)
    (blank : BlankNext back) :
    operator first (tail ++ back) = operator first rest := by
  cases found : operator? (first :: rest) with
  | none =>
      obtain ⟨token, isToken, -⟩ := isCode
      simp only [operator, found] at isToken
      cases isToken
  | some token =>
      have spelled : token.spelling.toList = first :: tail := by
        simpa only [operator, found] using textEq
      have ownSpelling : ∀ token ∈ Token.operators,
          operator? token.spelling.toList = some token := by decide
      have noBlank : ∀ token ∈ Token.operators, ' ' ∉ token.spelling.toList := by decide
      have foundAgain : operator? (first :: (tail ++ back)) = some token := by
        rw [← ownSpelling token (List.mem_of_find?_eq_some found), spelled]
        refine List.find?_congr fun other isOperator => ?_
        exact isPrefixOf_append_blank _ (first :: tail) (noBlank other isOperator) blank
      simp only [operator, found, foundAgain]

/-- What follows a piece in front of a blank follows it in its text, unless it is the blank. -/
theorem head?_of_isolated
    (tailEq : tail <+: rest)
    (blank : BlankNext back)
    {next : Char}
    (other : next ≠ ' ')
    (isNext : (tail ++ back).head? = some next) :
    rest.head? = some next := by
  cases tail with
  | nil => exact absurd (blank next isNext) other
  | cons head tail =>
      obtain ⟨behind, rfl⟩ := tailEq
      exact isNext

/-- A token is cut again from its own text in front of a blank. -/
theorem cut_isolated
    (textEq : (cut first rest).text = first :: tail)
    (isCode : (cut first rest).IsCode)
    (blank : BlankNext back) :
    cut first (tail ++ back) = cut first rest := by
  obtain ⟨other, sameText, tailEq⟩ := exists_cut_text first rest
  obtain rfl : other = tail := (List.cons.inj (sameText.symm.trans textEq)).2
  have next {character : Char} (notBlank : character ≠ ' ')
      (isNext : (other ++ back).head? = some character) : rest.head? = some character :=
    head?_of_isolated tailEq blank notBlank isNext
  have admitted : IsCodeOf (first :: other) (cut first rest) := ⟨isCode, textEq⟩
  have lineEq (next : (other ++ back).head? = some '/') : rest.head? = some '/' :=
    head?_of_isolated tailEq blank (by decide) next
  have starEq (next : (other ++ back).head? = some '*') : rest.head? = some '*' :=
    head?_of_isolated tailEq blank (by decide) next
  have digitEq (digit : (other ++ back).head?.any Char.isDigit) : rest.head?.any Char.isDigit := by
    obtain ⟨next, isNext, isDigit⟩ := (Option.any_eq_true ..).1 digit
    have notBlank : next ≠ ' ' := by
      rintro rfl
      exact absurd isDigit (by decide)
    rw [head?_of_isolated tailEq blank notBlank isNext]
    exact isDigit
  clear isCode textEq sameText
  unfold cut at admitted ⊢
  refine choice_eq (fun holds _ => ⟨holds, rfl⟩) (fun holds admitted => ⟨holds, ?_⟩) admitted
  refine choice_eq (fun holds _ => ⟨holds, rfl⟩) (fun holds admitted => ⟨holds, ?_⟩) admitted
  refine choice_eq (fun _ admitted => absurd admitted.isCode (not_isCode ?_))
    (fun holds admitted => ⟨holds, ?_⟩) admitted
  · rintro token ⟨⟩
  refine choice_eq (fun _ admitted => absurd admitted.isCode (not_isCode ?_))
    (fun holds admitted => ⟨?_, ?_⟩) admitted
  · rintro token ⟨⟩
    rfl
  · simp only [Bool.and_eq_true, decide_eq_true_eq, not_and] at holds ⊢
    exact fun slash next => holds slash (lineEq next)
  refine choice_eq (fun _ admitted => absurd admitted.isCode (not_isCode ?_))
    (fun holds admitted => ⟨?_, ?_⟩) admitted
  · intro token
    unfold blockComment
    split <;> rintro ⟨⟩
    rfl
  · simp only [Bool.and_eq_true, decide_eq_true_eq, not_and] at holds ⊢
    exact fun slash next => holds slash (starEq next)
  refine choice_eq (fun holds admitted => ⟨holds, word_isolated admitted.textEq blank⟩)
    (fun holds admitted => ⟨holds, ?_⟩) admitted
  refine choice_eq (fun holds admitted => ⟨?_, number_isolated admitted.textEq blank⟩)
    (fun holds admitted => ⟨?_, ?_⟩) admitted
  · have textEq : (Number.split (first :: rest)).1.text = first :: other := by
      rw [← admitted.textEq, number, ofFault?_text]
    simp only [Bool.or_eq_true, Bool.and_eq_true, decide_eq_true_eq] at holds ⊢
    rcases holds with isDigit | ⟨rfl, digitNext⟩
    · exact .inl isDigit
    · obtain ⟨digit, tail, rfl⟩ :=
        List.exists_cons_of_ne_nil (Number.tail_ne_nil_of_point rest other digitNext textEq)
      obtain ⟨behind, rfl⟩ := tailEq
      exact .inr ⟨rfl, digitNext⟩
  · simp only [Bool.or_eq_true, Bool.and_eq_true, decide_eq_true_eq, not_or, not_and] at holds ⊢
    exact ⟨holds.1, fun point digit => holds.2 point (digitEq digit)⟩
  refine choice_eq (fun holds admitted => ⟨holds, rawString_isolated admitted.textEq admitted.isCode⟩)
    (fun holds admitted => ⟨holds, ?_⟩) admitted
  refine choice_eq (fun holds admitted =>
    ⟨holds, interpretedString_isolated admitted.textEq admitted.isCode⟩)
    (fun holds admitted => ⟨holds, ?_⟩) admitted
  exact choice_eq (fun holds admitted => ⟨holds, rune_isolated admitted.textEq admitted.isCode⟩)
    (fun holds admitted => ⟨holds, operator_isolated admitted.textEq admitted.isCode blank⟩) admitted

end

end Piece
end GoFront
