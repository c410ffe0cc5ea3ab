import GoFront.Proofs.Lexing.Isolation

/-!
# The grammar of numbers

The literals that stand for numbers, by the rules of their grammar: integers in four bases, decimal and
hexadecimal floating-point numbers, and imaginary numbers. A number is cut from a text without a fault
and up to the end of the text exactly if the text is such a literal.
-/

namespace GoFront

open Text

namespace Numeral

/-! ## Rules -/

/-- Digits of a base, with at most one separator between neighbours. -/
inductive Digits (base : Base) : List Char -> Prop
  | last
      {digit : Char}
      (isDigit : isDigitOf base digit = true) : Digits base [digit]
  | next
      {digit : Char}
      {digits : List Char}
      (isDigit : isDigitOf base digit = true)
      (rest : Digits base digits) : Digits base (digit :: digits)
  | separated
      {digit : Char}
      {digits : List Char}
      (isDigit : isDigitOf base digit = true)
      (rest : Digits base digits) : Digits base (digit :: '_' :: digits)

/-- Digits of a base that may stand behind a separator. -/
inductive MoreDigits (base : Base) : List Char -> Prop
  | plain
      {digits : List Char}
      (isRun : Digits base digits) : MoreDigits base digits
  | separated
      {digits : List Char}
      (isRun : Digits base digits) : MoreDigits base ('_' :: digits)

/-- A part that may be missing. -/
def Optional (rule : List Char -> Prop) (text : List Char) : Prop :=
  text = [] ∨ rule text

/-- The letters that announce a base behind a zero. -/
def prefixLetters : Base -> List Char
  | .binary => ['b', 'B']
  | .octal => ['o', 'O']
  | .decimal => []
  | .hexadecimal => ['x', 'X']

/-- An exponent that begins with one of some letters. -/
inductive ExponentPart (letters : List Char) : List Char -> Prop
  | intro
      {letter : Char}
      {sign digits : List Char}
      (isLetter : letter ∈ letters)
      (isSign : sign ∈ [[], ['+'], ['-']])
      (isRun : Digits .decimal digits) : ExponentPart letters (letter :: (sign ++ digits))

/-- Integers: zero, decimal numbers, octal numbers behind a zero, and numbers of an announced base. -/
inductive IntegerLit : List Char -> Prop
  | zero : IntegerLit ['0']
  | decimal
      {first : Char}
      {rest : List Char}
      (isDigit : isDigitOf .decimal first = true)
      (nonzero : first ≠ '0')
      (more : Optional (MoreDigits .decimal) rest) : IntegerLit (first :: rest)
  | octal
      {digits : List Char}
      (more : MoreDigits .octal digits) : IntegerLit ('0' :: digits)
  | announced
      {base : Base}
      {letter : Char}
      {digits : List Char}
      (isLetter : letter ∈ prefixLetters base)
      (more : MoreDigits base digits) : IntegerLit ('0' :: letter :: digits)

/-- The digits of a hexadecimal floating-point number. -/
inductive Mantissa : List Char -> Prop
  | pointed
      {whole fraction : List Char}
      (more : MoreDigits .hexadecimal whole)
      (isFraction : Optional (Digits .hexadecimal) fraction) : Mantissa (whole ++ '.' :: fraction)
  | whole
      {whole : List Char}
      (more : MoreDigits .hexadecimal whole) : Mantissa whole
  | fraction
      {fraction : List Char}
      (isRun : Digits .hexadecimal fraction) : Mantissa ('.' :: fraction)

/-- Floating-point numbers. A hexadecimal one has an exponent. -/
inductive FloatLit : List Char -> Prop
  | pointed
      {whole fraction exponent : List Char}
      (isRun : Digits .decimal whole)
      (isFraction : Optional (Digits .decimal) fraction)
      (isExponent : Optional (ExponentPart ['e', 'E']) exponent) :
      FloatLit (whole ++ '.' :: (fraction ++ exponent))
  | whole
      {whole exponent : List Char}
      (isRun : Digits .decimal whole)
      (isExponent : ExponentPart ['e', 'E'] exponent) : FloatLit (whole ++ exponent)
  | fraction
      {fraction exponent : List Char}
      (isRun : Digits .decimal fraction)
      (isExponent : Optional (ExponentPart ['e', 'E']) exponent) :
      FloatLit ('.' :: (fraction ++ exponent))
  | hexadecimal
      {letter : Char}
      {mantissa exponent : List Char}
      (isLetter : letter ∈ prefixLetters .hexadecimal)
      (isMantissa : Mantissa mantissa)
      (isExponent : ExponentPart ['p', 'P'] exponent) :
      FloatLit ('0' :: letter :: (mantissa ++ exponent))

/-- Imaginary numbers. Decimal digits may begin with a zero here. -/
inductive ImaginaryLit : List Char -> Prop
  | digits
      {digits : List Char}
      (isRun : Digits .decimal digits) : ImaginaryLit (digits ++ ['i'])
  | integer
      {text : List Char}
      (isInteger : IntegerLit text) : ImaginaryLit (text ++ ['i'])
  | float
      {text : List Char}
      (isFloat : FloatLit text) : ImaginaryLit (text ++ ['i'])

/-- The literals of the grammar by their tokens. -/
inductive Literal : Token -> List Char -> Prop
  | integer
      {text : List Char}
      (isInteger : IntegerLit text) : Literal .intLit text
  | float
      {text : List Char}
      (isFloat : FloatLit text) : Literal .floatLit text
  | imaginary
      {text : List Char}
      (isImaginary : ImaginaryLit text) : Literal .imagLit text

/-! ## Runs of digits -/

section

variable {base : Base} {text : List Char} {digit : Char}

theorem not_isDigitOf_separator (base : Base) : isDigitOf base '_' = false := by
  cases base <;> decide

theorem ne_separator (isDigit : isDigitOf base digit = true) : digit ≠ '_' := by
  rintro rfl
  rw [not_isDigitOf_separator] at isDigit
  cases isDigit

theorem Digits.head?_ne (isRun : Digits base text) : text.head? ≠ some '_' := by
  cases isRun with
  | last isDigit | next isDigit _ | separated isDigit _ =>
      exact fun isFirst => ne_separator isDigit (Option.some.inj isFirst)

theorem Digits.ne_nil (isRun : Digits base text) : text ≠ [] := by
  cases isRun <;> nofun

theorem MoreDigits.ne_nil (more : MoreDigits base text) : text ≠ [] := by
  cases more with
  | plain isRun => exact isRun.ne_nil
  | separated _ => nofun

/-- Another digit in front. -/
theorem MoreDigits.cons
    (isDigit : isDigitOf base digit = true)
    (more : MoreDigits base text) :
    Digits base (digit :: text) := by
  cases more with
  | plain isRun => exact .next isDigit isRun
  | separated isRun => exact .separated isDigit isRun

/-- Behind a digit, more digits may follow. -/
theorem digits_cons_iff :
    Digits base (digit :: text)
      ↔ isDigitOf base digit = true ∧ Optional (MoreDigits base) text := by
  constructor
  · intro isRun
    cases isRun with
    | last isDigit => exact ⟨isDigit, .inl rfl⟩
    | next isDigit rest => exact ⟨isDigit, .inr (.plain rest)⟩
    | separated isDigit rest => exact ⟨isDigit, .inr (.separated rest)⟩
  · rintro ⟨isDigit, rfl | more⟩
    · exact .last isDigit
    · exact more.cons isDigit

theorem hasLooseSeparator_cons (first : Char) (rest : List Char) :
    Number.hasLooseSeparator (first :: rest) = true
      ↔ first = '_' ∧ (rest = [] ∨ rest.head? = some '_')
        ∨ Number.hasLooseSeparator rest = true := by
  rw [Number.hasLooseSeparator.eq_def]
  split
  · next isNil => cases isNil
  · next isLast =>
      obtain ⟨rfl, rfl⟩ := List.cons.inj isLast
      simp
  · next isDouble =>
      obtain ⟨rfl, rfl⟩ := List.cons.inj isDouble
      simp
  · next tail notLast notDouble isCons =>
      obtain ⟨rfl, rfl⟩ := List.cons.inj isCons
      refine ⟨.inr, fun loose => loose.resolve_left ?_⟩
      rintro ⟨rfl, rfl | isSeparator⟩
      · exact notLast rfl rfl
      · obtain ⟨behind, rfl⟩ := List.head?_eq_some_iff.1 isSeparator
        exact notDouble behind rfl rfl

/-- Whether a text is made of digits of a base and separators. -/
def IsRunOf (base : Base) (text : List Char) : Prop :=
  ∀ character ∈ text, character = '_' ∨ isDigitOf base character = true

theorem Digits.properties (isRun : Digits base text) :
    IsRunOf base text ∧ Number.hasLooseSeparator text = false := by
  simp only [← Bool.not_eq_true]
  induction isRun with
  | last isDigit =>
      refine ⟨List.forall_mem_singleton.2 (.inr isDigit), ?_⟩
      simp [ne_separator isDigit, Number.hasLooseSeparator]
  | next isDigit _ inductionHypothesis =>
      refine ⟨List.forall_mem_cons.2 ⟨.inr isDigit, inductionHypothesis.1⟩, ?_⟩
      simp [hasLooseSeparator_cons, ne_separator isDigit, inductionHypothesis.2]
  | separated isDigit rest inductionHypothesis =>
      refine ⟨List.forall_mem_cons.2 ⟨.inr isDigit, List.forall_mem_cons.2
        ⟨.inl rfl, inductionHypothesis.1⟩⟩, ?_⟩
      simp [hasLooseSeparator_cons, ne_separator isDigit, inductionHypothesis.2, rest.ne_nil,
        rest.head?_ne]

/-- More digits are some characters of a run in which no separator is loose. -/
theorem moreDigits_iff :
    MoreDigits base text
      ↔ text ≠ [] ∧ IsRunOf base text ∧ Number.hasLooseSeparator text = false := by
  constructor
  · intro more
    refine ⟨more.ne_nil, ?_⟩
    cases more with
    | plain isRun => exact isRun.properties
    | separated isRun =>
        refine ⟨List.forall_mem_cons.2 ⟨.inl rfl, isRun.properties.1⟩, ?_⟩
        rw [← Bool.not_eq_true, hasLooseSeparator_cons]
        simp [isRun.properties.2, isRun.ne_nil, isRun.head?_ne]
  · rintro ⟨nonempty, isRun, tight⟩
    induction text with
    | nil => exact absurd rfl nonempty
    | cons first rest inductionHypothesis =>
        obtain ⟨isFirst, restRun⟩ := List.forall_mem_cons.1 isRun
        rw [← Bool.not_eq_true, hasLooseSeparator_cons, not_or, Bool.not_eq_true] at tight
        obtain ⟨notLoose, tight⟩ := tight
        rcases isFirst with rfl | isDigit
        · have some : rest ≠ [] := fun isLast => notLoose ⟨rfl, .inl isLast⟩
          cases inductionHypothesis some restRun tight with
          | plain isRun => exact .separated isRun
          | separated => exact absurd ⟨rfl, .inr rfl⟩ notLoose
        · by_cases isLast : rest = []
          · rw [isLast]
            exact .plain (.last isDigit)
          · exact .plain ((inductionHypothesis isLast restRun tight).cons isDigit)

theorem optional_moreDigits_iff :
    Optional (MoreDigits base) text
      ↔ IsRunOf base text ∧ Number.hasLooseSeparator text = false := by
  by_cases nothing : text = []
  · subst nothing
    simp [Optional, IsRunOf, Number.hasLooseSeparator]
  · simp [Optional, moreDigits_iff, nothing]

/-- Digits are more digits that do not begin with a separator. -/
theorem digits_iff : Digits base text ↔ MoreDigits base text ∧ text.head? ≠ some '_' := by
  constructor
  · exact fun isRun => ⟨.plain isRun, isRun.head?_ne⟩
  · rintro ⟨more, noSeparator⟩
    cases more with
    | plain isRun => exact isRun
    | separated => exact absurd rfl noSeparator

theorem optional_digits_iff :
    Optional (Digits base) text
      ↔ IsRunOf base text ∧ Number.hasOuterSeparator text = false := by
  by_cases nothing : text = []
  · subst nothing
    simp [Optional, IsRunOf, Number.hasOuterSeparator, Number.hasLooseSeparator]
  · simp [Optional, digits_iff, moreDigits_iff, nothing, Number.hasOuterSeparator, and_comm,
      and_assoc]

/-- The digits of a smaller base are digits of a larger one. -/
theorem isRunOf_mono
    {larger : Base}
    (isSmaller : base.radix ≤ larger.radix)
    (isRun : IsRunOf base text) :
    IsRunOf larger text := by
  intro character member
  refine (isRun character member).imp_right fun isDigit => ?_
  simp only [isDigitOf, digitValue?, Option.isSome_iff_exists, Option.filter_eq_some_iff,
    decide_eq_true_eq] at isDigit ⊢
  obtain ⟨value, found, small⟩ := isDigit
  exact ⟨value, found, Nat.lt_of_lt_of_le small isSmaller⟩

theorem Optional.mono
    {larger : Base}
    (isSmaller : base.radix ≤ larger.radix)
    (more : Optional (MoreDigits base) text) :
    Optional (MoreDigits larger) text := by
  rw [optional_moreDigits_iff] at more ⊢
  exact ⟨isRunOf_mono isSmaller more.1, more.2⟩

theorem strayDigit?_eq_none : Number.strayDigit? base text = none ↔ IsRunOf base text := by
  simp [Number.strayDigit?, IsRunOf, or_iff_not_imp_left]

/-- Digits that may be missing are missing if none is counted. -/
theorem digitCount_eq_zero_iff (more : Optional (MoreDigits base) text) :
    Number.digitCount text = 0 ↔ text = [] := by
  constructor
  · intro none
    rw [Number.digitCount, List.countP_eq_zero] at none
    rcases more with nothing | (isRun | isRun)
    · exact nothing
    all_goals
      cases isRun with
      | last isDigit | next isDigit _ | separated isDigit _ =>
          exact absurd (by simpa using ne_separator isDigit) (none _ (by simp))
  · rintro rfl
    rfl

theorem Optional.moreDigits (isRun : Optional (Digits base) text) :
    Optional (MoreDigits base) text :=
  isRun.imp_right .plain

/-- Digits are told from what may be missing by their count. -/
theorem digits_iff_digitCount_ne_zero :
    Digits base text
      ↔ IsRunOf base text
        ∧ Number.hasOuterSeparator text = false
        ∧ Number.digitCount text ≠ 0 := by
  rw [← and_assoc, ← optional_digits_iff]
  constructor
  · intro isRun
    have isOptional : Optional (Digits base) text := .inr isRun
    exact ⟨isOptional, fun none =>
      isRun.ne_nil ((digitCount_eq_zero_iff isOptional.moreDigits).1 none)⟩
  · rintro ⟨rfl | isRun, some⟩
    · exact absurd rfl some
    · exact isRun

end

/-! ## Well-made numbers -/

/-- The letters that open an exponent. -/
def exponentLetters : Base -> List Char
  | .binary | .octal => []
  | .decimal => ['e', 'E']
  | .hexadecimal => ['p', 'P']

/-- A number whose parts are what the grammar asks of them. -/
structure WellMade (number : Number) : Prop where
  lead : number.base = .decimal ∧ number.lead = []
    ∨ ∃ letter ∈ prefixLetters number.base, number.lead = ['0', letter]
  whole : Optional (MoreDigits number.digitBase) number.whole
  fraction : ∀ digits ∈ number.fraction, Optional (Digits number.base) digits
  exponent : ∀ exponent ∈ number.exponent,
    exponent.letter ∈ exponentLetters number.base
      ∧ exponent.sign ∈ [[], ['+'], ['-']]
      ∧ Digits .decimal exponent.digits
  plain : number.base = .binary ∨ number.base = .octal -> number.fraction = none
  scaled : number.base = .hexadecimal -> number.fraction.isSome = true ->
    number.exponent.isSome = true
  nonempty : number.whole ≠ [] ∨ number.fraction.getD [] ≠ []

section

variable {number : Number}

theorem fault?_eq_none_iff :
    number.fault? = none
      ↔ Number.hasLooseSeparator number.whole = false
        ∧ Number.strayDigit? number.digitBase number.whole = none
        ∧ Number.hasOuterSeparator (number.fraction.getD []) = false
        ∧ Number.hasOuterSeparator ((number.exponent.map Exponent.digits).getD []) = false
        ∧ (number.exponent.isSome = true ->
          Number.digitCount ((number.exponent.map Exponent.digits).getD []) ≠ 0)
        ∧ (number.base = .hexadecimal -> number.fraction.isSome = true ->
          number.exponent.isSome = true)
        ∧ Number.digitCount number.whole + Number.digitCount (number.fraction.getD []) ≠ 0 := by
  simp only [Number.fault?, Number.faults, List.findSome?_eq_none_iff, List.forall_mem_cons]
  simp [Option.isNone_iff_eq_none, Option.isSome_iff_ne_none]

/-- A zero and a letter are split off where they announce a base. -/
theorem splitBase_announced
    {base : Base}
    {letter : Char}
    (isLetter : letter ∈ prefixLetters base)
    (rest : List Char) :
    Number.splitBase ('0' :: letter :: rest) = (base, ['0', letter], rest) := by
  cases base <;>
    simp only [prefixLetters, List.mem_cons, List.not_mem_nil, or_false] at isLetter
  all_goals rcases isLetter with rfl | rfl <;> rfl

theorem exists_letter_of_splitBase
    {base : Base}
    {lead : List Char}
    (announces : base ≠ .decimal)
    (isSplit : Number.splitBase lead = (base, lead, [])) :
    ∃ letter ∈ prefixLetters base, lead = ['0', letter] := by
  unfold Number.splitBase at isSplit
  split at isSplit
  · next letter rest =>
    split_ifs at isSplit with isX isB isO
    · obtain ⟨rfl, -, rfl⟩ := Prod.mk.inj isSplit |>.imp_right Prod.mk.inj
      exact ⟨letter, by simpa [prefixLetters] using isX, rfl⟩
    · obtain ⟨rfl, -, rfl⟩ := Prod.mk.inj isSplit |>.imp_right Prod.mk.inj
      exact ⟨letter, by simpa [prefixLetters] using isB, rfl⟩
    · obtain ⟨rfl, -, rfl⟩ := Prod.mk.inj isSplit |>.imp_right Prod.mk.inj
      exact ⟨letter, by simpa [prefixLetters] using isO, rfl⟩
    · exact absurd (Prod.mk.inj isSplit).1.symm announces
  · exact absurd (Prod.mk.inj isSplit).1.symm announces

/-- The digits of a number are characters that continue a run of its base. -/
theorem continuesRun_of_isRunOf
    {base larger : Base}
    {text : List Char}
    (isSmaller : base.radix ≤ (if larger = .hexadecimal then .hexadecimal else .decimal : Base).radix)
    (isRun : IsRunOf base text) :
    ∀ character ∈ text, Number.continuesRun larger character = true := by
  intro character member
  rw [Number.continuesRun, Bool.or_eq_true, beq_iff_eq]
  exact isRunOf_mono isSmaller isRun character member

theorem radix_digitBase_le (number : Number) :
    number.digitBase.radix
      ≤ (if number.base = .hexadecimal then .hexadecimal else .decimal : Base).radix := by
  rw [Number.digitBase]
  split_ifs with isOctal isHexadecimal isHexadecimal
  all_goals cases baseEq : number.base <;> simp_all [Base.radix]

/-- The runs of decimal and hexadecimal numbers are made of their own digits. -/
theorem forall_continuesRun_iff
    {base : Base}
    {text : List Char}
    (scaled : ¬(base = .binary ∨ base = .octal)) :
    (∀ character ∈ text, Number.continuesRun base character = true) ↔ IsRunOf base text := by
  cases base with
  | binary | octal => simp at scaled
  | decimal | hexadecimal => simp [IsRunOf, Number.continuesRun]

/-- The exponents of the grammar are those with a sign, if any, and some digits. -/
theorem exponent_iff
    (base : Base)
    (exponent : Exponent) :
    exponent.letter ∈ exponentLetters base
        ∧ exponent.sign ∈ [[], ['+'], ['-']]
        ∧ Digits .decimal exponent.digits
      ↔ (base = .decimal ∧ Number.ExponentShape 'e' 'E' exponent
          ∨ base = .hexadecimal ∧ Number.ExponentShape 'p' 'P' exponent)
        ∧ Number.hasOuterSeparator exponent.digits = false
        ∧ Number.digitCount exponent.digits ≠ 0 := by
  have shape (lower upper : Char) :
      Number.ExponentShape lower upper exponent
        ↔ exponent.letter ∈ [lower, upper]
          ∧ exponent.sign ∈ [[], ['+'], ['-']]
          ∧ IsRunOf .decimal exponent.digits := by
    rw [← forall_continuesRun_iff (by decide)]
    simp only [List.mem_cons, List.not_mem_nil, or_false]
    exact ⟨fun ⟨letter, sign, digits⟩ => ⟨letter, sign, digits⟩,
      fun ⟨letter, sign, digits⟩ => ⟨letter, sign, digits⟩⟩
  rw [digits_iff_digitCount_ne_zero, shape, shape]
  cases base <;> simp [exponentLetters, and_assoc]

theorem lead_iff (base : Base) (lead : List Char) :
    (base = .decimal ∧ lead = [] ∨ ∃ letter ∈ prefixLetters base, lead = ['0', letter])
      ↔ base = .decimal ∧ lead = []
        ∨ base ≠ .decimal ∧ ∀ rest, Number.splitBase (lead ++ rest) = (base, lead, rest) := by
  refine or_congr_right ⟨?_, fun ⟨announces, isSplit⟩ => ?_⟩
  · rintro ⟨letter, isLetter, rfl⟩
    refine ⟨?_, splitBase_announced isLetter⟩
    rintro rfl
    simp [prefixLetters] at isLetter
  · exact exists_letter_of_splitBase announces (by simpa using isSplit [])

theorem WellMade.exponent_eq_none
    (wellMade : WellMade number)
    (isPlain : number.base = .binary ∨ number.base = .octal) :
    number.exponent = none := by
  refine Option.eq_none_iff_forall_not_mem.2 fun found member => ?_
  have isLetter := (wellMade.exponent found member).1
  rcases isPlain with isPlain | isPlain <;> simp [isPlain, exponentLetters] at isLetter

theorem WellMade.fractionDigits (wellMade : WellMade number) :
    Optional (Digits number.base) (number.fraction.getD []) := by
  cases fractionEq : number.fraction with
  | none => exact .inl rfl
  | some digits => exact wellMade.fraction digits fractionEq

/-- Only decimal and hexadecimal numbers have a fraction. -/
theorem scaled_of_fraction
    {digits : List Char}
    (plain : number.base = .binary ∨ number.base = .octal -> number.fraction = none)
    (member : digits ∈ number.fraction) :
    ¬(number.base = .binary ∨ number.base = .octal) :=
  fun isPlain => Option.ne_none_iff_exists'.2 ⟨digits, member⟩ (plain isPlain)

/-- A number of the grammar can be split off a text. -/
theorem WellMade.shape (wellMade : WellMade number) : number.Shape where
  lead := (lead_iff _ _).1 wellMade.lead
  whole := continuesRun_of_isRunOf (radix_digitBase_le number) (optional_moreDigits_iff.1 wellMade.whole).1
  fraction digits member := (forall_continuesRun_iff (scaled_of_fraction wellMade.plain member)).2
    (optional_digits_iff.1 (wellMade.fraction digits member)).1
  exponent found member := ((exponent_iff _ _).1 (wellMade.exponent found member)).1
  plain isPlain := ⟨wellMade.plain isPlain, wellMade.exponent_eq_none isPlain⟩

/-- A number of the grammar has no fault. -/
theorem WellMade.fault_eq_none (wellMade : WellMade number) : number.fault? = none := by
  have wholeRun := optional_moreDigits_iff.1 wellMade.whole
  have fractionDigits := wellMade.fractionDigits
  have exponentRun found member := (exponent_iff _ _).1 (wellMade.exponent found member)
  refine fault?_eq_none_iff.2 ⟨wholeRun.2, strayDigit?_eq_none.2 wholeRun.1,
    (optional_digits_iff.1 fractionDigits).2, ?_, ?_, wellMade.scaled, fun noDigits => ?_⟩
  · cases exponentEq : number.exponent with
    | none => rfl
    | some found => exact (exponentRun found exponentEq).2.1
  · cases exponentEq : number.exponent with
    | none => nofun
    | some found => exact fun _ => (exponentRun found exponentEq).2.2
  · obtain ⟨noWhole, noFraction⟩ := Nat.add_eq_zero_iff.1 noDigits
    rcases wellMade.nonempty with some | some
    · exact some ((digitCount_eq_zero_iff wellMade.whole).1 noWhole)
    · exact some ((digitCount_eq_zero_iff fractionDigits.moreDigits).1 noFraction)

/-- A faultless number that is split off a text is one of the grammar. -/
theorem wellMade_of_shape
    (shape : number.Shape)
    (faultless : number.fault? = none) : WellMade number := by
  obtain ⟨tight, regular, tightFraction, tightExponent, exponentDigits, scaled, digits⟩ :=
    fault?_eq_none_iff.1 faultless
  have plain isPlain := (shape.plain isPlain).1
  refine ⟨(lead_iff _ _).2 shape.lead, optional_moreDigits_iff.2 ⟨strayDigit?_eq_none.1 regular, tight⟩,
    fun found member => ?_, fun found member => (exponent_iff _ _).2 ⟨shape.exponent found member, ?_⟩,
    plain, scaled, ?_⟩
  · rw [Option.mem_def.1 member] at tightFraction
    exact optional_digits_iff.2 ⟨(forall_continuesRun_iff (scaled_of_fraction plain member)).1
      (shape.fraction found member), tightFraction⟩
  · rw [Option.mem_def.1 member] at tightExponent exponentDigits
    exact ⟨tightExponent, exponentDigits rfl⟩
  · refine Classical.or_iff_not_imp_left.2 fun noWhole noFraction => digits ?_
    rw [not_not.1 noWhole, noFraction]
    rfl

/-- The numbers of the grammar are the faultless ones among those that a split can give. -/
theorem wellMade_iff : WellMade number ↔ number.Shape ∧ number.fault? = none :=
  ⟨fun wellMade => ⟨wellMade.shape, wellMade.fault_eq_none⟩,
    fun ⟨shape, faultless⟩ => wellMade_of_shape shape faultless⟩

end

/-! ## From numbers to literals -/

/-- The characters of a number in front of the mark of an imaginary number. -/
def body (number : Number) : List Char :=
  { number with imaginary := false }.text

theorem text_eq_body (number : Number) :
    number.text = body number ++ if number.imaginary then ['i'] else [] := by
  simp [body, Number.text]

section

variable {number : Number}

theorem body_eq (number : Number) :
    body number = number.lead ++ number.whole
      ++ (number.fraction.map fun digits => '.' :: digits).getD []
      ++ (number.exponent.map Exponent.text).getD [] := by
  simp [body, Number.text]

/-- A number without announced base does not begin with a separator if its text does not. -/
theorem WellMade.digits
    (wellMade : WellMade number)
    (isDecimal : number.base = .decimal)
    (starts : number.text.head? ≠ some '_')
    (some : number.whole ≠ []) :
    Digits number.digitBase number.whole := by
  obtain ⟨-, noLead⟩ := wellMade.lead.resolve_right (by simp [isDecimal, prefixLetters])
  refine digits_iff.2 ⟨wellMade.whole.resolve_left some, fun isSeparator => starts ?_⟩
  rw [Number.text, noLead, List.nil_append]
  simp only [List.append_assoc, List.head?_append, isSeparator, Option.some_or]

/-- What stands behind the point of a number. -/
theorem WellMade.exponentPart
    (wellMade : WellMade number)
    (exponent : Exponent)
    (isExponent : number.exponent = some exponent) :
    ExponentPart (exponentLetters number.base) exponent.text := by
  obtain ⟨isLetter, isSign, isRun⟩ := wellMade.exponent exponent isExponent
  exact .intro isLetter isSign isRun

/-- Decimal numbers without point and exponent are integers unless they are marked as imaginary. -/
theorem integer_of_digits
    {whole : List Char}
    (isRun : Digits (if whole.head? = some '0' then .octal else .decimal) whole) :
    IntegerLit whole := by
  cases whole with
  | nil => exact absurd rfl isRun.ne_nil
  | cons first rest =>
      obtain ⟨isDigit, more⟩ := digits_cons_iff.1 isRun
      by_cases isZero : first = '0'
      · subst isZero
        rcases more with rfl | more
        · exact .zero
        · exact .octal more
      · have notOctal : ¬(first :: rest).head? = some '0' := fun isHead =>
          isZero (Option.some.inj isHead)
        rw [if_neg notOctal] at isDigit more
        exact .decimal isDigit isZero more

/-- Numbers without point and exponent are integers unless they are decimal and imaginary. -/
theorem WellMade.integer
    (wellMade : WellMade number)
    (starts : number.text.head? ≠ some '_')
    (noFraction : number.fraction = none)
    (noExponent : number.exponent = none)
    (isInteger : number.base = .decimal -> number.imaginary = false) :
    IntegerLit (body number) := by
  have some : number.whole ≠ [] := wellMade.nonempty.resolve_right (by simp [noFraction])
  have bodyEq : body number = number.lead ++ number.whole := by
    simp [body_eq, noFraction, noExponent]
  rw [bodyEq]
  rcases wellMade.lead with ⟨isDecimal, noLead⟩ | ⟨letter, isLetter, leadEq⟩
  · have isRun := wellMade.digits isDecimal starts some
    rw [noLead]
    refine integer_of_digits ?_
    simpa [Number.digitBase, Number.isInteger, isDecimal, noFraction, noExponent,
      isInteger isDecimal] using isRun
  · have notDecimal : number.base ≠ .decimal := by
      intro isDecimal
      simp [isDecimal, prefixLetters] at isLetter
    have more := wellMade.whole.resolve_left some
    rw [Number.digitBase, if_neg (by simp [notDecimal])] at more
    rw [leadEq]
    exact .announced isLetter more

/-- The exponent of a number, which may be missing. -/
theorem WellMade.optionalExponent (wellMade : WellMade number) :
    Optional (ExponentPart (exponentLetters number.base))
      ((number.exponent.map Exponent.text).getD []) := by
  cases exponentEq : number.exponent with
  | none => exact .inl rfl
  | some exponent => exact .inr (wellMade.exponentPart exponent exponentEq)

theorem WellMade.decimalFloat
    (wellMade : WellMade number)
    (starts : number.text.head? ≠ some '_')
    (isFloat : ¬(number.fraction = none ∧ number.exponent = none))
    (isDecimal : number.base = .decimal) :
    FloatLit (body number) := by
  obtain ⟨-, noLead⟩ := wellMade.lead.resolve_right (by simp [isDecimal, prefixLetters])
  have notInteger : number.isInteger = false := by
    rw [← Bool.not_eq_true]
    simpa [Number.isInteger, and_assoc] using fun none noExponent => absurd ⟨none, noExponent⟩ isFloat
  have digits := wellMade.digits isDecimal starts
  have isExponent := wellMade.optionalExponent
  have nonempty := wellMade.nonempty
  rw [Number.digitBase, notInteger, Bool.and_false, Bool.false_and, if_neg Bool.false_ne_true,
    isDecimal] at digits
  rw [isDecimal] at isExponent
  rw [body_eq, noLead, List.nil_append]
  cases fractionEq : number.fraction with
  | none =>
      obtain ⟨exponent, exponentEq⟩ := Option.ne_none_iff_exists'.1 fun none =>
        isFloat ⟨fractionEq, none⟩
      have some : number.whole ≠ [] := nonempty.resolve_right (by simp [fractionEq])
      have isExponent := wellMade.exponentPart exponent exponentEq
      rw [isDecimal] at isExponent
      simpa [exponentEq] using FloatLit.whole (digits some) isExponent
  | some fraction =>
      have isFraction := wellMade.fraction fraction fractionEq
      rw [isDecimal] at isFraction
      by_cases noWhole : number.whole = []
      · have some : fraction ≠ [] := by simpa [noWhole, fractionEq] using nonempty
        simpa [noWhole] using FloatLit.fraction (isFraction.resolve_left some) isExponent
      · simpa using FloatLit.pointed (digits noWhole) isFraction isExponent

theorem WellMade.hexadecimalFloat
    (wellMade : WellMade number)
    (isFloat : ¬(number.fraction = none ∧ number.exponent = none))
    (isHexadecimal : number.base = .hexadecimal) :
    FloatLit (body number) := by
  obtain ⟨letter, isLetter, leadEq⟩ := wellMade.lead.resolve_left (by simp [isHexadecimal])
  have digitBaseEq : number.digitBase = .hexadecimal := by
    simp [Number.digitBase, isHexadecimal]
  have whole := wellMade.whole
  have nonempty := wellMade.nonempty
  rw [digitBaseEq] at whole
  rw [isHexadecimal] at isLetter
  obtain ⟨exponent, exponentEq⟩ : ∃ exponent, number.exponent = some exponent := by
    refine Option.ne_none_iff_exists'.1 fun none => ?_
    have some : number.fraction.isSome = true :=
      Option.isSome_iff_ne_none.2 fun noFraction => isFloat ⟨noFraction, none⟩
    simpa [none] using wellMade.scaled isHexadecimal some
  have isExponent := wellMade.exponentPart exponent exponentEq
  rw [isHexadecimal] at isExponent
  have ofMantissa
      {mantissa : List Char}
      (isMantissa : Mantissa mantissa)
      (mantissaEq : number.whole ++ (number.fraction.map fun digits => '.' :: digits).getD []
        = mantissa) :
      FloatLit (body number) := by
    rw [body_eq, leadEq, exponentEq, List.append_assoc ['0', letter], mantissaEq]
    exact .hexadecimal isLetter isMantissa isExponent
  cases fractionEq : number.fraction with
  | none =>
      have some : number.whole ≠ [] := nonempty.resolve_right (by simp [fractionEq])
      exact ofMantissa (.whole (whole.resolve_left some)) (by simp [fractionEq])
  | some fraction =>
      have isFraction := wellMade.fraction fraction fractionEq
      rw [isHexadecimal] at isFraction
      rcases whole with noWhole | more
      · have some : fraction ≠ [] := by simpa [noWhole, fractionEq] using nonempty
        exact ofMantissa (.fraction (isFraction.resolve_left some)) (by simp [fractionEq, noWhole])
      · exact ofMantissa (.pointed more isFraction) (by simp [fractionEq])

/-- Numbers with a point or an exponent are floating-point numbers. -/
theorem WellMade.float
    (wellMade : WellMade number)
    (starts : number.text.head? ≠ some '_')
    (isFloat : ¬(number.fraction = none ∧ number.exponent = none)) :
    FloatLit (body number) := by
  cases baseEq : number.base with
  | binary | octal =>
      have isPlain : number.base = .binary ∨ number.base = .octal := by simp [baseEq]
      exact absurd ⟨wellMade.plain isPlain, wellMade.exponent_eq_none isPlain⟩ isFloat
  | decimal => exact wellMade.decimalFloat starts isFloat baseEq
  | hexadecimal => exact wellMade.hexadecimalFloat isFloat baseEq

/-- A well-made number is a literal if it does not begin with a separator. -/
theorem WellMade.literal
    (wellMade : WellMade number)
    (starts : number.text.head? ≠ some '_') :
    Literal number.token number.text := by
  rw [Number.token, text_eq_body]
  by_cases isFloat : ¬(number.fraction = none ∧ number.exponent = none)
  · have isFloatLit := wellMade.float starts isFloat
    cases isImaginary : number.imaginary with
    | true => exact .imaginary (.float isFloatLit)
    | false =>
        have notInteger : ¬number.isInteger = true := by
          simpa [Number.isInteger, isImaginary] using isFloat
        rw [if_neg notInteger]
        simpa using Literal.float isFloatLit
  · obtain ⟨noFraction, noExponent⟩ := not_not.1 isFloat
    cases isImaginary : number.imaginary with
    | false =>
        have isInteger : number.isInteger = true := by
          simp [Number.isInteger, noFraction, noExponent, isImaginary]
        rw [if_pos isInteger]
        simpa using Literal.integer
          (wellMade.integer starts noFraction noExponent fun _ => isImaginary)
    | true =>
        refine .imaginary ?_
        by_cases isDecimal : number.base = .decimal
        · obtain ⟨-, noLead⟩ := wellMade.lead.resolve_right (by simp [isDecimal, prefixLetters])
          have some : number.whole ≠ [] := wellMade.nonempty.resolve_right (by simp [noFraction])
          have isRun := wellMade.digits isDecimal starts some
          rw [Number.digitBase, if_neg (by simp [Number.isInteger, isImaginary]), isDecimal] at isRun
          have bodyEq : body number = number.whole := by
            simp [body_eq, noLead, noFraction, noExponent]
          rw [bodyEq]
          exact .digits isRun
        · exact .integer (wellMade.integer starts noFraction noExponent (absurd · isDecimal))

end

/-! ## From literals to numbers -/

/-- Whether a text is a well-made number of some kind. -/
structure Spells (text : List Char) (isInteger imaginary : Bool) (number : Number) : Prop where
  wellMade : WellMade number
  text : number.text = text
  imaginary : number.imaginary = imaginary
  isInteger : number.isInteger = isInteger

/-- Digits behind a prefix, or without one, are a number. -/
theorem wellMade_of_whole
    {number : Number}
    (isLead : number.base = .decimal ∧ number.lead = []
      ∨ ∃ letter ∈ prefixLetters number.base, number.lead = ['0', letter])
    (isWhole : Optional (MoreDigits number.digitBase) number.whole)
    (notEmpty : number.whole ≠ [])
    (noFraction : number.fraction = none)
    (noExponent : number.exponent = none) :
    WellMade number where
  lead := isLead
  whole := isWhole
  fraction := by simp [noFraction]
  exponent := by simp [noExponent]
  plain := fun _ => noFraction
  scaled := by simp [noFraction]
  nonempty := .inl notEmpty

theorem IntegerLit.exists_number
    {text : List Char}
    (isInteger : IntegerLit text) :
    ∃ number, Spells text true false number := by
  have ofDigits
      {text : List Char}
      (isRun : Digits (if text.head? = some '0' then .octal else .decimal) text) :
      ∃ number, Spells text true false number := by
    refine ⟨⟨.decimal, [], text, none, none, false⟩, ?_, by simp [Number.text], rfl, rfl⟩
    refine wellMade_of_whole (.inl ⟨rfl, rfl⟩) (.inr (.plain ?_)) isRun.ne_nil rfl rfl
    simpa [Number.digitBase, Number.isInteger] using isRun
  cases isInteger with
  | zero => exact ofDigits (.last rfl)
  | decimal isDigit nonzero more =>
      refine ofDigits ?_
      rw [List.head?_cons, if_neg fun isZero => nonzero (Option.some.inj isZero)]
      exact digits_cons_iff.2 ⟨isDigit, more⟩
  | octal more => exact ofDigits (more.cons rfl)
  | @announced base letter digits isLetter more =>
      have notDecimal : base ≠ .decimal := by
        rintro rfl
        cases isLetter
      refine ⟨⟨base, ['0', letter], digits, none, none, false⟩, ?_, by simp [Number.text], rfl, rfl⟩
      refine wellMade_of_whole (.inr ⟨letter, isLetter, rfl⟩) (.inr ?_) more.ne_nil rfl rfl
      simpa [Number.digitBase, notDecimal] using more

/-- An exponent of the grammar is one that a number can have. -/
theorem ExponentPart.exists_exponent
    {base : Base}
    {text : List Char}
    (isExponent : ExponentPart (exponentLetters base) text) :
    ∃ exponent : Exponent, exponent.text = text
      ∧ exponent.letter ∈ exponentLetters base
      ∧ exponent.sign ∈ [[], ['+'], ['-']]
      ∧ Digits .decimal exponent.digits := by
  cases isExponent with
  | @intro letter sign digits isLetter isSign isRun =>
      exact ⟨⟨letter, sign, digits⟩, rfl, isLetter, isSign, isRun⟩

/-- A number with a point or an exponent, put together from its parts. -/
theorem exists_float
    (base : Base)
    (lead whole : List Char)
    (fraction : Option (List Char))
    {exponentText : List Char}
    (isLead : base = .decimal ∧ lead = [] ∨ ∃ letter ∈ prefixLetters base, lead = ['0', letter])
    (isWhole : Optional (MoreDigits base) whole)
    (isFraction : ∀ digits ∈ fraction, Optional (Digits base) digits)
    (isExponent : Optional (ExponentPart (exponentLetters base)) exponentText)
    (isScaled : base = .decimal ∨ base = .hexadecimal ∧ exponentText ≠ [])
    (isFloat : fraction.isSome = true ∨ exponentText ≠ [])
    (nonempty : whole ≠ [] ∨ fraction.getD [] ≠ []) :
    ∃ number, Spells
      (lead ++ whole ++ (fraction.map fun digits => '.' :: digits).getD [] ++ exponentText)
      false false number := by
  obtain ⟨exponent, exponentEq, isExponent⟩ : ∃ exponent : Option Exponent,
      (exponent.map Exponent.text).getD [] = exponentText ∧ ∀ found ∈ exponent,
        found.letter ∈ exponentLetters base ∧ found.sign ∈ [[], ['+'], ['-']]
          ∧ Digits .decimal found.digits := by
    rcases isExponent with rfl | isExponent
    · exact ⟨none, rfl, nofun⟩
    · obtain ⟨exponent, textEq, isExponent⟩ := isExponent.exists_exponent
      exact ⟨some exponent, textEq, by simpa using isExponent⟩
  have isSome (some : exponentText ≠ []) : exponent.isSome = true := by
    cases exponent with
    | none => exact absurd exponentEq.symm some
    | some => rfl
  have notInteger : Number.isInteger ⟨base, lead, whole, fraction, exponent, false⟩ = false := by
    rcases isFloat with isSome' | some
    · simp [Number.isInteger, Option.isNone_eq_false_iff.2 isSome']
    · simp [Number.isInteger, Option.isNone_eq_false_iff.2 (isSome some)]
  refine ⟨⟨base, lead, whole, fraction, exponent, false⟩,
    ⟨isLead, ?_, isFraction, isExponent, ?_, ?_, nonempty⟩, ?_, rfl, notInteger⟩
  · simpa [Number.digitBase, notInteger] using isWhole
  · rintro (rfl | rfl) <;> simp at isScaled
  · rintro rfl -
    exact isSome (isScaled.resolve_left (by simp)).2
  · simp [Number.text, exponentEq]

theorem ExponentPart.ne_nil
    {letters text : List Char}
    (isExponent : ExponentPart letters text) :
    text ≠ [] := by
  cases isExponent
  nofun

theorem FloatLit.exists_number
    {text : List Char}
    (isFloat : FloatLit text) :
    ∃ number, Spells text false false number := by
  cases isFloat with
  | @pointed whole fraction exponent isRun isFraction isExponent =>
      simpa using exists_float .decimal [] whole (some fraction) (.inl ⟨rfl, rfl⟩)
        (.inr (.plain isRun)) (by simpa using isFraction) isExponent (.inl rfl) (.inl rfl)
        (.inl isRun.ne_nil)
  | @whole whole exponent isRun isExponent =>
      simpa using exists_float .decimal [] whole none (.inl ⟨rfl, rfl⟩)
        (.inr (.plain isRun)) nofun (.inr isExponent) (.inl rfl) (.inr isExponent.ne_nil)
        (.inl isRun.ne_nil)
  | @fraction fraction exponent isRun isExponent =>
      simpa using exists_float .decimal [] [] (some fraction) (.inl ⟨rfl, rfl⟩)
        (.inl rfl) (by simpa using .inr isRun) isExponent (.inl rfl) (.inl rfl)
        (.inr isRun.ne_nil)
  | @hexadecimal letter mantissa exponent isLetter isMantissa isExponent =>
      have isLead : Base.hexadecimal = .decimal ∧ ['0', letter] = []
          ∨ ∃ found ∈ prefixLetters .hexadecimal, ['0', letter] = ['0', found] :=
        .inr ⟨letter, isLetter, rfl⟩
      have scaled : Base.hexadecimal = .decimal ∨ Base.hexadecimal = .hexadecimal ∧ exponent ≠ [] :=
        .inr ⟨rfl, isExponent.ne_nil⟩
      cases isMantissa with
      | @pointed whole fraction more isFraction =>
          simpa using exists_float .hexadecimal _ whole (some fraction) isLead (.inr more)
            (by simpa using isFraction) (.inr isExponent) scaled (.inl rfl) (.inl more.ne_nil)
      | whole more =>
          simpa using exists_float .hexadecimal _ mantissa none isLead (.inr more) nofun
            (.inr isExponent) scaled (.inr isExponent.ne_nil) (.inl more.ne_nil)
      | @fraction fraction isRun =>
          simpa using exists_float .hexadecimal _ [] (some fraction) isLead (.inl rfl)
            (by simpa using .inr isRun) (.inr isExponent) scaled (.inl rfl) (.inr isRun.ne_nil)

/-- The same number marked as imaginary. Its digits may begin with a zero then. -/
theorem Spells.marked
    {text : List Char}
    {isInteger : Bool}
    {number : Number}
    (spells : Spells text isInteger false number) :
    Spells (text ++ ['i']) false true { number with imaginary := true } := by
  obtain ⟨wellMade, textEq, imaginary, -⟩ := spells
  obtain ⟨lead, whole, fraction, exponent, plain, scaled, nonempty⟩ := wellMade
  have digitBaseEq : Number.digitBase { number with imaginary := true } = number.base := by
    simp [Number.digitBase, Number.isInteger]
  have isSmaller : number.digitBase.radix ≤ number.base.radix := by
    rw [Number.digitBase]
    split_ifs with isOctal
    · simp only [Bool.and_eq_true, decide_eq_true_eq] at isOctal
      rw [isOctal.1.1]
      decide
    · exact Nat.le_refl _
  refine ⟨⟨lead, ?_, fraction, exponent, plain, scaled, nonempty⟩, ?_, rfl, by simp [Number.isInteger]⟩
  · rw [digitBaseEq]
    exact whole.mono isSmaller
  · rw [← textEq]
    simp [Number.text, imaginary]

theorem ImaginaryLit.exists_number
    {text : List Char}
    (isImaginary : ImaginaryLit text) :
    ∃ number, Spells text false true number := by
  cases isImaginary with
  | @digits digits isRun =>
      refine ⟨⟨.decimal, [], digits, none, none, true⟩, ?_, by simp [Number.text], rfl, rfl⟩
      refine wellMade_of_whole (.inl ⟨rfl, rfl⟩) (.inr (.plain ?_)) isRun.ne_nil rfl rfl
      simpa [Number.digitBase, Number.isInteger] using isRun
  | integer isInteger =>
      obtain ⟨number, spells⟩ := isInteger.exists_number
      exact ⟨_, spells.marked⟩
  | float isFloat =>
      obtain ⟨number, spells⟩ := isFloat.exists_number
      exact ⟨_, spells.marked⟩

theorem Literal.exists_number
    {token : Token}
    {text : List Char}
    (isLiteral : Literal token text) :
    ∃ number, WellMade number ∧ number.text = text ∧ number.token = token := by
  cases isLiteral with
  | integer isInteger =>
      obtain ⟨number, wellMade, textEq, imaginary, isInteger⟩ := isInteger.exists_number
      exact ⟨number, wellMade, textEq, by simp [Number.token, imaginary, isInteger]⟩
  | float isFloat =>
      obtain ⟨number, wellMade, textEq, imaginary, isInteger⟩ := isFloat.exists_number
      exact ⟨number, wellMade, textEq, by simp [Number.token, imaginary, isInteger]⟩
  | imaginary isImaginary =>
      obtain ⟨number, wellMade, textEq, imaginary, -⟩ := isImaginary.exists_number
      exact ⟨number, wellMade, textEq, by simp [Number.token, imaginary]⟩

/-! ## Numbers cut from a text -/

section

variable {first : Char} {rest : List Char}

/-- The number of a text is a token of the whole text exactly if it is faultless and takes in the text. -/
theorem number_eq_token_iff_split (token : Token) (text : List Char) :
    Piece.number text = ⟨.token token, text⟩
      ↔ token = (Number.split text).1.token ∧ (Number.split text).1.text = text
        ∧ (Number.split text).1.fault? = none :=
  Piece.ofFault?_eq_token_iff

/-- A text is a literal exactly if its number is faultless and takes it in as a whole. -/
theorem number_eq_token_iff (token : Token) (text : List Char) :
    Piece.number text = ⟨.token token, text⟩
      ↔ ∃ number, WellMade number ∧ number.text = text ∧ number.token = token := by
  rw [number_eq_token_iff_split]
  simp only [wellMade_iff]
  constructor
  · rintro ⟨rfl, textEq, faultless⟩
    exact ⟨(Number.split text).1, ⟨Number.split_shape text, faultless⟩, textEq, rfl⟩
  · rintro ⟨number, ⟨shape, faultless⟩, rfl, rfl⟩
    have splitEq : Number.split number.text = (number, []) := by
      simpa using Number.split_text_append number [] shape blankNext_nil
    rw [splitEq]
    exact ⟨rfl, rfl, faultless⟩

theorem isAscii_of_continuesRun
    {base : Base}
    {character : Char}
    (continues : Number.continuesRun base character = true) :
    character.toNat < 128 := by
  rw [Number.continuesRun, Bool.or_eq_true, beq_iff_eq] at continues
  rcases continues with rfl | isDigit
  · decide
  · have isHexadecimal : (hexValue? character).isSome = true := by
      simp only [isDigitOf, digitValue?, Option.isSome_filter] at isDigit
      exact Option.isSome_of_any isDigit
    have ranges : '0' ≤ character ∧ character ≤ '9' ∨ 'a' ≤ character ∧ character ≤ 'f'
        ∨ 'A' ≤ character ∧ character ≤ 'F' := by
      simp only [hexValue?, Bool.and_eq_true, decide_eq_true_eq] at isHexadecimal
      split_ifs at isHexadecimal with isDecimal isLower isUpper
      · exact .inl isDecimal
      · exact .inr (.inl isLower)
      · exact .inr (.inr isUpper)
      · cases isHexadecimal
    rcases ranges with ⟨-, upper⟩ | ⟨-, upper⟩ | ⟨-, upper⟩
    all_goals exact Nat.lt_of_le_of_lt upper (by decide)

/-- The characters of a number that are no digits or separators. -/
def marks : List Char :=
  ['b', 'B', 'o', 'O', 'x', 'X', '.', 'e', 'E', 'p', 'P', '+', '-', 'i']

section

variable {motive : Char -> Prop}

theorem forall_mem_of_exponentShape
    {lower upper : Char}
    {exponent : Exponent}
    (digits : ∀ base character, Number.continuesRun base character = true -> motive character)
    (others : ∀ character ∈ marks, motive character)
    (letters : ∀ letter ∈ [lower, upper], letter ∈ marks)
    (shape : Number.ExponentShape lower upper exponent) :
    ∀ character ∈ exponent.text, motive character := by
  obtain ⟨isLetter, isSign, isRun⟩ := shape
  intro character member
  simp only [Exponent.text, List.mem_cons, List.cons_append, List.mem_append] at member
  rcases member with rfl | isSignCharacter | isDigit
  · exact others _ (letters _ (by simpa using isLetter))
  · rcases isSign with signEq | signEq | signEq <;> simp [signEq] at isSignCharacter
    all_goals
      subst isSignCharacter
      exact others _ (by decide)
  · exact digits .decimal character (isRun character isDigit)

/-- What holds of digits and separators, and of the other characters that numbers have, holds of every
character of a number. -/
theorem forall_mem_of_shape
    {number : Number}
    (digits : ∀ base character, Number.continuesRun base character = true -> motive character)
    (others : ∀ character ∈ marks, motive character)
    (shape : number.Shape) :
    ∀ character ∈ number.text, motive character := by
  intro character member
  simp only [Number.text, List.mem_append] at member
  rcases member with (((isLead | isWhole) | isFraction) | isExponent) | isMark
  · rcases (lead_iff _ _).2 shape.lead with ⟨-, noLead⟩ | ⟨letter, isLetter, leadEq⟩
    · simp [noLead] at isLead
    · have isLead : character = '0' ∨ character = letter := by simpa [leadEq] using isLead
      have prefixMarks : ∀ letter ∈ prefixLetters number.base, letter ∈ marks := by
        cases number.base <;> simp [prefixLetters, marks]
      rcases isLead with rfl | rfl
      · exact digits .decimal '0' rfl
      · exact others character (prefixMarks character isLetter)
  · exact digits number.base character (shape.whole character isWhole)
  · cases fractionEq : number.fraction with
    | none => simp [fractionEq] at isFraction
    | some fraction =>
        simp only [fractionEq, Option.map_some, Option.getD_some, List.mem_cons] at isFraction
        rcases isFraction with rfl | isDigit
        · exact others '.' (by decide)
        · exact digits number.base character
            (shape.fraction fraction fractionEq character isDigit)
  · cases exponentEq : number.exponent with
    | none => simp [exponentEq] at isExponent
    | some found =>
        have inExponent : character ∈ found.text := by simpa [exponentEq] using isExponent
        rcases shape.exponent found exponentEq with ⟨-, isDecimal⟩ | ⟨-, isHexadecimal⟩
        · exact forall_mem_of_exponentShape digits others (by simp [marks]) isDecimal character
            inExponent
        · exact forall_mem_of_exponentShape digits others (by simp [marks]) isHexadecimal character
            inExponent
  · cases isImaginary : number.imaginary <;> simp [isImaginary] at isMark
    subst isMark
    exact others 'i' (by decide)

end

/-- A number is written in ASCII, so that its characters are counted like its bytes. -/
theorem isAscii_of_shape
    {number : Number}
    (shape : number.Shape) :
    ∀ character ∈ number.text, character.toNat < 128 :=
  forall_mem_of_shape (fun _ _ => isAscii_of_continuesRun) (by simp [marks]) shape

/-- A text that begins as a number does is a literal exactly if its number is a token that takes it in as
a whole. -/
theorem number_eq_token_iff_literal
    (starts : first.isDigit = true ∨ first = '.' ∧ rest.head?.any Char.isDigit = true)
    (token : Token) :
    Piece.number (first :: rest) = ⟨.token token, first :: rest⟩ ↔ Literal token (first :: rest) := by
  have notSeparator : (first :: rest).head? ≠ some '_' := by
    intro isSeparator
    obtain rfl := Option.some.inj isSeparator
    rcases starts with isDigit | ⟨isPoint, -⟩
    · exact absurd isDigit (by decide)
    · exact absurd isPoint (by decide)
  rw [number_eq_token_iff]
  constructor
  · rintro ⟨number, wellMade, numberEq, rfl⟩
    rw [← numberEq]
    exact wellMade.literal (by rwa [numberEq])
  · exact Literal.exists_number

/-- A number has at least one character, and two if the first is a point. -/
theorem least_le_byteCount
    (starts : first.isDigit = true ∨ first = '.' ∧ rest.head?.any Char.isDigit = true) :
    (if first = '.' then 2 else 1) ≤ byteCount (Number.split (first :: rest)).1.text := by
  have isPrefix : (Number.split (first :: rest)).1.text <+: first :: rest :=
    ⟨_, Number.split_append _⟩
  have nonempty : (Number.split (first :: rest)).1.text ≠ [] := by
    rcases starts with isDigit | ⟨rfl, digitNext⟩
    · exact Number.split_text_ne_nil_of_isDigit first rest isDigit
    · exact Number.split_text_ne_nil_of_point rest digitNext
  obtain ⟨character, tail, splitEq⟩ := List.exists_cons_of_ne_nil nonempty
  have firstEq : character = first := by
    rw [splitEq] at isPrefix
    exact (List.cons_prefix_cons.1 isPrefix).1
  subst firstEq
  have positive := character.utf8Size_pos
  rw [splitEq, byteCount]
  split_ifs with isPoint
  · subst isPoint
    have digitNext := (starts.resolve_left (by decide)).2
    have tailSome := Number.tail_ne_nil_of_point rest tail digitNext splitEq
    have := byteCount_pos tail tailSome
    omega
  · omega

/-- No number is longer than its text. -/
theorem byteCount_split_le (text : List Char) :
    byteCount (Number.split text).1.text ≤ byteCount text := by
  have countEq := congrArg byteCount (Number.split_append text)
  rw [byteCount_append] at countEq
  omega

/-- The number at the start of a text that begins with a digit, or with a point in front of a digit, is
a token and takes in the whole text exactly if the text is a literal of that token. In any case the
number is a start of the text, is written in ASCII, and has at least one character, two if the first is
a point. -/
theorem number_exact
    (first : Char)
    (rest : List Char)
    (starts : first.isDigit = true ∨ first = '.' ∧ rest.head?.any Char.isDigit = true) :
    (∀ token, Piece.number (first :: rest) = ⟨.token token, first :: rest⟩
        ↔ Literal token (first :: rest))
      ∧ (Piece.number (first :: rest)).text <+: first :: rest
      ∧ (∀ character ∈ (Piece.number (first :: rest)).text, character.toNat < 128)
      ∧ (if first = '.' then 2 else 1) ≤ byteCount (Piece.number (first :: rest)).text
      ∧ byteCount (Piece.number (first :: rest)).text ≤ byteCount (first :: rest) := by
  have textEq : (Piece.number (first :: rest)).text = (Number.split (first :: rest)).1.text :=
    Piece.ofFault?_text _ _ _
  rw [textEq]
  exact ⟨number_eq_token_iff_literal starts, ⟨_, Number.split_append _⟩,
    isAscii_of_shape (Number.split_shape _), least_le_byteCount starts, byteCount_split_le _⟩

/-- A hexadecimal number with fraction, negative exponent and mark. -/
theorem number_exact_hexadecimal :
    Piece.number "0x1.8p-2i".toList = ⟨.token .imagLit, "0x1.8p-2i".toList⟩
      ∧ Literal .imagLit "0x1.8p-2i".toList := by
  have isNumber : Piece.number "0x1.8p-2i".toList = ⟨.token .imagLit, "0x1.8p-2i".toList⟩ := by
    decide
  exact ⟨isNumber, ((number_exact '0' "x1.8p-2i".toList (.inl rfl)).1 .imagLit).1 isNumber⟩

end

end Numeral
end GoFront
