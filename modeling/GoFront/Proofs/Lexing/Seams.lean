import GoFront.Proofs.Lexing.Pieces
import Mathlib.Data.List.Find

/-!
# Where pieces end

Neither a line break nor a closing bracket continues the piece in front of it, unless that piece is a
fault or a comment up to the end of the line. So a text in front of such a character is cut as it is
alone.
-/

namespace GoFront

/-- The characters that end every number, word and operator in front of them. -/
def seams : List Char :=
  ['\n', ']']

variable {seam : Char}

theorem eq_of_mem_seams (isSeam : seam ∈ seams) : seam = '\n' ∨ seam = ']' := by
  simpa [seams] using isSeam

/-! ## Stretches of characters -/

section Stretches

variable (text back : List Char)

theorem takeWhile_append_seam
    (continues : Char -> Bool)
    (stops : continues seam = false) :
    (text ++ seam :: back).takeWhile continues = text.takeWhile continues := by
  induction text with
  | nil => simp [stops]
  | cons first rest inductionHypothesis =>
      cases isNext : continues first <;> simp [isNext, inductionHypothesis]

theorem dropWhile_append_seam
    (continues : Char -> Bool)
    (stops : continues seam = false) :
    (text ++ seam :: back).dropWhile continues = text.dropWhile continues ++ seam :: back := by
  induction text with
  | nil => simp [stops]
  | cons first rest inductionHypothesis =>
      cases isNext : continues first <;> simp [isNext, inductionHypothesis]

theorem takeWhile_take_append_seam
    (continues : Char -> Bool)
    (stops : continues seam = false)
    (count : Nat) :
    ((text ++ seam :: back).take count).takeWhile continues
      = (text.take count).takeWhile continues := by
  induction text generalizing count with
  | nil => cases count <;> simp [stops]
  | cons first rest inductionHypothesis =>
      cases count with
      | zero => rfl
      | succ count => cases isNext : continues first <;> simp [isNext, inductionHypothesis]

theorem head?_append_seam_eq_some
    {first : Char}
    (other : first ≠ seam) :
    (text ++ seam :: back).head? = some first ↔ text.head? = some first := by
  cases text with
  | nil => simpa using other.symm
  | cons head rest => rfl

theorem isPrefixOf_append_seam
    (start : List Char)
    (seamless : seam ∉ start) :
    start.isPrefixOf (text ++ seam :: back) = start.isPrefixOf text := by
  induction start generalizing text with
  | nil => simp
  | cons first start inductionHypothesis =>
      rw [List.mem_cons, not_or] at seamless
      cases text with
      | nil =>
          have other : (first == seam) = false := by simpa using Ne.symm seamless.1
          simp [List.isPrefixOf, other]
      | cons head rest => simp [List.isPrefixOf, inductionHypothesis rest seamless.2]

end Stretches

/-! ## Numbers -/

namespace Number

variable (text back : List Char) (isSeam : seam ∈ seams)

include isSeam

theorem run_append_seam (base : Text.Base) :
    run base (text ++ seam :: back) = ((run base text).1, (run base text).2 ++ seam :: back) := by
  have stops : continuesRun base seam = false := by
    rcases eq_of_mem_seams isSeam with rfl | rfl <;> cases base <;> decide
  simp only [run, List.span_eq_takeWhile_dropWhile]
  rw [takeWhile_append_seam text back _ stops,
    dropWhile_append_seam text back _ stops]

theorem splitFraction_append_seam
    (base : Text.Base)
    (lonePoint : Bool) :
    splitFraction base lonePoint (text ++ seam :: back)
      = ((splitFraction base lonePoint text).1,
        (splitFraction base lonePoint text).2 ++ seam :: back) := by
  have notPoint : '.' ≠ seam := by
    rcases eq_of_mem_seams isSeam with rfl | rfl <;> decide
  cases text with
  | nil => simp [splitFraction, notPoint.symm]
  | cons first rest =>
      by_cases point : first = '.'
      · subst point
        have lone : ((rest ++ seam :: back).head? == some '.') = (rest.head? == some '.') := by
          rw [Bool.eq_iff_iff, beq_iff_eq, beq_iff_eq]
          exact head?_append_seam_eq_some rest back notPoint
        simp only [List.cons_append, splitFraction, lone, run_append_seam rest back isSeam]
        split <;> rfl
      · simp [splitFraction, point]

theorem splitSign_append_seam :
    splitSign (text ++ seam :: back) = ((splitSign text).1, (splitSign text).2 ++ seam :: back) := by
  cases text with
  | nil => rcases eq_of_mem_seams isSeam with rfl | rfl <;> rfl
  | cons first rest =>
      unfold splitSign
      split <;> simp_all

theorem splitExponent_append_seam
    (lower upper : Char)
    (noSeam : seam ≠ lower ∧ seam ≠ upper) :
    splitExponent lower upper (text ++ seam :: back)
      = ((splitExponent lower upper text).1,
        (splitExponent lower upper text).2 ++ seam :: back) := by
  cases text with
  | nil => simp [splitExponent, noSeam]
  | cons letter rest =>
      simp only [List.cons_append, splitExponent, splitSign_append_seam rest back isSeam,
        run_append_seam _ back isSeam]
      split <;> rfl

theorem splitImaginary_append_seam :
    splitImaginary (text ++ seam :: back)
      = ((splitImaginary text).1, (splitImaginary text).2 ++ seam :: back) := by
  cases text with
  | nil => rcases eq_of_mem_seams isSeam with rfl | rfl <;> rfl
  | cons first rest =>
      unfold splitImaginary
      split <;> simp_all

theorem splitBase_append_seam :
    splitBase (text ++ seam :: back)
      = ((splitBase text).1, (splitBase text).2.1, (splitBase text).2.2 ++ seam :: back) := by
  rcases text with _ | ⟨first, _ | ⟨letter, rest⟩⟩
  · rcases eq_of_mem_seams isSeam with rfl | rfl <;> rfl
  · by_cases zero : first = '0'
    · subst zero
      rcases eq_of_mem_seams isSeam with rfl | rfl <;> rfl
    · simp [splitBase, zero]
  · by_cases zero : first = '0'
    · subst zero
      simp only [List.cons_append, splitBase]
      split_ifs <;> rfl
    · simp [splitBase, zero]

/-- A number ends at a seam. -/
theorem split_append_seam :
    split (text ++ seam :: back) = ((split text).1, (split text).2 ++ seam :: back) := by
  rcases baseEq : splitBase text with ⟨base, lead, rest⟩
  have noSeams : (seam ≠ 'e' ∧ seam ≠ 'E') ∧ seam ≠ 'p' ∧ seam ≠ 'P' := by
    rcases eq_of_mem_seams isSeam with rfl | rfl <;> decide
  cases base with
  | binary | octal =>
      simp only [split, splitBase_append_seam text back isSeam, baseEq, run_append_seam _ back isSeam,
        splitImaginary_append_seam _ back isSeam]
  | decimal =>
      simp only [split, splitBase_append_seam text back isSeam, baseEq, run_append_seam _ back isSeam,
        splitFraction_append_seam _ back isSeam, splitExponent_append_seam _ back isSeam _ _ noSeams.1,
        splitImaginary_append_seam _ back isSeam]
  | hexadecimal =>
      simp only [split, splitBase_append_seam text back isSeam, baseEq, run_append_seam _ back isSeam,
        splitFraction_append_seam _ back isSeam, splitExponent_append_seam _ back isSeam _ _ noSeams.2,
        splitImaginary_append_seam _ back isSeam]

end Number

/-! ## Quoted literals -/

theorem EscapeSequence.read_append_seam
    (quote first : Char)
    (rest back : List Char)
    (isSeam : seam ∈ seams) :
    read quote (first :: rest ++ seam :: back) = read quote (first :: rest) := by
  have numericEq (start count : Nat) (base : Text.Base) (allowed : Nat -> Bool)
      (inText : start ≤ (first :: rest).length) :
      numeric start count base allowed (first :: rest ++ seam :: back)
        = numeric start count base allowed (first :: rest) := by
    have stops : Text.isDigitOf base seam = false := by
      rcases eq_of_mem_seams isSeam with rfl | rfl <;> cases base <;> decide
    simp only [numeric]
    rw [List.drop_append_of_le_length inText, takeWhile_take_append_seam _ _ _ stops]
  have atStart : 0 ≤ (first :: rest).length := Nat.zero_le _
  have behindFirst : 1 ≤ (first :: rest).length := Nat.succ_le_succ (Nat.zero_le _)
  have octal := numericEq 0 3 .octal (fun value => value ≤ 255) atStart
  have short := numericEq 1 2 .hexadecimal (fun _ => true) behindFirst
  have middle := numericEq 1 4 .hexadecimal isScalar behindFirst
  have long := numericEq 1 8 .hexadecimal isScalar behindFirst
  simp only [List.cons_append] at octal short middle long
  simp only [List.cons_append, read, octal, short, middle, long]

/-- A closed literal is read in the same way in front of a seam. -/
theorem Quoted.read_append_seam
    (quote : Char)
    (escaped : Nat)
    (text back : List Char)
    (isSeam : seam ∈ seams)
    (closed : (read quote escaped text).closed = true) :
    read quote escaped (text ++ seam :: back) = read quote escaped text := by
  induction text generalizing escaped with
  | nil => simp [read] at closed
  | cons first rest inductionHypothesis =>
      cases escaped with
      | succ escaped =>
          have inner := inductionHypothesis escaped closed
          simp only [List.cons_append, read, inner]
      | zero =>
          rw [List.cons_append, read, read]
          rw [read] at closed
          split_ifs at closed ⊢ with isClosing isBreak isEscape
          · rfl
          · cases rest with
            | nil => simp [read, behindUnit] at closed
            | cons second rest =>
                have inner := inductionHypothesis _ closed
                simp only [EscapeSequence.read_append_seam quote second rest back isSeam, inner]
          · rw [inductionHypothesis 0 closed]

theorem Quoted.closed_of_fault?
    {literal : Quoted}
    (faultless : literal.fault? = none) :
    literal.closed = true := by
  cases closed : literal.closed with
  | true => rfl
  | false => simp [fault?, closed] at faultless

namespace Piece

/-! ## Pieces -/

theorem commentBody?_cons
    (first : Char)
    (rest : List Char) :
    commentBody? (first :: rest)
      = if first = '*' ∧ rest.head? = some '/' then some ['*', '/']
        else (commentBody? rest).map (first :: ·) := by
  rw [commentBody?.eq_def]
  split
  · next equal => cases equal
  · next tail equal =>
      obtain ⟨rfl, rfl⟩ := List.cons.inj equal
      simp
  · next character tail notClosing equal =>
      obtain ⟨rfl, rfl⟩ := List.cons.inj equal
      rw [if_neg]
      rintro ⟨rfl, slash⟩
      obtain ⟨behind, rfl⟩ := List.head?_eq_some_iff.1 slash
      exact notClosing behind rfl rfl

theorem commentBody?_append
    (text more body : List Char)
    (found : commentBody? text = some body) :
    commentBody? (text ++ more) = some body := by
  induction text generalizing body with
  | nil => simp [commentBody?] at found
  | cons first rest inductionHypothesis =>
      rw [commentBody?_cons] at found
      rw [List.cons_append, commentBody?_cons]
      cases rest with
      | nil => simp [commentBody?] at found
      | cons second rest =>
          change (if first = '*' ∧ (second :: rest).head? = some '/' then _ else _) = _
          split_ifs at found ⊢
          · exact found
          · obtain ⟨inner, innerFound, rfl⟩ := Option.map_eq_some_iff.1 found
            rw [inductionHypothesis inner innerFound]
            rfl

/-- A piece is faultless if it is no fault. -/
def IsFault (piece : Piece) : Prop :=
  ∃ cause, piece.kind = .fault cause

theorem ofFault?_isFault
    {token : Token}
    {text : List Char}
    {fault : Option LexCause}
    (faultless : ¬(ofFault? token text fault).IsFault) :
    fault = none := by
  cases fault with
  | none => rfl
  | some cause => exact absurd ⟨cause, rfl⟩ faultless

/-- Two choices agree if they agree in the branch that is taken, which is faultless. -/
theorem choice_congr
    {condition condition' : Prop}
    [Decidable condition]
    [Decidable condition']
    {first second first' second' : Piece}
    (same : condition' ↔ condition)
    (firstEq : condition -> ¬first.IsFault -> first' = first)
    (secondEq : ¬condition -> ¬second.IsFault -> second' = second)
    (faultless : ¬(if condition then first else second).IsFault) :
    (if condition' then first' else second') = if condition then first else second := by
  by_cases holds : condition
  · rw [if_pos holds] at faultless ⊢
    rw [if_pos (same.2 holds)]
    exact firstEq holds faultless
  · rw [if_neg holds] at faultless ⊢
    rw [if_neg (mt same.1 holds)]
    exact secondEq holds faultless

section

variable (rest back : List Char)

theorem blockComment_append
    (more : List Char)
    (faultless : ¬(blockComment rest).IsFault) :
    blockComment (rest ++ more) = blockComment rest := by
  unfold blockComment at faultless ⊢
  cases found : commentBody? rest with
  | none =>
      rw [found] at faultless
      exact absurd ⟨_, rfl⟩ faultless
  | some body => rw [commentBody?_append rest more body found]

theorem number_append_seam (isSeam : seam ∈ seams) : number (rest ++ seam :: back) = number rest := by
  rw [number, number, Number.split_append_seam rest back isSeam]

theorem rawString_append
    (more : List Char)
    (faultless : ¬(rawString rest).IsFault) :
    rawString (rest ++ more) = rawString rest := by
  by_cases closed : (rest.takeWhile (· ≠ '\x60')).length < rest.length
  · have sameBody : (rest ++ more).takeWhile (· ≠ '\x60') = rest.takeWhile (· ≠ '\x60') := by
      rw [List.takeWhile_append, if_neg (Nat.ne_of_lt closed)]
    have stillClosed : (rest.takeWhile (· ≠ '\x60')).length < (rest ++ more).length := by
      rw [List.length_append]
      omega
    simp only [rawString, sameBody, if_pos closed, if_pos stillClosed]
  · refine absurd ⟨.unterminatedString, ?_⟩ faultless
    simp only [rawString, if_neg closed]

theorem interpretedString_append_seam
    (isSeam : seam ∈ seams)
    (faultless : ¬(interpretedString rest).IsFault) :
    interpretedString (rest ++ seam :: back) = interpretedString rest := by
  have closed := Quoted.closed_of_fault? (ofFault?_isFault faultless)
  simp only [interpretedString, Quoted.read_append_seam '"' 0 rest back isSeam closed]

theorem rune_append_seam
    (isSeam : seam ∈ seams)
    (faultless : ¬(rune rest).IsFault) :
    rune (rest ++ seam :: back) = rune rest := by
  have noFault := ofFault?_isFault faultless
  have closed : (Quoted.read '\'' 0 rest).closed = true := by
    refine Quoted.closed_of_fault? ?_
    cases found : (Quoted.read '\'' 0 rest).fault? with
    | none => rfl
    | some cause => simp [Quoted.runeFault?, found] at noFault
  simp only [rune, Quoted.read_append_seam '\'' 0 rest back isSeam closed]

/-- No operator goes on with a seam, although one begins with it. -/
theorem operator_append_seam
    (isSeam : seam ∈ seams)
    (first : Char) :
    operator first (rest ++ seam :: back) = operator first rest := by
  have seamless : ∀ token ∈ Token.operators, seam ∉ token.spelling.toList.tail := by
    rcases eq_of_mem_seams isSeam with rfl | rfl <;> decide
  have sameOperator : operator? (first :: (rest ++ seam :: back)) = operator? (first :: rest) := by
    refine List.find?_congr fun token isOperator => ?_
    have noSeam := seamless token isOperator
    cases spelled : token.spelling.toList with
    | nil => rfl
    | cons head tail =>
        rw [spelled] at noSeam
        simp only [List.isPrefixOf, isPrefixOf_append_seam rest back tail noSeam]
  rw [operator, operator, sameOperator]

end

/-- A faultless piece is cut in the same way in front of a seam. Only a line break ends a comment up to
the end of the line. -/
theorem cut_append_seam
    (first : Char)
    (rest back : List Char)
    (isSeam : seam ∈ seams)
    (lineEnds : (cut first rest).kind = .token .lineComment -> seam = '\n')
    (faultless : ¬(cut first rest).IsFault) :
    cut first (rest ++ seam :: back) = cut first rest := by
  obtain ⟨notSlash, notStar, notBlank, notDigit, notWord⟩ :
      '/' ≠ seam ∧ '*' ≠ seam ∧ isBlank seam = false ∧ seam.isDigit = false
        ∧ continuesWord seam = false := by
    rcases eq_of_mem_seams isSeam with rfl | rfl <;> decide +kernel
  have slashNext := head?_append_seam_eq_some rest back notSlash
  have starNext := head?_append_seam_eq_some rest back notStar
  have digitNext : (rest ++ seam :: back).head?.any Char.isDigit = rest.head?.any Char.isDigit := by
    cases rest with
    | nil => simp [notDigit]
    | cons second rest => rfl
  have isBreak (isLine : (first = '/' && rest.head? = some '/') = true) : seam = '\n' := by
    obtain ⟨rfl, isNext⟩ : first = '/' ∧ rest.head? = some '/' := by simpa using isLine
    obtain ⟨behind, rfl⟩ := List.head?_eq_some_iff.1 isNext
    exact lineEnds rfl
  unfold cut at faultless ⊢
  refine choice_congr .rfl (fun _ _ => rfl) (fun _ faultless => ?_) faultless
  refine choice_congr .rfl (fun _ _ => rfl) (fun _ faultless => ?_) faultless
  refine choice_congr .rfl (fun _ _ => ?_) (fun _ faultless => ?_) faultless
  · rw [takeWhile_append_seam rest back isBlank notBlank]
  refine choice_congr (by simp only [slashNext]) (fun isLine _ => ?_) (fun _ faultless => ?_) faultless
  · obtain rfl := isBreak isLine
    rw [takeWhile_append_seam rest back _ (by decide)]
  refine choice_congr (by simp only [starNext]) (fun isBlock noFault => ?_)
    (fun _ faultless => ?_) faultless
  · have nonempty : rest ≠ [] := by
      rintro rfl
      simp at isBlock
    rw [List.tail_append_of_ne_nil nonempty]
    exact blockComment_append rest.tail _ noFault
  refine choice_congr .rfl (fun _ _ => ?_) (fun _ faultless => ?_) faultless
  · rw [takeWhile_append_seam rest back continuesWord notWord]
  refine choice_congr (by simp only [digitNext]) (fun _ _ => ?_) (fun _ faultless => ?_) faultless
  · exact number_append_seam (first :: rest) back isSeam
  refine choice_congr .rfl (fun _ noFault => ?_) (fun _ faultless => ?_) faultless
  · exact rawString_append rest _ noFault
  refine choice_congr .rfl (fun _ noFault => ?_) (fun _ faultless => ?_) faultless
  · exact interpretedString_append_seam rest back isSeam noFault
  refine choice_congr .rfl (fun _ noFault => ?_) (fun _ _ => ?_) faultless
  · exact rune_append_seam rest back isSeam noFault
  · exact operator_append_seam rest back isSeam first

/-- A text without faults in front of a seam is cut by itself. -/
theorem all_append_seam
    (front back : List Char)
    (isSeam : seam ∈ seams)
    (lineEnds : ∀ piece ∈ all front, piece.kind = .token .lineComment -> seam = '\n')
    (faultless : ∀ piece ∈ all front, ¬piece.IsFault) :
    all (front ++ seam :: back) = all front ++ all (seam :: back) := by
  induction front using all_induction with
  | nil => rfl
  | cons first rest tail after cutEq restEq inductionHypothesis =>
      rw [all_cons first rest tail after cutEq restEq, List.forall_mem_cons] at faultless lineEnds
      have sameCut := cut_append_seam first rest back isSeam lineEnds.1 faultless.1
      have restAppend : rest ++ seam :: back = tail ++ (after ++ seam :: back) := by
        rw [restEq, List.append_assoc]
      rw [List.cons_append, all_cons first _ tail _ (sameCut ▸ cutEq) restAppend, sameCut,
        inductionHypothesis lineEnds.2 faultless.2, all_cons first rest tail after cutEq restEq,
        List.cons_append]

end Piece
end GoFront
