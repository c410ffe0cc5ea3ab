import GoFront.Grammar.Recovery
import Mathlib.Data.List.Basic

/-!
# Brackets that are due to be closed

Reading lexemes from left to right, one keeps the closing brackets that are due, the innermost first.
Lexemes are nested if each bracket closes the one that was opened last. While lexemes of a nested
stretch are read that ends in a semicolon, a reader who thinks that some brackets are open never comes
to the end of the stretch, as long as all of them are indeed due.
-/

namespace GoFront

variable {P : Type}

namespace Brackets

/-- The closing brackets that are due behind a token. -/
def step (due : List Token) : Token -> Option (List Token)
  | .lParen => some (.rParen :: due)
  | .lBrack => some (.rBrack :: due)
  | .lBrace => some (.rBrace :: due)
  | .rParen => if due.head? = some .rParen then some due.tail else none
  | .rBrack => if due.head? = some .rBrack then some due.tail else none
  | .rBrace => if due.head? = some .rBrace then some due.tail else none
  | _ => some due

/-- The closing brackets that are due behind lexemes. -/
def scan (due : List Token) : List (Lexeme P) -> Option (List Token)
  | [] => some due
  | lexeme :: rest => (step due lexeme.token).bind fun due => scan due rest

/-- Whether each bracket closes the one that was opened last, and all are closed. -/
def Nested (lexemes : List (Lexeme P)) : Prop :=
  scan [] lexemes = some []

instance (lexemes : List (Lexeme P)) : Decidable (Nested lexemes) :=
  inferInstanceAs (Decidable (scan [] lexemes = some []))

/-- Whether a token is a bracket. -/
def isBracket : Token -> Bool
  | .lParen | .lBrack | .lBrace | .rParen | .rBrack | .rBrace => true
  | _ => false

/-- The bracket that closes the bracket opened by a token, if it opens one. -/
def closer? : Token -> Option Token
  | .lParen => some .rParen
  | .lBrack => some .rBrack
  | .lBrace => some .rBrace
  | _ => none

/-- A token opens a bracket, closes the innermost one, or leaves the due brackets alone. -/
theorem step_eq_some_iff
    (due after : List Token)
    (token : Token) :
    step due token = some after ↔
      (∃ closer, closer? token = some closer ∧ after = closer :: due)
        ∨ (closer? token = none ∧ isBracket token = true ∧ due = token :: after)
        ∨ (isBracket token = false ∧ after = due) := by
  have closing (closer : Token) :
      (if due.head? = some closer then some due.tail else none) = some after
        ↔ due = closer :: after := by
    cases due with
    | nil => simp
    | cons head tail =>
        by_cases equal : head = closer <;> simp [equal, eq_comm]
  cases token <;> simp [step, closer?, isBracket, closing, eq_comm]

theorem step_of_not_bracket
    (due : List Token)
    (token : Token)
    (plain : isBracket token = false) :
    step due token = some due :=
  (step_eq_some_iff due due token).2 (.inr (.inr ⟨plain, rfl⟩))

@[simp] theorem scan_nil (due : List Token) :
    scan due ([] : List (Lexeme P)) = some due := rfl

theorem scan_append
    (due : List Token)
    (first second : List (Lexeme P)) :
    scan due (first ++ second) = (scan due first).bind fun due => scan due second := by
  induction first generalizing due with
  | nil => rfl
  | cons lexeme rest inductionHypothesis =>
      simp only [List.cons_append, scan]
      cases step due lexeme.token with
      | none => rfl
      | some after => exact inductionHypothesis after

/-- Brackets do not depend on where lexemes stand. -/
theorem scan_map
    {Q : Type}
    (place : P -> Q)
    (due : List Token)
    (lexemes : List (Lexeme P)) :
    scan due (lexemes.map (Lexeme.map place)) = scan due lexemes := by
  induction lexemes generalizing due with
  | nil => rfl
  | cons lexeme rest inductionHypothesis =>
      simp only [List.map_cons, scan, inductionHypothesis]
      rfl

/-- Brackets further out do not matter. -/
theorem step_append
    {due after : List Token}
    {token : Token}
    (outer : List Token)
    (stepEq : step due token = some after) :
    step (due ++ outer) token = some (after ++ outer) := by
  rw [step_eq_some_iff] at stepEq ⊢
  rcases stepEq with ⟨closer, isCloser, rfl⟩ | ⟨notOpener, bracket, rfl⟩ | ⟨plain, rfl⟩
  · exact .inl ⟨closer, isCloser, rfl⟩
  · exact .inr (.inl ⟨notOpener, bracket, rfl⟩)
  · exact .inr (.inr ⟨plain, rfl⟩)

theorem scan_append_outer
    {due after : List Token}
    {lexemes : List (Lexeme P)}
    (outer : List Token)
    (scanEq : scan due lexemes = some after) :
    scan (due ++ outer) lexemes = some (after ++ outer) := by
  induction lexemes generalizing due with
  | nil =>
      obtain rfl : due = after := by simpa using scanEq
      rfl
  | cons lexeme rest inductionHypothesis =>
      obtain ⟨middle, stepEq, restEq⟩ := Option.bind_eq_some_iff.1 scanEq
      rw [scan, step_append outer stepEq]
      exact inductionHypothesis restEq

end Brackets

/-! ## Shelter -/

open Brackets

/-- The lexemes ahead begin with a stretch that ends in a semicolon and closes all brackets that are
due in it, among them those that are thought to be open. -/
def Sheltered
    (behind : List (Lexeme P))
    (opened : List Token)
    (ahead : List (Lexeme P)) : Prop :=
  ∃ shelter due, ahead = shelter ++ behind ∧ scan due shelter = some [] ∧ opened.Sublist due
    ∧ shelter.getLast?.map Lexeme.token = some .semi

namespace Sheltered

variable {behind : List (Lexeme P)}

/-- Brackets can be forgotten. -/
theorem mono
    {opened fewer : List Token}
    {ahead : List (Lexeme P)}
    (sheltered : Sheltered behind opened ahead)
    (forgotten : fewer.Sublist opened) :
    Sheltered behind fewer ahead := by
  obtain ⟨shelter, due, aheadEq, scanEq, isDue, last⟩ := sheltered
  exact ⟨shelter, due, aheadEq, scanEq, forgotten.trans isDue, last⟩

theorem ne_nil
    {opened : List Token}
    {ahead : List (Lexeme P)}
    (sheltered : Sheltered behind opened ahead) :
    ahead ≠ [] := by
  obtain ⟨shelter, due, rfl, -, -, last⟩ := sheltered
  intro empty
  obtain ⟨rfl, -⟩ := List.append_eq_nil_iff.1 empty
  simp at last

/-- Behind a lexeme there is still shelter, for whatever is then due, unless it is a semicolon outside
all brackets. -/
theorem exists_of_cons
    {opened : List Token}
    {lexeme : Lexeme P}
    {rest : List (Lexeme P)}
    (sheltered : Sheltered behind opened (lexeme :: rest))
    (inside : lexeme.token = .semi -> opened ≠ []) :
    ∃ due after, opened.Sublist due ∧ step due lexeme.token = some after
      ∧ ∀ fewer, fewer.Sublist after -> Sheltered behind fewer rest := by
  obtain ⟨shelter, due, aheadEq, scanEq, isDue, last⟩ := sheltered
  cases shelter with
  | nil => simp at last
  | cons head shelter =>
      obtain ⟨rfl, restEq⟩ := List.cons.inj aheadEq
      obtain ⟨after, stepEq, scanRest⟩ := Option.bind_eq_some_iff.1 scanEq
      refine ⟨due, after, isDue, stepEq, fun fewer sublist => ?_⟩
      refine ⟨shelter, after, restEq, scanRest, sublist, ?_⟩
      cases shelter with
      | nil =>
          -- the semicolon at the end of the stretch, with all brackets closed
          have isSemi : lexeme.token = .semi := by simpa using last
          obtain rfl : after = [] := by simpa using scanRest
          rw [isSemi] at stepEq
          obtain rfl : due = [] := by simpa [step] using stepEq
          exact absurd (List.sublist_nil.1 isDue) (inside isSemi)
      | cons next shelter => simpa using last

/-- Shelter behind a lexeme that changes the open brackets as it should. -/
theorem take
    {opened after : List Token}
    {lexeme : Lexeme P}
    {rest : List (Lexeme P)}
    (sheltered : Sheltered behind opened (lexeme :: rest))
    (stepEq : step opened lexeme.token = some after)
    (inside : lexeme.token = .semi -> opened ≠ []) :
    Sheltered behind after rest := by
  obtain ⟨due, dueAfter, isDue, dueStep, shelteredBehind⟩ := sheltered.exists_of_cons inside
  refine shelteredBehind after ?_
  rw [step_eq_some_iff] at stepEq dueStep
  rcases stepEq with ⟨closer, isCloser, rfl⟩ | ⟨notOpener, bracket, rfl⟩ | ⟨plain, rfl⟩
  · rcases dueStep with ⟨_, isCloser', rfl⟩ | ⟨notOpener, -, -⟩ | ⟨plain, -⟩
    · obtain rfl := Option.some.inj (isCloser.symm.trans isCloser')
      exact isDue.cons_cons closer
    · simp [isCloser] at notOpener
    · revert plain isCloser
      cases lexeme.token <;> simp [closer?, isBracket]
  · rcases dueStep with ⟨closer, isCloser, -⟩ | ⟨-, -, rfl⟩ | ⟨plain, -⟩
    · simp [isCloser] at notOpener
    · exact List.cons_sublist_cons.1 isDue
    · simp [bracket] at plain
  · rcases dueStep with ⟨closer, isCloser, rfl⟩ | ⟨-, bracket, -⟩ | ⟨-, rfl⟩
    · exact isDue.cons closer
    · simp [plain] at bracket
    · exact isDue

/-- Shelter behind a lexeme that does not close the innermost open bracket. -/
theorem pass
    {opened : List Token}
    {lexeme : Lexeme P}
    {rest : List (Lexeme P)}
    (sheltered : Sheltered behind opened (lexeme :: rest))
    (other : opened.head? ≠ some lexeme.token)
    (inside : lexeme.token = .semi -> opened ≠ []) :
    Sheltered behind opened rest := by
  obtain ⟨due, after, isDue, dueStep, shelteredBehind⟩ := sheltered.exists_of_cons inside
  refine shelteredBehind opened ?_
  rw [step_eq_some_iff] at dueStep
  rcases dueStep with ⟨closer, -, rfl⟩ | ⟨-, -, rfl⟩ | ⟨-, rfl⟩
  · exact isDue.cons closer
  · cases opened with
    | nil => exact List.nil_sublist _
    | cons head tail =>
        cases isDue with
        | cons _ isDue => exact isDue
        | cons_cons _ isDue => exact absurd rfl other
  · exact isDue

/-- Resuming at a statement stays in the shelter of the enclosing block. -/
theorem drop_lexemesToStmt
    {outer : List Token}
    (braces parens : Nat)
    (ahead : List (Lexeme P))
    (sheltered : Sheltered behind (List.replicate braces .rBrace ++ .rBrace :: outer) ahead) :
    Sheltered behind (.rBrace :: outer)
      (ahead.drop (Recovery.lexemesToStmt braces parens ahead)) := by
  induction ahead generalizing braces parens with
  | nil => exact absurd rfl sheltered.ne_nil
  | cons lexeme rest inductionHypothesis =>
      have opens (isOpener : lexeme.token = .lBrace) :
          Sheltered behind (List.replicate (braces + 1) .rBrace ++ .rBrace :: outer) rest := by
        refine sheltered.take ?_ (by simp)
        rw [isOpener]
        rfl
      have passes (notCloser : lexeme.token ≠ .rBrace) :
          Sheltered behind (List.replicate braces .rBrace ++ .rBrace :: outer) rest := by
        refine sheltered.pass ?_ (by simp)
        cases braces <;> simpa [List.replicate_succ] using notCloser.symm
      cases braces with
      | succ braces =>
          simp only [Recovery.lexemesToStmt]
          split
          · exact inductionHypothesis _ _ (opens ‹_›)
          · have isCloser : lexeme.token = .rBrace := ‹_›
            refine inductionHypothesis _ _ (sheltered.take ?_ (by simp))
            rw [isCloser]
            rfl
          · exact inductionHypothesis _ _ (passes ‹_›)
      | zero =>
          simp only [Recovery.lexemesToStmt]
          split
          · exact inductionHypothesis 1 _ (opens ‹_›)
          · exact inductionHypothesis 0 _ (passes (by simp [*]))
          · exact inductionHypothesis 0 _ (passes (by simp [*]))
          · exact inductionHypothesis 0 _ (passes (by simp [*]))
          · exact inductionHypothesis 0 _ (passes (by simp [*]))
          · exact sheltered
          · exact passes (by simp [*])
          · split
            · exact sheltered
            · exact inductionHypothesis 0 _ (passes ‹_›)

/-- Resuming at a statement after a failure stays in the shelter of the enclosing block. -/
theorem resume
    {outer : List Token}
    {cursor : Cursor P}
    (start : Nat)
    (sheltered : Sheltered behind (.rBrace :: outer) cursor.ahead)
    (notAtCloser : cursor.consumed = start -> cursor.token ≠ .rBrace) :
    Sheltered behind (.rBrace :: outer) (Recovery.stmt.resume start cursor).ahead := by
  unfold Recovery.resume
  split
  · have forced : Sheltered behind (.rBrace :: outer) cursor.advance.ahead := by
      cases aheadEq : cursor.ahead with
      | nil => exact absurd aheadEq sheltered.ne_nil
      | cons lexeme rest =>
          rw [aheadEq] at sheltered
          have token : cursor.token = lexeme.token := by
            simp [Cursor.token, Cursor.peek, aheadEq]
          simp only [Cursor.advance, aheadEq]
          refine sheltered.pass ?_ (by simp)
          rw [← token]
          simpa using (notAtCloser ‹_›).symm
    exact forced.drop_lexemesToStmt 0 0 _
  · exact sheltered.drop_lexemesToStmt 0 0 _

end Sheltered
end GoFront
