import GoFront.Proofs.Reading.Blocks
import GoFront.Proofs.Scans.Tapes

/-!
# Where statements are resumed

After a failure in a statement the lexemes are examined one by one. Two counts are kept: of the braces that
are open, and of the parentheses and square brackets that have been opened outside braces. Reading resumes at
the first token that bounds a statement under these counts, or behind it if it is a semicolon. A closing
brace is passed over only if the examined tokens have opened it.
-/

namespace GoFront

variable {P : Type}

open Brackets

namespace Cursor

@[simp] theorem skip_zero (cursor : Cursor P) : cursor.skip 0 = cursor := by
  simp [skip]

theorem skip_succ
    (cursor : Cursor P)
    (count : Nat) :
    cursor.skip (count + 1) = cursor.advance.skip count := by
  obtain ⟨consumed, ahead, stop⟩ := cursor
  cases ahead with
  | nil => simp [skip, advance]
  | cons lexeme rest =>
      simp only [skip, advance, List.length_cons, List.drop_succ_cons, Nat.add_min_add_right]
      congr 1
      omega

end Cursor

namespace Recovery

@[simp] theorem lexemesToStmt_nil (braces parens : Nat) :
    lexemesToStmt braces parens ([] : List (Lexeme P)) = 0 := by
  cases braces <;> rfl

end Recovery

namespace Tape

variable {tape : Tape P} {first place : Nat}

/-- The positions from one up to another at which no brace is open. -/
def outsideBraces (tape : Tape P) (first place : Nat) : List Nat :=
  (List.range' first (place - first)).filter fun middle => tape.braces first middle = 0

/-- The number of open parentheses and square brackets at a position. Those inside braces are not counted. -/
def parens (tape : Tape P) (first place : Nat) : Nat :=
  openCount [.lParen, .lBrack] [.rParen, .rBrack] ((tape.outsideBraces first place).map tape.tokenAt)

@[simp] theorem parens_self (tape : Tape P) (first : Nat) : tape.parens first first = 0 := by
  simp [parens, outsideBraces, openCount]

theorem outsideBraces_succ (le : first ≤ place) :
    tape.outsideBraces first (place + 1)
      = tape.outsideBraces first place ++ if tape.braces first place = 0 then [place] else [] := by
  rw [outsideBraces, Nat.succ_sub le, List.range'_1_concat, List.filter_append,
    Nat.add_sub_cancel' le, outsideBraces]
  congr 1
  by_cases outside : tape.braces first place = 0 <;> simp [outside]

theorem parens_succ (le : first ≤ place) :
    tape.parens first (place + 1)
      = if tape.braces first place = 0
        then Recovery.parenDepth (tape.parens first place) (tape.tokenAt place)
        else tape.parens first place := by
  rw [parens, outsideBraces_succ le]
  split
  · rw [List.map_append, List.map_singleton, openCount_concat, ← parens]
    cases tape.tokenAt place <;> rfl
  · rw [List.append_nil, parens]

/-! ## The place to resume -/

/-- Whether a token ends what is passed over: it ends the input, or it bounds a statement where it stands. -/
def EndsStmt (tape : Tape P) (first place : Nat) : Prop :=
  tape.tokenAt place = .eof
    ∨ Recovery.bounds (tape.braces first place) (tape.parens first place) (tape.tokenAt place) = true

/-- Where reading resumes if a token ends what is passed over: a semicolon belongs to it. -/
def resumption (tape : Tape P) (place : Nat) : Nat :=
  if tape.tokenAt place = .semi then place + 1 else place

/-- The first position that is examined. If nothing was consumed, a lexeme is passed in any case. -/
def firstExamined (tape : Tape P) (start position : Nat) : Nat :=
  if position = start ∧ tape.tokenAt start ≠ .eof then start + 1 else position

theorem le_resumption (tape : Tape P) (place : Nat) : place ≤ tape.resumption place := by
  unfold resumption
  split <;> omega

/-- The end of what is passed over, looked for from a position on. -/
def IsStop (tape : Tape P) (first stop : Nat) : Prop :=
  IsLeast {place | first ≤ place ∧ tape.EndsStmt first place} stop

/-- The search that goes on from a position with the counts of that position arrives at the first token that
ends what is passed over. -/
theorem exists_stop
    (le : first ≤ place)
    (goesOn : Unmet (tape.EndsStmt first) first place) :
    ∃ stop, tape.IsStop first stop
      ∧ (tape.cursorAt place).skip (Recovery.lexemesToStmt (tape.braces first place)
          (tape.parens first place) (tape.cursorAt place).ahead) = tape.cursorAt (tape.resumption stop) := by
  -- on what lies ahead: the counts behind a lexeme are those of the next position
  generalize aheadEq : (tape.cursorAt place).ahead = lexemes
  induction lexemes generalizing place with
  | nil =>
      have atEnd := tokenAt_of_ahead_nil aheadEq
      refine ⟨place, goesOn.isLeast le (.inl atEnd), ?_⟩
      rw [Recovery.lexemesToStmt_nil, Cursor.skip_zero, resumption, atEnd, if_neg (by decide)]
  | cons lexeme rest inductionHypothesis =>
      obtain ⟨more, found, restEq⟩ := of_ahead_cons aheadEq
      rw [Recovery.lexemesToStmt_cons, token_of_getElem? found]
      split
      · next isBound =>
          refine ⟨place, goesOn.isLeast le (.inr isBound), ?_⟩
          unfold resumption
          split
          · rw [Cursor.skip_succ, Cursor.skip_zero, advance_cursorAt more]
          · exact Cursor.skip_zero _
      · next notBound =>
          have notEnd : ¬ tape.EndsStmt first place := by
            rintro (atEnd | isBound)
            · exact more atEnd
            · exact notBound isBound
          rw [← braces_succ le, ← parens_succ le, Cursor.skip_succ, advance_cursorAt more]
          exact inductionHypothesis (Nat.le_succ_of_le le) (goesOn.succ notEnd) restEq

/-- Resuming searches on from the first position that is examined. -/
theorem resume_cursorAt
    (tape : Tape P)
    (start position : Nat) :
    Recovery.stmt.resume start (tape.cursorAt position)
      = (tape.cursorAt (tape.firstExamined start position)).skip
          (Recovery.lexemesToStmt 0 0 (tape.cursorAt (tape.firstExamined start position)).ahead) := by
  have examined : (if position = start then (tape.cursorAt position).advance else tape.cursorAt position)
      = tape.cursorAt (tape.firstExamined start position) := by
    unfold firstExamined
    by_cases nothing : position = start
    · subst nothing
      by_cases atEnd : tape.tokenAt position = .eof
      · simp [atEnd, advance_cursorAt_of_end atEnd]
      · simp [atEnd, advance_cursorAt atEnd]
    · simp [nothing]
  rw [← examined]
  rfl

/-- A closing brace in front of the end of what is passed over has been opened in it. -/
theorem IsStop.exists_matches
    {stop closer : Nat}
    (isStop : tape.IsStop first stop)
    (le : first ≤ closer)
    (lt : closer < tape.resumption stop)
    (isCloser : tape.tokenAt closer = .rBrace) :
    ∃ opener, first ≤ opener ∧ tape.Matches .lBrace .rBrace opener closer
      ∧ ∀ other, tape.Matches .lBrace .rBrace opener other -> other = closer := by
  have notStop : closer ≠ stop := by
    rintro rfl
    rw [resumption, isCloser, if_neg (by decide)] at lt
    exact Nat.lt_irrefl _ lt
  have inFront : closer < stop := by
    unfold resumption at lt
    split at lt <;> omega
  have notEnd : ¬ tape.EndsStmt first closer := unmet_of_isLeast isStop closer le inFront
  have isOpen : 0 < tape.braces first closer := by
    refine Nat.pos_of_ne_zero fun closed => notEnd (.inr ?_)
    rw [isCloser, closed]
    rfl
  obtain ⟨opener, behind, isMatch⟩ := Tape.exists_matches (by decide) le isOpen isCloser
  exact ⟨opener, behind, isMatch, fun other isOther => isMatch.stop_eq isOther (by decide)⟩

theorem lt_resumption
    {start position stop : Nat}
    (begun : start ≤ position)
    (isStop : tape.IsStop (tape.firstExamined start position) stop) :
    start < tape.resumption stop ∨ tape.tokenAt start = .eof := by
  have atLeast : tape.firstExamined start position ≤ tape.resumption stop :=
    Nat.le_trans isStop.1.1 (tape.le_resumption stop)
  unfold firstExamined at atLeast
  split at atLeast
  · exact .inl atLeast
  · next examined =>
      rcases Nat.lt_or_eq_of_le begun with later | rfl
      · exact .inl (Nat.lt_of_lt_of_le later atLeast)
      · exact .inr (by simpa using examined)

/-- Resuming after a statement that failed respects braces, wherever it began and however the brackets
stand. It goes from the first position that is examined to the first token that ends the input or bounds a
statement, and behind that token if it is a semicolon. Every closing brace that is passed matches an opening
one of its own among the examined tokens. Something is passed unless the input has ended where the statement
began. -/
theorem stmt_recovery_respects_braces
    (tape : Tape P)
    {start position : Nat}
    (begun : start ≤ position)
    (notCloser : tape.tokenAt start ≠ .rBrace) :
    ∃ stop, tape.IsStop (tape.firstExamined start position) stop
      ∧ Recovery.stmt.resume start (tape.cursorAt position) = tape.cursorAt (tape.resumption stop)
      ∧ (∀ closer, position ≤ closer -> closer < tape.resumption stop ->
          tape.tokenAt closer = .rBrace ->
            ∃ opener, tape.firstExamined start position ≤ opener
              ∧ tape.Matches .lBrace .rBrace opener closer
              ∧ ∀ other, tape.Matches .lBrace .rBrace opener other -> other = closer)
      ∧ (start < tape.resumption stop ∨ tape.tokenAt start = .eof) := by
  obtain ⟨stop, isStop, arrives⟩ :=
    exists_stop (Nat.le_refl (tape.firstExamined start position)) (.self _ _)
  refine ⟨stop, isStop, ?_, fun closer le lt isCloser => ?_, lt_resumption begun isStop⟩
  · rw [resume_cursorAt, ← arrives, braces_self, parens_self]
  · -- the lexeme that is passed in any case is no closing brace
    refine isStop.exists_matches ?_ lt isCloser
    unfold firstExamined
    split
    · next forced =>
        refine Nat.lt_of_le_of_ne (forced.1 ▸ le) ?_
        rintro rfl
        exact notCloser isCloser
    · exact le

/-- A brace is passed in any case, and what it opened is not known any more. Of the brackets behind it some
cross. -/
theorem stmt_recovery_respects_braces_crossed :
    let tape := ofTokens [.lBrace, .lBrack, .lBrace, .rBrack, .semi, .rBrace, .kwIf, .rBrace, .semi]
    (0 ≤ 0 ∧ tape.tokenAt 0 ≠ .rBrace)
      ∧ ∃ stop, tape.IsStop (tape.firstExamined 0 0) stop
        ∧ Recovery.stmt.resume 0 (tape.cursorAt 0) = tape.cursorAt (tape.resumption stop)
        ∧ (∀ closer, 0 ≤ closer -> closer < tape.resumption stop -> tape.tokenAt closer = .rBrace ->
            ∃ opener, tape.firstExamined 0 0 ≤ opener ∧ tape.Matches .lBrace .rBrace opener closer
              ∧ ∀ other, tape.Matches .lBrace .rBrace opener other -> other = closer)
        ∧ (0 < tape.resumption stop ∨ tape.tokenAt 0 = .eof) :=
  ⟨⟨by decide, by decide⟩, stmt_recovery_respects_braces _ (by decide) (by decide)⟩

/-- There reading resumes at the brace that closes the one that was passed. -/
example :
    let tape := ofTokens [.lBrace, .lBrack, .lBrace, .rBrack, .semi, .rBrace, .kwIf, .rBrace, .semi]
    Recovery.stmt.resume 0 (tape.cursorAt 0) = tape.cursorAt 7 := by
  decide

end Tape
end GoFront
