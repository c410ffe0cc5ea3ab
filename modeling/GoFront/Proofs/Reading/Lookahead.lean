import GoFront.Proofs.Reading.Judgement

/-!
# Looking further ahead

Some decisions depend on lexemes that lie far ahead. A search for the end of brackets ends where the
brackets are closed, and a search for a token outside brackets ends where that token stands outside
brackets. So no decision depends on what comes behind a phrase and the lexeme that follows it.
-/

namespace GoFront

variable {P : Type}

namespace Cursor

variable {taken behind behind' : List (Lexeme P)} {lexeme : Lexeme P}

theorem tokenAfter_of_append
    {cursor : Cursor P}
    {count : Nat}
    (aheadEq : cursor.ahead = taken ++ lexeme :: behind)
    (within : count ≤ taken.length) :
    cursor.tokenAfter count = ((taken ++ [lexeme])[count]?.getD lexeme).token := by
  have inFront : count < (taken ++ [lexeme]).length := by
    rw [List.length_append, List.length_singleton]
    exact Nat.lt_succ_of_le within
  have sameLexeme : cursor.ahead[count]? = (taken ++ [lexeme])[count]? := by
    rw [aheadEq, ← List.singleton_append, ← List.append_assoc, List.getElem?_append_left inFront]
  rw [tokenAfter, sameLexeme, List.getElem?_eq_getElem inFront]
  rfl

/-- The lexemes of a phrase and the one behind it are the same in another text with both. -/
theorem tokenAfter_congr
    {cursor other : Cursor P}
    {count : Nat}
    (aheadEq : cursor.ahead = taken ++ lexeme :: behind)
    (otherAhead : other.ahead = taken ++ lexeme :: behind')
    (within : count ≤ taken.length) :
    other.tokenAfter count = cursor.tokenAfter count := by
  rw [tokenAfter_of_append aheadEq within, tokenAfter_of_append otherAhead within]

theorem token_congr
    {cursor other : Cursor P}
    (aheadEq : cursor.ahead = taken ++ lexeme :: behind)
    (otherAhead : other.ahead = taken ++ lexeme :: behind') :
    other.token = cursor.token := by
  rw [token, token, peek, peek, aheadEq, otherAhead]
  cases taken <;> rfl

/-- The number of open brackets is the number of those that are due to be closed. -/
theorem bracketDepth_of_step
    {due after : List Token}
    {token : Token}
    (stepEq : Brackets.step due token = some after) :
    bracketDepth due.length token = after.length := by
  rw [Brackets.step_eq_some_iff] at stepEq
  rcases stepEq with ⟨closer, opens, rfl⟩ | ⟨notOpener, bracket, rfl⟩ | ⟨plain, rfl⟩
  · revert opens
    cases token <;> simp [Brackets.closer?, bracketDepth]
  · revert notOpener bracket
    cases token <;> simp [Brackets.closer?, Brackets.isBracket, bracketDepth]
  · revert plain
    cases token <;> simp [Brackets.isBracket, bracketDepth]

/-- The number of open braces is the number of those that are due to be closed. -/
theorem braceDepth_of_step
    {due after : List Token}
    {token : Token}
    (stepEq : Brackets.step due token = some after) :
    braceDepth (due.count .rBrace) token = after.count .rBrace := by
  rw [Brackets.step_eq_some_iff] at stepEq
  rcases stepEq with ⟨closer, opens, rfl⟩ | ⟨notOpener, bracket, rfl⟩ | ⟨plain, rfl⟩
  · revert opens
    cases token <;> simp [Brackets.closer?, braceDepth]
    all_goals (rintro rfl; simp)
  · revert notOpener bracket
    cases token <;> simp [Brackets.closer?, Brackets.isBracket, braceDepth]
  · revert plain
    cases token <;> simp [Brackets.isBracket, braceDepth]

/-- Where the needles occur before a terminator that follows a nested stretch depends on nothing that
comes behind the terminator. -/
theorem occurIn_append
    {terminator : Token}
    {needles due : List Token}
    {braces : Nat}
    (nested : Brackets.scan due taken = some [])
    (terminates : lexeme.token = terminator) :
    occurIn terminator needles due.length braces (taken ++ lexeme :: behind)
      = occurIn terminator needles due.length braces (taken ++ lexeme :: behind') := by
  induction taken generalizing needles due braces with
  | nil =>
      obtain rfl : due = [] := Option.some.inj nested
      cases needles with
      | nil => rfl
      | cons needle needles => simp [occurIn, terminates]
  | cons head taken inductionHypothesis =>
      cases needles with
      | nil => rfl
      | cons needle needles =>
          obtain ⟨after, stepEq, restNested⟩ := Option.bind_eq_some_iff.1 nested
          have depthEq := bracketDepth_of_step stepEq
          simp only [List.cons_append, occurIn, depthEq]
          split
          · rfl
          · exact inductionHypothesis restNested

/-- What comes behind the bracket that closes an open one is known if that bracket stands in a stretch
that closes all brackets. -/
theorem closesBefore_append
    {due followers : List Token}
    {depth : Nat}
    (nested : Brackets.scan due taken = some [])
    (depthEq : due.count .rBrack = depth + 1) :
    closesBefore .lBrack .rBrack followers (depth + 1) (taken ++ lexeme :: behind)
      = closesBefore .lBrack .rBrack followers (depth + 1) (taken ++ lexeme :: behind') := by
  induction taken generalizing due depth with
  | nil =>
      obtain rfl : due = [] := Option.some.inj nested
      simp at depthEq
  | cons head taken inductionHypothesis =>
      obtain ⟨after, stepEq, restNested⟩ := Option.bind_eq_some_iff.1 nested
      rw [Brackets.step_eq_some_iff] at stepEq
      simp only [List.cons_append, closesBefore]
      split
      · next isOpener =>
          refine inductionHypothesis restNested ?_
          simp only [isOpener, Brackets.closer?, Brackets.isBracket] at stepEq
          simp_all
      · next notOpener =>
          split
          · next isCloser =>
              simp only [isCloser, Brackets.closer?, Brackets.isBracket] at stepEq
              obtain rfl : due = .rBrack :: after := by simpa using stepEq
              rw [List.count_cons_self] at depthEq
              split
              · cases taken <;> rfl
              · obtain ⟨less, rfl⟩ : ∃ less, depth = less + 1 := ⟨depth - 1, by omega⟩
                have counted : after.count .rBrack = less + 1 := Nat.succ.inj depthEq
                exact inductionHypothesis restNested counted
          · next notCloser =>
              refine inductionHypothesis restNested ?_
              rw [← depthEq]
              rcases stepEq with ⟨closer, opens, rfl⟩ | ⟨_, _, rfl⟩ | ⟨_, rfl⟩
              · have other : closer ≠ .rBrack := by
                  revert opens notOpener
                  cases head.token <;> simp [Brackets.closer?]
                  all_goals intro same; rw [← same]; decide
                exact List.count_cons_of_ne other
              · exact (List.count_cons_of_ne notCloser).symm
              · rfl

/-- Whether a bracket behind the next lexeme has a given follower is decided within a nested stretch that
contains the bracket, and the lexeme behind it. -/
theorem brackFollowedBy_eq
    {cursor other : Cursor P}
    {followers : List Token}
    (aheadEq : cursor.ahead = taken ++ lexeme :: behind)
    (otherAhead : other.ahead = taken ++ lexeme :: behind')
    (nested : Brackets.scan [] taken = some [])
    (startsName : cursor.token = .ident)
    (bracket : cursor.tokenAfter 1 = .lBrack)
    (long : 2 ≤ taken.length) :
    other.brackFollowedBy followers = cursor.brackFollowedBy followers := by
  obtain ⟨name, opener, rest, rfl⟩ : ∃ name opener rest, taken = name :: opener :: rest := by
    match taken, long with
    | name :: opener :: rest, _ => exact ⟨name, opener, rest, rfl⟩
  have isName : name.token = .ident := by
    rw [← startsName]
    exact (token_of_ahead aheadEq).symm
  have isBracket : opener.token = .lBrack := by
    rw [← bracket, tokenAfter, aheadEq]
    rfl
  have restNested : Brackets.scan [.rBrack] rest = some [] := by
    simpa [Brackets.scan, isName, isBracket, Brackets.step] using nested
  rw [brackFollowedBy, brackFollowedBy, aheadEq, otherAhead]
  simp only [List.cons_append, closesBefore, isName, isBracket]
  exact closesBefore_append restNested rfl

end Cursor
end GoFront
