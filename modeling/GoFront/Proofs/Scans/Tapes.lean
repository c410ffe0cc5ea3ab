import GoFront.Proofs.Reading.Judgement
import Mathlib.Data.List.Basic
import Mathlib.Data.Nat.Init
import Mathlib.Order.Bounds.Basic

/-!
# Lexemes by position

A tape is a list of lexemes the last of which ends the input. At each of its positions a cursor can stand;
ahead of it lie the lexemes up to the first end of the input. Brackets are counted from one position to
another, from left to right: an opening one adds to the count, a closing one takes away from it, and it
never falls below zero. Where the count of one kind is positive, a bracket of that kind is open that stands
in front, and a closing one is its own.
-/

namespace GoFront

variable {P : Type}

/-! ## Positions -/

/-- No position from one up to another has a property. -/
def Unmet (property : Nat -> Prop) (front stop : Nat) : Prop :=
  ∀ place, front ≤ place -> place < stop -> ¬ property place

namespace Unmet

variable {property : Nat -> Prop} {front stop : Nat}

theorem self (property : Nat -> Prop) (front : Nat) : Unmet property front front :=
  fun _ le lt => absurd lt (Nat.not_lt_of_le le)

theorem succ
    (unmet : Unmet property front stop)
    (refused : ¬ property stop) :
    Unmet property front (stop + 1) := by
  intro place le lt
  rcases Nat.lt_or_eq_of_le (Nat.le_of_lt_succ lt) with earlier | rfl
  · exact unmet place le earlier
  · exact refused

/-- From a later position on. -/
theorem tail (unmet : Unmet property front stop) : Unmet property (front + 1) stop :=
  fun place le => unmet place (Nat.le_of_succ_le le)

theorem isLeast
    (unmet : Unmet property front stop)
    (le : front ≤ stop)
    (holds : property stop) :
    IsLeast {place | front ≤ place ∧ property place} stop := by
  refine ⟨⟨le, holds⟩, ?_⟩
  intro place met
  exact Nat.le_of_not_lt fun earlier => unmet place met.1 earlier met.2

end Unmet

theorem unmet_of_isLeast
    {property : Nat -> Prop}
    {front stop : Nat}
    (isLeast : IsLeast {place | front ≤ place ∧ property place} stop) :
    Unmet property front stop :=
  fun _ le lt holds => Nat.not_lt_of_le (isLeast.2 ⟨le, holds⟩) lt

/-! ## Tapes -/

/-- Lexemes of which the last one ends the input. -/
structure Tape (P : Type) where
  lexemes : List (Lexeme P)
  ends : lexemes.getLast?.map Lexeme.token = some .eof

namespace Tape

variable {tape : Tape P} {position : Nat}

theorem lexemes_ne_nil (tape : Tape P) : tape.lexemes ≠ [] := by
  intro empty
  have ends := tape.ends
  rw [empty] at ends
  cases ends

/-- Lexemes in front of the end of the input. -/
def ofLexemes (lexemes : List (Lexeme P)) (stop : P) : Tape P where
  lexemes := lexemes ++ [⟨.eof, stop, none⟩]
  ends := by simp

/-- Tokens in front of the end of the input. They have no places. -/
def ofTokens (tokens : List Token) : Tape Unit :=
  ofLexemes (tokens.map fun token => ⟨token, (), none⟩) ()

/-- The lexeme that ends the input. -/
def last (tape : Tape P) : Lexeme P :=
  tape.lexemes.getLast tape.lexemes_ne_nil

theorem token_last (tape : Tape P) : tape.last.token = .eof := by
  have ends := tape.ends
  rw [List.getLast?_eq_some_getLast tape.lexemes_ne_nil] at ends
  exact Option.some.inj ends

/-- The token at a position. Behind the lexemes the input has ended. -/
def tokenAt (tape : Tape P) (position : Nat) : Token :=
  (tape.lexemes[position]?.map Lexeme.token).getD .eof

/-- The cursor at a position. It sees the lexemes up to the first end of the input. -/
def cursorAt (tape : Tape P) (position : Nat) : Cursor P where
  consumed := position
  ahead := (tape.lexemes.drop position).takeWhile fun lexeme => lexeme.token ≠ .eof
  stop := (((tape.lexemes.drop position).find? fun lexeme => lexeme.token = .eof).getD tape.last).pos

/-- A run over lexemes has its cursors on their tape. -/
theorem cursorAt_ofLexemes
    {lexemes : List (Lexeme P)}
    (stop : P)
    (regular : ∀ lexeme ∈ lexemes, lexeme.token ≠ .eof)
    (le : position ≤ lexemes.length) :
    (ofLexemes lexemes stop).cursorAt position = (Cursor.start lexemes stop).skip position := by
  have dropEq : (ofLexemes lexemes stop).lexemes.drop position
      = lexemes.drop position ++ [⟨.eof, stop, none⟩] :=
    List.drop_append_of_le_length le
  have rest : ∀ lexeme ∈ lexemes.drop position, lexeme.token ≠ .eof := fun lexeme isLexeme =>
    regular lexeme (List.mem_of_mem_drop isLexeme)
  have noEnd : (lexemes.drop position).find? (fun lexeme => lexeme.token = .eof) = none := by
    simpa using rest
  rw [cursorAt, dropEq, List.takeWhile_append_of_pos (by simpa using rest), List.find?_append, noEnd]
  simp [Cursor.start, Cursor.skip, le]

theorem drop_of_getElem?
    {lexeme : Lexeme P}
    (found : tape.lexemes[position]? = some lexeme) :
    tape.lexemes.drop position = lexeme :: tape.lexemes.drop (position + 1) := by
  obtain ⟨inRange, rfl⟩ := List.getElem?_eq_some_iff.1 found
  exact List.drop_eq_getElem_cons inRange

theorem token_of_getElem?
    {lexeme : Lexeme P}
    (found : tape.lexemes[position]? = some lexeme) :
    lexeme.token = tape.tokenAt position := by
  rw [tokenAt, found]
  rfl

/-- A token other than the end of the input is that of a lexeme. -/
theorem exists_lexeme (more : tape.tokenAt position ≠ .eof) :
    ∃ lexeme, tape.lexemes[position]? = some lexeme := by
  rw [tokenAt] at more
  cases found : tape.lexemes[position]? with
  | none =>
      rw [found] at more
      exact absurd rfl more
  | some lexeme => exact ⟨lexeme, rfl⟩

/-- The last lexeme is the end of the input. -/
theorem succ_lt_length (more : tape.tokenAt position ≠ .eof) : position + 1 < tape.lexemes.length := by
  obtain ⟨lexeme, found⟩ := exists_lexeme more
  have tokenEq := token_of_getElem? found
  obtain ⟨inRange, rfl⟩ := List.getElem?_eq_some_iff.1 found
  by_contra isLast
  have lastEq : tape.last = tape.lexemes[position] := by
    rw [last, List.getLast_eq_getElem]
    congr 1
    omega
  rw [← tokenEq, ← lastEq] at more
  exact more tape.token_last

/-- The input ends with the last lexeme and not before. -/
def EndsOnce (tape : Tape P) : Prop :=
  ∀ lexeme ∈ tape.lexemes.dropLast, lexeme.token ≠ .eof

instance (tape : Tape P) : Decidable tape.EndsOnce :=
  inferInstanceAs (Decidable (∀ lexeme ∈ tape.lexemes.dropLast, lexeme.token ≠ .eof))

theorem EndsOnce.tokenAt_ne
    (endsOnce : tape.EndsOnce)
    (inFront : position + 1 < tape.lexemes.length) :
    tape.tokenAt position ≠ .eof := by
  have inRange : position < tape.lexemes.dropLast.length := by
    rw [List.length_dropLast]
    omega
  have found : tape.lexemes[position]? = some tape.lexemes.dropLast[position] := by
    rw [List.getElem_dropLast, List.getElem?_eq_getElem]
  rw [← token_of_getElem? found]
  exact endsOnce _ (List.getElem_mem inRange)

/-- At the end of the input nothing lies ahead. -/
theorem ahead_of_end (atEnd : tape.tokenAt position = .eof) : (tape.cursorAt position).ahead = [] := by
  unfold tokenAt at atEnd
  cases found : tape.lexemes[position]? with
  | none =>
      rw [cursorAt, List.drop_eq_nil_of_le (List.getElem?_eq_none_iff.1 found)]
      rfl
  | some lexeme =>
      have isEnd : lexeme.token = .eof := by simpa [found] using atEnd
      rw [cursorAt, drop_of_getElem? found]
      simp [isEnd]

/-- In front of the end of the input a lexeme lies ahead, and behind it what lies ahead of the next
position. -/
theorem exists_ahead (more : tape.tokenAt position ≠ .eof) :
    ∃ lexeme, tape.lexemes[position]? = some lexeme
      ∧ (tape.cursorAt position).ahead = lexeme :: (tape.cursorAt (position + 1)).ahead
      ∧ (tape.cursorAt position).stop = (tape.cursorAt (position + 1)).stop := by
  obtain ⟨lexeme, found⟩ := exists_lexeme more
  have notEnd : lexeme.token ≠ .eof := token_of_getElem? found ▸ more
  refine ⟨lexeme, found, ?_, ?_⟩
  · rw [cursorAt, drop_of_getElem? found]
    simp [cursorAt, notEnd]
  · rw [cursorAt, drop_of_getElem? found]
    simp [cursorAt, notEnd]

/-- Where nothing lies ahead the input has ended. -/
theorem tokenAt_of_ahead_nil (aheadEq : (tape.cursorAt position).ahead = []) :
    tape.tokenAt position = .eof := by
  by_contra more
  obtain ⟨_, -, aheadEq', -⟩ := exists_ahead more
  rw [aheadEq'] at aheadEq
  cases aheadEq

/-- The next lexeme ahead is the one at the position. -/
theorem of_ahead_cons
    {lexeme : Lexeme P}
    {rest : List (Lexeme P)}
    (aheadEq : (tape.cursorAt position).ahead = lexeme :: rest) :
    tape.tokenAt position ≠ .eof ∧ tape.lexemes[position]? = some lexeme
      ∧ (tape.cursorAt (position + 1)).ahead = rest := by
  have more : tape.tokenAt position ≠ .eof := by
    intro atEnd
    rw [ahead_of_end atEnd] at aheadEq
    cases aheadEq
  obtain ⟨_, found, aheadEq', -⟩ := exists_ahead more
  obtain ⟨rfl, restEq⟩ := List.cons.inj (aheadEq'.symm.trans aheadEq)
  exact ⟨more, found, restEq⟩

/-- The token at a position is the next one ahead. -/
theorem token_head_ahead (tape : Tape P) (position : Nat) :
    ((tape.cursorAt position).ahead.head?.map Lexeme.token).getD .eof = tape.tokenAt position := by
  by_cases atEnd : tape.tokenAt position = .eof
  · rw [ahead_of_end atEnd, atEnd]
    rfl
  · obtain ⟨lexeme, found, aheadEq, -⟩ := exists_ahead atEnd
    rw [aheadEq]
    exact token_of_getElem? found

/-- A cursor moves past a lexeme to the next position. -/
theorem advance_cursorAt (more : tape.tokenAt position ≠ .eof) :
    (tape.cursorAt position).advance = tape.cursorAt (position + 1) := by
  obtain ⟨lexeme, -, aheadEq, stopEq⟩ := exists_ahead more
  rw [Cursor.advance, aheadEq]
  change Cursor.mk _ _ _ = _
  rw [stopEq]
  rfl

/-- At the end of the input a cursor stays where it is. -/
theorem advance_cursorAt_of_end (atEnd : tape.tokenAt position = .eof) :
    (tape.cursorAt position).advance = tape.cursorAt position := by
  rw [Cursor.advance, ahead_of_end atEnd]

end Tape

/-! ## Counting brackets -/

namespace Brackets

/-- The number of open brackets behind a token. A bracket that closes nothing is not counted. -/
def tally (openers closers : List Token) (count : Nat) (token : Token) : Nat :=
  if openers.contains token then count + 1
  else if closers.contains token then count - 1
  else count

/-- The number of brackets that tokens leave open. -/
def openCount (openers closers tokens : List Token) : Nat :=
  tokens.foldl (tally openers closers) 0

theorem openCount_concat
    (openers closers tokens : List Token)
    (token : Token) :
    openCount openers closers (tokens ++ [token])
      = tally openers closers (openCount openers closers tokens) token := by
  rw [openCount, List.foldl_append]
  rfl

variable {opener closer : Token}

theorem eq_opener_of_lt_tally
    {count : Nat}
    {token : Token}
    (more : count < tally [opener] [closer] count token) :
    token = opener := by
  unfold tally at more
  split at more
  · next isOpener => simpa using isOpener
  · split at more <;> omega

theorem tally_closer
    (count : Nat)
    (distinct : opener ≠ closer) :
    tally [opener] [closer] count closer = count - 1 := by
  simp [tally, distinct.symm]

theorem tally_le_succ
    (count : Nat)
    (token : Token) :
    tally [opener] [closer] count token ≤ count + 1 := by
  unfold tally
  split
  · exact Nat.le_refl _
  · split <;> omega

/-- Unless a bracket closes nothing, it changes the count by one. -/
theorem tally_add_count
    {count : Nat}
    {token : Token}
    (distinct : opener ≠ closer)
    (closes : token = closer -> 0 < count) :
    tally [opener] [closer] count token + [token].count closer = count + [token].count opener := by
  by_cases isOpener : token = opener
  · subst isOpener
    simp [tally, distinct]
  · by_cases isCloser : token = closer
    · subst isCloser
      have positive := closes rfl
      simp [tally, isOpener]
      omega
    · simp [tally, isOpener, isCloser]

end Brackets

namespace Tape

open Brackets

variable {tape : Tape P} {front place stop : Nat} {opener closer : Token}

/-- The tokens from one position up to another. -/
def span (tape : Tape P) (front stop : Nat) : List Token :=
  (List.range' front (stop - front)).map tape.tokenAt

@[simp] theorem span_self (tape : Tape P) (front : Nat) : tape.span front front = [] := by
  simp [span]

theorem span_succ (tape : Tape P) (le : front ≤ stop) :
    tape.span front (stop + 1) = tape.span front stop ++ [tape.tokenAt stop] := by
  rw [span, Nat.succ_sub le, List.range'_1_concat, List.map_append, Nat.add_sub_cancel' le]
  rfl

/-- The number of brackets that are open at a position, counted from another one on. -/
def level (tape : Tape P) (openers closers : List Token) (front place : Nat) : Nat :=
  openCount openers closers (tape.span front place)

@[simp] theorem level_self
    (tape : Tape P)
    (openers closers : List Token)
    (front : Nat) :
    tape.level openers closers front front = 0 := by
  rw [level, span_self]
  rfl

theorem level_succ
    (openers closers : List Token)
    (le : front ≤ place) :
    tape.level openers closers front (place + 1)
      = tally openers closers (tape.level openers closers front place) (tape.tokenAt place) := by
  rw [level, span_succ tape le, openCount_concat]
  rfl

/-- The number of open brackets of any kind. -/
def depth (tape : Tape P) (front place : Nat) : Nat :=
  tape.level [.lParen, .lBrack, .lBrace] [.rParen, .rBrack, .rBrace] front place

/-- The number of open braces. -/
def braces (tape : Tape P) (front place : Nat) : Nat :=
  tape.level [.lBrace] [.rBrace] front place

@[simp] theorem depth_self (tape : Tape P) (front : Nat) : tape.depth front front = 0 :=
  level_self tape _ _ front

@[simp] theorem braces_self (tape : Tape P) (front : Nat) : tape.braces front front = 0 :=
  level_self tape _ _ front

theorem depth_succ (le : front ≤ place) :
    tape.depth front (place + 1)
      = Cursor.bracketDepth (tape.depth front place) (tape.tokenAt place) := by
  rw [depth, level_succ _ _ le]
  cases tape.tokenAt place <;> rfl

theorem braces_succ (le : front ≤ place) :
    tape.braces front (place + 1)
      = Cursor.braceDepth (tape.braces front place) (tape.tokenAt place) := by
  rw [braces, level_succ _ _ le]
  cases tape.tokenAt place <;> rfl

/-! ## Brackets of one kind -/

/-- A bracket is closed by another one of its kind. Between them no bracket of the kind closes what has not
been opened there, and all are closed. -/
structure Matches (tape : Tape P) (opener closer : Token) (place stop : Nat) : Prop where
  lt : place < stop
  opens : tape.tokenAt place = opener
  closes : tape.tokenAt stop = closer
  inside : ∀ middle, place < middle -> middle ≤ stop ->
    (tape.span (place + 1) middle).count closer ≤ (tape.span (place + 1) middle).count opener
  even : (tape.span (place + 1) stop).count closer = (tape.span (place + 1) stop).count opener

theorem Matches.not_lt
    {other : Nat}
    (isMatch : tape.Matches opener closer place stop)
    (isOther : tape.Matches opener closer place other)
    (distinct : opener ≠ closer) :
    ¬ stop < other := by
  intro lt
  have inside := isOther.inside (stop + 1) (Nat.lt_succ_of_lt isMatch.lt) lt
  have none : [closer].count opener = 0 := by simp [distinct.symm]
  rw [span_succ tape isMatch.lt, List.count_append, List.count_append, isMatch.even, isMatch.closes,
    List.count_singleton_self, none] at inside
  exact Nat.not_succ_le_self _ inside

/-- A bracket is closed by one bracket only. -/
theorem Matches.stop_eq
    {other : Nat}
    (isMatch : tape.Matches opener closer place stop)
    (isOther : tape.Matches opener closer place other)
    (distinct : opener ≠ closer) :
    other = stop :=
  Nat.le_antisymm (Nat.le_of_not_lt (isMatch.not_lt isOther distinct))
    (Nat.le_of_not_lt (isOther.not_lt isMatch distinct))

/-- As long as no bracket closes nothing, the count changes by what is opened less what is closed. -/
theorem level_add_count
    (distinct : opener ≠ closer)
    (behind : front ≤ place)
    (le : place ≤ stop)
    (closes : ∀ middle, place ≤ middle -> middle < stop -> tape.tokenAt middle = closer ->
      0 < tape.level [opener] [closer] front middle) :
    tape.level [opener] [closer] front stop + (tape.span place stop).count closer
      = tape.level [opener] [closer] front place + (tape.span place stop).count opener := by
  induction stop, le using Nat.le_induction with
  | base => simp
  | succ stop le inductionHypothesis =>
      have before := inductionHypothesis fun middle after upTo =>
        closes middle after (Nat.lt_succ_of_lt upTo)
      have step := tally_add_count distinct (closes stop le (Nat.lt_succ_self stop))
      rw [level_succ _ _ (Nat.le_trans behind le), span_succ tape le, List.count_append,
        List.count_append]
      omega

/-- Below each level of the count there is a bracket that has opened that level and is not closed since. -/
theorem exists_opener
    {level : Nat}
    (le : front ≤ stop)
    (below : level < tape.level [opener] [closer] front stop) :
    ∃ place, front ≤ place ∧ place < stop ∧ tape.tokenAt place = opener
      ∧ tape.level [opener] [closer] front place = level
      ∧ ∀ middle, place < middle -> middle ≤ stop ->
        level < tape.level [opener] [closer] front middle := by
  -- on the position: while the count stays above a level, the same bracket keeps it open
  induction stop, le using Nat.le_induction with
  | base => simp at below
  | succ stop le inductionHypothesis =>
      by_cases earlier : level < tape.level [opener] [closer] front stop
      · obtain ⟨place, behind, lt, opens, atLevel, above⟩ := inductionHypothesis earlier
        refine ⟨place, behind, Nat.lt_succ_of_lt lt, opens, atLevel, fun middle after upTo => ?_⟩
        rcases Nat.lt_or_eq_of_le upTo with inside | rfl
        · exact above middle after (Nat.le_of_lt_succ inside)
        · exact below
      · -- the level is opened right here
        have step : tape.level [opener] [closer] front (stop + 1)
            = tally [opener] [closer] (tape.level [opener] [closer] front stop) (tape.tokenAt stop) :=
          level_succ _ _ le
        have atMost : tally [opener] [closer] (tape.level [opener] [closer] front stop)
            (tape.tokenAt stop) ≤ tape.level [opener] [closer] front stop + 1 := tally_le_succ _ _
        have opens : tape.level [opener] [closer] front stop
            < tally [opener] [closer] (tape.level [opener] [closer] front stop) (tape.tokenAt stop) := by
          omega
        refine ⟨stop, le, Nat.lt_succ_self stop, eq_opener_of_lt_tally opens, by omega,
          fun middle after upTo => ?_⟩
        obtain rfl : middle = stop + 1 := by omega
        exact below

/-- Where a bracket is open, a closing one closes one that stands in front. -/
theorem exists_matches
    (distinct : opener ≠ closer)
    (le : front ≤ stop)
    (isOpen : 0 < tape.level [opener] [closer] front stop)
    (closes : tape.tokenAt stop = closer) :
    ∃ place, front ≤ place ∧ tape.Matches opener closer place stop := by
  obtain ⟨place, behind, lt, opens, atLevel, above⟩ :=
    exists_opener le (Nat.sub_lt isOpen Nat.one_pos)
  have opened : tape.level [opener] [closer] front (place + 1)
      = tape.level [opener] [closer] front stop := by
    rw [level_succ _ _ behind, opens, atLevel]
    simp [tally]
    omega
  have balance {middle : Nat} (after : place < middle) (upTo : middle ≤ stop) :
      tape.level [opener] [closer] front middle + (tape.span (place + 1) middle).count closer
        = tape.level [opener] [closer] front stop + (tape.span (place + 1) middle).count opener := by
    rw [← opened]
    refine level_add_count distinct (Nat.le_succ_of_le behind) after fun inner later below _ => ?_
    exact Nat.zero_lt_of_lt (above inner later (Nat.le_of_lt (Nat.lt_of_lt_of_le below upTo)))
  refine ⟨place, behind, lt, opens, closes, fun middle after upTo => ?_, ?_⟩
  · have atMiddle := balance after upTo
    have stillOpen := above middle after upTo
    omega
  · exact Nat.add_left_cancel (balance lt (Nat.le_refl stop))

/-- Where nothing has been opened no bracket is open. -/
theorem level_eq_zero
    (le : front ≤ place)
    (unopened : Unmet (fun middle => tape.tokenAt middle = opener) front place) :
    tape.level [opener] [closer] front place = 0 := by
  by_contra isOpen
  obtain ⟨middle, behind, lt, opens, -⟩ := exists_opener le (Nat.pos_of_ne_zero isOpen)
  exact unopened middle behind lt opens

/-- Behind a bracket that opens the first level, that level stays open up to the bracket that matches. -/
theorem Matches.level_eq
    (isMatch : tape.Matches opener closer place stop)
    (distinct : opener ≠ closer)
    (le : front ≤ place)
    (closed : tape.level [opener] [closer] front place = 0)
    {middle : Nat}
    (after : place + 1 ≤ middle)
    (upTo : middle ≤ stop) :
    tape.level [opener] [closer] front middle + (tape.span (place + 1) middle).count closer
      = 1 + (tape.span (place + 1) middle).count opener := by
  have opened : tape.level [opener] [closer] front (place + 1) = 1 := by
    rw [level_succ _ _ le, isMatch.opens, closed]
    simp [tally]
  induction middle, after using Nat.le_induction with
  | base => simpa using opened
  | succ middle after inductionHypothesis =>
      have before := inductionHypothesis (Nat.le_of_succ_le upTo)
      have inside := isMatch.inside middle after (Nat.le_of_succ_le upTo)
      have isOpen : 0 < tape.level [opener] [closer] front middle := by omega
      have step : tally [opener] [closer] (tape.level [opener] [closer] front middle)
            (tape.tokenAt middle) + [tape.tokenAt middle].count closer
          = tape.level [opener] [closer] front middle + [tape.tokenAt middle].count opener :=
        tally_add_count distinct fun _ => isOpen
      rw [level_succ _ _ (Nat.le_trans le (Nat.le_of_lt after)), span_succ tape after,
        List.count_append, List.count_append]
      omega

end Tape
end GoFront
