import GoFront.Proofs.Scans.Tapes

/-!
# What the lookahead scans compute

One scan looks for needles in their order, up to a terminator. Brackets keep it from taking a token for the
terminator, braces keep it from taking one for a needle. The other scan looks for the bracket that closes the
next one of its kind, and at the token behind it. Both are told by positions on a tape. Reading a tape by
positions, with every read checked, gives the same answers.
-/

namespace GoFront

variable {P : Type}

open Brackets

namespace Cursor

theorem closesBefore_cons
    {opener closer : Token}
    (followers : List Token)
    (depth : Nat)
    (distinct : opener ≠ closer)
    (lexeme : Lexeme P)
    (rest : List (Lexeme P)) :
    closesBefore opener closer followers depth (lexeme :: rest)
      = if lexeme.token = closer ∧ depth ≤ 1 then
          followers.contains ((rest.head?.map Lexeme.token).getD .eof)
        else closesBefore opener closer followers (tally [opener] [closer] depth lexeme.token) rest := by
  rw [closesBefore]
  by_cases isOpener : lexeme.token = opener
  · simp [isOpener, distinct, tally]
  · by_cases isCloser : lexeme.token = closer
    · simp [isCloser, distinct.symm, tally]
    · simp [isOpener, isCloser, tally]

/-- Whether a token in `followers` comes right behind the bracket that closes the next one of its kind. -/
def closerFollowedBy
    (cursor : Cursor P)
    (opener closer : Token)
    (followers : List Token) : Bool :=
  closesBefore opener closer followers 0 cursor.ahead

/-- The grammar asks for square brackets. -/
example (cursor : Cursor P) (followers : List Token) :
    cursor.brackFollowedBy followers = cursor.closerFollowedBy .lBrack .rBrack followers := rfl

end Cursor

namespace Tape

variable {tape : Tape P} {position place : Nat}

/-! ## Checked scans -/

/-- Looks for needles from a position on, inside a number of open brackets and of open braces. There is no
answer if a lexeme behind the last one is read. -/
def seek?
    (tape : Tape P)
    (terminator : Token)
    (needles : List Token)
    (depth braces position : Nat) : Option Bool :=
  match needles with
  | [] => some true
  | needle :: others =>
      match found : tape.lexemes[position]? with
      | none => none
      | some lexeme =>
          if lexeme.token = .eof || lexeme.token = terminator && depth = 0 then some false
          else
            let remaining :=
              if lexeme.token = needle && braces = 0 then others else needle :: others
            tape.seek? terminator remaining (Cursor.bracketDepth depth lexeme.token)
              (Cursor.braceDepth braces lexeme.token) (position + 1)
termination_by tape.lexemes.length - position
decreasing_by
  have inRange := (List.getElem?_eq_some_iff.1 found).1
  omega

/-- Looks for the bracket that closes the next one of its kind, from a position on that stands inside a number
of open ones, and tells whether a token in `followers` comes behind it. There is no answer if a lexeme behind
the last one is read. -/
def seekCloser?
    (tape : Tape P)
    (opener closer : Token)
    (followers : List Token)
    (depth position : Nat) : Option Bool :=
  match found : tape.lexemes[position]? with
  | none => none
  | some lexeme =>
      if lexeme.token = .eof then some false
      else if lexeme.token = opener then
        tape.seekCloser? opener closer followers (depth + 1) (position + 1)
      else if lexeme.token = closer then
        if depth ≤ 1 then
          tape.lexemes[position + 1]?.map fun next => followers.contains next.token
        else tape.seekCloser? opener closer followers (depth - 1) (position + 1)
      else tape.seekCloser? opener closer followers depth (position + 1)
termination_by tape.lexemes.length - position
decreasing_by
  all_goals
    have inRange := (List.getElem?_eq_some_iff.1 found).1
    omega

theorem seek?_cons
    {lexeme : Lexeme P}
    (terminator needle : Token)
    (others : List Token)
    (depth braces : Nat)
    (found : tape.lexemes[position]? = some lexeme) :
    tape.seek? terminator (needle :: others) depth braces position
      = if lexeme.token = .eof || lexeme.token = terminator && depth = 0 then some false
        else tape.seek? terminator
          (if lexeme.token = needle && braces = 0 then others else needle :: others)
          (Cursor.bracketDepth depth lexeme.token) (Cursor.braceDepth braces lexeme.token)
          (position + 1) := by
  rw [seek?]
  split
  · next missing => cases found.symm.trans missing
  · next same =>
      obtain rfl := Option.some.inj (found.symm.trans same)
      rfl

theorem seekCloser?_of_found
    {lexeme : Lexeme P}
    (opener closer : Token)
    (followers : List Token)
    (depth : Nat)
    (found : tape.lexemes[position]? = some lexeme) :
    tape.seekCloser? opener closer followers depth position
      = if lexeme.token = .eof then some false
        else if lexeme.token = opener then
          tape.seekCloser? opener closer followers (depth + 1) (position + 1)
        else if lexeme.token = closer then
          if depth ≤ 1 then
            tape.lexemes[position + 1]?.map fun next => followers.contains next.token
          else tape.seekCloser? opener closer followers (depth - 1) (position + 1)
        else tape.seekCloser? opener closer followers depth (position + 1) := by
  rw [seekCloser?]
  split
  · next missing => cases found.symm.trans missing
  · next same =>
      obtain rfl := Option.some.inj (found.symm.trans same)
      rfl

/-- Reading by positions finds the needles that the cursor finds. -/
theorem seek?_eq
    (terminator : Token)
    (needles : List Token)
    (depth braces : Nat)
    (inRange : position < tape.lexemes.length) :
    tape.seek? terminator needles depth braces position
      = some (Cursor.occurIn terminator needles depth braces (tape.cursorAt position).ahead) := by
  generalize aheadEq : (tape.cursorAt position).ahead = lexemes
  induction lexemes generalizing position needles depth braces with
  | nil =>
      cases needles with
      | nil => rw [seek?, Cursor.occurIn]
      | cons needle others =>
          have found := List.getElem?_eq_getElem inRange
          have isEnd := (token_of_getElem? found).trans (tokenAt_of_ahead_nil aheadEq)
          rw [seek?_cons _ _ _ _ _ found, isEnd, Cursor.occurIn]
          rfl
  | cons lexeme rest inductionHypothesis =>
      cases needles with
      | nil => rw [seek?, Cursor.occurIn]
      | cons needle others =>
          obtain ⟨more, found, restEq⟩ := of_ahead_cons aheadEq
          have notEnd : lexeme.token ≠ .eof := token_of_getElem? found ▸ more
          rw [seek?_cons _ _ _ _ _ found, Cursor.occurIn, decide_eq_false notEnd, Bool.false_or]
          split
          · rfl
          · exact inductionHypothesis _ _ _ (succ_lt_length more) restEq

/-- Reading by positions finds the closing bracket that the cursor finds. -/
theorem seekCloser?_eq
    (opener closer : Token)
    (followers : List Token)
    (depth : Nat)
    (inRange : position < tape.lexemes.length) :
    tape.seekCloser? opener closer followers depth position
      = some (Cursor.closesBefore opener closer followers depth (tape.cursorAt position).ahead) := by
  generalize aheadEq : (tape.cursorAt position).ahead = lexemes
  induction lexemes generalizing position depth with
  | nil =>
      have found := List.getElem?_eq_getElem inRange
      have isEnd := (token_of_getElem? found).trans (tokenAt_of_ahead_nil aheadEq)
      rw [seekCloser?_of_found _ _ _ _ found, if_pos isEnd, Cursor.closesBefore]
  | cons lexeme rest inductionHypothesis =>
      obtain ⟨more, found, restEq⟩ := of_ahead_cons aheadEq
      have notEnd : lexeme.token ≠ .eof := token_of_getElem? found ▸ more
      have next := succ_lt_length more
      rw [seekCloser?_of_found _ _ _ _ found, if_neg notEnd, Cursor.closesBefore]
      split
      · exact inductionHypothesis _ next restEq
      · split
        · split
          · rw [List.getElem?_eq_getElem next, ← restEq, token_head_ahead,
              ← token_of_getElem? (List.getElem?_eq_getElem next)]
            rfl
          · exact inductionHypothesis _ next restEq
        · exact inductionHypothesis _ next restEq

/-! ## Needles -/

/-- A token ends the search for needles: it is the terminator and stands outside brackets. -/
def Terminates (tape : Tape P) (terminator : Token) (position place : Nat) : Prop :=
  tape.tokenAt place = terminator ∧ tape.depth position place = 0

/-- A token can be taken for a needle: it stands in front of the end of the input, outside braces, and no
token up to it ends the search. -/
structure Admits (tape : Tape P) (terminator : Token) (position place : Nat) : Prop where
  behind : position ≤ place
  inFront : place + 1 < tape.lexemes.length
  outside : tape.braces position place = 0
  goesOn : Unmet (tape.Terminates terminator position) position (place + 1)

/-- Needles occur from a position on: at increasing places that admit them. -/
def OccurFrom (tape : Tape P) (admits : Nat -> Prop) (needles : List Token) (place : Nat) : Prop :=
  ∃ places : List Nat, places.Pairwise (· < ·) ∧ places.map tape.tokenAt = needles
    ∧ ∀ middle ∈ places, place ≤ middle ∧ admits middle

namespace OccurFrom

variable {admits : Nat -> Prop} {needle : Token} {needles : List Token}

theorem nil (tape : Tape P) (admits : Nat -> Prop) (place : Nat) : tape.OccurFrom admits [] place :=
  ⟨[], .nil, rfl, nofun⟩

/-- The first needle occurs at some place, the others behind it. -/
theorem cons_iff :
    tape.OccurFrom admits (needle :: needles) place ↔
      ∃ middle, place ≤ middle ∧ admits middle ∧ tape.tokenAt middle = needle
        ∧ tape.OccurFrom admits needles (middle + 1) := by
  constructor
  · rintro ⟨places, increasing, tokensEq, admitted⟩
    obtain ⟨middle, others, rfl, isNeedle, othersEq⟩ := List.map_eq_cons_iff.1 tokensEq
    obtain ⟨before, increasing⟩ := List.pairwise_cons.1 increasing
    obtain ⟨behind, isAdmitted⟩ := admitted middle List.mem_cons_self
    exact ⟨middle, behind, isAdmitted, isNeedle, others, increasing, othersEq, fun other isOther =>
      ⟨before other isOther, (admitted other (List.mem_cons_of_mem middle isOther)).2⟩⟩
  · rintro ⟨middle, behind, isAdmitted, isNeedle, others, increasing, othersEq, admitted⟩
    refine ⟨middle :: others, List.pairwise_cons.2 ⟨fun other isOther => (admitted other isOther).1,
      increasing⟩, by rw [List.map_cons, isNeedle, othersEq], fun other isOther => ?_⟩
    rcases List.mem_cons.1 isOther with rfl | isOther
    · exact ⟨behind, isAdmitted⟩
    · exact ⟨Nat.le_trans behind (Nat.le_of_lt (admitted other isOther).1), (admitted other isOther).2⟩

theorem mono
    {earlier : Nat}
    (occur : tape.OccurFrom admits needles place)
    (le : earlier ≤ place) :
    tape.OccurFrom admits needles earlier := by
  obtain ⟨places, increasing, tokensEq, admitted⟩ := occur
  exact ⟨places, increasing, tokensEq, fun middle isPlace =>
    ⟨Nat.le_trans le (admitted middle isPlace).1, (admitted middle isPlace).2⟩⟩

/-- A needle is taken where it first can be. -/
theorem take_iff
    (isAdmitted : admits place)
    (isNeedle : tape.tokenAt place = needle) :
    tape.OccurFrom admits (needle :: needles) place ↔ tape.OccurFrom admits needles (place + 1) := by
  rw [cons_iff]
  constructor
  · rintro ⟨middle, behind, -, -, others⟩
    exact others.mono (Nat.succ_le_succ behind)
  · exact fun others => ⟨place, Nat.le_refl place, isAdmitted, isNeedle, others⟩

/-- A place that does not admit the next needle is passed. -/
theorem pass_iff (refused : ¬ (admits place ∧ tape.tokenAt place = needle)) :
    tape.OccurFrom admits (needle :: needles) place
      ↔ tape.OccurFrom admits (needle :: needles) (place + 1) := by
  refine ⟨fun occur => ?_, fun occur => occur.mono (Nat.le_succ place)⟩
  obtain ⟨middle, behind, isAdmitted, isNeedle, others⟩ := cons_iff.1 occur
  refine cons_iff.2 ⟨middle, Nat.lt_of_le_of_ne behind ?_, isAdmitted, isNeedle, others⟩
  rintro rfl
  exact refused ⟨isAdmitted, isNeedle⟩

end OccurFrom

/-- If no token ends the search up to a position, the scan that goes on from there with the counts of that
position finds the needles that are left if they occur from there on. -/
theorem occurIn_iff
    (terminator : Token)
    (endsOnce : tape.EndsOnce)
    (needles : List Token)
    (le : position ≤ place)
    (goesOn : Unmet (tape.Terminates terminator position) position place) :
    Cursor.occurIn terminator needles (tape.depth position place) (tape.braces position place)
        (tape.cursorAt place).ahead = true
      ↔ tape.OccurFrom (tape.Admits terminator position) needles place := by
  -- on what lies ahead: a lexeme takes the next needle exactly where its place admits it
  generalize aheadEq : (tape.cursorAt place).ahead = lexemes
  induction lexemes generalizing needles place with
  | nil =>
      cases needles with
      | nil => simp [Cursor.occurIn, OccurFrom.nil]
      | cons needle needles =>
          rw [Cursor.occurIn, OccurFrom.cons_iff]
          refine iff_of_false Bool.false_ne_true ?_
          rintro ⟨middle, behind, isAdmitted, -⟩
          have inFront := isAdmitted.inFront
          exact endsOnce.tokenAt_ne (by omega) (tokenAt_of_ahead_nil aheadEq)
  | cons lexeme rest inductionHypothesis =>
      cases needles with
      | nil => simp [Cursor.occurIn, OccurFrom.nil]
      | cons needle needles =>
          obtain ⟨more, found, restEq⟩ := of_ahead_cons aheadEq
          rw [Cursor.occurIn, token_of_getElem? found]
          by_cases terminates : tape.Terminates terminator position place
          · rw [terminates.1, terminates.2, OccurFrom.cons_iff]
            refine iff_of_false (by simp) ?_
            rintro ⟨middle, behind, isAdmitted, -⟩
            exact isAdmitted.goesOn place le (Nat.lt_succ_of_le behind) terminates
          · have goesOn := goesOn.succ terminates
            have step (remaining : List Token) :=
              inductionHypothesis remaining (Nat.le_succ_of_le le) goesOn restEq
            rw [if_neg (by simpa [Terminates] using terminates), ← depth_succ le, ← braces_succ le,
              step]
            by_cases taken : tape.tokenAt place = needle ∧ tape.braces position place = 0
            · have isAdmitted : tape.Admits terminator position place :=
                ⟨le, succ_lt_length more, taken.2, goesOn⟩
              rw [if_pos (by simpa using taken), OccurFrom.take_iff isAdmitted taken.1]
            · rw [if_neg (by simpa using taken)]
              exact (OccurFrom.pass_iff fun ⟨isAdmitted, isNeedle⟩ =>
                taken ⟨isNeedle, isAdmitted.outside⟩).symm

/-! ## Closing brackets -/

/-- A bracket closes the outermost one of its kind, or nothing. -/
def ClosesOutermost (tape : Tape P) (opener closer : Token) (position place : Nat) : Prop :=
  tape.tokenAt place = closer ∧ tape.level [opener] [closer] position place ≤ 1

/-- The scan ends at the first bracket that closes the outermost one, and tells what comes behind it. -/
theorem closesBefore_eq
    {opener closer : Token}
    {stop : Nat}
    (followers : List Token)
    (distinct : opener ≠ closer)
    (le : position ≤ place)
    (inFront : place ≤ stop)
    (more : ∀ middle ≤ stop, tape.tokenAt middle ≠ .eof)
    (closes : tape.ClosesOutermost opener closer position stop)
    (nested : Unmet (tape.ClosesOutermost opener closer position) place stop) :
    Cursor.closesBefore opener closer followers (tape.level [opener] [closer] position place)
        (tape.cursorAt place).ahead
      = followers.contains (tape.tokenAt (stop + 1)) := by
  generalize aheadEq : (tape.cursorAt place).ahead = lexemes
  induction lexemes generalizing place with
  | nil => exact absurd (tokenAt_of_ahead_nil aheadEq) (more place inFront)
  | cons lexeme rest inductionHypothesis =>
      obtain ⟨-, found, restEq⟩ := of_ahead_cons aheadEq
      rw [Cursor.closesBefore_cons _ _ distinct, token_of_getElem? found, ← level_succ _ _ le]
      rcases Nat.lt_or_eq_of_le inFront with earlier | rfl
      · have goesOn : ¬ (tape.tokenAt place = closer ∧ tape.level [opener] [closer] position place ≤ 1) :=
          nested place (Nat.le_refl place) earlier
        rw [if_neg goesOn]
        exact inductionHypothesis (Nat.le_succ_of_le le) earlier nested.tail restEq
      · rw [if_pos ⟨closes.1, closes.2⟩, ← restEq, token_head_ahead]

/-- If the first bracket of a kind is matched, its match is the first one that closes the outermost. -/
theorem Matches.isLeast
    {opener closer : Token}
    {first stop : Nat}
    (isMatch : tape.Matches opener closer first stop)
    (distinct : opener ≠ closer)
    (isFirst : IsLeast
      {place | position ≤ place ∧ (tape.tokenAt place = opener ∨ tape.tokenAt place = closer)} first) :
    IsLeast {place | position ≤ place ∧ tape.ClosesOutermost opener closer position place} stop := by
  have behind : position ≤ first := isFirst.1.1
  have unseen := unmet_of_isLeast isFirst
  have closed : tape.level [opener] [closer] position first = 0 :=
    level_eq_zero behind fun place le lt opens => unseen place le lt (.inl opens)
  refine Unmet.isLeast (fun place le lt closes => ?_) (Nat.le_trans behind (Nat.le_of_lt isMatch.lt))
    ⟨isMatch.closes, ?_⟩
  · have later : first < place := by
      rcases Nat.lt_trichotomy place first with earlier | rfl | later
      · exact absurd (.inr closes.1) (unseen place le earlier)
      · exact absurd (isMatch.opens.symm.trans closes.1) distinct
      · exact later
    -- the outermost bracket is still open behind this one
    have next := isMatch.level_eq distinct behind closed (Nat.lt_succ_of_lt later) lt
    have inside := isMatch.inside (place + 1) (Nat.lt_succ_of_lt later) lt
    have atMost := closes.2
    rw [Nat.succ_eq_add_one, level_succ _ _ le, closes.1, tally_closer _ distinct] at next
    omega
  · have atStop := isMatch.level_eq distinct behind closed isMatch.lt (Nat.le_refl stop)
    have even := isMatch.even
    omega

/-- If the first bracket of a kind opens and is matched, the scan tells what comes behind the match. -/
theorem closesBefore_of_matches
    {opener closer : Token}
    {first stop : Nat}
    (followers : List Token)
    (endsOnce : tape.EndsOnce)
    (isKind : closer? opener = some closer)
    (isFirst : IsLeast
      {place | position ≤ place ∧ (tape.tokenAt place = opener ∨ tape.tokenAt place = closer)} first)
    (isMatch : tape.Matches opener closer first stop) :
    Cursor.closesBefore opener closer followers 0 (tape.cursorAt position).ahead
      = followers.contains (tape.tokenAt (stop + 1)) := by
  have distinct : opener ≠ closer ∧ closer ≠ .eof := by
    revert isKind
    cases opener <;> simp +contextual [closer?, eq_comm]
  have isStop := isMatch.isLeast distinct.1 isFirst
  have more (place : Nat) (le : place ≤ stop) : tape.tokenAt place ≠ .eof := by
    have notEnd : tape.tokenAt stop ≠ .eof := isMatch.closes ▸ distinct.2
    have inRange := succ_lt_length notEnd
    exact endsOnce.tokenAt_ne (by omega)
  have ends := closesBefore_eq followers distinct.1 (Nat.le_refl position) isStop.1.1 more isStop.1.2
    (unmet_of_isLeast isStop)
  rwa [level_self] at ends

/-! ## Both scans -/

/-- What the scans tell, at any position of a tape that ends once. The first tells whether the needles occur
in their order where they are admitted. The second tells for each kind of brackets, if the first bracket of
the kind opens and is matched, whether a follower comes behind the match. Neither reads behind the last lexeme
or moves the cursor. -/
theorem lookahead_exact
    (tape : Tape P)
    (endsOnce : tape.EndsOnce)
    {position : Nat}
    (inRange : position < tape.lexemes.length) :
    (∀ terminator needles,
      ((tape.cursorAt position).occurBefore terminator needles = true ↔
        ∃ places : List Nat, places.Pairwise (· < ·) ∧ places.map tape.tokenAt = needles
          ∧ ∀ place ∈ places, tape.Admits terminator position place)
      ∧ tape.seek? terminator needles 0 0 position
          = some ((tape.cursorAt position).occurBefore terminator needles))
    ∧ (∀ opener closer followers, closer? opener = some closer ->
      (∀ first stop,
        IsLeast {place | position ≤ place
          ∧ (tape.tokenAt place = opener ∨ tape.tokenAt place = closer)} first ->
        tape.Matches opener closer first stop ->
          ((tape.cursorAt position).closerFollowedBy opener closer followers = true
            ↔ tape.tokenAt (stop + 1) ∈ followers))
      ∧ tape.seekCloser? opener closer followers 0 position
          = some ((tape.cursorAt position).closerFollowedBy opener closer followers))
    ∧ ∀ (machine : Machine P) (state : ReadState P) terminator needles opener closer followers,
      state.cursor = tape.cursorAt position ->
        machine.run (.bind .look fun cursor => .pure (cursor.occurBefore terminator needles,
            cursor.closerFollowedBy opener closer followers)) state
          = .done ((tape.cursorAt position).occurBefore terminator needles,
            (tape.cursorAt position).closerFollowedBy opener closer followers) state := by
  refine ⟨fun terminator needles => ⟨?_, seek?_eq terminator needles 0 0 inRange⟩,
    fun opener closer followers isKind => ⟨fun first stop isFirst isMatch => ?_,
      seekCloser?_eq opener closer followers 0 inRange⟩,
    fun machine state _ _ _ _ _ stands => by rw [← stands]; rfl⟩
  · have found := occurIn_iff terminator endsOnce needles (Nat.le_refl position)
      (.self _ _)
    rw [depth_self, braces_self] at found
    rw [Cursor.occurBefore, found, OccurFrom]
    simp only [and_iff_right_of_imp Admits.behind]
  · rw [Cursor.closerFollowedBy, closesBefore_of_matches followers endsOnce isKind isFirst isMatch,
      List.contains_iff_mem]

/-- A semicolon between braces is not taken for a needle, nor an opening brace between brackets for the
terminator. A bracket that closes nothing does not matter. -/
theorem lookahead_exact_unbalanced :
    let tape := ofTokens
      [.rBrack, .ident, .lBrack, .ident, .lBrace, .semi, .rBrace, .rBrack, .semi, .lBrace]
    (tape.EndsOnce ∧ 0 < tape.lexemes.length)
      ∧ ((tape.cursorAt 0).occurBefore .lBrace [.semi] = true ↔
        ∃ places : List Nat, places.Pairwise (· < ·) ∧ places.map tape.tokenAt = [.semi]
          ∧ ∀ place ∈ places, tape.Admits .lBrace 0 place)
      ∧ (closer? .lBrace = some .rBrace
        ∧ IsLeast {place | 0 ≤ place ∧ (tape.tokenAt place = .lBrace ∨ tape.tokenAt place = .rBrace)} 4
        ∧ tape.Matches .lBrace .rBrace 4 6)
      ∧ ((tape.cursorAt 0).closerFollowedBy .lBrace .rBrace [.rBrack] = true
        ↔ tape.tokenAt 7 ∈ [Token.rBrack]) := by
  intro tape
  have endsOnce : tape.EndsOnce := by decide
  have inRange : 0 < tape.lexemes.length := by decide
  have isFirst : IsLeast
      {place | 0 ≤ place ∧ (tape.tokenAt place = .lBrace ∨ tape.tokenAt place = .rBrace)} 4 := by
    refine ⟨by decide, fun place isBrace => Nat.le_of_not_lt fun lt => ?_⟩
    have none : ∀ place < 4, ¬ (tape.tokenAt place = .lBrace ∨ tape.tokenAt place = .rBrace) := by
      decide
    exact none place lt isBrace.2
  have isMatch : tape.Matches .lBrace .rBrace 4 6 := by
    refine ⟨by decide, by decide, by decide, fun middle lt le => ?_, by decide⟩
    obtain rfl | rfl : middle = 5 ∨ middle = 6 := by omega
    · decide
    · decide
  exact ⟨⟨endsOnce, inRange⟩, ((lookahead_exact tape endsOnce inRange).1 .lBrace [.semi]).1,
    ⟨rfl, isFirst, isMatch⟩,
    ((lookahead_exact tape endsOnce inRange).2.1 .lBrace .rBrace [.rBrack] rfl).1 4 6 isFirst isMatch⟩

end Tape
end GoFront
