import GoFront.Proofs.Thinning.Rules

/-!
# Separators and lists in thinned texts

A separator that was left out is read in one of two places: where the end of a statement may be missing, and
where a comma tells whether another item follows. Behind it a closing bracket comes next, at which no item
begins.
-/

namespace GoFront

open Production (Parses Itemizes nextItem collectStep)

variable {P : Type} {α β : Type}

namespace CleanRun

variable {machine : Machine P} {production : Production P α} {state final : ReadState P} {value : α}
  {taken : List (Lexeme P)}

theorem eq_moveTo (cleanRun : CleanRun machine production state value final taken) :
    final = state.moveTo final.cursor :=
  cleanRun.reaches.eq_moveTo cleanRun.clean

/-- A phrase that would have been recovered from did not fail. -/
theorem of_recovering
    {recovery : Recovery}
    {found : Option α}
    (cleanRun : CleanRun machine (.recovering recovery production) state found final taken) :
    ∃ value, found = some value ∧ CleanRun machine production state value final taken := by
  obtain ⟨regular, run, reaches, clean⟩ := cleanRun
  obtain ⟨value, rfl, bodyRun⟩ | ⟨stopped, rfl, bodyRun, rfl⟩ := Machine.exists_of_run_recovering run
  · exact ⟨value, rfl, regular, bodyRun, reaches, clean⟩
  · obtain ⟨_, _, more⟩ := machine.reaches_of_gaveUp bodyRun
    exact absurd (congrArg List.length clean) (Nat.ne_of_gt more)

/-- A repetition begins with one step. -/
theorem Iterated.exists_first
    {step : α -> Production P (Option α)}
    {start result : α}
    (iterated : Iterated machine step start state result final taken) :
    ∃ next middle front, CleanRun machine (step start) state next middle front := by
  cases iterated with
  | stop last => exact ⟨_, _, _, last⟩
  | more first => exact ⟨_, _, _, first⟩

end CleanRun

theorem Production.parses_recovering
    {limit : Nat}
    {recovery : Recovery}
    {production : Production P α}
    {state : ReadState P}
    {value : α}
    {final : Cursor P}
    (parses : Parses limit production state value final) :
    Parses limit (.recovering recovery production) state (some value) final := by
  obtain ⟨allowance, run⟩ := parses
  exact ⟨allowance, by rw [Machine.run_recovering, run]⟩

variable {thinning : Thinning P} {allowance : Nat} {parts : PhraseProperty P -> Prop}
  {holds : Holding P α} {contract : Contract P α} {state : ReadState P} {token closer : Token}

/-- The first step of a production is the only one that can be taken in a state, and what comes behind it is
read of the thinned text where the step leads there. -/
theorem ThinsFrom.step
    {production : Production P β}
    {next : β -> Production P α}
    {other other' : Production P α}
    {value : β}
    {middle : Cursor P}
    (only : ∀ found final, Parses thinning.limit production state found final ->
      found = value ∧ final = middle)
    (rest : ThinsFrom thinning allowance parts (next value) other contract (state.moveTo middle))
    (reads : ∀ thinned, thinning.Thinner state thinned -> ∃ cursor,
      thinning.Thinner (state.moveTo middle) (thinned.moveTo cursor)
        ∧ ∀ result last, Parses thinning.limit other (thinned.moveTo cursor) result last ->
          Parses thinning.limit other' thinned result last) :
    ThinsFrom thinning allowance parts (production.bind next) other' contract state := by
  constructor
  intro result final taken isSuffix cleanRun attested
  obtain ⟨found, last, _, _, rfl, firstRun, restRun⟩ := cleanRun.exists_of_bind
  have lastEq := firstRun.eq_moveTo
  obtain ⟨rfl, cursorEq⟩ := only _ _ firstRun.parses
  rw [cursorEq] at lastEq
  subst lastEq
  obtain ⟨resultAttested, restReads⟩ :=
    rest.of_run (firstRun.isSuffix isSuffix) restRun attested
  refine ⟨resultAttested, fun spared isEnd => ?_⟩
  obtain ⟨partsSpared, restReads⟩ := restReads spared isEnd
  refine ⟨partsSpared, fun thinned thinner => ?_⟩
  obtain ⟨cursor, behind, parses⟩ := reads thinned thinner
  obtain ⟨result', last, restParses, found⟩ := restReads _ behind
  exact ⟨result', last, parses _ _ restParses, found⟩

/-! ## Separators -/

namespace Thinning

/-- A token is a separator that was left out in front of a closing bracket. -/
structure Lost (thinning : Thinning P) (lexeme : Lexeme P) (behind : Cursor P) : Prop where
  isSuffix : lexeme :: behind.ahead <:+ thinning.text
  isLost : thinning.kept lexeme = false
  isOptional : lexeme.token.isOptionalBefore behind.token = true

namespace Lost

variable {lexeme : Lexeme P} {behind : Cursor P}

theorem isCloser (lost : thinning.Lost lexeme behind) : behind.token.isCloser = true :=
  Token.isCloser_of_isOptionalBefore lost.isOptional

theorem not_isSeparator (lost : thinning.Lost lexeme behind) : behind.token.isSeparator = false :=
  Token.isSeparator_of_isCloser lost.isCloser

theorem isPause (lost : thinning.Lost lexeme behind) : behind.token.isPause = true :=
  Token.isPause_of_isCloser lost.isCloser

end Lost

/-- What comes next in a text is nothing, a lexeme that is kept or one that was left out. -/
theorem lost_of_not_kept
    {lexeme : Lexeme P}
    {rest : List (Lexeme P)}
    (isSuffix : state.cursor.ahead <:+ thinning.text)
    (ahead : state.cursor.ahead = lexeme :: rest)
    (isLost : thinning.kept lexeme = false) :
    thinning.Lost lexeme state.cursor.advance := by
  have aheadEq : state.cursor.advance.ahead = rest := by
    rw [Cursor.ahead_advance, ahead, List.tail_cons]
  rw [ahead] at isSuffix
  obtain ⟨closer, behind, rfl, isOptional⟩ := thinning.isOptional isSuffix isLost
  exact ⟨aheadEq ▸ isSuffix, isLost, Cursor.token_of_ahead aheadEq ▸ isOptional⟩

end Thinning

namespace Thinning.Thinner

variable {thinned : ReadState P} {lexeme : Lexeme P}

/-- A separator comes next in the thinned text only if it comes next in the text. -/
theorem token_ne
    (thinner : thinning.Thinner state thinned)
    (isSeparator : token.isSeparator = true)
    (notToken : state.cursor.token ≠ token) :
    thinned.cursor.token ≠ token := by
  rcases thinner.tokens with isSame | isOptional
  · rwa [isSame]
  · rintro rfl
    have notSeparator := Token.isSeparator_of_isCloser (Token.isCloser_of_isOptionalBefore isOptional)
    exact Bool.false_ne_true (notSeparator.symm.trans isSeparator)

/-- A separator does not come next in the thinned text if it was left out. -/
theorem token_ne_of_lost
    {rest : List (Lexeme P)}
    (thinner : thinning.Thinner state thinned)
    (isSeparator : token.isSeparator = true)
    (ahead : state.cursor.ahead = lexeme :: rest)
    (isLost : thinning.kept lexeme = false) :
    thinned.cursor.token ≠ token := by
  have lost := thinning.lost_of_not_kept thinner.isSuffix ahead isLost
  refine (thinner.behind_lost ahead isLost).token_ne isSeparator ?_
  rintro rfl
  exact Bool.false_ne_true (lost.not_isSeparator.symm.trans isSeparator)

/-- Where another token comes next in the thinned text, a separator was left out. -/
theorem exists_lost
    (thinner : thinning.Thinner state thinned)
    (differs : thinned.cursor.token ≠ state.cursor.token) :
    ∃ lexeme rest, state.cursor.ahead = lexeme :: rest ∧ thinning.Lost lexeme state.cursor.advance := by
  cases thinner.next with
  | atEnd nothing noOther =>
      simp only [Cursor.token, Cursor.peek, nothing, noOther] at differs
      exact absurd rfl differs
  | kept lexeme rest _ ahead otherAhead =>
      exact absurd ((Cursor.token_of_ahead otherAhead).trans (Cursor.token_of_ahead ahead).symm) differs
  | lost lexeme closer rest isLost _ ahead otherAhead =>
      exact ⟨lexeme, _, ahead, thinning.lost_of_not_kept thinner.isSuffix ahead isLost⟩

end Thinning.Thinner

namespace ThinsFrom

/-- A token is read if it comes next. If it was left out, it is missing in the thinned text. -/
theorem eat?
    {next next' : Option (Lexeme P) -> Production P α}
    (isSeparator : token.isSeparator = true)
    (missing : ThinsFrom thinning allowance parts (next none) (next' none) contract state)
    (kept : ∀ lexeme,
      ThinsFrom thinning allowance parts (next (some lexeme)) (next' (some lexeme)) contract
        (state.moveTo state.cursor.advance))
    (lost : ∀ lexeme, lexeme.token = token -> thinning.Lost lexeme state.cursor.advance ->
      ThinsFrom thinning allowance parts (next (some lexeme)) (next' none) contract
        (state.moveTo state.cursor.advance)) :
    ThinsFrom thinning allowance parts ((Production.eat? token).bind next)
      ((Production.eat? token).bind next') contract state := by
  by_cases isSuffix : state.cursor.ahead <:+ thinning.text
  case neg => exact ⟨fun suffix => absurd suffix isSuffix⟩
  by_cases atToken : state.cursor.token = token
  case neg =>
    refine .step ?_ missing fun thinned thinner => ?_
    · intro found final parses
      rwa [Production.parses_eat?, if_neg atToken] at parses
    · refine ⟨thinned.cursor, thinner, fun result last parses => ?_⟩
      refine Production.parses_bind.2 ⟨none, thinned.cursor, ?_, parses⟩
      rw [Production.parses_eat?, if_neg (thinner.token_ne isSeparator atToken)]
      exact ⟨rfl, rfl⟩
  have notAtEnd : state.cursor.token ≠ .eof := by
    rintro atEnd
    rw [← atToken, atEnd] at isSeparator
    cases isSeparator
  obtain ⟨lexeme, rest, ahead, isToken⟩ := Cursor.exists_of_token_ne_eof notAtEnd
  have only : ∀ found final, Parses thinning.limit (Production.eat? token) state found final ->
      found = some lexeme ∧ final = state.cursor.advance := by
    intro found final parses
    rwa [Production.parses_eat?, if_pos atToken, Cursor.peek_of_ahead ahead] at parses
  cases isKept : thinning.kept lexeme with
  | true =>
      refine .step only (kept lexeme) fun thinned thinner => ?_
      refine ⟨_, thinner.behind_kept ahead isKept, fun result last parses => ?_⟩
      refine Production.parses_bind.2 ⟨_, _, ?_, parses⟩
      have thinnedAhead := thinner.ahead_of_kept ahead isKept
      rw [Production.parses_eat?, Cursor.token_of_ahead thinnedAhead, isToken, if_pos atToken,
        Cursor.peek_of_ahead thinnedAhead]
      exact ⟨rfl, rfl⟩
  | false =>
      have isLost := thinning.lost_of_not_kept isSuffix ahead isKept
      refine .step only (lost lexeme (isToken.trans atToken) isLost) fun thinned thinner => ?_
      refine ⟨thinned.cursor, thinner.behind_lost ahead isKept, fun result last parses => ?_⟩
      refine Production.parses_bind.2 ⟨none, thinned.cursor, ?_, parses⟩
      rw [Production.parses_eat?, if_neg (thinner.token_ne_of_lost isSeparator ahead isKept)]
      exact ⟨rfl, rfl⟩

/-- A token is read behind which something comes that begins with no closing bracket. -/
theorem expect
    {next next' : Lexeme P -> Production P α}
    (isSeparator : token.isSeparator = true)
    (rest : ∀ lexeme, ThinsFrom thinning allowance parts (next lexeme) (next' lexeme) contract
      (state.moveTo state.cursor.advance))
    (begins : ∀ lexeme (middle : ReadState P) value final, middle.cursor.token.isCloser = true ->
      ¬ Parses thinning.limit (next lexeme) middle value final) :
    ThinsFrom thinning allowance parts ((Production.expect token).bind next)
      ((Production.expect token).bind next') contract state := by
  by_cases isSuffix : state.cursor.ahead <:+ thinning.text
  case neg => exact ⟨fun suffix => absurd suffix isSuffix⟩
  by_cases atToken : state.cursor.token = token
  case neg =>
    refine .of_not_parses fun _ value final parses => ?_
    obtain ⟨_, _, parses, -⟩ := Production.parses_bind.1 parses
    exact atToken (Production.parses_expect.1 parses).1
  have notAtEnd : state.cursor.token ≠ .eof := by
    rintro atEnd
    rw [← atToken, atEnd] at isSeparator
    cases isSeparator
  obtain ⟨lexeme, behind, ahead, isToken⟩ := Cursor.exists_of_token_ne_eof notAtEnd
  cases isKept : thinning.kept lexeme with
  | true =>
      refine .step ?_ (rest lexeme)
        fun thinned thinner => ?_
      · intro found final parses
        obtain ⟨-, rfl, rfl⟩ := Production.parses_expect.1 parses
        exact ⟨Cursor.peek_of_ahead ahead, rfl⟩
      · refine ⟨_, thinner.behind_kept ahead isKept, fun result last parses => ?_⟩
        refine Production.parses_bind.2 ⟨_, _, Production.parses_expect.2 ?_, parses⟩
        have thinnedAhead := thinner.ahead_of_kept ahead isKept
        exact ⟨(Cursor.token_of_ahead thinnedAhead).trans (isToken.trans atToken),
          (Cursor.peek_of_ahead thinnedAhead).symm, rfl⟩
  | false =>
      refine .of_not_parses fun _ value final parses => ?_
      obtain ⟨_, _, first, parses⟩ := Production.parses_bind.1 parses
      obtain ⟨-, rfl, rfl⟩ := Production.parses_expect.1 first
      exact begins _ _ _ _ (thinning.lost_of_not_kept isSuffix ahead isKept).isCloser parses

end ThinsFrom

/-- The end of a statement may be missing where it was left out. -/
theorem Thins.semicolon : Thins thinning allowance NoParts Production.semicolon (.of .nothing) := by
  intro state
  constructor
  intro value final taken isSuffix cleanRun _
  refine ⟨trivial, fun _ _ => ⟨trivial, fun thinned thinner => ?_⟩⟩
  have finalEq := cleanRun.eq_moveTo
  have parses := Production.parses_semicolon.1 cleanRun.parses
  split at parses
  · next closes =>
      rw [parses, ReadState.moveTo_cursor] at finalEq
      have notSeparator : state.cursor.token.isSeparator = false := by
        have isCloser := List.contains_iff_mem.1 closes
        simp only [List.mem_cons, List.not_mem_nil, or_false] at isCloser
        rcases isCloser with isToken | isToken <;> rw [isToken] <;> rfl
      have thinnedCloses : thinned.cursor.atAny [.rParen, .rBrace] = true := by
        rwa [Cursor.atAny, thinner.token_eq notSeparator]
      refine ⟨(), thinned.cursor, Production.parses_semicolon.2 ?_, rfl, finalEq ▸ thinner⟩
      rw [if_pos thinnedCloses]
  · obtain ⟨atSemi, cursorEq⟩ := parses
    rw [cursorEq] at finalEq
    obtain ⟨lexeme, rest, ahead, isToken⟩ := Cursor.exists_of_token_ne_eof (atSemi.trans_ne (by decide))
    cases isKept : thinning.kept lexeme with
    | true =>
        have thinnedSemi : thinned.cursor.token = .semi :=
          (Cursor.token_of_ahead (thinner.ahead_of_kept ahead isKept)).trans (isToken.trans atSemi)
        refine ⟨(), _, Production.parses_semicolon.2 ?_, rfl,
          finalEq ▸ thinner.behind_kept ahead isKept⟩
        rw [Cursor.atAny, thinnedSemi]
        exact ⟨rfl, rfl⟩
    | false =>
        have lost := thinning.lost_of_not_kept isSuffix ahead isKept
        have behind := thinner.behind_lost ahead isKept
        have isOptional := lost.isOptional
        have sameToken : thinned.cursor.token = state.cursor.advance.token :=
          behind.token_eq lost.not_isSeparator
        rw [isToken, atSemi, ← sameToken] at isOptional
        refine ⟨(), thinned.cursor, Production.parses_semicolon.2 ?_, rfl, finalEq ▸ behind⟩
        rw [if_pos]
        rcases Token.eq_or_eq_of_semi isOptional with closes | closes <;> rw [Cursor.atAny, closes] <;> rfl

/-- A phrase is read unless a token comes next that is no separator. -/
theorem Thins.readUnless
    {stops : Cursor P -> Prop}
    [DecidablePred stops]
    {instead production : Production P α}
    (begins : Begins thinning.limit production)
    (same : ∀ {cursor other : Cursor P}, other.token = cursor.token -> (stops other ↔ stops cursor))
    (noSeparator : ∀ {cursor : Cursor P}, stops cursor -> cursor.token.isSeparator = false)
    (whenTrue : Thins thinning allowance parts instead contract)
    (whenFalse : Thins thinning allowance parts production contract) :
    Thins thinning allowance parts
      (Production.look.bind fun cursor => if stops cursor then instead else production) contract := by
  refine fun state => .look_cases (fun thinned _ sameToken => ?_) fun thinned isSeparator _ => ?_
  · exact .choice (same sameToken) (fun _ => whenTrue state) fun _ => whenFalse state
  · rw [if_neg fun isStop => Bool.false_ne_true ((noSeparator isStop).symm.trans isSeparator)]
    exact .of_begins begins (Token.isPause_of_isSeparator isSeparator)

/-! ## Loops -/

namespace Thins

section

variable {step : α -> Production P (Option α)} {start result : α} {final : ReadState P}
  {taken : List (Lexeme P)} {between : Cursor P -> Prop}

/-- A step makes its value of the value before, and the last step keeps that. -/
def Step (holds : Holding P α) (value : α) : Holding P (Option α) :=
  fun property next => holds property (next.getD value)

theorem iterated
    (steps : ∀ value, Thins thinning allowance (fun property => holds property value) (step value)
      (.upTo (Step holds value) fun next cursor => next.isSome = true -> between cursor))
    (fits : ∀ {value next middle final taken},
      CleanRun (ruleMachine thinning.limit allowance) (step value) middle next final taken ->
        between middle.cursor)
    (iterated : CleanRun.Iterated (ruleMachine thinning.limit allowance) step start state result final
      taken)
    (isSuffix : state.cursor.ahead <:+ thinning.text)
    (attested : holds thinning.attested start) :
    holds thinning.attested result
      ∧ (holds thinning.Spares result ->
        holds thinning.Spares start
          ∧ ∀ thinned, thinning.Thinner state thinned ->
            ∃ last, Production.Repeats thinning.limit step thinned start result last
              ∧ thinning.Thinner final (thinned.moveTo last)) := by
  induction iterated with
  | stop last =>
      obtain ⟨resultAttested, reads⟩ := (steps _ _).of_run isSuffix last attested
      refine ⟨resultAttested, fun spared => ?_⟩
      obtain ⟨startSpared, reads⟩ := reads spared nofun
      refine ⟨startSpared, fun thinned thinner => ?_⟩
      obtain ⟨_, cursor, parses, rfl, behind⟩ := reads thinned thinner
      exact ⟨cursor, .stop parses, behind⟩
  | more first rest inductionHypothesis =>
      obtain ⟨middleAttested, reads⟩ := (steps _ _).of_run isSuffix first attested
      obtain ⟨resultAttested, restReads⟩ := inductionHypothesis (first.isSuffix isSuffix) middleAttested
      refine ⟨resultAttested, fun spared => ?_⟩
      obtain ⟨middleSpared, restReads⟩ := restReads spared
      obtain ⟨_, _, _, nextRun⟩ := rest.exists_first
      obtain ⟨startSpared, reads⟩ := reads middleSpared fun _ => fits nextRun
      refine ⟨startSpared, fun thinned thinner => ?_⟩
      obtain ⟨_, cursor, parses, rfl, middleThinner⟩ := reads thinned thinner
      obtain ⟨last, repeats, behind⟩ := restReads _ middleThinner
      exact ⟨last, .more parses repeats, behind⟩

/-- A loop whose steps end where they should because of the step behind. -/
theorem iterate_to
    (steps : ∀ value, Thins thinning allowance (fun property => holds property value) (step value)
      (.upTo (Step holds value) fun next cursor => next.isSome = true -> between cursor))
    (fits : ∀ {value next middle final taken},
      CleanRun (ruleMachine thinning.limit allowance) (step value) middle next final taken ->
        between middle.cursor) :
    Thins thinning allowance (fun property => holds property start) (.iterate step start)
      (.of holds) := by
  intro state
  constructor
  intro result final taken isSuffix cleanRun attested
  obtain ⟨attested, reads⟩ := iterated steps fits cleanRun.iterated isSuffix attested
  refine ⟨attested, fun spared _ => ⟨(reads spared).1, fun thinned thinner => ?_⟩⟩
  obtain ⟨last, repeats, behind⟩ := (reads spared).2 thinned thinner
  exact ⟨result, last, Production.parses_iterate.2 repeats, rfl, behind⟩

theorem iterate
    (steps : ∀ value, Thins thinning allowance (fun property => holds property value) (step value)
      (.of (Step holds value))) :
    Thins thinning allowance (fun property => holds property start) (.iterate step start)
      (.of holds) := by
  have ending (value : α) : Thins thinning allowance (fun property => holds property value) (step value)
      (.upTo (Step holds value) fun next _ => next.isSome = true -> True) := (steps value).anywhere
  exact iterate_to ending fun _ => trivial

end

section

variable {step : Production P (Option α)} {item : Production P α}

/-- Items are collected until a step yields nothing. -/
theorem many (steps : Thins thinning allowance NoParts step (.of (.option holds))) :
    Thins thinning allowance NoParts (Production.many step) (.of (.list holds)) := by
  have collects (items : List α) : Thins thinning allowance
      (fun property => Holding.list holds property items) (collectStep step items)
      (.of (Step (.list holds) items)) := by
    refine .bind steps fun item => .pure fun property => ?_
    cases item <;> simp [Step, and_comm]
  have loop : Thins thinning allowance NoParts (.iterate (collectStep step) []) (.of (.list holds)) :=
    .of_parts (fun _ => by simp) (iterate collects)
  exact .bind loop fun items => .pure fun property => by simp

/-- Behind a comma another item is read, which does not begin at a closing bracket. -/
theorem some_item (items : Thins thinning allowance NoParts item (.of holds)) :
    Thins thinning allowance NoParts (item.bind fun next => .pure (some next))
      (.of (.option holds)) := by
  refine .bind items ?_
  intro _
  exact .pure fun _ => by simp

/-- One or more items with commas between them. -/
theorem commaSeparated
    (begins : Begins thinning.limit item)
    (items : Thins thinning allowance NoParts item (.of holds)) :
    Thins thinning allowance NoParts (Production.commaSeparated item) (.of (.list holds)) := by
  have rest : Thins thinning allowance NoParts (Production.behindComma item) (.of (.option holds)) := by
    intro state
    refine .eat? rfl (.pure fun _ => by simp) (fun comma => some_item items _) ?_
    intro comma _ lost
    refine .of_not_parses fun _ value final parses => ?_
    exact Bool.false_ne_true ((begins.bind parses).symm.trans lost.isPause)
  refine .bind items ?_
  intro first
  refine .bind (many rest) ?_
  intro rest
  exact .pure fun property => by simp

/-- More items behind commas, of which the last one can have been left out. -/
theorem commaTail
    (isCloser : closer.isCloser = true)
    (begins : Begins thinning.limit item)
    (items : Thins thinning allowance NoParts item (.of holds)) :
    Thins thinning allowance NoParts (Production.commaTail closer item) (.of (.list holds)) := by
  -- behind a comma no item begins at a pause, so that the closing token must come next
  have closes {comma : Lexeme P} {middle : ReadState P}
      (isPause : middle.cursor.token.isPause = true)
      {value : Option α} {final : Cursor P}
      (parses : Parses thinning.limit
        (if (some comma).isSome && middle.cursor.token ≠ closer then item.bind fun next => .pure (some next)
          else .pure none) middle value final) :
      middle.cursor.token = closer := by
    by_contra notCloser
    rw [if_pos (by simpa using notCloser)] at parses
    exact Bool.false_ne_true ((begins.bind parses).symm.trans isPause)
  refine many fun state => .eat? rfl ?_ (fun comma => ?_) fun comma _ lost => ?_
  · exact .look fun _ _ => .pure fun _ => by simp
  · refine .look fun thinned thinner => ?_
    by_cases isSeparator : (state.moveTo state.cursor.advance).cursor.token.isSeparator = true
    · refine .of_not_parses fun _ value final parses => ?_
      rw [closes (Token.isPause_of_isSeparator isSeparator) parses] at isSeparator
      exact Bool.false_ne_true ((Token.isSeparator_of_isCloser isCloser).symm.trans isSeparator)
    · rw [thinner.token_eq (Bool.eq_false_iff.2 isSeparator)]
      refine .choice .rfl (fun _ => some_item items _) ?_
      intro _
      exact .pure fun _ => by simp
  · refine .look fun thinned thinner => ?_
    by_cases atCloser : (state.moveTo state.cursor.advance).cursor.token = closer
    · rw [if_neg (by rw [decide_eq_false (not_not_intro atCloser)]; exact Bool.false_ne_true)]
      exact .pure fun _ => by simp
    · refine .of_not_parses fun _ value final parses => ?_
      exact atCloser (closes lost.isPause parses)

end

end Thins

/-! ## Items up to a closing token -/

/-- What was left out right in front of a cursor stands before the closing token. -/
def Thinning.LostBefore (thinning : Thinning P) (closer : Token) (cursor : Cursor P) : Prop :=
  ∀ lexeme rest, cursor.ahead = lexeme :: rest -> thinning.kept lexeme = false ->
    cursor.advance.token = closer

/-- What was left out right in front of a cursor makes room for the closing token. -/
theorem Thinning.Thinner.token_or_closer
    {thinned : ReadState P}
    (thinner : thinning.Thinner state thinned)
    (lostBefore : thinning.LostBefore closer state.cursor) :
    thinned.cursor.token = state.cursor.token ∨ thinned.cursor.token = closer := by
  cases thinner.next with
  | atEnd nothing noOther =>
      simp only [Cursor.token, Cursor.peek, nothing, noOther]
      exact .inl rfl
  | kept lexeme rest _ ahead otherAhead =>
      exact .inl ((Cursor.token_of_ahead otherAhead).trans (Cursor.token_of_ahead ahead).symm)
  | lost lexeme closer rest isLost _ ahead otherAhead =>
      have atCloser := lostBefore lexeme _ ahead isLost
      have advanceAhead : state.cursor.advance.ahead = closer :: rest := by
        rw [Cursor.ahead_advance, ahead, List.tail_cons]
      exact .inr ((Cursor.token_of_ahead otherAhead).trans
        ((Cursor.token_of_ahead advanceAhead).symm.trans atCloser))

/-- An item is yielded that is made of the parts. It can be the last one of the thinned text only. -/
theorem ThinsFrom.pure_item
    {value : α}
    {more more' : Bool}
    (same : ∀ property, holds property value ↔ parts property)
    (agrees : more' = more ∨ more = true ∧ more' = false ∧ state.cursor.token.isPause = true) :
    ThinsFrom thinning allowance parts (.pure (value, more)) (.pure (value, more')) (.item closer holds)
      state := by
  constructor
  intro result final taken isSuffix cleanRun attested
  obtain ⟨rfl, rfl⟩ := Outcome.done.inj cleanRun.run
  refine ⟨(same _).2 attested, fun spared isEnd => ⟨(same _).1 spared, fun thinned thinner => ?_⟩⟩
  refine ⟨(value, more'), thinned.cursor, Production.parses_pure.2 ⟨rfl, rfl⟩, ⟨rfl, ?_⟩, thinner⟩
  exact agrees.imp_right fun ⟨isMore, isLast, isPause⟩ => ⟨isMore, isLast, isEnd isPause⟩

namespace Thins

section

variable {item : Production P α}

theorem withComma
    (isCloser : closer.isCloser = true)
    (items : Thins thinning allowance NoParts item (.upTo holds fun _ => thinning.LostBefore closer)) :
    Thins thinning allowance NoParts (Production.withComma item) (.item closer holds) := by
  refine fun state => (items state).bind_to (fun {value middle result final _} isSuffix run _ isEnd => ?_)
    fun value middle => ?_
  · intro lexeme rest ahead isLost
    have lost := thinning.lost_of_not_kept isSuffix ahead isLost
    obtain ⟨comma, cursor, parses, done⟩ := Production.parses_bind.1 run.parses
    obtain ⟨-, cursorEq⟩ := Production.parses_pure.1 done
    have finalEq : final.cursor = cursor := cursorEq
    rw [Production.parses_eat?, Cursor.token_of_ahead ahead] at parses
    rcases Token.eq_or_eq_of_isSeparator (Token.isSeparator_of_isOptionalBefore lost.isOptional) with
      isComma | isSemi
    · rw [if_pos isComma] at parses
      rw [finalEq, parses.2] at isEnd
      exact isEnd lost.isPause
    · rw [isSemi, if_neg (by decide)] at parses
      rw [finalEq, parses.2] at isEnd
      have atSemi := (Cursor.token_of_ahead ahead).trans isSemi
      have atCloser : middle.cursor.token = closer := isEnd (atSemi ▸ rfl)
      rw [← atCloser, atSemi] at isCloser
      cases isCloser
  · refine .eat? rfl (.pure_item ?_ (.inl rfl)) (fun _ => .pure_item ?_ (.inl rfl)) fun _ _ lost =>
      .pure_item ?_ (.inr ⟨rfl, rfl, lost.isPause⟩) <;> simp

/-- Behind an item there must be a comma or the closing token. -/
theorem commaOrCloser
    {value : α}
    {cause : SyntaxCause}
    (isCloser : closer.isCloser = true)
    (same : ∀ property, holds property value ↔ parts property) :
    Thins thinning allowance parts
      ((Production.eat? .comma).bind fun comma => Production.look.bind fun cursor =>
        if comma.isSome then .pure (value, true)
        else if cursor.token = closer then .pure (value, false) else .refuse cause)
      (.item closer holds) := by
  have more (state : ReadState P) : ThinsFrom thinning allowance parts (.pure (value, true))
      (.pure (value, true)) (.item closer holds) state := .pure_item same (.inl rfl)
  have last : Thins thinning allowance parts (Production.look.bind fun cursor =>
      if cursor.token = closer then .pure (value, false) else .refuse cause) (.item closer holds) := by
    refine fun state => .look_cases (fun thinned _ sameToken => ?_) fun thinned isSeparator _ => ?_
    · rw [sameToken]
      exact .choice .rfl (fun _ => .pure_item same (.inl rfl)) fun _ => .refuse
    · have notCloser := Token.ne_of_isSeparator isSeparator (Token.isSeparator_of_isCloser isCloser)
      rw [if_neg notCloser]
      exact .refuse
  intro state
  refine .eat? rfl (last state) (fun _ => .look fun _ _ => more _) ?_
  intro _ _ lost
  refine .look fun thinned thinner => ?_
  have sameToken := thinner.token_eq lost.not_isSeparator
  by_cases atCloser : thinned.cursor.token = closer
  · have isLast : ThinsFrom thinning allowance parts (.pure (value, true)) (.pure (value, false))
        (.item closer holds) (state.moveTo state.cursor.advance) :=
      .pure_item same (.inr ⟨rfl, rfl, lost.isPause⟩)
    simpa [atCloser] using isLast
  · refine (more _).of_not_spared fun _ _ _ _ run isEnd _ => ?_
    obtain ⟨rfl, rfl⟩ := Outcome.done.inj run.run
    exact atCloser (sameToken.trans (isEnd lost.isPause))

theorem withSemicolon
    (items : Thins thinning allowance NoParts item (.upTo holds fun _ => thinning.LostBefore closer)) :
    Thins thinning allowance NoParts (Production.withSemicolon item) (.item closer holds) := by
  refine fun state => (items state).bind_to (fun {value middle result final _} isSuffix run _ isEnd => ?_)
    fun value middle => .skip (semicolon middle) fun _ _ => .pure_item (fun _ => by simp) (.inl rfl)
  intro lexeme rest ahead isLost
  have lost := thinning.lost_of_not_kept isSuffix ahead isLost
  obtain ⟨_, cursor, parses, done⟩ := Production.parses_bind.1 run.parses
  obtain ⟨-, cursorEq⟩ := Production.parses_pure.1 done
  have finalEq : final.cursor = cursor := cursorEq
  rw [Production.parses_semicolon, Cursor.atAny, Cursor.token_of_ahead ahead] at parses
  rcases Token.eq_or_eq_of_isSeparator (Token.isSeparator_of_isOptionalBefore lost.isOptional) with
    isComma | isSemi
  · rw [isComma] at parses
    cases parses.1
  · rw [isSemi] at parses
    rw [finalEq, parses.2] at isEnd
    exact isEnd lost.isPause

end

section

variable {item : Bool -> Production P (α × Bool)} {collected result : List α} {more last : Bool}
  {final : ReadState P} {taken : List (Lexeme P)}

/-- A step of reading items either stops or reads one more. -/
theorem of_nextItem
    {next : Option (List α × Bool)}
    (cleanRun : CleanRun (ruleMachine thinning.limit allowance) (nextItem closer item (collected, more))
      state next final taken) :
    (next = none ∧ final = state ∧ (more && !state.cursor.atAny [closer, .eof]) = false)
      ∨ ∃ value more', next = some (value :: collected, more') ∧ more = true
          ∧ state.cursor.atAny [closer, .eof] = false
          ∧ CleanRun (ruleMachine thinning.limit allowance) (item collected.isEmpty) state (value, more')
              final taken := by
  have cleanRun : CleanRun (ruleMachine thinning.limit allowance)
      (if more && !state.cursor.atAny [closer, .eof] then
        (item collected.isEmpty).bind fun read => .pure (some (read.1 :: collected, read.2))
      else .pure none) state next final taken :=
    ⟨cleanRun.regular, cleanRun.run, cleanRun.reaches, cleanRun.clean⟩
  split at cleanRun
  · next goesOn =>
    obtain ⟨isMore, noCloser⟩ := Bool.and_eq_true_iff.1 goesOn
    obtain ⟨⟨value, more'⟩, middle, front, back, rfl, itemRun, done⟩ := cleanRun.exists_of_bind
    obtain ⟨rfl, rfl⟩ := Outcome.done.inj done.run
    obtain rfl := done.reaches.eq_nil
    rw [List.append_nil]
    exact .inr ⟨value, more', rfl, isMore, by simpa using noCloser, itemRun⟩
  · next stops =>
    obtain ⟨rfl, rfl⟩ := Outcome.done.inj cleanRun.run
    exact .inl ⟨rfl, rfl, Bool.eq_false_iff.2 stops⟩

theorem itemized
    (isCloser : closer.isCloser = true)
    (begins : ∀ first, Begins thinning.limit (item first))
    (items : ∀ first, Thins thinning allowance NoParts (item first) (.item closer holds))
    {start finish : List α × Bool}
    (iterated : CleanRun.Iterated (ruleMachine thinning.limit allowance) (nextItem closer item) start state
      finish final taken)
    (isSuffix : state.cursor.ahead <:+ thinning.text)
    (attested : Holding.list holds thinning.attested start.1) :
    Holding.list holds thinning.attested finish.1
      ∧ (Holding.list holds thinning.Spares finish.1 -> final.cursor.token = closer ->
        Holding.list holds thinning.Spares start.1
          ∧ ∀ thinned more, thinning.Thinner state thinned ->
            more = start.2 ∨ start.2 = true ∧ more = false ∧ state.cursor.token = closer ->
            ∃ values last, finish.1 = values.reverse ++ start.1
              ∧ Itemizes thinning.limit closer item start.1.isEmpty more thinned values last
              ∧ thinning.Thinner final (thinned.moveTo last)) := by
  induction iterated with
  | @stop start state final _ run =>
      obtain ⟨-, rfl, stops⟩ | ⟨_, _, isSome, -⟩ := of_nextItem run
      case inr => cases isSome
      refine ⟨attested, fun spared atCloser => ⟨spared, fun thinned more thinner _ => ?_⟩⟩
      have thinnedCloser : thinned.cursor.token = closer :=
        (thinner.token_eq (atCloser ▸ Token.isSeparator_of_isCloser isCloser)).trans atCloser
      refine ⟨[], thinned.cursor, rfl, .stop ?_, thinner⟩
      simp [Cursor.atAny, thinnedCloser]
  | @more start next finish state middle final _ _ run rest inductionHypothesis =>
      obtain ⟨isNone, -⟩ | ⟨value, more', isNext, isMore, goesOn, itemRun⟩ := of_nextItem run
      case inl => cases isNone
      obtain rfl := Option.some.inj isNext
      obtain ⟨valueAttested, reads⟩ := (items _ state).of_run isSuffix itemRun trivial
      obtain ⟨finishAttested, restReads⟩ := inductionHypothesis (itemRun.isSuffix isSuffix)
        (List.forall_mem_cons.2 ⟨valueAttested, attested⟩)
      refine ⟨finishAttested, fun spared atCloser => ?_⟩
      obtain ⟨middleSpared, restReads⟩ := restReads spared atCloser
      obtain ⟨valueSpared, startSpared⟩ := List.forall_mem_cons.1 middleSpared
      -- behind an item stands the closing token, or another item begins
      have ends : middle.cursor.token.isPause = true -> middle.cursor.token = closer := by
        intro isPause
        cases rest with
        | stop last =>
            obtain ⟨-, rfl, -⟩ | ⟨_, _, isSome, -⟩ := of_nextItem last
            · exact atCloser
            · cases isSome
        | more next _ =>
            obtain ⟨isNone, -⟩ | ⟨_, _, _, -, -, nextRun⟩ := of_nextItem next
            · cases isNone
            · exact absurd ((begins _ nextRun.parses).symm.trans isPause) Bool.false_ne_true
      obtain ⟨-, reads⟩ := reads valueSpared ends
      refine ⟨startSpared, fun thinned more thinner agrees => ?_⟩
      have noSeparator := Token.isSeparator_of_not_isPause (begins _ itemRun.parses)
      have thinnedGoesOn : thinned.cursor.atAny [closer, .eof] = false := by
        rwa [Cursor.atAny, thinner.token_eq noSeparator]
      obtain rfl : more = true := by
        rcases agrees with same | ⟨_, _, atCloser⟩
        · exact same.trans isMore
        · rw [Cursor.atAny, atCloser] at goesOn
          simp at goesOn
      obtain ⟨⟨read, more''⟩, cursor, parses, ⟨same, agrees⟩, middleThinner⟩ := reads thinned thinner
      obtain rfl : value = read := same.symm
      obtain ⟨values, last, finishEq, itemizes, behind⟩ := restReads _ more'' middleThinner agrees
      refine ⟨value :: values, last, ?_, .next thinnedGoesOn parses itemizes, behind⟩
      rw [finishEq, List.reverse_cons, List.append_assoc]
      rfl

/-- Items up to a closing token. -/
theorem itemsUntil
    (isCloser : closer.isCloser = true)
    (begins : ∀ first, Begins thinning.limit (item first))
    (items : ∀ first, Thins thinning allowance NoParts (item first) (.item closer holds)) :
    Thins thinning allowance NoParts (Production.itemsUntil closer item)
      (.upTo (.list holds) fun _ cursor => cursor.token = closer) := by
  intro state
  constructor
  intro values final taken isSuffix cleanRun _
  have cleanRun : CleanRun (ruleMachine thinning.limit allowance)
      (.bind (.iterate (nextItem closer item) ([], true)) fun collected => .pure collected.1.reverse)
      state values final taken :=
    ⟨cleanRun.regular, cleanRun.run, cleanRun.reaches, cleanRun.clean⟩
  obtain ⟨⟨collected, _⟩, middle, _, _, rfl, loopRun, done⟩ := cleanRun.exists_of_bind
  obtain ⟨rfl, rfl⟩ := Outcome.done.inj done.run
  obtain ⟨attested, reads⟩ := itemized isCloser begins items loopRun.iterated isSuffix (List.forall_mem_nil _)
  refine ⟨fun value member => attested value (List.mem_reverse.1 member), fun spared atCloser => ?_⟩
  have collectedSpared : Holding.list holds thinning.Spares collected :=
    fun value member => spared value (List.mem_reverse.2 member)
  refine ⟨trivial, fun thinned thinner => ?_⟩
  obtain ⟨values, last, finishEq, itemizes, behind⟩ :=
    (reads collectedSpared atCloser).2 thinned true thinner (.inl rfl)
  refine ⟨values, last, Production.parses_itemsUntil_iff.2 itemizes, ?_, behind⟩
  change values = collected.reverse
  have finishEq : collected = values.reverse ++ [] := finishEq
  rw [finishEq, List.append_nil, List.reverse_reverse]

end

/-- Items up to a closing token that is read behind them. -/
theorem itemsUntil_bind
    {next : List α -> Production P β}
    {following : Contract P β}
    (isCloser : closer.isCloser = true)
    (begins : ∀ first, Begins thinning.limit (item first))
    (items : ∀ first, Thins thinning allowance NoParts (item first) (.item closer holds))
    (closes : ∀ {values middle result final taken},
      CleanRun (ruleMachine thinning.limit allowance) (next values) middle result final taken ->
        middle.cursor.token = closer)
    (rest : ∀ values, Thins thinning allowance
      (fun property => parts property ∧ Holding.list holds property values) (next values) following) :
    Thins thinning allowance parts ((Production.itemsUntil closer item).bind next) following := by
  intro state
  refine (itemsUntil isCloser begins items state).bind_to (fun _ run _ _ => closes run) ?_
  intro values
  exact rest values

/-! ## Items that may fail -/

section

variable {recovery : Recovery} {goesOn : Cursor P -> Bool} {item : Production P α}
  {between : Cursor P -> Prop}

theorem recovering (items : Thins thinning allowance NoParts item (.upTo holds fun _ => between)) :
    Thins thinning allowance NoParts (.recovering recovery item)
      (.upTo (.option holds) fun _ => between) := by
  intro state
  constructor
  intro found final taken isSuffix cleanRun _
  obtain ⟨value, rfl, itemRun⟩ := cleanRun.of_recovering
  obtain ⟨attested, reads⟩ := (items state).of_run isSuffix itemRun trivial
  refine ⟨fun other isValue => Option.some.inj isValue ▸ attested, fun spared isEnd => ?_⟩
  obtain ⟨-, reads⟩ := reads (spared value rfl) isEnd
  refine ⟨trivial, fun thinned thinner => ?_⟩
  obtain ⟨_, last, parses, rfl, behind⟩ := reads thinned thinner
  exact ⟨_, last, Production.parses_recovering parses, rfl, behind⟩

/-- Items are read for as long as a condition holds. Where it fails for the thinned text only, an item is
read that spares nothing. -/
theorem resuming
    (same : ∀ {state thinned}, thinning.Thinner state thinned ->
      goesOn thinned.cursor = goesOn state.cursor
        ∨ goesOn state.cursor = true ∧ ∀ value final, Parses thinning.limit item state value final ->
            ¬ holds thinning.Spares value)
    (fits : ∀ {middle : ReadState P},
      goesOn middle.cursor = false ∨ (∃ value final, Parses thinning.limit item middle value final) ->
        between middle.cursor)
    (items : Thins thinning allowance NoParts item (.upTo holds fun _ => between)) :
    Thins thinning allowance NoParts (Production.resuming recovery goesOn item) (.of (.list holds)) := by
  have next (values : List α) : Thins thinning allowance (fun property => Holding.list holds property values)
      ((Production.recovering recovery item).bind fun next => .pure (some (next.toList ++ values)))
      (.upTo (Step (.list holds) values) fun next cursor => next.isSome = true -> between cursor) := by
    refine fun state => (recovering items state).bind_to (fun _ run _ isEnd => ?_) fun found middle =>
      .pure fun property => ?_
    · obtain ⟨rfl, rfl⟩ := Outcome.done.inj run.run
      exact isEnd rfl
    · cases found <;> simp [Step, and_comm]
  have steps (values : List α) : Thins thinning allowance
      (fun property => Holding.list holds property values)
      (Production.look.bind fun cursor =>
        if goesOn cursor then
          (Production.recovering recovery item).bind fun next => .pure (some (next.toList ++ values))
        else .pure none)
      (.upTo (Step (.list holds) values) fun next cursor => next.isSome = true -> between cursor) := by
    refine fun state => .look fun thinned thinner => ?_
    rcases same thinner with sameChoice | ⟨isMore, unspared⟩
    · rw [sameChoice]
      refine .choice .rfl (fun _ => next values state) ?_
      intro _
      exact .pure fun _ => .rfl
    · rw [if_pos isMore]
      refine (next values state).of_not_spared fun _ _ _ _ run _ spared => ?_
      obtain ⟨found, _, _, _, rfl, recoveringRun, done⟩ := run.exists_of_bind
      obtain ⟨rfl, rfl⟩ := Outcome.done.inj done.run
      obtain ⟨value, rfl, itemRun⟩ := recoveringRun.of_recovering
      exact unspared value _ itemRun.parses (spared value List.mem_cons_self)
  have loop : Thins thinning allowance NoParts (.iterate (fun values =>
      Production.look.bind fun cursor =>
        if goesOn cursor then
          (Production.recovering recovery item).bind fun next => .pure (some (next.toList ++ values))
        else .pure none) []) (.of (.list holds)) := by
    refine .of_parts (fun _ => by simp) (iterate_to steps fun {values next middle final taken} run => fits ?_)
    have run : CleanRun (ruleMachine thinning.limit allowance)
        (if goesOn middle.cursor then
          (Production.recovering recovery item).bind fun next => .pure (some (next.toList ++ values))
        else .pure none) middle next final taken := ⟨run.regular, run.run, run.reaches, run.clean⟩
    split at run
    · obtain ⟨_, _, _, _, rfl, recoveringRun, -⟩ := run.exists_of_bind
      obtain ⟨value, -, itemRun⟩ := recoveringRun.of_recovering
      exact .inr ⟨value, _, itemRun.parses⟩
    · next stops => exact .inl (Bool.eq_false_iff.2 stops)
  exact .bind loop fun items => .pure fun property => by simp

end

end Thins

end GoFront
