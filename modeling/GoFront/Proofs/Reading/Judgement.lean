import GoFront.Proofs.Reading.Brackets
import GoFront.Proofs.Reading.Covers
import GoFront.Proofs.Reading.Reach

/-!
# What it means to read a phrase

One judgement says of a production all that matters about its runs: the allowance lasts, the result
mentions the lexemes that were consumed, the brackets that were opened are known, shelter is kept even
by a run that gives up, and a run without errors depends on nothing but the lexemes that it consumes and
the one behind them. The rules of this module derive the judgement along the steps of a production.
-/

namespace GoFront

variable {P : Type}

/-! ## Lexemes and states -/

/-- A lexeme as the lexer gives it to the grammar: literals carry their text and nothing else does, and
the end of the input is not among the lexemes. -/
def Lexeme.Regular (lexeme : Lexeme P) : Prop :=
  lexeme.token ≠ .eof ∧ lexeme.literal.isSome = lexeme.token.isLiteral

namespace Cursor

theorem peek_of_ahead
    {cursor : Cursor P}
    {lexeme : Lexeme P}
    {rest : List (Lexeme P)}
    (aheadEq : cursor.ahead = lexeme :: rest) :
    cursor.peek = lexeme := by
  simp [peek, aheadEq]

theorem token_of_ahead
    {cursor : Cursor P}
    {lexeme : Lexeme P}
    {rest : List (Lexeme P)}
    (aheadEq : cursor.ahead = lexeme :: rest) :
    cursor.token = lexeme.token := by
  rw [token, peek_of_ahead aheadEq]

theorem atAny_congr
    {first second : Cursor P}
    (tokens : List Token)
    (same : first.token = second.token) :
    first.atAny tokens = second.atAny tokens := by
  rw [atAny, atAny, same]

/-- Where another token than the end comes next, there is a lexeme ahead. -/
theorem exists_of_token_ne_eof
    {cursor : Cursor P}
    (notAtEnd : cursor.token ≠ .eof) :
    ∃ lexeme rest, cursor.ahead = lexeme :: rest ∧ lexeme.token = cursor.token := by
  cases aheadEq : cursor.ahead with
  | nil => exact absurd (by simp [token, peek, aheadEq, finalLexeme]) notAtEnd
  | cons lexeme rest => exact ⟨lexeme, rest, rfl, (token_of_ahead aheadEq).symm⟩

end Cursor

namespace ReadState

/-- Whether all lexemes ahead are as the lexer gives them. -/
def Regular (state : ReadState P) : Prop :=
  ∀ lexeme ∈ state.cursor.ahead, lexeme.Regular

theorem Reaches.regular
    {state final : ReadState P}
    {taken : List (Lexeme P)}
    (reaches : state.Reaches taken final)
    (regular : state.Regular) :
    final.Regular := by
  intro lexeme member
  refine regular lexeme ?_
  rw [reaches.ahead]
  exact List.mem_append_right taken member

/-- The state behind some lexemes, with other lexemes ahead. -/
def moved
    (state : ReadState P)
    (count : Nat)
    (ahead : List (Lexeme P)) : ReadState P :=
  { state with
    cursor := { state.cursor with consumed := state.cursor.consumed + count, ahead := ahead } }

@[simp] theorem ahead_moved
    (state : ReadState P)
    (count : Nat)
    (ahead : List (Lexeme P)) :
    (state.moved count ahead).cursor.ahead = ahead := rfl

@[simp] theorem depth_moved
    (state : ReadState P)
    (count : Nat)
    (ahead : List (Lexeme P)) :
    (state.moved count ahead).depth = state.depth := rfl

@[simp] theorem inHeader_moved
    (state : ReadState P)
    (count : Nat)
    (ahead : List (Lexeme P)) :
    (state.moved count ahead).inHeader = state.inHeader := rfl

@[simp] theorem moved_moved
    (state : ReadState P)
    (first second : Nat)
    (middle ahead : List (Lexeme P)) :
    (state.moved first middle).moved second ahead = state.moved (first + second) ahead := by
  simp [moved, Nat.add_assoc]

theorem moved_zero
    {state : ReadState P}
    {ahead : List (Lexeme P)}
    (aheadEq : state.cursor.ahead = ahead) :
    state.moved 0 ahead = state := by
  subst aheadEq
  rfl

theorem advance_eq_moved
    {state : ReadState P}
    {lexeme : Lexeme P}
    {rest : List (Lexeme P)}
    (aheadEq : state.cursor.ahead = lexeme :: rest) :
    { state with cursor := state.cursor.advance } = state.moved 1 rest := by
  simp [moved, Cursor.advance, aheadEq]

end ReadState

/-! ## The judgement -/

namespace Outcome

variable {α β : Type}

theorem bind_eq_done
    {outcome : Outcome P α}
    {next : α -> ReadState P -> Outcome P β}
    {result : β}
    {final : ReadState P}
    (run : outcome.bind next = .done result final) :
    ∃ value middle, outcome = .done value middle ∧ next value middle = .done result final := by
  cases outcome with
  | exhausted => cases run
  | gaveUp _ => cases run
  | done value middle => exact ⟨value, middle, rfl, run⟩

end Outcome

/-- How productions are run: nesting limit, allowance, and a sound reader of nonterminals. -/
structure Machine (P : Type) where
  limit : Nat
  allowance : Nat
  reader : Reader P
  sound : reader.Sound

namespace Machine

/-- Runs a production. -/
def run {α : Type}
    (machine : Machine P)
    (production : Production P α)
    (state : ReadState P) : Outcome P α :=
  production.run machine.limit machine.allowance machine.reader state

variable {machine : Machine P} {α : Type} {production : Production P α}
  {state final : ReadState P} {value : α}

theorem run_sound
    (machine : Machine P)
    (production : Production P α)
    (state : ReadState P) :
    (machine.run production state).Sound state :=
  production.run_sound machine.sound state

theorem reaches_of_done (result : machine.run production state = .done value final) :
    ∃ taken, state.Reaches taken final := by
  have sound := machine.run_sound production state
  rw [result] at sound
  exact sound

theorem reaches_of_gaveUp (result : machine.run production state = .gaveUp final) :
    ∃ taken, state.Reaches taken final ∧ state.errors.length < final.errors.length := by
  have sound := machine.run_sound production state
  rw [result] at sound
  exact sound

/-- A phrase is read by reading another one in a changed state, which is changed back afterwards. The
change leaves the cursor and the errors alone, and it depends on nothing but the depth and the header
flag. -/
structure Encloses
    (machine : Machine P)
    (whole body : Production P α)
    (refused : ReadState P -> Option SyntaxCause)
    (enter : ReadState P -> ReadState P)
    (leave : ReadState P -> ReadState P -> ReadState P) : Prop where
  runEq : ∀ state, machine.run whole state
    = match refused state with
      | some cause => .gaveUp (state.record cause)
      | none => (machine.run body (enter state)).mapState (leave state)
  enterSame : ∀ state,
    (enter state).cursor = state.cursor ∧ (enter state).errors = state.errors
  leaveSame : ∀ state final,
    (leave state final).cursor = final.cursor ∧ (leave state final).errors = final.errors
  restores : ∀ state count ahead,
    leave state ((enter state).moved count ahead) = state.moved count ahead
  depends : ∀ state other : ReadState P, other.depth = state.depth ->
    other.inHeader = state.inHeader -> refused other = refused state
      ∧ (enter other).depth = (enter state).depth
      ∧ (enter other).inHeader = (enter state).inHeader

/-- One level deeper, unless the nesting limit is reached. -/
theorem encloses_nested
    (machine : Machine P)
    (production : Production P α) :
    machine.Encloses (.nested production) production
      (fun state =>
        if machine.limit ≤ state.depth then some (.nestingTooDeep machine.limit) else none)
      (fun state => { state with depth := state.depth + 1 })
      (fun _ final => { final with depth := final.depth - 1 }) where
  runEq := by
    intro state
    simp only [run, Production.run]
    split <;> rfl
  enterSame := fun _ => ⟨rfl, rfl⟩
  leaveSame := fun _ _ => ⟨rfl, rfl⟩
  restores := fun _ _ _ => rfl
  depends := by
    intro state other sameDepth sameHeader
    simp [sameDepth, sameHeader]

/-- Inside or outside a header. -/
theorem encloses_inHeader
    (machine : Machine P)
    (inside : Bool)
    (production : Production P α) :
    machine.Encloses (.inHeader inside production) production
      (fun _ => none)
      (fun state => { state with inHeader := inside })
      (fun state final => { final with inHeader := state.inHeader }) where
  runEq := fun _ => rfl
  enterSame := fun _ => ⟨rfl, rfl⟩
  leaveSame := fun _ _ => ⟨rfl, rfl⟩
  restores := fun _ _ _ => rfl
  depends := fun _ _ sameDepth _ => ⟨rfl, sameDepth, rfl⟩

namespace Encloses

variable {whole body : Production P α} {refused : ReadState P -> Option SyntaxCause}
  {enter : ReadState P -> ReadState P} {leave : ReadState P -> ReadState P -> ReadState P}

theorem regular
    (encloses : machine.Encloses whole body refused enter leave)
    (regular : state.Regular) :
    (enter state).Regular := by
  rw [ReadState.Regular, (encloses.enterSame state).1]
  exact regular

/-- The whole was read by a run of the body. -/
theorem exists_of_done
    (encloses : machine.Encloses whole body refused enter leave)
    (run : machine.run whole state = .done value final) :
    refused state = none ∧ ∃ inner,
      machine.run body (enter state) = .done value inner ∧ final = leave state inner := by
  rw [encloses.runEq] at run
  split at run
  · cases run
  · next notRefused =>
      refine ⟨notRefused, ?_⟩
      cases inner : machine.run body (enter state) with
      | exhausted =>
          rw [inner] at run
          cases run
      | gaveUp _ =>
          rw [inner] at run
          cases run
      | done result last =>
          rw [inner] at run
          obtain ⟨rfl, finalEq⟩ := Outcome.done.inj run
          exact ⟨last, rfl, finalEq.symm⟩

/-- The whole is refused at once or given up with the body. -/
theorem cases_of_gaveUp
    (encloses : machine.Encloses whole body refused enter leave)
    (run : machine.run whole state = .gaveUp final) :
    (∃ cause, final = state.record cause)
      ∨ ∃ inner, machine.run body (enter state) = .gaveUp inner ∧ final = leave state inner := by
  rw [encloses.runEq] at run
  split at run
  · next cause _ => exact .inl ⟨cause, (Outcome.gaveUp.inj run).symm⟩
  · cases inner : machine.run body (enter state) with
    | exhausted =>
        rw [inner] at run
        cases run
    | done _ _ =>
        rw [inner] at run
        cases run
    | gaveUp last =>
        rw [inner] at run
        exact .inr ⟨last, rfl, (Outcome.gaveUp.inj run).symm⟩

/-- The allowance lasts for the whole if it lasts for the body. -/
theorem ne_exhausted
    (encloses : machine.Encloses whole body refused enter leave)
    (finishes : machine.run body (enter state) ≠ .exhausted) :
    machine.run whole state ≠ .exhausted := by
  rw [encloses.runEq]
  cases refused state with
  | some cause => exact fun result => nomatch result
  | none =>
      cases run : machine.run body (enter state) with
      | exhausted => exact absurd run finishes
      | done _ _ => exact fun result => nomatch result
      | gaveUp _ => exact fun result => nomatch result

/-- What the body consumes, the whole consumes. -/
theorem run_eq_moved
    {count : Nat}
    {ahead : List (Lexeme P)}
    (encloses : machine.Encloses whole body refused enter leave)
    (notRefused : refused state = none)
    (run : machine.run body (enter state) = .done value ((enter state).moved count ahead)) :
    machine.run whole state = .done value (state.moved count ahead) := by
  rw [encloses.runEq, notRefused]
  simp only [run, Outcome.mapState, encloses.restores]

end Encloses

/-- What was read one level deeper was read by a run of its own. -/
theorem exists_of_run_nested (run : machine.run (.nested production) state = .done value final) :
    state.depth < machine.limit ∧ ∃ inner,
      machine.run production { state with depth := state.depth + 1 } = .done value inner
        ∧ final = { inner with depth := inner.depth - 1 } := by
  obtain ⟨notRefused, inner⟩ := (machine.encloses_nested production).exists_of_done run
  exact ⟨by simpa using notRefused, inner⟩

/-- What was read in or out of a header was read by a run of its own. -/
theorem exists_of_run_inHeader
    {inside : Bool}
    (run : machine.run (.inHeader inside production) state = .done value final) :
    ∃ inner, machine.run production { state with inHeader := inside } = .done value inner
      ∧ final = { inner with inHeader := state.inHeader } :=
  ((machine.encloses_inHeader inside production).exists_of_done run).2

theorem run_recovering {recovery : Recovery} :
    machine.run (.recovering recovery production) state
      = match machine.run production state with
        | .done value final => .done (some value) final
        | .gaveUp stopped => .done none
            { stopped with cursor := recovery.resume state.cursor.consumed stopped.cursor }
        | .exhausted => .exhausted :=
  rfl

/-- A phrase behind which reading can resume was read, or reading resumed behind it. -/
theorem exists_of_run_recovering
    {recovery : Recovery}
    {found : Option α}
    (run : machine.run (.recovering recovery production) state = .done found final) :
    (∃ value, found = some value ∧ machine.run production state = .done value final)
      ∨ ∃ stopped, found = none ∧ machine.run production state = .gaveUp stopped
        ∧ final = { stopped with
            cursor := recovery.resume state.cursor.consumed stopped.cursor } := by
  rw [run_recovering] at run
  cases inner : machine.run production state with
  | exhausted =>
      rw [inner] at run
      cases run
  | done value last =>
      rw [inner] at run
      obtain ⟨rfl, rfl⟩ := Outcome.done.inj run
      exact .inl ⟨value, rfl, rfl⟩
  | gaveUp stopped =>
      rw [inner] at run
      obtain ⟨rfl, rfl⟩ := Outcome.done.inj run
      exact .inr ⟨stopped, rfl, rfl, rfl⟩

/-- A phrase behind which reading can resume does not fail. -/
theorem run_recovering_ne_gaveUp {recovery : Recovery} :
    machine.run (.recovering recovery production) state ≠ .gaveUp final := by
  intro run
  rw [run_recovering] at run
  split at run <;> cases run

end Machine

/-- What surrounds a phrase: the closing brackets that are due outside it, unless shelter is of no
concern, the token that comes next if it is known, and the token that must follow the phrase for it to
be read in the same way whatever comes later. -/
structure Frame where
  outer : Option (List Token)
  known : Option Token
  follower : Option Token

/-- How far a phrase has been read: the closing brackets that are due inside it, and the credit, which
is eight units for each lexeme consumed on top of what was granted at the start. -/
structure Progress where
  due : List Token
  credit : Nat

/-- What is known about a run that ended with a value. -/
structure Completes {α : Type}
    (frame : Frame)
    (run : ReadState P -> Outcome P α)
    (before : Progress)
    (state : ReadState P)
    (value : α)
    (final : ReadState P)
    (after : Progress)
    (mentions : List (Mention P))
    (taken : List (Lexeme P)) : Prop where
  ahead : state.cursor.ahead = taken ++ final.cursor.ahead
  credit : after.credit ≤ before.credit + 8 * taken.length
  leaves : (Mention.leaves mentions).Sublist taken
  shelter : ∀ opened ∈ frame.outer, ∀ behind,
    Sheltered behind (before.due ++ opened) state.cursor.ahead ->
      Sheltered behind (after.due ++ opened) final.cursor.ahead
  covers : final.errors = state.errors -> Covers mentions taken
  nested : final.errors = state.errors -> Brackets.scan before.due taken = some after.due
  repeats : final.errors = state.errors -> ∀ lexeme rest,
    final.cursor.ahead = lexeme :: rest -> (∀ token ∈ frame.follower, lexeme.token = token) ->
    ∀ (other : ReadState P) (rest' : List (Lexeme P)),
      other.cursor.ahead = taken ++ lexeme :: rest' -> other.depth = state.depth ->
      other.inHeader = state.inHeader ->
      run other = .done value (other.moved taken.length (lexeme :: rest'))

namespace Completes

variable {α : Type} {frame : Frame} {run : ReadState P -> Outcome P α} {before after : Progress}
  {state final : ReadState P} {value : α} {mentions : List (Mention P)} {taken : List (Lexeme P)}

/-- A run that yields a value at once. -/
theorem done
    (frame : Frame)
    (before : Progress)
    (state : ReadState P)
    (value : α) :
    Completes frame (.done value) before state value state before [] [] := by
  refine ⟨rfl, Nat.le_refl _, List.Sublist.refl _, fun _ _ _ sheltered => sheltered,
    fun _ => .nil, fun _ => rfl, ?_⟩
  intro _ lexeme rest _ _ other rest' aheadEq _ _
  rw [List.nil_append] at aheadEq
  rw [← aheadEq]
  rfl

/-- Credit can be given up. -/
theorem spend
    {due : List Token}
    {less credit : Nat}
    (completes : Completes frame run ⟨due, less⟩ state value final after mentions taken)
    (enough : less ≤ credit) :
    Completes frame run ⟨due, credit⟩ state value final after mentions taken :=
  { completes with
    credit := Nat.le_trans completes.credit (Nat.add_le_add_right enough _) }

/-- What depends on no follower is also read in front of a known one. -/
theorem followed
    {outer : Option (List Token)}
    {known : Option Token}
    (completes : Completes ⟨outer, known, none⟩ run before state value final after mentions taken)
    (known' follower : Option Token) :
    Completes ⟨outer, known', follower⟩ run before state value final after mentions taken :=
  { completes with
    repeats := fun clean lexeme rest aheadEq _ =>
      completes.repeats clean lexeme rest aheadEq fun _ member => nomatch member }

end Completes

/-- Two runs in a row complete what both complete. The first may need a token behind it with which the
second begins. -/
theorem Completes.bind
    {α β : Type}
    {frame : Frame}
    {first : ReadState P -> Outcome P α}
    {next : α -> ReadState P -> Outcome P β}
    {follower : Option Token}
    {state middle final : ReadState P}
    {value : α}
    {result : β}
    {before between after : Progress}
    {mentions more : List (Mention P)}
    {taken others startTaken restTaken : List (Lexeme P)}
    (startReaches : state.Reaches startTaken middle)
    (restReaches : middle.Reaches restTaken final)
    (start : Completes ⟨frame.outer, frame.known, follower⟩ first before state value middle
      between mentions taken)
    (rest : Completes ⟨frame.outer, none, frame.follower⟩ (next value) between middle result
      final after more others)
    (leads : ∀ token ∈ follower, ∀ lexeme behind, final.cursor.ahead = lexeme :: behind ->
      (∀ token ∈ frame.follower, lexeme.token = token) -> middle.cursor.token = token) :
    Completes frame (fun state => (first state).bind next) before state result final after
      (mentions ++ more) (taken ++ others) := by
  have clean (same : final.errors = state.errors) :
      middle.errors = state.errors ∧ final.errors = middle.errors := by
    have cleanStart : state.errors = middle.errors :=
      startReaches.errors.eq_of_length_le (same ▸ restReaches.errors.length_le)
    exact ⟨cleanStart.symm, same.trans cleanStart⟩
  refine ⟨?_, ?_, ?_, ?_, ?_, ?_, ?_⟩
  · rw [start.ahead, rest.ahead, List.append_assoc]
  · have startCredit := start.credit
    have restCredit := rest.credit
    rw [List.length_append]
    omega
  · rw [Mention.leaves_append]
    exact start.leaves.append rest.leaves
  · intro opened isOuter behind sheltered
    exact rest.shelter opened isOuter behind (start.shelter opened isOuter behind sheltered)
  · intro same
    exact (start.covers (clean same).1).append (rest.covers (clean same).2)
  · intro same
    rw [Brackets.scan_append, start.nested (clean same).1]
    exact rest.nested (clean same).2
  · intro same lexeme behind aheadEq follows other behind' otherAhead sameDepth sameHeader
    obtain ⟨startClean, restClean⟩ := clean same
    -- the lexeme behind the first phrase is the same in the other run
    obtain ⟨lead, tail, tail', middleAhead, otherMiddle⟩ : ∃ lead tail tail',
        middle.cursor.ahead = lead :: tail ∧ others ++ lexeme :: behind' = lead :: tail' := by
      rw [rest.ahead, aheadEq]
      cases others with
      | nil => exact ⟨lexeme, behind, behind', rfl, rfl⟩
      | cons lead others => exact ⟨lead, _, _, rfl, rfl⟩
    rw [List.append_assoc, otherMiddle] at otherAhead
    have startAgain := start.repeats startClean lead tail middleAhead
      (fun token isFollower => by
        rw [← Cursor.token_of_ahead middleAhead]
        exact leads token isFollower lexeme behind aheadEq follows)
      other tail' otherAhead sameDepth sameHeader
    have restAgain := rest.repeats restClean lexeme behind aheadEq follows
      (other.moved taken.length (lead :: tail')) behind' (by rw [← otherMiddle]; rfl)
      (by rw [ReadState.depth_moved, sameDepth, startReaches.depth])
      (by rw [ReadState.inHeader_moved, sameHeader, startReaches.inHeader])
    simp only [startAgain, Outcome.bind, restAgain]
    rw [ReadState.moved_moved, List.length_append]

/-- A production reads a phrase in a frame, from where some progress has been made. The values that it
can yield are described together with the progress made by then and the mentions of the lexemes
consumed on the way. -/
structure Reads {α : Type}
    (machine : Machine P)
    (frame : Frame)
    (production : Production P α)
    (before : Progress)
    (post : α -> Progress -> List (Mention P) -> Prop) : Prop where
  finishes : ∀ state : ReadState P, state.Regular ->
    (∀ token ∈ frame.known, state.cursor.token = token) ->
    8 * state.cursor.ahead.length + before.credit ≤ machine.allowance ->
    machine.run production state ≠ .exhausted
  completes : ∀ (state : ReadState P) (value : α) (final : ReadState P), state.Regular ->
    (∀ token ∈ frame.known, state.cursor.token = token) ->
    machine.run production state = .done value final ->
    ∃ after mentions taken, post value after mentions
      ∧ Completes frame (machine.run production) before state value final after mentions taken
  fails : ∀ state final : ReadState P, state.Regular ->
    (∀ token ∈ frame.known, state.cursor.token = token) ->
    machine.run production state = .gaveUp final ->
    ∀ opened ∈ frame.outer, ∀ behind,
      Sheltered behind (before.due ++ opened) state.cursor.ahead ->
        Sheltered behind opened final.cursor.ahead

namespace Reads

variable {machine : Machine P} {frame : Frame} {before : Progress} {α β : Type}

/-! ## Structural rules -/

/-- A description of the values can be weakened, and mentions can be refined. -/
theorem weaken
    {production : Production P α}
    {post weaker : α -> Progress -> List (Mention P) -> Prop}
    (reads : Reads machine frame production before post)
    (weakens : ∀ value after mentions, post value after mentions ->
      ∃ refined, Refines mentions refined ∧ weaker value after refined) :
    Reads machine frame production before weaker where
  finishes := reads.finishes
  fails := reads.fails
  completes := by
    intro state value final regular known result
    obtain ⟨after, mentions, taken, holds, completes⟩ :=
      reads.completes state value final regular known result
    obtain ⟨refined, refines, weakly⟩ := weakens value after mentions holds
    exact ⟨after, refined, taken, weakly,
      { completes with
        leaves := refines.1.trans completes.leaves
        covers := fun clean => refines.2 taken (completes.covers clean) }⟩

/-- Credit can be given up. -/
theorem spend
    {due : List Token}
    {less credit : Nat}
    {production : Production P α}
    {post : α -> Progress -> List (Mention P) -> Prop}
    (enough : less ≤ credit)
    (reads : Reads machine frame production ⟨due, less⟩ post) :
    Reads machine frame production ⟨due, credit⟩ post where
  finishes := by
    intro state regular known allowed
    refine reads.finishes state regular known (Nat.le_trans ?_ allowed)
    exact Nat.add_le_add_left enough _
  fails := reads.fails
  completes := by
    intro state value final regular known run
    obtain ⟨after, mentions, taken, holds, completes⟩ :=
      reads.completes state value final regular known run
    exact ⟨after, mentions, taken, holds, completes.spend enough⟩

/-- A value can be yielded wherever its description holds. -/
theorem pure
    {value : α}
    {post : α -> Progress -> List (Mention P) -> Prop}
    (holds : post value before []) :
    Reads machine frame (.pure value) before post where
  finishes := by
    intro state regular known _ result
    cases result
  fails := by
    intro state final regular known result
    cases result
  completes := by
    intro state result final regular known run
    obtain ⟨rfl, rfl⟩ := Outcome.done.inj run
    exact ⟨before, [], [], holds, .done frame before state value⟩

/-- Giving up needs no description. -/
theorem refuse
    {cause : SyntaxCause}
    {post : α -> Progress -> List (Mention P) -> Prop} :
    Reads machine frame (.refuse cause) before post where
  finishes := by
    intro state regular known _ result
    cases result
  completes := by
    intro state value final regular known result
    cases result
  fails := by
    intro state final regular known result opened _ behind sheltered
    obtain rfl := Outcome.gaveUp.inj result
    exact sheltered.mono (List.sublist_append_right _ _)

/-- An error can be recorded anywhere; the run has errors then. -/
theorem report
    {cause : SyntaxCause}
    {post : Unit -> Progress -> List (Mention P) -> Prop}
    (holds : post () before []) :
    Reads machine frame (.report cause) before post where
  finishes := by
    intro state regular known _ result
    cases result
  fails := by
    intro state final regular known result
    cases result
  completes := by
    intro state value final regular known result
    obtain ⟨rfl, rfl⟩ := Outcome.done.inj result
    have unclean : (state.record cause).errors ≠ state.errors := by
      simp [ReadState.record]
    exact ⟨before, [], [], holds, rfl, Nat.le_add_right _ _, List.Sublist.refl _,
      fun _ _ _ sheltered => sheltered, fun clean => absurd clean unclean,
      fun clean => absurd clean unclean, fun clean => absurd clean unclean⟩

/-! ## One phrase behind another -/

theorem run_bind_done
    {first : Production P α}
    {next : α -> Production P β}
    {state final : ReadState P}
    {result : β}
    (run : machine.run (first.bind next) state = .done result final) :
    ∃ value middle, machine.run first state = .done value middle
      ∧ machine.run (next value) middle = .done result final :=
  Outcome.bind_eq_done run

/-- What follows a look at the lexemes ahead is read from where one looked. -/
theorem run_look_done
    {next : Cursor P -> Production P β}
    {state final : ReadState P}
    {result : β}
    (run : machine.run (Production.look.bind next) state = .done result final) :
    machine.run (next state.cursor) state = .done result final :=
  run

/-- A phrase and what follows it. The phrase may need a token behind it with which the rest begins. -/
theorem bind_leading
    {first : Production P α}
    {next : α -> Production P β}
    {middle : α -> Progress -> List (Mention P) -> Prop}
    {post : β -> Progress -> List (Mention P) -> Prop}
    (follower : Option Token)
    (start : Reads machine ⟨frame.outer, frame.known, follower⟩ first before middle)
    (rest : ∀ value between mentions, middle value between mentions ->
      Reads machine ⟨frame.outer, none, frame.follower⟩ (next value) between
        fun result after more => post result after (mentions ++ more))
    (leads : ∀ token ∈ follower, ∀ value state result final lexeme behind,
      machine.run (next value) state = .done result final ->
      final.cursor.ahead = lexeme :: behind ->
      (∀ token ∈ frame.follower, lexeme.token = token) -> state.cursor.token = token) :
    Reads machine frame (first.bind next) before post where
  finishes := by
    intro state regular known enough
    change (machine.run first state).bind (fun value state => machine.run (next value) state) ≠ _
    cases startRun : machine.run first state with
    | exhausted => exact absurd startRun (start.finishes state regular known enough)
    | gaveUp _ => exact fun result => nomatch result
    | done value between =>
        obtain ⟨after, mentions, taken, holds, completes⟩ :=
          start.completes state value between regular known startRun
        obtain ⟨_, reaches⟩ := machine.reaches_of_done startRun
        refine (rest value after mentions holds).finishes between (reaches.regular regular)
          (fun token member => nomatch member) ?_
        have credit := completes.credit
        rw [completes.ahead, List.length_append] at enough
        omega
  completes := by
    intro state result final regular known run
    obtain ⟨value, between, startRun, restRun⟩ := run_bind_done run
    obtain ⟨middleProgress, mentions, taken, holds, startCompletes⟩ :=
      start.completes state value between regular known startRun
    obtain ⟨_, reaches⟩ := machine.reaches_of_done startRun
    obtain ⟨after, more, others, holdsRest, restCompletes⟩ :=
      (rest value middleProgress mentions holds).completes between result final
        (reaches.regular regular) (fun token member => nomatch member) restRun
    refine ⟨after, mentions ++ more, taken ++ others, holdsRest, ?_⟩
    obtain ⟨_, restReaches⟩ := machine.reaches_of_done restRun
    exact Completes.bind reaches restReaches startCompletes restCompletes
      fun token isFollower lexeme behind aheadEq follows =>
        leads token isFollower value between result final lexeme behind restRun aheadEq follows
  fails := by
    intro state final regular known run opened isOuter behind sheltered
    change (machine.run first state).bind (fun value state => machine.run (next value) state) = _
      at run
    cases startRun : machine.run first state with
    | exhausted =>
        rw [startRun] at run
        cases run
    | gaveUp stopped =>
        rw [startRun] at run
        obtain rfl := Outcome.gaveUp.inj run
        exact start.fails state stopped regular known startRun opened isOuter behind sheltered
    | done value between =>
        rw [startRun] at run
        obtain ⟨middleProgress, mentions, taken, holds, completes⟩ :=
          start.completes state value between regular known startRun
        obtain ⟨_, reaches⟩ := machine.reaches_of_done startRun
        exact (rest value middleProgress mentions holds).fails between final
          (reaches.regular regular) (fun token member => nomatch member) run opened isOuter behind
          (completes.shelter opened isOuter behind sheltered)

/-- A phrase and what follows it. -/
theorem bind
    {first : Production P α}
    {next : α -> Production P β}
    {middle : α -> Progress -> List (Mention P) -> Prop}
    {post : β -> Progress -> List (Mention P) -> Prop}
    (start : Reads machine ⟨frame.outer, frame.known, none⟩ first before middle)
    (rest : ∀ value between mentions, middle value between mentions ->
      Reads machine ⟨frame.outer, none, frame.follower⟩ (next value) between
        fun result after more => post result after (mentions ++ more)) :
    Reads machine frame (first.bind next) before post :=
  bind_leading none start rest fun _ isFollower => nomatch isFollower

/-- Nothing follows where a production gives up. -/
theorem refuse_bind
    {cause : SyntaxCause}
    {next : α -> Production P β}
    {post : β -> Progress -> List (Mention P) -> Prop} :
    Reads machine frame ((Production.refuse cause).bind next) before post := by
  have nothing : Reads machine ⟨frame.outer, frame.known, none⟩ (.refuse cause) before
      fun (_ : α) _ _ => False := refuse
  exact bind nothing fun _ _ _ impossible => impossible.elim

/-- A value that is passed on at once. -/
theorem pure_bind
    {value : α}
    {next : α -> Production P β}
    {post : β -> Progress -> List (Mention P) -> Prop}
    (rest : Reads machine frame (next value) before post) :
    Reads machine frame ((Production.pure value).bind next) before post :=
  ⟨rest.finishes, rest.completes, rest.fails⟩

/-- A phrase of which something is yielded. -/
theorem map
    {first : Production P α}
    {change : α -> β}
    {post : β -> Progress -> List (Mention P) -> Prop}
    (start : Reads machine ⟨frame.outer, frame.known, none⟩ first before
      fun value => post (change value)) :
    Reads machine frame (first.bind fun value => .pure (change value)) before post := by
  refine bind start fun value between mentions holds => ?_
  refine pure ?_
  rw [List.append_nil]
  exact holds

/-! ## Looking and consuming -/

/-- A look at the lexemes ahead. In a run without errors it must have the same consequences in another
run over the same lexemes. -/
theorem look_ahead
    {next : Cursor P -> Production P β}
    {post : β -> Progress -> List (Mention P) -> Prop}
    (rest : ∀ cursor : Cursor P, (∀ token ∈ frame.known, cursor.token = token) ->
      Reads machine { frame with known := some cursor.token } (next cursor) before post)
    (agrees : ∀ (state final : ReadState P) (value : β) taken lexeme behind behind'
      (other : Cursor P), state.Regular ->
      (∀ token ∈ frame.known, state.cursor.token = token) ->
      machine.run (next state.cursor) state = .done value final -> final.errors = state.errors ->
      state.cursor.ahead = taken ++ lexeme :: behind -> final.cursor.ahead = lexeme :: behind ->
      (∀ token ∈ frame.follower, lexeme.token = token) ->
      other.ahead = taken ++ lexeme :: behind' -> next other = next state.cursor) :
    Reads machine frame (.bind .look next) before post where
  finishes := by
    intro state regular known enough
    exact (rest state.cursor known).finishes state regular
      (fun token member => Option.some.inj member) enough
  fails := by
    intro state final regular known run
    exact (rest state.cursor known).fails state final regular
      (fun token member => Option.some.inj member) run
  completes := by
    intro state value final regular known run
    obtain ⟨after, mentions, taken, holds, completes⟩ := (rest state.cursor known).completes state
      value final regular (fun token member => Option.some.inj member) run
    refine ⟨after, mentions, taken, holds, { completes with repeats := ?_ }⟩
    intro clean lexeme behind aheadEq follows other behind' otherAhead sameDepth sameHeader
    have sameNext := agrees state final value taken lexeme behind behind' other.cursor regular known
      run clean (by rw [completes.ahead, aheadEq]) aheadEq follows otherAhead
    have again := completes.repeats clean lexeme behind aheadEq follows other behind' otherAhead
      sameDepth sameHeader
    rw [← sameNext] at again
    exact again

/-- A look at the lexemes ahead, on which the description of the values may depend. The decision must be
the same for another cursor with the same lexemes ahead, up to the one behind the phrase. -/
theorem look_further
    {next : Cursor P -> Production P β}
    {post : β -> Progress -> List (Mention P) -> Prop}
    (specific : Cursor P -> β -> Progress -> List (Mention P) -> Prop)
    (rest : ∀ cursor : Cursor P, (∀ token ∈ frame.known, cursor.token = token) ->
      Reads machine { frame with known := some cursor.token } (next cursor) before
        (specific cursor))
    (general : ∀ cursor value after mentions, specific cursor value after mentions ->
      post value after mentions)
    (agrees : ∀ (state final : ReadState P) value after mentions taken lexeme behind behind'
      (other : Cursor P), state.Regular -> specific state.cursor value after mentions ->
      machine.run (next state.cursor) state = .done value final ->
      after.credit ≤ before.credit + 8 * taken.length ->
      Brackets.scan before.due taken = some after.due ->
      state.cursor.ahead = taken ++ lexeme :: behind -> final.cursor.ahead = lexeme :: behind ->
      (∀ token ∈ frame.follower, lexeme.token = token) ->
      other.ahead = taken ++ lexeme :: behind' -> next other = next state.cursor) :
    Reads machine frame (.bind .look next) before post := by
  refine look_ahead (fun cursor known => ?_) ?_
  · refine weaken (rest cursor known) fun value after mentions holds => ?_
    exact ⟨mentions, .refl _, general cursor value after mentions holds⟩
  · intro state final value taken lexeme behind behind' other regular known run clean stateAhead
      finalAhead follows otherAhead
    obtain ⟨after, mentions, read, holds, completes⟩ := (rest state.cursor known).completes state
      value final regular (fun token member => Option.some.inj member) run
    have sameTaken : read = taken := by
      refine List.append_cancel_right (completes.ahead.symm.trans ?_)
      rw [stateAhead, finalAhead]
    subst sameTaken
    exact agrees state final value after mentions read lexeme behind behind' other regular holds
      run completes.credit (completes.nested clean) stateAhead finalAhead follows otherAhead

/-- A look at the next lexeme. -/
theorem look
    {next : Cursor P -> Production P β}
    {post : β -> Progress -> List (Mention P) -> Prop}
    (peeks : ∀ first second : Cursor P, first.token = second.token -> first.pos = second.pos ->
      next first = next second)
    (rest : ∀ cursor : Cursor P, (∀ token ∈ frame.known, cursor.token = token) ->
      Reads machine { frame with known := some cursor.token } (next cursor) before post) :
    Reads machine frame (.bind .look next) before post := by
  refine look_ahead rest ?_
  intro state final value taken lexeme behind behind' other _ _ _ _ stateAhead _ _ otherAhead
  have samePeek : other.peek = state.cursor.peek := by
    rw [Cursor.peek, Cursor.peek, stateAhead, otherAhead]
    cases taken <;> rfl
  exact peeks other state.cursor (congrArg Lexeme.token samePeek) (congrArg Lexeme.pos samePeek)

/-- The header flag decides how a phrase is read. -/
theorem header
    {next : Bool -> Production P β}
    {post : β -> Progress -> List (Mention P) -> Prop}
    (rest : ∀ inside, Reads machine frame (next inside) before post) :
    Reads machine frame (.bind .header next) before post where
  finishes := fun state => (rest state.inHeader).finishes state
  fails := fun state => (rest state.inHeader).fails state
  completes := by
    intro state value final regular known run
    obtain ⟨after, mentions, taken, holds, completes⟩ :=
      (rest state.inHeader).completes state value final regular known run
    refine ⟨after, mentions, taken, holds, { completes with repeats := ?_ }⟩
    intro clean lexeme behind aheadEq follows other behind' otherAhead sameDepth sameHeader
    have again := completes.repeats clean lexeme behind aheadEq follows other behind' otherAhead
      sameDepth sameHeader
    rw [← sameHeader] at again
    exact again

/-- A known token is consumed. It must fit the brackets that are due, and a semicolon stands inside
brackets only. -/
theorem advance
    {token : Token}
    {due after : List Token}
    {credit : Nat}
    {post : Lexeme P -> Progress -> List (Mention P) -> Prop}
    (knows : frame.known = some token)
    (notAtEnd : token ≠ .eof)
    (stepEq : Brackets.step due token = some after)
    (inside : token = .semi -> due = [] -> frame.outer ≠ some [])
    (holds : ∀ lexeme : Lexeme P, lexeme.token = token -> lexeme.Regular ->
      ∃ mentions, post lexeme ⟨after, credit + 8⟩ mentions ∧ Covers mentions [lexeme]) :
    Reads machine frame .advance ⟨due, credit⟩ post where
  finishes := by
    intro state regular known _ result
    cases result
  fails := by
    intro state final regular known result
    cases result
  completes := by
    intro state value final regular known run
    have tokenEq : state.cursor.token = token := known token knows
    obtain ⟨lexeme, rest, aheadEq, lexemeToken⟩ :=
      Cursor.exists_of_token_ne_eof (tokenEq.trans_ne notAtEnd)
    rw [tokenEq] at lexemeToken
    have runEq (state : ReadState P) (rest : List (Lexeme P))
        (aheadEq : state.cursor.ahead = lexeme :: rest) :
        machine.run .advance state = .done lexeme (state.moved 1 rest) := by
      rw [← ReadState.advance_eq_moved aheadEq, ← Cursor.peek_of_ahead aheadEq]
      rfl
    rw [runEq state rest aheadEq] at run
    obtain ⟨rfl, rfl⟩ := Outcome.done.inj run
    have isRegular := regular lexeme (by simp [aheadEq])
    obtain ⟨mentions, description, covers⟩ := holds lexeme lexemeToken isRegular
    refine ⟨_, mentions, [lexeme], description, aheadEq, ?_, covers.leaves_sublist, ?_,
      fun _ => covers, fun _ => ?_, ?_⟩
    · simp
    · intro opened isOuter behind sheltered
      rw [aheadEq] at sheltered
      refine sheltered.take ?_ fun isSemi => ?_
      · rw [lexemeToken]
        exact Brackets.step_append opened stepEq
      · intro empty
        obtain ⟨dueEmpty, rfl⟩ := List.append_eq_nil_iff.1 empty
        exact inside (lexemeToken ▸ isSemi) dueEmpty isOuter
    · simp only [Brackets.scan, lexemeToken, stepEq]
      rfl
    · intro _ follower behind _ _ other behind' otherAhead _ _
      exact runEq other (follower :: behind') otherAhead

/-! ## Depth, headers and outer brackets -/

/-- A phrase that is read in a changed state, which is changed back afterwards. -/
theorem enclosed
    {whole body : Production P α}
    {refused : ReadState P -> Option SyntaxCause}
    {enter : ReadState P -> ReadState P}
    {leave : ReadState P -> ReadState P -> ReadState P}
    {post : α -> Progress -> List (Mention P) -> Prop}
    (encloses : machine.Encloses whole body refused enter leave)
    (inner : Reads machine frame body before post) :
    Reads machine frame whole before post where
  finishes := by
    intro state regular known enough
    rw [← (encloses.enterSame state).1] at known enough
    exact encloses.ne_exhausted (inner.finishes _ (encloses.regular regular) known enough)
  fails := by
    intro state final regular known run
    obtain ⟨cause, rfl⟩ | ⟨stopped, bodyRun, rfl⟩ := encloses.cases_of_gaveUp run
    · intro opened _ behind sheltered
      exact sheltered.mono (List.sublist_append_right _ _)
    · rw [← (encloses.enterSame state).1] at known
      rw [(encloses.leaveSame state stopped).1, ← (encloses.enterSame state).1]
      exact inner.fails _ stopped (encloses.regular regular) known bodyRun
  completes := by
    intro state value final regular known run
    obtain ⟨notRefused, stopped, bodyRun, rfl⟩ := encloses.exists_of_done run
    rw [← (encloses.enterSame state).1] at known
    obtain ⟨after, mentions, taken, holds, completes⟩ :=
      inner.completes (enter state) value stopped (encloses.regular regular) known bodyRun
    have cleanInside (clean : (leave state stopped).errors = state.errors) :
        stopped.errors = (enter state).errors :=
      (encloses.leaveSame state stopped).2.symm.trans
        (clean.trans (encloses.enterSame state).2.symm)
    refine ⟨after, mentions, taken, holds, ?_, completes.credit, completes.leaves, ?_,
      fun clean => completes.covers (cleanInside clean),
      fun clean => completes.nested (cleanInside clean), ?_⟩
    · rw [(encloses.leaveSame state stopped).1, ← (encloses.enterSame state).1]
      exact completes.ahead
    · rw [(encloses.leaveSame state stopped).1, ← (encloses.enterSame state).1]
      exact completes.shelter
    · intro clean lexeme behind aheadEq follows other behind' otherAhead sameDepth sameHeader
      obtain ⟨sameRefused, enterDepth, enterHeader⟩ :=
        encloses.depends state other sameDepth sameHeader
      rw [(encloses.leaveSame state stopped).1] at aheadEq
      exact encloses.run_eq_moved (sameRefused.trans notRefused)
        (completes.repeats (cleanInside clean) lexeme behind aheadEq follows (enter other) behind'
          ((encloses.enterSame other).1 ▸ otherAhead) enterDepth enterHeader)

/-- A phrase one level deeper. -/
theorem nested
    {body : Production P α}
    {post : α -> Progress -> List (Mention P) -> Prop}
    (inner : Reads machine frame body before post) :
    Reads machine frame (.nested body) before post :=
  enclosed (machine.encloses_nested body) inner

/-- A phrase inside or outside a header. -/
theorem inHeader
    {inside : Bool}
    {body : Production P α}
    {post : α -> Progress -> List (Mention P) -> Prop}
    (inner : Reads machine frame body before post) :
    Reads machine frame (.inHeader inside body) before post :=
  enclosed (machine.encloses_inHeader inside body) inner

/-- Inside brackets a phrase is read as it is read alone. -/
theorem within
    {production : Production P α}
    {post : α -> Progress -> List (Mention P) -> Prop}
    (due : List Token)
    (credit : Nat)
    (alone : Reads machine { frame with outer := frame.outer.map (due ++ ·) } production
      ⟨[], credit⟩ post) :
    Reads machine frame production ⟨due, credit⟩ fun value after mentions =>
      ∃ inner : Progress, after = ⟨inner.due ++ due, inner.credit⟩ ∧ post value inner mentions where
  finishes := alone.finishes
  fails := by
    intro state final regular known run opened isOuter behind sheltered
    have isInner : due ++ opened ∈ frame.outer.map (due ++ ·) := Option.mem_map_of_mem _ isOuter
    exact (alone.fails state final regular known run (due ++ opened) isInner behind sheltered).mono
      (List.sublist_append_right _ _)
  completes := by
    intro state value final regular known run
    obtain ⟨after, mentions, taken, holds, completes⟩ :=
      alone.completes state value final regular known run
    refine ⟨_, mentions, taken, ⟨after, rfl, holds⟩, completes.ahead, completes.credit,
      completes.leaves, ?_, completes.covers, fun clean => ?_, completes.repeats⟩
    · intro opened isOuter behind sheltered
      have isInner : due ++ opened ∈ frame.outer.map (due ++ ·) := Option.mem_map_of_mem _ isOuter
      rw [List.append_assoc]
      exact completes.shelter (due ++ opened) isInner behind sheltered
    · exact Brackets.scan_append_outer due (completes.nested clean)

end Reads
end GoFront
