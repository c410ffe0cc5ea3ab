import GoFront.Proofs.Reading.Terminals

/-!
# Reading lists

How the judgement passes over repetition. A step of a loop keeps an invariant of the value that is built
and adds to what the value mentions; each step but the last consumes a lexeme, so that the allowance
lasts. The lists of the grammar are loops that collect items. A loop that resumes after failed items
stays in the shelter of what encloses it.
-/

namespace GoFront

variable {P : Type} {α β : Type}

/-! ## Loops -/

/-- A loop ends where its step yields nothing. -/
theorem Outcome.exists_of_iterate_done
    {step : α -> ReadState P -> Outcome P (Option α)}
    {repetitions : Nat}
    {start result : α}
    {state final : ReadState P}
    (run : iterate step repetitions start state = .done result final) :
    ∃ last, step result last = .done none final := by
  induction repetitions generalizing start state with
  | zero => cases run
  | succ repetitions inductionHypothesis =>
      obtain ⟨next, middle, stepRun, restRun⟩ := Outcome.bind_eq_done run
      cases next with
      | none =>
          obtain ⟨rfl, rfl⟩ := Outcome.done.inj restRun
          exact ⟨state, stepRun⟩
      | some value => exact inductionHypothesis restRun

/-- What a step yields: a value that mentions more than the one before, or the end of the loop. -/
def Continues
    (due : List Token)
    (credit : Nat)
    (invariant : α -> Prop)
    (emitted : α -> List (Mention P))
    (value : α) : Option α -> Progress -> List (Mention P) -> Prop
  | some next, after, mentions => ∃ reached, after = ⟨due, reached⟩ ∧ credit + 8 ≤ reached
      ∧ invariant next ∧ Refines (emitted value ++ mentions) (emitted next)
  | none, after, mentions => after = ⟨due, credit⟩ ∧ mentions = []

/-- A step reads a part of a phrase from every value that satisfies the invariant. -/
def ReadsStep
    (machine : Machine P)
    (outer : Option (List Token))
    (due : List Token)
    (credit : Nat)
    (invariant : α -> Prop)
    (emitted : α -> List (Mention P))
    (step : α -> Production P (Option α)) : Prop :=
  ∀ value, invariant value -> Reads machine ⟨outer, none, none⟩ (step value) ⟨due, credit⟩
    (Continues due credit invariant emitted value)

namespace ReadsStep

variable {machine : Machine P} {outer : Option (List Token)} {due : List Token} {credit : Nat}
  {invariant : α -> Prop} {emitted : α -> List (Mention P)} {step : α -> Production P (Option α)}

/-- What a step leaves of a number of repetitions. -/
def rest
    (machine : Machine P)
    (step : α -> Production P (Option α))
    (repetitions : Nat)
    (value : α) : Option α -> ReadState P -> Outcome P α
  | some next => Outcome.iterate (fun value => machine.run (step value)) repetitions next
  | none => .done value

theorem iterate_succ
    (repetitions : Nat)
    (value : α)
    (state : ReadState P) :
    Outcome.iterate (fun value => machine.run (step value)) (repetitions + 1) value state
      = (machine.run (step value) state).bind (rest machine step repetitions value) := by
  rw [Outcome.iterate]
  congr 1
  funext next state
  cases next <;> rfl

theorem finishes
    (reads : ReadsStep machine outer due credit invariant emitted step)
    (repetitions : Nat)
    (value : α)
    (state : ReadState P)
    (holds : invariant value)
    (regular : state.Regular)
    (repeated : state.cursor.ahead.length < repetitions)
    (enough : 8 * state.cursor.ahead.length + credit ≤ machine.allowance) :
    Outcome.iterate (fun value => machine.run (step value)) repetitions value state
      ≠ .exhausted := by
  induction repetitions generalizing value state with
  | zero => exact absurd repeated (Nat.not_lt_zero _)
  | succ repetitions inductionHypothesis =>
      rw [iterate_succ]
      cases run : machine.run (step value) state with
      | exhausted =>
          exact absurd run ((reads value holds).finishes state regular
            (fun _ member => nomatch member) enough)
      | gaveUp _ => exact fun result => nomatch result
      | done next middle =>
          obtain ⟨after, mentions, taken, continues, completes⟩ :=
            (reads value holds).completes state next middle regular (fun _ member => nomatch member)
              run
          cases next with
          | none => exact fun result => nomatch result
          | some next =>
              obtain ⟨reached, rfl, gains, nextHolds, -⟩ := continues
              obtain ⟨_, reaches⟩ := machine.reaches_of_done run
              have aheadLength := congrArg List.length completes.ahead
              rw [List.length_append] at aheadLength
              have consumes : reached ≤ credit + 8 * taken.length := completes.credit
              refine inductionHypothesis next middle nextHolds (reaches.regular regular) ?_ ?_
              · omega
              · omega

theorem fails
    (reads : ReadsStep machine outer due credit invariant emitted step)
    (repetitions : Nat)
    (value : α)
    (state final : ReadState P)
    (holds : invariant value)
    (regular : state.Regular)
    (run : Outcome.iterate (fun value => machine.run (step value)) repetitions value state
      = .gaveUp final)
    (opened : List Token)
    (isOuter : opened ∈ outer)
    (behind : List (Lexeme P))
    (sheltered : Sheltered behind (due ++ opened) state.cursor.ahead) :
    Sheltered behind opened final.cursor.ahead := by
  induction repetitions generalizing value state with
  | zero => cases run
  | succ repetitions inductionHypothesis =>
      rw [iterate_succ] at run
      cases stepRun : machine.run (step value) state with
      | exhausted =>
          rw [stepRun] at run
          cases run
      | gaveUp _ =>
          rw [stepRun] at run
          obtain rfl := Outcome.gaveUp.inj run
          exact (reads value holds).fails state _ regular (fun _ member => nomatch member) stepRun
            opened isOuter behind sheltered
      | done next middle =>
          rw [stepRun] at run
          obtain ⟨after, mentions, taken, continues, completes⟩ :=
            (reads value holds).completes state next middle regular (fun _ member => nomatch member)
              stepRun
          cases next with
          | none => cases run
          | some next =>
              obtain ⟨reached, rfl, gains, nextHolds, -⟩ := continues
              obtain ⟨_, reaches⟩ := machine.reaches_of_done stepRun
              exact inductionHypothesis next middle nextHolds (reaches.regular regular) run
                (completes.shelter opened isOuter behind sheltered)

theorem completes
    (reads : ReadsStep machine outer due credit invariant emitted step)
    (known follower : Option Token)
    (repetitions : Nat)
    (value result : α)
    (state final : ReadState P)
    (holds : invariant value)
    (regular : state.Regular)
    (run : Outcome.iterate (fun value => machine.run (step value)) repetitions value state
      = .done result final) :
    ∃ mentions taken, invariant result ∧ Refines (emitted value ++ mentions) (emitted result)
      ∧ Completes ⟨outer, known, follower⟩
        (Outcome.iterate (fun value => machine.run (step value)) repetitions value)
        ⟨due, credit⟩ state result final ⟨due, credit⟩ mentions taken := by
  induction repetitions generalizing value state known with
  | zero => cases run
  | succ repetitions inductionHypothesis =>
      rw [iterate_succ] at run
      rw [show Outcome.iterate (fun value => machine.run (step value)) (repetitions + 1) value
        = _ from funext fun state => iterate_succ repetitions value state]
      obtain ⟨next, middle, stepRun, restRun⟩ := Outcome.bind_eq_done run
      obtain ⟨after, mentions, taken, continues, start⟩ :=
        (reads value holds).completes state next middle regular (fun _ member => nomatch member)
          stepRun
      obtain ⟨_, startReaches⟩ := machine.reaches_of_done stepRun
      cases next with
      | none =>
          obtain ⟨rfl, rfl⟩ := continues
          obtain ⟨rfl, rfl⟩ := Outcome.done.inj restRun
          refine ⟨[] ++ [], taken ++ [], holds, ?_, ?_⟩
          · rw [List.append_nil, List.append_nil]
            exact .refl _
          · exact Completes.bind startReaches (.refl _) (start.followed known none)
              (.done _ _ _ _) fun _ member => nomatch member
      | some next =>
          obtain ⟨reached, rfl, gains, nextHolds, refines⟩ := continues
          obtain ⟨more, others, resultHolds, refinesRest, rest⟩ :=
            inductionHypothesis none next middle nextHolds (startReaches.regular regular) restRun
          have restSound := Outcome.Sound.iterate
            (fun value => machine.run_sound (step value)) repetitions next middle
          obtain ⟨_, restReaches⟩ : ∃ taken, middle.Reaches taken final := by
            change Outcome.iterate _ _ _ _ = _ at restRun
            rw [restRun] at restSound
            exact restSound
          refine ⟨mentions ++ more, taken ++ others, resultHolds, ?_, ?_⟩
          · rw [← List.append_assoc]
            exact (refines.append_right more).trans refinesRest
          · exact Completes.bind startReaches restReaches (start.followed known none)
              (rest.spend (Nat.le_of_add_right_le gains)) fun _ member => nomatch member

end ReadsStep

namespace Reads

variable {machine : Machine P} {frame : Frame} {due : List Token} {credit : Nat}

/-- A loop keeps the invariant of its step. -/
theorem iterate
    {invariant : α -> Prop}
    {emitted : α -> List (Mention P)}
    {step : α -> Production P (Option α)}
    {start : α}
    (positive : 1 ≤ credit)
    (holds : invariant start)
    (reads : ReadsStep machine frame.outer due credit invariant emitted step) :
    Reads machine frame (.iterate step start) ⟨due, credit⟩ fun value after mentions =>
      after = ⟨due, credit⟩ ∧ invariant value
        ∧ Refines (emitted start ++ mentions) (emitted value) where
  finishes := by
    intro state regular _ enough
    change 8 * state.cursor.ahead.length + credit ≤ machine.allowance at enough
    exact reads.finishes machine.allowance start state holds regular (by omega) enough
  completes := by
    intro state value final regular _ run
    obtain ⟨mentions, taken, valueHolds, refines, completes⟩ :=
      reads.completes frame.known frame.follower machine.allowance start value state final holds
        regular run
    exact ⟨_, mentions, taken, ⟨rfl, valueHolds, refines⟩, completes⟩
  fails := by
    intro state final regular _ run
    exact reads.fails machine.allowance start state final holds regular run

/-! ## Lists of items -/

/-- What the items collected so far mention; the latest comes first. -/
def Collected (outline : α -> List (Mention P)) (items : List α) : List (Mention P) :=
  items.reverse.flatMap outline

theorem collected_cons
    (outline : α -> List (Mention P))
    (item : α)
    (items : List α) :
    Collected outline (item :: items) = Collected outline items ++ outline item := by
  simp [Collected]

/-- Repeated items. -/
theorem many
    (outline : α -> List (Mention P))
    (valid : α -> Prop)
    {step : Production P (Option α)}
    (positive : 1 ≤ credit)
    (reads : Reads machine ⟨frame.outer, none, none⟩ step ⟨due, credit⟩ fun item after mentions =>
      (∃ value reached, item = some value ∧ after = ⟨due, reached⟩
        ∧ Consumed outline valid value credit reached mentions)
      ∨ (item = none ∧ after = ⟨due, credit⟩ ∧ mentions = [])) :
    Reads machine frame (Production.many step) ⟨due, credit⟩ fun items after mentions =>
      after = ⟨due, credit⟩ ∧ mentions = items.flatMap outline ∧ ∀ item ∈ items, valid item := by
  have steps : ReadsStep machine frame.outer due credit (fun items => ∀ item ∈ items, valid item)
      (Collected outline) fun items =>
        step.bind fun item => .pure (item.map (· :: items)) := by
    intro items allValid
    refine map (reads.weaken ?_)
    rintro _ _ mentions (⟨value, reached, rfl, rfl, gains, rfl, isValid⟩ | ⟨rfl, rfl, rfl⟩)
    · refine ⟨_, .refl _, reached, rfl, gains, ?_, ?_⟩
      · exact List.forall_mem_cons.2 ⟨isValid, allValid⟩
      · rw [collected_cons]
        exact .refl _
    · exact ⟨_, .refl _, rfl, rfl⟩
  refine map (weaken (iterate positive (fun _ member => nomatch member) steps) ?_)
  rintro items _ mentions ⟨rfl, allValid, refines⟩
  exact ⟨_, refines, rfl, rfl, fun item member => allValid item (List.mem_reverse.1 member)⟩

variable {outline : α -> List (Mention P)} {valid : α -> Prop} {item : Production P α}
  {inside : Option (List Token) -> Prop} {need : Nat}

/-- One or more items with commas between them. -/
theorem commaSeparated (reads : ReadsPhrase machine inside need item (Consumed outline valid)) :
    ReadsPhrase machine inside need (Production.commaSeparated item)
      (Consumed (List.flatMap outline) fun items => items ≠ [] ∧ ∀ item ∈ items, valid item) := by
  intro frame credit isInside enough
  refine phrase reads (inside_map_nil isInside) enough ?_
  rintro first reached _ ⟨gains, rfl, firstValid⟩
  refine map (weaken (many outline valid (by omega) ?_) ?_)
  · refine comma? (fun lexeme => ?_) (pure (.inr ⟨rfl, rfl, rfl⟩))
    refine map (last reads (inside_map_nil isInside) (by omega) ?_)
    rintro next _ _ ⟨more, rfl, nextValid⟩
    exact .inl ⟨next, _, rfl, rfl, by omega, rfl, nextValid⟩
  · rintro items _ mentions ⟨rfl, rfl, allValid⟩
    exact ⟨_, .refl _, reached, rfl, gains, rfl, List.cons_ne_nil _ _,
      List.forall_mem_cons.2 ⟨firstValid, allValid⟩⟩

/-- More items, each behind a comma. -/
theorem commaTail
    {closer : Token}
    (reads : ReadsPhrase machine inside need item (Consumed outline valid))
    (isInside : inside (frame.outer.map (due ++ ·)))
    (positive : 1 ≤ credit)
    (enough : need ≤ credit) :
    Reads machine frame (Production.commaTail closer item) ⟨due, credit⟩
      fun items after mentions => after = ⟨due, credit⟩ ∧ mentions = items.flatMap outline
        ∧ ∀ item ∈ items, valid item := by
  refine many outline valid positive (comma? (fun lexeme => ?_) ?_)
  · refine look (fun first second same _ => ?_) fun cursor _ => ?_
    · rw [same]
    · split
      · refine map (last reads isInside (by omega) ?_)
        rintro next _ _ ⟨more, rfl, nextValid⟩
        exact .inl ⟨next, _, rfl, rfl, by omega, rfl, nextValid⟩
      · exact spend (Nat.le_add_right _ _) (pure (.inr ⟨rfl, rfl, rfl⟩))
  · refine look (fun _ _ _ _ => rfl) fun cursor _ => ?_
    exact pure (.inr ⟨rfl, rfl, rfl⟩)

/-! ## Items up to a closing token -/

/-- An item that is told whether it is the first and tells whether another may follow. It is valid at
least if another may follow. -/
def ReadsItem
    (machine : Machine P)
    (inside : Option (List Token) -> Prop)
    (need : Nat)
    (outline : α -> List (Mention P))
    (valid : α -> Prop)
    (item : Bool -> Production P (α × Bool)) : Prop :=
  ∀ first, ReadsPhrase machine inside need (item first)
    (Consumed (fun value => outline value.1) fun value => value.2 = true -> valid value.1)

/-- Each step adds an item, behind which all earlier ones are valid. -/
theorem itemsUntil_step
    {closer : Token}
    {item : Bool -> Production P (α × Bool)}
    (reads : ReadsItem machine inside need outline valid item)
    (isInside : inside (frame.outer.map (due ++ ·)))
    (enough : need ≤ credit) :
    ReadsStep machine frame.outer due credit
      (fun collected : List α × Bool => (∀ item ∈ collected.1.tail, valid item)
        ∧ (collected.2 = true -> ∀ item ∈ collected.1, valid item))
      (fun collected => Collected outline collected.1) fun ((items, more) : List α × Bool) =>
        Production.look.bind fun cursor =>
          if more && !cursor.atAny [closer, .eof] then
            (item items.isEmpty).bind fun (next, more) => .pure (some (next :: items, more))
          else .pure none := by
  rintro ⟨items, more⟩ ⟨_, allValid⟩
  refine look (fun first second same _ => ?_) fun cursor _ => ?_
  · rw [Cursor.atAny_congr _ same]
  · split
    · next goesOn =>
        refine map (last (reads items.isEmpty) isInside enough ?_)
        rintro ⟨next, more⟩ reached _ ⟨gains, rfl, nextValid⟩
        simp only [Bool.and_eq_true] at goesOn
        refine ⟨reached, rfl, gains, ⟨allValid goesOn.1, fun isMore => ?_⟩, ?_⟩
        · exact List.forall_mem_cons.2 ⟨nextValid isMore, allValid goesOn.1⟩
        · change Refines (Collected outline items ++ outline next)
            (Collected outline (next :: items))
          rw [collected_cons]
          exact .refl _
    · exact pure ⟨rfl, rfl⟩

/-- Items up to a closing token. All but the last are valid. -/
theorem itemsUntil
    {closer : Token}
    {item : Bool -> Production P (α × Bool)}
    (reads : ReadsItem machine inside need outline valid item)
    (isInside : inside (frame.outer.map (due ++ ·)))
    (positive : 1 ≤ credit)
    (enough : need ≤ credit) :
    Reads machine frame (Production.itemsUntil closer item) ⟨due, credit⟩
      fun items after mentions => after = ⟨due, credit⟩ ∧ mentions = items.flatMap outline
        ∧ ∀ item ∈ items.dropLast, valid item := by
  refine map (weaken (iterate positive ?_ (itemsUntil_step reads isInside enough)) ?_)
  · exact ⟨fun _ member => (nomatch member), fun _ _ member => (nomatch member)⟩
  · rintro ⟨items, more⟩ _ mentions ⟨rfl, ⟨tailValid, _⟩, refines⟩
    refine ⟨_, refines, rfl, rfl, fun item member => tailValid item ?_⟩
    rw [List.dropLast_reverse] at member
    exact List.mem_reverse.1 member

/-- An item behind which a comma lets another follow. -/
theorem withComma (reads : ReadsPhrase machine inside need item (Consumed outline valid)) :
    ReadsPhrase machine inside need (Production.withComma item)
      (Consumed (fun value => outline value.1) fun value => value.2 = true -> valid value.1) := by
  intro frame credit isInside enough
  refine phrase reads (inside_map_nil isInside) enough ?_
  rintro value reached _ ⟨gains, rfl, isValid⟩
  refine comma? (fun lexeme => ?_) ?_
  · exact pure ⟨_, rfl, by omega, List.append_nil _, fun _ => isValid⟩
  · exact pure ⟨_, rfl, gains, List.append_nil _, fun _ => isValid⟩

/-- An item on a line of its own, inside brackets. -/
theorem withSemicolon (reads : ReadsPhrase machine inside need item (Consumed outline valid)) :
    ReadsPhrase machine (fun outer => inside outer ∧ InBrackets outer) need
      (Production.withSemicolon item)
      (Consumed (fun value => outline value.1) fun value => value.2 = true -> valid value.1) := by
  rintro frame credit ⟨isInside, inBrackets⟩ enough
  refine phrase reads (inside_map_nil isInside) enough ?_
  rintro value reached _ ⟨gains, rfl, isValid⟩
  refine semicolon (inside_map_nil inBrackets) ?_
  exact pure ⟨_, rfl, gains, List.append_nil _, fun _ => isValid⟩

/-! ## Resuming -/

/-- Whether resuming stays in the shelter of what encloses a list: shelter is of no concern, or
statements are read inside braces. -/
def Resumes (recovery : Recovery) (outer : Option (List Token)) : Prop :=
  ∀ opened ∈ outer, recovery = .stmt ∧ opened.head? = some .rBrace

/-- A failed phrase is passed over at least in part, unless it began at the end of the input. -/
theorem exists_of_resume
    {state stopped : ReadState P}
    {taken : List (Lexeme P)}
    (recovery : Recovery)
    (reaches : state.Reaches taken stopped) :
    ∃ passed, state.Reaches passed
        { stopped with cursor := recovery.resume state.cursor.consumed stopped.cursor }
      ∧ (state.cursor.token ≠ .eof -> 1 ≤ passed.length) := by
  obtain ⟨rest, resumes⟩ := ReadState.Reaches.resume recovery state.cursor.consumed stopped
  refine ⟨taken ++ rest, reaches.trans resumes, fun notAtEnd => ?_⟩
  rw [List.length_append]
  by_contra noneTaken
  have takenEmpty : taken = [] := List.eq_nil_of_length_eq_zero (by omega)
  have restEmpty : rest = [] := List.eq_nil_of_length_eq_zero (by omega)
  subst takenEmpty restEmpty
  obtain ⟨lexeme, behind, aheadEq, -⟩ := Cursor.exists_of_token_ne_eof notAtEnd
  have consumed := resumes.consumed
  have stoppedAhead : stopped.cursor.ahead = lexeme :: behind := reaches.ahead.symm.trans aheadEq
  simp only [Recovery.resume, reaches.consumed, List.length_nil, Nat.add_zero, if_true,
    Cursor.skip, Cursor.advance, stoppedAhead] at consumed
  omega

/-- A phrase behind which reading resumes if it fails. Something is gained by a failure unless the
phrase begins at the end of the input. The token that comes next is not the brace that closes what
encloses the phrase. -/
theorem recovering_gaining
    {recovery : Recovery}
    {body : Production P α}
    {post : Option α -> Progress -> List (Mention P) -> Prop}
    (gain : Nat)
    (resumes : Resumes recovery frame.outer)
    (gains : ∀ state : ReadState P, (∀ token ∈ frame.known, state.cursor.token = token) ->
      gain = 0 ∨ gain = 8 ∧ state.cursor.token ≠ .eof)
    (notAtCloser : frame.outer ≠ none -> ∀ state : ReadState P,
      (∀ token ∈ frame.known, state.cursor.token = token) ->
        state.cursor.token ≠ .eof ∧ state.cursor.token ≠ .rBrace)
    (failed : post none ⟨[], credit + gain⟩ [])
    (reads : Reads machine frame body ⟨[], credit⟩ fun value => post (some value)) :
    Reads machine frame (.recovering recovery body) ⟨[], credit⟩ post where
  finishes := by
    intro state regular isKnown enough run
    rw [Machine.run_recovering] at run
    cases bodyRun : machine.run body state with
    | exhausted => exact reads.finishes state regular isKnown enough bodyRun
    | done _ _ | gaveUp _ =>
        rw [bodyRun] at run
        cases run
  fails := fun state final _ _ run => absurd run Machine.run_recovering_ne_gaveUp
  completes := by
    intro state value final regular isKnown run
    obtain ⟨read, rfl, bodyRun⟩ | ⟨stopped, rfl, bodyRun, rfl⟩ := Machine.exists_of_run_recovering run
    · obtain ⟨after, mentions, taken, holds, completes⟩ :=
        reads.completes state read final regular isKnown bodyRun
      refine ⟨after, mentions, taken, holds, { completes with repeats := ?_ }⟩
      intro clean lexeme behind aheadEq follows other behind' otherAhead sameDepth sameHeader
      rw [Machine.run_recovering, completes.repeats clean lexeme behind aheadEq follows other behind'
        otherAhead sameDepth sameHeader]
    · obtain ⟨taken, reaches, more⟩ := machine.reaches_of_gaveUp bodyRun
      obtain ⟨passed, passes, consumes⟩ := exists_of_resume recovery reaches
      have unclean : stopped.errors ≠ state.errors :=
        fun same => absurd (congrArg List.length same) (Nat.ne_of_gt more)
      refine ⟨_, [], passed, failed, passes.ahead, ?_, List.nil_sublist _, ?_,
        fun clean => absurd clean unclean, fun clean => absurd clean unclean,
        fun clean => absurd clean unclean⟩
      · change credit + gain ≤ credit + 8 * passed.length
        rcases gains state isKnown with nothing | ⟨some, notAtEnd⟩
        · omega
        · have := consumes notAtEnd
          omega
      · intro opened isOuter behind sheltered
        obtain ⟨rfl, isBrace⟩ := resumes opened isOuter
        obtain ⟨rest, rfl⟩ := List.head?_eq_some_iff.1 isBrace
        obtain ⟨notAtEnd, notBrace⟩ :=
          notAtCloser (fun noOuter => by simp [noOuter] at isOuter) state isKnown
        have inShelter := reads.fails state stopped regular isKnown bodyRun _ isOuter behind
          sheltered
        refine inShelter.resume _ fun nothingRead => ?_
        have takenEmpty : taken = [] := by
          have consumed := reaches.consumed
          exact List.eq_nil_of_length_eq_zero (by omega)
        subst takenEmpty
        obtain ⟨lexeme, behind, aheadEq, isToken⟩ := Cursor.exists_of_token_ne_eof notAtEnd
        rw [Cursor.token_of_ahead (reaches.ahead.symm.trans aheadEq), isToken]
        exact notBrace

/-- A phrase behind which reading resumes if it fails, when the token that comes next is neither the end
nor the brace that closes what encloses the phrase. -/
theorem recovering
    {recovery : Recovery}
    {body : Production P α}
    {token : Token}
    {post : Option α -> Progress -> List (Mention P) -> Prop}
    (known : frame.known = some token)
    (notAtEnd : token ≠ .eof)
    (resumes : Resumes recovery frame.outer)
    (notAtCloser : frame.outer ≠ none -> token ≠ .rBrace)
    (failed : post none ⟨[], credit + 8⟩ [])
    (reads : Reads machine frame body ⟨[], credit⟩ fun value => post (some value)) :
    Reads machine frame (.recovering recovery body) ⟨[], credit⟩ post := by
  refine recovering_gaining 8 resumes (fun state isKnown => .inr ⟨rfl, ?_⟩)
    (fun isInside state isKnown => ⟨?_, ?_⟩) failed reads
  · exact (isKnown token known).trans_ne notAtEnd
  · exact (isKnown token known).trans_ne notAtEnd
  · exact (isKnown token known).trans_ne (notAtCloser isInside)

/-- Items for as long as a condition holds that excludes the end of the input and, inside braces, the
closing brace. -/
theorem resuming
    {recovery : Recovery}
    {goesOn : Cursor P -> Bool}
    (peeks : ∀ first second : Cursor P, first.token = second.token ->
      goesOn first = goesOn second)
    (stops : ∀ cursor, goesOn cursor = true ->
      cursor.token ≠ .eof ∧ (frame.outer ≠ none -> cursor.token ≠ .rBrace))
    (resumes : Resumes recovery frame.outer)
    (reads : ReadsPhrase machine inside need item (Consumed outline valid))
    (isInside : inside frame.outer)
    (positive : 1 ≤ credit)
    (enough : need ≤ credit) :
    Reads machine frame (Production.resuming recovery goesOn item) ⟨[], credit⟩
      fun items after mentions => after = ⟨[], credit⟩ ∧ mentions = items.flatMap outline := by
  have steps : ReadsStep machine frame.outer [] credit (fun _ : List α => True)
      (Collected outline) fun items =>
        Production.look.bind fun cursor =>
          if goesOn cursor then
            (Production.recovering recovery item).bind fun next =>
              .pure (some (next.toList ++ items))
          else .pure none := by
    intro items _
    refine look (fun first second same _ => ?_) fun cursor _ => ?_
    · rw [peeks first second same]
    · split
      · next isMore =>
          obtain ⟨notAtEnd, notAtCloser⟩ := stops cursor isMore
          refine map (recovering rfl notAtEnd resumes notAtCloser ?_ ?_)
          · refine ⟨_, rfl, Nat.le_refl _, trivial, ?_⟩
            rw [List.append_nil]
            exact .refl _
          · refine weaken (reads _ credit isInside enough) ?_
            rintro value _ mentions ⟨reached, rfl, gains, rfl, -⟩
            refine ⟨_, .refl _, reached, rfl, gains, trivial, ?_⟩
            change Refines _ (Collected outline (value :: items))
            rw [collected_cons]
            exact .refl _
      · exact pure ⟨rfl, rfl⟩
  refine map (weaken (iterate positive trivial steps) ?_)
  rintro items _ mentions ⟨rfl, -, refines⟩
  exact ⟨_, refines, rfl, rfl⟩

end Reads
end GoFront
