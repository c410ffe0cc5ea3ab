import GoFront.Proofs.Reading.Recovery

/-!
# Where statements end

A phrase that is read without errors depends on its lexemes and on the one behind them. A statement that
ends in a semicolon depends on its lexemes alone, because none of the phrases in front of the end of a
line ends in a semicolon.
-/

namespace GoFront

variable {P : Type} {α β : Type} {machine : Machine P} {production : Production P α}
  {state middle final : ReadState P} {value : α} {taken : List (Lexeme P)}

/-! ## Single tokens -/

namespace Machine

theorem run_mark
    (machine : Machine P)
    (token : Token)
    (state : ReadState P) :
    machine.run (Production.mark token) state
      = if state.cursor.token = token then
          .done ⟨token, state.cursor.pos⟩ { state with cursor := state.cursor.advance }
        else .gaveUp (state.record (.unexpected state.cursor.token token)) := by
  change (machine.run (if state.cursor.token = token then _ else _) state).bind _ = _
  split <;> rfl

theorem run_mark?
    (machine : Machine P)
    (token : Token)
    (state : ReadState P) :
    machine.run (Production.mark? token) state
      = if state.cursor.token = token then
          .done (some ⟨token, state.cursor.pos⟩) { state with cursor := state.cursor.advance }
        else .done none state := by
  change (machine.run (if state.cursor.token = token then _ else _) state).bind _ = _
  split <;> rfl

end Machine

theorem ReadState.Reaches.eq_nil (reaches : state.Reaches taken state) : taken = [] :=
  List.append_left_eq_self.1 reaches.ahead.symm

theorem Cursor.ahead_advance (cursor : Cursor P) : cursor.advance.ahead = cursor.ahead.tail := by
  unfold advance
  split
  · next nothing => rw [nothing, List.tail_nil]
  · next cons => rw [cons, List.tail_cons]

/-- Moving on takes one lexeme at most. -/
theorem ReadState.Reaches.eq_nil_of_advance
    {head : Lexeme P}
    {tail : List (Lexeme P)}
    (reaches : state.Reaches (head :: tail) { state with cursor := state.cursor.advance }) :
    tail = [] := by
  have ahead : state.cursor.ahead = head :: tail ++ state.cursor.advance.ahead := reaches.ahead
  have same := congrArg List.tail ahead
  rw [← Cursor.ahead_advance] at same
  exact List.append_left_eq_self.1 same.symm

/-- Where a lexeme is ahead, moving on takes that lexeme. -/
theorem ReadState.Reaches.eq_singleton
    (notAtEnd : state.cursor.token ≠ .eof)
    (reaches : state.Reaches taken { state with cursor := state.cursor.advance }) :
    ∃ lexeme, taken = [lexeme] ∧ lexeme.token = state.cursor.token := by
  obtain ⟨lexeme, rest, aheadEq, isToken⟩ := Cursor.exists_of_token_ne_eof notAtEnd
  refine ⟨lexeme, ?_, isToken⟩
  have ahead : state.cursor.ahead = taken ++ state.cursor.advance.ahead := reaches.ahead
  rw [Cursor.ahead_advance, aheadEq] at ahead
  exact List.append_cancel_right ahead.symm

/-! ## Runs without errors -/

/-- A production reads lexemes without errors. -/
structure CleanRun
    (machine : Machine P)
    (production : Production P α)
    (state : ReadState P)
    (value : α)
    (final : ReadState P)
    (taken : List (Lexeme P)) : Prop where
  regular : state.Regular
  run : machine.run production state = .done value final
  reaches : state.Reaches taken final
  clean : final.errors = state.errors

/-- Lexemes in front of others are read as they were read in a state. -/
def ReadsAgain
    (machine : Machine P)
    (production : Production P α)
    (state : ReadState P)
    (value : α)
    (taken behind : List (Lexeme P)) : Prop :=
  ∀ other : ReadState P, other.cursor.ahead = taken ++ behind -> other.depth = state.depth ->
    other.inHeader = state.inHeader ->
    machine.run production other = .done value (other.moved taken.length behind)

namespace CleanRun

theorem exists_of_bind
    {next : α -> Production P β}
    {result : β}
    (cleanRun : CleanRun machine (production.bind next) state result final taken) :
    ∃ value middle front back, taken = front ++ back
      ∧ CleanRun machine production state value middle front
      ∧ CleanRun machine (next value) middle result final back := by
  obtain ⟨value, middle, startRun, restRun⟩ := Reads.run_bind_done cleanRun.run
  obtain ⟨front, startReaches⟩ := machine.reaches_of_done startRun
  obtain ⟨back, restReaches⟩ := machine.reaches_of_done restRun
  have same : state.errors = middle.errors :=
    startReaches.errors.eq_of_length_le (cleanRun.clean ▸ restReaches.errors.length_le)
  refine ⟨value, middle, front, back, ?_, ?_, ?_⟩
  · exact List.append_cancel_right
      (cleanRun.reaches.ahead.symm.trans (startReaches.trans restReaches).ahead)
  · exact ⟨cleanRun.regular, startRun, startReaches, same.symm⟩
  · exact ⟨startReaches.regular cleanRun.regular, restRun, restReaches, cleanRun.clean.trans same⟩

/-- A phrase one level deeper was read as such. -/
theorem of_nested (cleanRun : CleanRun machine (.nested production) state value final taken) :
    ¬machine.limit ≤ state.depth
      ∧ CleanRun machine production { state with depth := state.depth + 1 } value
        { final with depth := final.depth + 1 } taken := by
  obtain ⟨regular, run, reaches, clean⟩ := cleanRun
  obtain ⟨shallow, last, inner, rfl⟩ := Machine.exists_of_run_nested run
  obtain ⟨_, innerReaches⟩ := machine.reaches_of_done inner
  have deeper : last.depth = state.depth + 1 := innerReaches.depth
  refine ⟨Nat.not_le.2 shallow, regular, ?_, ?_, clean⟩
  · rw [inner]
    simp only [deeper, Nat.add_sub_cancel]
    rw [← deeper]
  · exact ⟨reaches.ahead, reaches.consumed, reaches.stop, congrArg (· + 1) reaches.depth,
      reaches.inHeader, reaches.errors⟩

/-- A phrase in or out of a header was read as such. -/
theorem of_inHeader
    {inside : Bool}
    (cleanRun : CleanRun machine (.inHeader inside production) state value final taken) :
    CleanRun machine production { state with inHeader := inside } value
      { final with inHeader := inside } taken := by
  obtain ⟨regular, run, reaches, clean⟩ := cleanRun
  obtain ⟨last, inner, rfl⟩ := Machine.exists_of_run_inHeader run
  obtain ⟨_, innerReaches⟩ := machine.reaches_of_done inner
  have sameHeader : last.inHeader = inside := innerReaches.inHeader
  refine ⟨regular, ?_, ?_, clean⟩
  · rw [inner, ← sameHeader]
  · exact ⟨reaches.ahead, reaches.consumed, reaches.stop, reaches.depth, rfl, reaches.errors⟩

/-- A fixed token was read as one lexeme. -/
theorem of_mark
    {token : Token}
    {mark : Mark P}
    (notAtEnd : token ≠ .eof)
    (cleanRun : CleanRun machine (Production.mark token) state mark final taken) :
    ∃ lexeme, taken = [lexeme] ∧ lexeme.token = token ∧ mark = ⟨token, lexeme.pos⟩
      ∧ final = { state with cursor := state.cursor.advance } := by
  obtain ⟨_, run, reaches, _⟩ := cleanRun
  rw [Machine.run_mark] at run
  split at run
  · next isToken =>
      obtain ⟨rfl, rfl⟩ := Outcome.done.inj run
      obtain ⟨lexeme, rfl, sameToken⟩ := reaches.eq_singleton (isToken.trans_ne notAtEnd)
      refine ⟨lexeme, rfl, sameToken.trans isToken, ?_, rfl⟩
      rw [Cursor.pos, Cursor.peek_of_ahead reaches.ahead]
  · cases run

/-- A step was repeated without errors until it yielded nothing. -/
inductive Iterated
    (machine : Machine P)
    (step : α -> Production P (Option α)) :
    α -> ReadState P -> α -> ReadState P -> List (Lexeme P) -> Prop
  | stop
      {value : α}
      {state final : ReadState P}
      {taken : List (Lexeme P)}
      (last : CleanRun machine (step value) state none final taken) :
      Iterated machine step value state value final taken
  | more
      {value next result : α}
      {state middle final : ReadState P}
      {front back : List (Lexeme P)}
      (first : CleanRun machine (step value) state (some next) middle front)
      (rest : Iterated machine step next middle result final back) :
      Iterated machine step value state result final (front ++ back)

theorem iterated
    {step : α -> Production P (Option α)}
    {start result : α}
    (cleanRun : CleanRun machine (.iterate step start) state result final taken) :
    Iterated machine step start state result final taken := by
  obtain ⟨regular, run, reaches, clean⟩ := cleanRun
  change Outcome.iterate (fun value => machine.run (step value)) machine.allowance start state = _ at run
  generalize machine.allowance = repetitions at run
  induction repetitions generalizing start state taken with
  | zero => cases run
  | succ repetitions inductionHypothesis =>
      obtain ⟨next, middle, stepRun, restRun⟩ := Outcome.bind_eq_done run
      obtain ⟨front, startReaches⟩ := machine.reaches_of_done stepRun
      cases next with
      | none =>
          obtain ⟨rfl, rfl⟩ := Outcome.done.inj restRun
          exact .stop ⟨regular, stepRun, reaches, clean⟩
      | some next =>
          have sound := Outcome.Sound.iterate (fun value => machine.run_sound (step value))
            repetitions next middle
          change Outcome.iterate _ _ _ _ = _ at restRun
          rw [restRun] at sound
          obtain ⟨back, restReaches⟩ := sound
          have sameErrors : state.errors = middle.errors :=
            startReaches.errors.eq_of_length_le (clean ▸ restReaches.errors.length_le)
          obtain rfl : taken = front ++ back :=
            List.append_cancel_right (reaches.ahead.symm.trans (startReaches.trans restReaches).ahead)
          exact .more ⟨regular, stepRun, startReaches, sameErrors.symm⟩
            (inductionHypothesis (startReaches.regular regular) restReaches (clean.trans sameErrors)
              restRun)

end CleanRun

namespace ReadsAgain

theorem bind
    {next : α -> Production P β}
    {result : β}
    {front back behind : List (Lexeme P)}
    (reaches : state.Reaches front middle)
    (start : ReadsAgain machine production state value front (back ++ behind))
    (rest : ReadsAgain machine (next value) middle result back behind) :
    ReadsAgain machine (production.bind next) state result (front ++ back) behind := by
  intro other aheadEq sameDepth sameHeader
  rw [List.append_assoc] at aheadEq
  change (machine.run production other).bind (fun value state => machine.run (next value) state) = _
  rw [start other aheadEq sameDepth sameHeader, Outcome.bind,
    rest (other.moved front.length (back ++ behind)) rfl (sameDepth.trans reaches.depth.symm)
      (sameHeader.trans reaches.inHeader.symm),
    ReadState.moved_moved, List.length_append]

theorem nested
    {behind : List (Lexeme P)}
    (shallow : ¬machine.limit ≤ state.depth)
    (inner : ReadsAgain machine production { state with depth := state.depth + 1 } value taken
      behind) :
    ReadsAgain machine (.nested production) state value taken behind := by
  intro other aheadEq sameDepth sameHeader
  exact (machine.encloses_nested production).run_eq_moved (if_neg (sameDepth ▸ shallow))
    (inner { other with depth := other.depth + 1 } aheadEq (congrArg (· + 1) sameDepth) sameHeader)

end ReadsAgain

/-! ## What a reading depends on -/

/-- Lexemes that are read without errors are read again wherever the same lexeme follows. -/
def Repeats
    (machine : Machine P)
    (production : Production P α) : Prop :=
  ∀ ⦃state final value taken⦄, CleanRun machine production state value final taken ->
    ∀ lexeme rest rest', final.cursor.ahead = lexeme :: rest ->
      ReadsAgain machine production state value taken (lexeme :: rest')

/-- Lexemes that are read without errors and end in a semicolon are read again whatever follows. -/
def Settles
    (machine : Machine P)
    (production : Production P α) : Prop :=
  ∀ ⦃state final value taken⦄, CleanRun machine production state value final taken ->
    taken.getLast?.map Lexeme.token = some .semi ->
    ∀ behind, ReadsAgain machine production state value taken behind

/-- Lexemes that are read without errors do not end in a semicolon. -/
def Unterminated
    (machine : Machine P)
    (production : Production P α) : Prop :=
  ∀ ⦃state final value taken⦄, CleanRun machine production state value final taken ->
    taken.getLast?.map Lexeme.token ≠ some .semi

/-- What is read as a phrase is read again where the same lexeme follows. -/
theorem Reads.repeats
    {outer : Option (List Token)}
    {before : Progress}
    {post : α -> Progress -> List (Mention P) -> Prop}
    (reads : Reads machine ⟨outer, none, none⟩ production before post) :
    Repeats machine production := by
  intro state final value taken cleanRun lexeme rest rest' aheadEq other otherAhead sameDepth sameHeader
  obtain ⟨regular, run, reaches, clean⟩ := cleanRun
  obtain ⟨_, _, read, -, completes⟩ :=
    reads.completes state value final regular (fun _ member => nomatch member) run
  obtain rfl : taken = read :=
    List.append_cancel_right (reaches.ahead.symm.trans completes.ahead)
  exact completes.repeats clean lexeme rest aheadEq (fun _ member => nomatch member) other rest'
    otherAhead sameDepth sameHeader

/-- The brackets of what is read without errors are closed in it, if none is due behind it. -/
theorem Reads.closesBrackets
    {credit : Nat}
    {post : α -> Progress -> List (Mention P) -> Prop}
    (reads : Reads machine ⟨none, none, none⟩ production ⟨[], credit⟩ post)
    (closed : ∀ value after mentions, post value after mentions -> after.due = [])
    (cleanRun : CleanRun machine production state value final taken) :
    Brackets.Nested taken := by
  obtain ⟨regular, run, reaches, clean⟩ := cleanRun
  obtain ⟨⟨due, _⟩, _, read, holds, completes⟩ :=
    reads.completes state value final regular (fun _ member => nomatch member) run
  obtain rfl : due = [] := closed _ _ _ holds
  obtain rfl : taken = read :=
    List.append_cancel_right (reaches.ahead.symm.trans completes.ahead)
  exact completes.nested clean

theorem ReadsPhrase.closesBrackets
    {inside : Option (List Token) -> Prop}
    {need : Nat}
    {result : α -> Nat -> Nat -> List (Mention P) -> Prop}
    (isPhrase : ReadsPhrase machine inside need production result)
    (isInside : inside none)
    (cleanRun : CleanRun machine production state value final taken) :
    Brackets.Nested taken :=
  (isPhrase ⟨none, none, none⟩ need isInside (Nat.le_refl need)).closesBrackets
    (fun _ _ _ ⟨_, isAfter, _⟩ => isAfter ▸ rfl) cleanRun

theorem ReadsPhrase.repeats
    {inside : Option (List Token) -> Prop}
    {need : Nat}
    {result : α -> Nat -> Nat -> List (Mention P) -> Prop}
    (isPhrase : ReadsPhrase machine inside need production result)
    (isInside : inside none) :
    Repeats machine production :=
  (isPhrase ⟨none, none, none⟩ need isInside (Nat.le_refl need)).repeats

theorem Repeats.mark
    {token : Token}
    (notAtEnd : token ≠ .eof) :
    Repeats machine (Production.mark (P := P) token) := by
  intro state final value taken cleanRun lexeme rest rest' _ other aheadEq _ _
  obtain ⟨head, rfl, isToken, rfl, -⟩ := cleanRun.of_mark notAtEnd
  rw [Machine.run_mark, Cursor.token_of_ahead aheadEq, if_pos isToken, Cursor.pos,
    Cursor.peek_of_ahead aheadEq, ReadState.advance_eq_moved aheadEq]
  rfl

/-! ## Phrases that do not end in a semicolon -/

/-- Lexemes that are read without errors are some and end in another one than a semicolon. -/
def Closes
    (machine : Machine P)
    (production : Production P α) : Prop :=
  ∀ ⦃state final value taken⦄, CleanRun machine production state value final taken ->
    ∃ lexeme, taken.getLast? = some lexeme ∧ lexeme.token ≠ .semi

section

variable {next : α -> Production P β}

theorem Closes.unterminated (closes : Closes machine production) :
    Unterminated machine production := by
  intro state final value taken cleanRun
  obtain ⟨lexeme, last, notSemi⟩ := closes cleanRun
  rw [last]
  exact fun isSemi => notSemi (Option.some.inj isSemi)

namespace Unterminated

/-- A phrase that can stand anywhere does not end in a semicolon: it would be the shelter of nothing. -/
theorem of_anywhere
    {need : Nat}
    {result : α -> Nat -> Nat -> List (Mention P) -> Prop}
    (isPhrase : ReadsPhrase machine Anywhere need production result) :
    Unterminated machine production := by
  intro state final value taken cleanRun ends
  obtain ⟨regular, run, reaches, clean⟩ := cleanRun
  obtain ⟨_, _, read, ⟨_, rfl, -⟩, completes⟩ :=
    (isPhrase ⟨some [], none, none⟩ need trivial (Nat.le_refl need)).completes state value final
      regular (fun _ member => nomatch member) run
  obtain rfl : taken = read :=
    List.append_cancel_right (reaches.ahead.symm.trans completes.ahead)
  obtain ⟨shelter, _, aheadEq, -, -, last⟩ := completes.shelter [] rfl final.cursor.ahead
    ⟨taken, [], completes.ahead, completes.nested clean, List.nil_sublist _, ends⟩
  obtain rfl : shelter = [] := List.append_left_eq_self.1 aheadEq.symm
  cases last

theorem pure (value : α) : Unterminated machine (.pure value) := by
  intro state final _ taken cleanRun
  obtain ⟨-, rfl⟩ := Outcome.done.inj cleanRun.run
  rw [cleanRun.reaches.eq_nil]
  exact nofun

theorem build (parts : Except InvalidNode α) :
    Unterminated machine (Production.build (P := P) parts) := by
  cases parts with
  | ok node => exact pure node
  | error reason =>
      intro state final value taken cleanRun
      cases cleanRun.run

theorem mark?
    {token : Token}
    (notAtEnd : token ≠ .eof)
    (notSemi : token ≠ .semi) :
    Unterminated machine (Production.mark? (P := P) token) := by
  intro state final value taken ⟨_, run, reaches, _⟩
  rw [Machine.run_mark?] at run
  split at run
  · next isToken =>
      obtain ⟨-, rfl⟩ := Outcome.done.inj run
      obtain ⟨lexeme, rfl, sameToken⟩ := reaches.eq_singleton (isToken.trans_ne notAtEnd)
      rw [isToken] at sameToken
      exact fun isSemi => notSemi (sameToken.symm.trans (Option.some.inj isSemi))
  · obtain ⟨-, rfl⟩ := Outcome.done.inj run
    rw [reaches.eq_nil]
    exact nofun

theorem bind
    (start : Unterminated machine production)
    (rest : ∀ value, Unterminated machine (next value)) :
    Unterminated machine (production.bind next) := by
  intro state final result taken cleanRun
  obtain ⟨value, middle, front, back, rfl, startRun, restRun⟩ := cleanRun.exists_of_bind
  cases back with
  | nil =>
      rw [List.append_nil]
      exact start startRun
  | cons lexeme back =>
      rw [List.getLast?_append_cons]
      exact rest value restRun

theorem look
    {next : Cursor P -> Production P β}
    (rest : ∀ cursor, Unterminated machine (next cursor)) :
    Unterminated machine (Production.look.bind next) :=
  fun _ _ _ _ ⟨regular, run, reaches, clean⟩ => rest _ ⟨regular, run, reaches, clean⟩

theorem nested (inner : Unterminated machine production) :
    Unterminated machine (.nested production) :=
  fun _ _ _ _ cleanRun => inner cleanRun.of_nested.2

end Unterminated

namespace Closes

/-- A phrase that can stand anywhere and is not empty. -/
theorem of_anywhere
    {need : Nat}
    {outline : α -> List (Mention P)}
    {valid : α -> Prop}
    (isPhrase : ReadsPhrase machine Anywhere need production (Consumed outline valid)) :
    Closes machine production := by
  intro state final value taken cleanRun
  have unterminated := Unterminated.of_anywhere isPhrase cleanRun
  have consumes := Reads.consumed_lt isPhrase trivial cleanRun.regular cleanRun.run
  cases last : taken.getLast? with
  | none =>
      rw [cleanRun.reaches.consumed, List.getLast?_eq_none_iff.1 last] at consumes
      exact absurd consumes (Nat.lt_irrefl _)
  | some lexeme =>
      rw [last] at unterminated
      exact ⟨lexeme, rfl, fun isSemi => unterminated (congrArg some isSemi)⟩

theorem mark
    {token : Token}
    (notAtEnd : token ≠ .eof)
    (notSemi : token ≠ .semi) :
    Closes machine (Production.mark (P := P) token) := by
  intro state final value taken cleanRun
  obtain ⟨lexeme, rfl, isToken, -⟩ := cleanRun.of_mark notAtEnd
  exact ⟨lexeme, rfl, isToken.trans_ne notSemi⟩

/-- What comes first does not matter where something else comes behind it. -/
theorem behind (rest : ∀ value, Closes machine (next value)) :
    Closes machine (production.bind next) := by
  intro state final result taken cleanRun
  obtain ⟨value, middle, front, back, rfl, startRun, restRun⟩ := cleanRun.exists_of_bind
  obtain ⟨lexeme, last, notSemi⟩ := rest value restRun
  exact ⟨lexeme, by rw [List.getLast?_append, last, Option.some_or], notSemi⟩

theorem bind
    (start : Closes machine production)
    (rest : ∀ value, Unterminated machine (next value)) :
    Closes machine (production.bind next) := by
  intro state final result taken cleanRun
  obtain ⟨value, middle, front, back, rfl, startRun, restRun⟩ := cleanRun.exists_of_bind
  cases last : back.getLast? with
  | none =>
      rw [List.getLast?_eq_none_iff.1 last, List.append_nil]
      exact start startRun
  | some lexeme =>
      refine ⟨lexeme, by rw [List.getLast?_append, last, Option.some_or], fun isSemi => ?_⟩
      refine rest value restRun ?_
      rw [last]
      exact congrArg some isSemi

end Closes

end

namespace ReadsNonterminals

variable (nonterminals : ReadsNonterminals machine)

include nonterminals

/-! ## Statements without the end of their line -/

theorem elseBody_unterminated (ifStmt : Unterminated machine (.call .ifStmt)) :
    Unterminated machine Production.elseBody := by
  refine .look fun cursor => ?_
  split
  · exact .bind (.nested ifStmt) fun _ => .pure _
  · exact .bind (.of_anywhere nonterminals.block) fun _ => .pure _
  · intro state final value taken cleanRun
    cases cleanRun.run

theorem ifStmtRule_closes (ifStmt : Unterminated machine (.call .ifStmt)) :
    Closes machine Production.ifStmtRule := by
  refine .behind fun keyword => .behind fun (init, condition) => ?_
  refine .bind (.of_anywhere nonterminals.block) fun body => ?_
  refine .bind (.mark? (by decide) (by decide)) fun elseKeyword => ?_
  dsimp only
  split
  · exact .bind (nonterminals.elseBody_unterminated ifStmt) fun _ =>
      .bind (.pure _) fun _ => .build _
  · exact .bind (.pure _) fun _ => .build _

theorem forStmt_closes : Closes machine Production.forStmt := by
  refine .behind ?_
  intro _
  refine .behind ?_
  intro _
  exact .bind (.of_anywhere nonterminals.block) fun _ => .pure _

omit nonterminals in
theorem switchStmt_closes : Closes machine (Production.switchStmt (P := P)) := by
  refine .behind ?_
  intro keyword
  refine .behind ?_
  intro (init, subject)
  refine .behind ?_
  intro lBrace
  cases subject with
  | values tag => exact .behind fun _ => .bind (.mark (by decide) (by decide)) fun _ => .pure _
  | types guard => exact .behind fun _ => .bind (.mark (by decide) (by decide)) fun _ => .pure _

omit nonterminals in
theorem selectStmt_closes : Closes machine (Production.selectStmt (P := P)) := by
  refine .behind ?_
  intro _
  refine .behind ?_
  intro _
  refine .behind ?_
  intro _
  exact .bind (.mark (by decide) (by decide)) fun _ => .pure _

/-- A statement that its keyword introduces does not end in a semicolon. -/
theorem keywordStmt_unterminated
    {token : Token}
    {stmt : Production P (Stmt P)}
    (ifStmt : Unterminated machine (.call .ifStmt))
    (found : Production.keywordStmt token = some stmt) :
    Unterminated machine stmt := by
  cases isHeader : hasHeader token with
  | false => exact .of_anywhere (nonterminals.keywordStmt_anywhere token stmt found isHeader)
  | true =>
      obtain rfl | rfl | rfl | rfl := eq_of_hasHeader found isHeader
      · exact .bind ifStmt fun _ => .pure _
      · exact nonterminals.forStmt_closes.unterminated
      · exact switchStmt_closes.unterminated
      · exact selectStmt_closes.unterminated

end ReadsNonterminals

theorem ifStmt_unterminated (limit allowance : Nat) :
    Unterminated (ruleMachine (P := P) limit allowance) (.call .ifStmt) := by
  induction allowance with
  | zero =>
      intro state final value taken cleanRun
      cases cleanRun.run
  | succ allowance inductionHypothesis =>
      intro state final value taken ⟨regular, run, reaches, clean⟩
      exact ((readsNonterminals limit allowance).ifStmtRule_closes
        inductionHypothesis).unterminated ⟨regular, run, reaches, clean⟩

/-! ## Statements and the end of their line -/

namespace Settles

variable {next : α -> Production P β}

theorem exists_cons
    {lexemes : List (Lexeme P)}
    (ends : lexemes.getLast?.map Lexeme.token = some .semi) :
    ∃ head tail, lexemes = head :: tail := by
  cases lexemes with
  | nil => cases ends
  | cons head tail => exact ⟨head, tail, rfl⟩

/-- Behind a phrase that does not end in a semicolon, the rest decides. -/
theorem bind
    (startRepeats : Repeats machine production)
    (start : Unterminated machine production)
    (rest : ∀ value, Settles machine (next value)) :
    Settles machine (production.bind next) := by
  intro state final result taken cleanRun ends behind
  obtain ⟨value, middle, front, back, rfl, startRun, restRun⟩ := cleanRun.exists_of_bind
  cases back with
  | nil =>
      rw [List.append_nil] at ends
      exact absurd ends (start startRun)
  | cons lexeme back =>
      rw [List.getLast?_append_cons] at ends
      exact .bind startRun.reaches
        (startRepeats startRun lexeme (back ++ final.cursor.ahead) (back ++ behind)
          restRun.reaches.ahead)
        (rest value restRun ends behind)

theorem pure (value : α) : Settles machine (.pure value) :=
  fun _ _ _ _ cleanRun ends => absurd ends (Unterminated.pure value cleanRun)

theorem advance : Settles machine (Production.advance (P := P)) := by
  intro state final value taken ⟨_, run, reaches, _⟩ ends behind other aheadEq _ _
  obtain ⟨head, tail, rfl⟩ := exists_cons ends
  obtain ⟨rfl, rfl⟩ := Outcome.done.inj run
  obtain rfl := reaches.eq_nil_of_advance
  change Outcome.done other.cursor.peek { other with cursor := other.cursor.advance } = _
  rw [Cursor.peek_of_ahead aheadEq, Cursor.peek_of_ahead reaches.ahead,
    ReadState.advance_eq_moved aheadEq]
  rfl

/-- A look at the next lexeme. -/
theorem look
    {next : Cursor P -> Production P β}
    (peeks : ∀ first second : Cursor P, first.token = second.token -> first.pos = second.pos ->
      next first = next second)
    (rest : ∀ cursor, Settles machine (next cursor)) :
    Settles machine (Production.look.bind next) := by
  intro state final value taken ⟨regular, run, reaches, clean⟩ ends behind other aheadEq depth header
  obtain ⟨head, tail, rfl⟩ := exists_cons ends
  have samePeek : other.cursor.peek = state.cursor.peek := by
    rw [Cursor.peek_of_ahead aheadEq, Cursor.peek_of_ahead reaches.ahead]
  change machine.run (next other.cursor) other = _
  rw [peeks other.cursor state.cursor (congrArg Lexeme.token samePeek)
    (congrArg Lexeme.pos samePeek)]
  exact rest state.cursor ⟨regular, run, reaches, clean⟩ ends behind other aheadEq depth header

theorem map
    {change : α -> β}
    (inner : Settles machine production) :
    Settles machine (production.bind fun value => .pure (change value)) := by
  intro state final result taken cleanRun ends behind other aheadEq depth header
  obtain ⟨value, middle, front, back, rfl, startRun, restRun⟩ := cleanRun.exists_of_bind
  obtain ⟨rfl, rfl⟩ := Outcome.done.inj restRun.run
  rw [restRun.reaches.eq_nil, List.append_nil] at ends aheadEq ⊢
  change (machine.run production other).bind _ = _
  rw [inner startRun ends behind other aheadEq depth header]
  rfl

theorem nested (inner : Settles machine production) :
    Settles machine (.nested production) := by
  intro state final value taken cleanRun ends behind
  obtain ⟨shallow, innerRun⟩ := cleanRun.of_nested
  exact .nested shallow (inner innerRun ends behind)

theorem congr_run
    {other : Production P α}
    (same : ∀ state, machine.run production state = machine.run other state)
    (settles : Settles machine other) :
    Settles machine production := by
  intro state final value taken ⟨regular, run, reaches, clean⟩ ends behind again aheadEq depth header
  rw [same] at run ⊢
  exact settles ⟨regular, run, reaches, clean⟩ ends behind again aheadEq depth header

/-- The end of a line. -/
theorem semicolon : Settles machine (Production.semicolon (P := P)) := by
  intro state final value taken ⟨_, run, reaches, _⟩ ends behind other aheadEq _ _
  obtain ⟨head, tail, rfl⟩ := exists_cons ends
  obtain ⟨lexeme, rest, ahead, -, ⟨-, rfl⟩ | ⟨open', isSemi, finalAhead⟩⟩ :=
    Machine.semicolon_cases run
  · cases reaches.eq_nil
  · obtain ⟨rfl, restEq⟩ := List.cons.inj (reaches.ahead.symm.trans ahead)
    obtain rfl : tail = [] := List.append_left_eq_self.1 (restEq.trans finalAhead.symm)
    have token : other.cursor.token = .semi := (Cursor.token_of_ahead aheadEq).trans isSemi
    rw [Machine.run_semicolon, Cursor.atAny, token, if_neg (by decide), if_pos rfl]
    exact congrArg (Outcome.done ()) (ReadState.advance_eq_moved aheadEq)

/-- A phrase that does not end in a semicolon, and the end of its line. -/
theorem line
    (repeats : Repeats machine production)
    (unterminated : Unterminated machine production) :
    Settles machine (Production.line production) :=
  .bind repeats unterminated fun _ => .map .semicolon

end Settles

namespace ReadsNonterminals

variable (nonterminals : ReadsNonterminals machine)

include nonterminals

/-- A declaration among statements. -/
theorem declStmt_settles :
    Settles machine (Production.decl.bind fun decl => .pure (Tree.declStmt decl)) :=
  .map (.congr_run machine.run_decl
    (.line (nonterminals.declBody.repeats trivial) (.of_anywhere nonterminals.declBody)))

omit nonterminals in
/-- A labelled statement ends as the statement behind its label does. -/
theorem labeledTail_settles
    (stmt : Settles machine (.call .stmt))
    (label : ExprList P) :
    Settles machine (Production.labeledTail label) := by
  unfold Production.labeledTail
  split
  · next name _ =>
      have colon : Closes machine (Production.mark .colon) := .mark (by decide) (by decide)
      refine .bind (.mark (by decide)) colon.unterminated fun colon => ?_
      refine .look (fun first second sameToken samePos => ?_) fun cursor => ?_
      · rw [sameToken, samePos]
      · split
        · exact .map (.pure _)
        · exact .map (.nested stmt)
  · intro state final value taken cleanRun
    cases cleanRun.run

theorem exprLedStmt_settles (stmt : Settles machine (.call .stmt)) :
    Settles machine Production.exprLedStmt := by
  refine .bind (nonterminals.exprList.repeats trivial) (.of_anywhere nonterminals.exprList)
    fun exprs => ?_
  refine .look (fun first second same _ => ?_) fun cursor => ?_
  · rw [same]
  · split
    · exact labeledTail_settles stmt exprs
    · have tail := nonterminals.simpleTail exprs
      exact .bind (tail.repeats trivial) (.of_anywhere tail) fun _ => .map .semicolon

/-- A statement that ends in a semicolon depends on its lexemes alone. -/
theorem stmtRule_settles
    (ifStmt : Unterminated machine (.call .ifStmt))
    (stmt : Settles machine (.call .stmt)) :
    Settles machine Production.stmtRule := by
  refine .look (fun first second same _ => ?_) fun cursor => ?_
  · rw [same]
  · split
    · next stmt found =>
        exact .line ((nonterminals.keywordStmt _ stmt found).repeats nofun)
          (nonterminals.keywordStmt_unterminated ifStmt found)
    · split
      · exact nonterminals.declStmt_settles
      · exact nonterminals.declStmt_settles
      · exact nonterminals.declStmt_settles
      · exact .map .advance
      · split
        · exact nonterminals.exprLedStmt_settles stmt
        · intro state final value taken cleanRun
          cases cleanRun.run

end ReadsNonterminals

theorem stmt_settles (limit allowance : Nat) :
    Settles (ruleMachine (P := P) limit allowance) (.call .stmt) := by
  induction allowance with
  | zero =>
      intro state final value taken cleanRun
      cases cleanRun.run
  | succ allowance inductionHypothesis =>
      intro state final value taken ⟨regular, run, reaches, clean⟩
      exact (readsNonterminals limit allowance).stmtRule_settles (ifStmt_unterminated limit allowance)
        inductionHypothesis ⟨regular, run, reaches, clean⟩

end GoFront
