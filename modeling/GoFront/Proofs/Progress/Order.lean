import GoFront.Proofs.Lexing.Placement
import GoFront.Proofs.Places.Layout
import GoFront.Proofs.Reading.Nesting

/-!
# Reading in order

Reading never goes back. Each task ends where it began or further on, and each part of it is performed in
between; so the cursor only moves on, through phrases, failures and what is skipped behind them. An error
is recorded where the cursor stands, and therefore complaints come in the order of the text.
-/

namespace GoFront

variable {P : Type} {α : Type} {limit : Nat}

/-! ## Cursors that move on -/

namespace Cursor

/-- One cursor stands where another one does in the same text, or further on. -/
structure MovesTo (earlier later : Cursor P) : Prop where
  ahead : later.ahead <:+ earlier.ahead
  consumed : later.consumed + later.ahead.length = earlier.consumed + earlier.ahead.length
  stop : later.stop = earlier.stop

namespace MovesTo

theorem refl (cursor : Cursor P) : cursor.MovesTo cursor :=
  ⟨List.suffix_rfl, rfl, rfl⟩

end MovesTo

/-- The places of the lexemes ahead and of the end behind them. -/
def places (cursor : Cursor P) : List P :=
  cursor.ahead.map Lexeme.pos ++ [cursor.stop]

/-- The next lexeme stands at the first of the places ahead. -/
theorem places_eq_cons (cursor : Cursor P) : ∃ behind, cursor.places = cursor.pos :: behind := by
  unfold places pos peek
  cases cursor.ahead with
  | nil => exact ⟨[], rfl⟩
  | cons lexeme rest => exact ⟨_, rfl⟩

theorem MovesTo.places_suffix
    {earlier later : Cursor P}
    (moves : earlier.MovesTo later) :
    later.places <:+ earlier.places := by
  obtain ⟨⟨taken, aheadEq⟩, -, stopEq⟩ := moves
  exact ⟨taken.map Lexeme.pos, by simp [places, ← aheadEq, stopEq]⟩

end Cursor

theorem ReadState.Reaches.movesTo
    {state final : ReadState P}
    {taken : List (Lexeme P)}
    (reaches : state.Reaches taken final) :
    state.cursor.MovesTo final.cursor where
  ahead := ⟨taken, reaches.ahead.symm⟩
  consumed := by
    rw [reaches.consumed, reaches.ahead, List.length_append]
    omega
  stop := reaches.stop

/-- Wherever a run ends, it has moved on. -/
theorem Outcome.Sound.movesTo
    {state : ReadState P}
    {outcome : Outcome P α}
    (sound : outcome.Sound state)
    {final : ReadState P}
    (isFinal : final ∈ outcome.final?) :
    state.cursor.MovesTo final.cursor := by
  cases outcome with
  | exhausted => cases isFinal
  | done value last =>
      obtain rfl := Option.some.inj isFinal
      obtain ⟨_, reaches⟩ := sound
      exact reaches.movesTo
  | gaveUp last =>
      obtain rfl := Option.some.inj isFinal
      obtain ⟨_, reaches, _⟩ := sound
      exact reaches.movesTo

/-! ## Tasks -/

/-- A repetition that ends within its allowance ends in the same way on a larger one. -/
theorem Outcome.iterate_succ_of_final
    {step : α -> ReadState P -> Outcome P (Option α)}
    {allowance : Nat}
    {value : α}
    {state final : ReadState P}
    (isFinal : final ∈ (iterate step allowance value state).final?) :
    final ∈ (iterate step (allowance + 1) value state).final? := by
  induction allowance generalizing value state with
  | zero => cases isFinal
  | succ allowance inductionHypothesis =>
      rw [iterate] at isFinal ⊢
      cases first : step value state with
      | exhausted =>
          rw [first] at isFinal
          cases isFinal
      | gaveUp last =>
          rw [first] at isFinal
          exact isFinal
      | done next middle =>
          rw [first] at isFinal
          cases next with
          | none => exact isFinal
          | some next => exact inductionHypothesis isFinal

namespace Task

/-- The state in which a task ends, if its allowance lasts. -/
def final? (limit : Nat) (task : Task P) : Option (ReadState P) :=
  ((ruleMachine limit task.allowance).run task.production task.state).final?

/-- A task is performed forwards: it ends where it begins or further on, and so does each of its parts,
within the task. -/
structure MovesForward (limit : Nat) (task : Task P) : Prop where
  ends : ∀ final ∈ task.final? limit, task.state.cursor.MovesTo final.cursor
  begins : ∀ part, Starts limit task part -> task.state.cursor.MovesTo part.state.cursor
  within : ∀ part, Starts limit task part -> ∀ final ∈ task.final? limit,
    ∃ last ∈ part.final? limit, last.cursor.MovesTo final.cursor

theorem movesTo_of_final
    {task : Task P}
    {final : ReadState P}
    (isFinal : final ∈ task.final? limit) :
    task.state.cursor.MovesTo final.cursor :=
  (Machine.run_sound _ task.production task.state).movesTo isFinal

/-- A part begins where the task does or further on. -/
theorem Starts.begins
    {task part : Task P}
    (starts : Starts limit task part) :
    task.state.cursor.MovesTo part.state.cursor := by
  cases starts with
  | next next run =>
      obtain ⟨_, reaches⟩ := Machine.reaches_of_done run
      exact reaches.movesTo
  | again run =>
      obtain ⟨_, reaches⟩ := Machine.reaches_of_done run
      exact reaches.movesTo
  | _ => exact .refl _

/-- The end of a run whose state is changed back behind it. -/
theorem exists_of_mapState
    {outcome : Outcome P α}
    {change : ReadState P -> ReadState P}
    {final : ReadState P}
    (isFinal : final ∈ (outcome.mapState change).final?)
    (keeps : ∀ state, (change state).cursor = state.cursor) :
    ∃ last ∈ outcome.final?, last.cursor.MovesTo final.cursor := by
  cases outcome with
  | exhausted => cases isFinal
  | done value last | gaveUp last =>
      obtain rfl := Option.some.inj isFinal
      exact ⟨last, rfl, keeps last ▸ .refl _⟩

/-- The end of a run in front of others. -/
theorem exists_of_bind
    {β : Type}
    {outcome : Outcome P α}
    {next : α -> ReadState P -> Outcome P β}
    {final : ReadState P}
    (isFinal : final ∈ (outcome.bind next).final?)
    (moves : ∀ value middle, final ∈ (next value middle).final? ->
      middle.cursor.MovesTo final.cursor) :
    ∃ last ∈ outcome.final?, last.cursor.MovesTo final.cursor := by
  cases outcome with
  | exhausted => cases isFinal
  | gaveUp last => exact ⟨final, isFinal, .refl _⟩
  | done value middle => exact ⟨middle, rfl, moves value middle isFinal⟩

/-- The end of a run that is resumed behind a failure. -/
theorem exists_of_recovering
    {machine : Machine P}
    {recovery : Recovery}
    {body : Production P α}
    {state final : ReadState P}
    (isFinal : final ∈ (machine.run (.recovering recovery body) state).final?) :
    ∃ last ∈ (machine.run body state).final?, last.cursor.MovesTo final.cursor := by
  rw [Machine.run_recovering] at isFinal
  cases run : machine.run body state with
  | exhausted =>
      rw [run] at isFinal
      cases isFinal
  | done value last =>
      rw [run] at isFinal
      exact ⟨final, isFinal, .refl _⟩
  | gaveUp failed =>
      rw [run] at isFinal
      obtain rfl := Option.some.inj isFinal
      obtain ⟨_, resumes⟩ := ReadState.Reaches.resume recovery state.cursor.consumed failed
      exact ⟨failed, rfl, resumes.movesTo⟩

/-- The end of the first step of a repetition. -/
theorem exists_of_iterate
    {machine : Machine P}
    {step : α -> Production P (Option α)}
    {value : α}
    {repetitions : Nat}
    {state final : ReadState P}
    (isFinal : final
      ∈ (Outcome.iterate (fun value => machine.run (step value)) repetitions value state).final?) :
    ∃ last ∈ (machine.run (step value) state).final?, last.cursor.MovesTo final.cursor := by
  cases repetitions with
  | zero => cases isFinal
  | succ repetitions =>
      rw [ReadsStep.iterate_succ] at isFinal
      refine exists_of_bind isFinal fun next middle ends => ?_
      cases next with
      | none =>
          obtain rfl := Option.some.inj ends
          exact .refl _
      | some next =>
          exact (Outcome.Sound.iterate (fun value => machine.run_sound (step value)) repetitions next
            middle).movesTo ends

/-- A part ends where the task does or before that. -/
theorem Starts.within
    {task part : Task P}
    (starts : Starts limit task part)
    {final : ReadState P}
    (isFinal : final ∈ task.final? limit) :
    ∃ last ∈ part.final? limit, last.cursor.MovesTo final.cursor := by
  cases starts with
  | @first α β allowance state first next =>
      change final ∈ (((ruleMachine limit allowance).run first state).bind _).final? at isFinal
      exact exists_of_bind isFinal fun value middle ends =>
        (Machine.run_sound _ (next value) middle).movesTo ends
  | @next α β allowance state middle value first next run =>
      change final ∈ (((ruleMachine limit allowance).run first state).bind _).final? at isFinal
      rw [run] at isFinal
      exact ⟨final, isFinal, .refl _⟩
  | @nested α allowance state body allowed =>
      have run : (ruleMachine limit allowance).run (.nested body) state
          = ((ruleMachine limit allowance).run body { state with depth := state.depth + 1 }).mapState
            fun state => { state with depth := state.depth - 1 } :=
        if_neg (Nat.not_le.2 allowed)
      unfold final? at isFinal
      dsimp only at isFinal
      rw [run] at isFinal
      exact exists_of_mapState isFinal fun _ => rfl
  | @inHeader α allowance state inside body =>
      change final ∈ (((ruleMachine limit allowance).run body
        { state with inHeader := inside }).mapState _).final? at isFinal
      exact exists_of_mapState isFinal fun _ => rfl
  | recovering => exact exists_of_recovering isFinal
  | step => exact exists_of_iterate isFinal
  | @again α allowance state middle value next step run =>
      change final ∈ (Outcome.iterate (fun value => (ruleMachine limit allowance).run (step value))
        allowance value state).final? at isFinal
      refine ⟨final, ?_, .refl _⟩
      change final ∈ (Outcome.iterate (fun value => (ruleMachine limit allowance).run (step value))
        allowance next middle).final?
      cases allowance with
      | zero => cases isFinal
      | succ allowance =>
          rw [Outcome.iterate, run] at isFinal
          exact Outcome.iterate_succ_of_final isFinal
  | rule nonterminal => exact ⟨final, isFinal, .refl _⟩

theorem movesForward (task : Task P) : task.MovesForward limit where
  ends _ := movesTo_of_final
  begins _ := Starts.begins
  within _ starts _ := starts.within

end Task

/-- Reading a sequence of lexemes never goes back: every task on the way is performed forwards. -/
def Production.ReadsForward
    (limit : Nat)
    (production : Production P α)
    (lexemes : List (Lexeme P))
    (stop : P) : Prop :=
  ∀ part, (production.task lexemes stop).Performs limit part -> part.MovesForward limit

/-! ## What reading keeps -/

/-- A property of the cursor and the errors that remains when the cursor moves on and when an error is
recorded. -/
structure ReadState.Lasting (holds : ReadState P -> Prop) : Prop where
  moves : ∀ {state final : ReadState P}, holds state -> state.cursor.MovesTo final.cursor ->
    final.errors = state.errors -> holds final
  record : ∀ {state : ReadState P} (cause : SyntaxCause), holds state -> holds (state.record cause)

namespace ReadState.Lasting

variable {holds : ReadState P -> Prop}

/-- A property holds wherever an outcome ends. -/
def AtEnd (holds : ReadState P -> Prop) (outcome : Outcome P α) : Prop :=
  ∀ final ∈ outcome.final?, holds final

theorem atEnd_bind
    {β : Type}
    {outcome : Outcome P α}
    {next : α -> ReadState P -> Outcome P β}
    (first : AtEnd holds outcome)
    (rest : ∀ value middle, holds middle -> AtEnd holds (next value middle)) :
    AtEnd holds (outcome.bind next) := by
  cases outcome with
  | exhausted => rintro _ ⟨⟩
  | gaveUp last => exact first
  | done value middle => exact rest value middle (first middle rfl)

theorem atEnd_iterate
    {step : α -> ReadState P -> Outcome P (Option α)}
    (steps : ∀ value state, holds state -> AtEnd holds (step value state))
    (allowance : Nat)
    (value : α)
    (state : ReadState P)
    (before : holds state) :
    AtEnd holds (Outcome.iterate step allowance value state) := by
  induction allowance generalizing value state with
  | zero => rintro _ ⟨⟩
  | succ allowance inductionHypothesis =>
      refine atEnd_bind (steps value state before) fun next middle between => ?_
      cases next with
      | none =>
          rintro _ ⟨⟩
          exact between
      | some next => exact inductionHypothesis next middle between

variable (lasting : Lasting holds)

include lasting

/-- A change of what does not matter. -/
theorem change
    {state final : ReadState P}
    (before : holds state)
    (sameCursor : final.cursor = state.cursor)
    (sameErrors : final.errors = state.errors) :
    holds final :=
  lasting.moves before (sameCursor ▸ .refl _) sameErrors

theorem atEnd_mapState
    {outcome : Outcome P α}
    {change : ReadState P -> ReadState P}
    (atEnd : AtEnd holds outcome)
    (sameCursor : ∀ state, (change state).cursor = state.cursor)
    (sameErrors : ∀ state, (change state).errors = state.errors) :
    AtEnd holds (outcome.mapState change) := by
  cases outcome with
  | exhausted => rintro _ ⟨⟩
  | done value last | gaveUp last =>
      rintro _ ⟨⟩
      exact lasting.change (atEnd last rfl) (sameCursor last) (sameErrors last)

/-- Every run keeps the property if the readers of nonterminals do. -/
theorem run
    {limit allowance : Nat}
    {reader : Reader P}
    (nonterminals : ∀ nonterminal state, holds state -> AtEnd holds (reader nonterminal state))
    {α : Type}
    (production : Production P α)
    (state : ReadState P)
    (before : holds state) :
    AtEnd holds (production.run limit allowance reader state) := by
  induction production generalizing state with
  | pure value =>
      rintro _ ⟨⟩
      exact before
  | look =>
      rintro _ ⟨⟩
      exact before
  | header =>
      rintro _ ⟨⟩
      exact before
  | bind first next firstHypothesis nextHypothesis =>
      exact atEnd_bind (firstHypothesis state before) nextHypothesis
  | advance =>
      rintro _ ⟨⟩
      obtain ⟨_, reaches⟩ := ReadState.Reaches.advance state
      exact lasting.moves before reaches.movesTo rfl
  | report cause =>
      rintro _ ⟨⟩
      exact lasting.record cause before
  | refuse cause =>
      rintro _ ⟨⟩
      exact lasting.record cause before
  | nested body bodyHypothesis =>
      rw [Production.run]
      split
      · rintro _ ⟨⟩
        exact lasting.record _ before
      · exact lasting.atEnd_mapState (bodyHypothesis _ (lasting.change before rfl rfl))
          (fun _ => rfl) fun _ => rfl
  | inHeader inside body bodyHypothesis =>
      exact lasting.atEnd_mapState (bodyHypothesis _ (lasting.change before rfl rfl))
        (fun _ => rfl) fun _ => rfl
  | recovering recovery body bodyHypothesis =>
      have atEnd := bodyHypothesis state before
      rw [Production.run]
      cases run : body.run limit allowance reader state with
      | exhausted => rintro _ ⟨⟩
      | done value last =>
          rw [run] at atEnd
          exact atEnd
      | gaveUp failed =>
          rw [run] at atEnd
          rintro _ ⟨⟩
          obtain ⟨_, resumes⟩ := ReadState.Reaches.resume recovery state.cursor.consumed failed
          exact lasting.moves (atEnd failed rfl) resumes.movesTo rfl
  | iterate step start stepHypothesis =>
      exact atEnd_iterate stepHypothesis allowance start state before
  | call nonterminal => exact nonterminals nonterminal state before

theorem read
    (limit allowance : Nat)
    (nonterminal : Nonterminal)
    (state : ReadState P)
    (before : holds state) :
    AtEnd holds (Nonterminal.read limit allowance nonterminal state) := by
  induction allowance generalizing nonterminal state with
  | zero => rintro _ ⟨⟩
  | succ allowance inductionHypothesis =>
      exact lasting.run inductionHypothesis nonterminal.rule state before

/-- What holds in front of a text holds wherever reading it ends. -/
theorem readFrom
    {production : Production P α}
    {lexemes : List (Lexeme P)}
    {stop : P}
    (before : holds (.start lexemes stop)) :
    AtEnd holds (production.readFrom limit lexemes stop) :=
  lasting.run (lasting.read limit _) production _ before

end ReadState.Lasting

/-! ## Errors in order -/

/-- Errors stand at places of a text, in order, none of them behind the cursor. The latest error comes
first. -/
structure ReadState.InOrder (inFront : P -> P -> Prop) (places : List P) (state : ReadState P) : Prop where
  ahead : state.cursor.places <:+ places
  placed : ∀ error ∈ state.errors, error.pos ∈ places
  ordered : state.errors.Pairwise fun later earlier => inFront earlier.pos later.pos
  passed : ∀ error ∈ state.errors, ∀ place ∈ state.cursor.places, inFront error.pos place

theorem ReadState.InOrder.start
    {inFront : P -> P -> Prop}
    (lexemes : List (Lexeme P))
    (stop : P) :
    ReadState.InOrder inFront (lexemes.map Lexeme.pos ++ [stop]) (.start lexemes stop) :=
  ⟨List.suffix_rfl, List.forall_mem_nil _, .nil, List.forall_mem_nil _⟩

theorem ReadState.InOrder.lasting
    {inFront : P -> P -> Prop}
    {places : List P}
    (same : ∀ place, inFront place place)
    (sorted : places.Pairwise inFront) :
    ReadState.Lasting (ReadState.InOrder inFront places) where
  moves := by
    intro state final before moves sameErrors
    have fewer := moves.places_suffix
    refine ⟨fewer.trans before.ahead, ?_, ?_, ?_⟩ <;> rw [sameErrors]
    · exact before.placed
    · exact before.ordered
    · exact fun error member place isAhead => before.passed error member place (fewer.subset isAhead)
  record := by
    intro state cause before
    obtain ⟨behind, placesEq⟩ := state.cursor.places_eq_cons
    have isAhead : state.cursor.pos ∈ state.cursor.places := placesEq ▸ List.mem_cons_self
    have first : ∀ place ∈ state.cursor.places, inFront state.cursor.pos place := by
      have aheadSorted := sorted.sublist before.ahead.sublist
      rw [placesEq] at aheadSorted ⊢
      exact List.forall_mem_cons.2 ⟨same _, (List.pairwise_cons.1 aheadSorted).1⟩
    refine ⟨before.ahead, ?_, ?_, ?_⟩
    · exact List.forall_mem_cons.2 ⟨before.ahead.subset isAhead, before.placed⟩
    · exact List.pairwise_cons.2
        ⟨fun error member => before.passed error member _ isAhead, before.ordered⟩
    · exact List.forall_mem_cons.2 ⟨first, before.passed⟩

/-! ## Complaints in order -/

/-- The lexemes of a text and its end stand at offsets that never decrease. -/
theorem pairwise_code (source : String) (filename : Option String) :
    ((lex source filename).code.map Lexeme.pos).Pairwise
      fun earlier later => earlier.offset ≤ later.offset := by
  have shown {earlier later : Place} (before : earlier.offset ≤ later.offset) :
      (earlier.position filename).offset ≤ (later.position filename).offset :=
    min_le_min before le_rfl
  have ordered := Piece.pairwise_lexemes .start false _ (Piece.spelledByKind_of_mem_all source.toList)
  have lexemes : ((lex source filename).lexemes.map Lexeme.pos).Pairwise
      fun earlier later => earlier.offset ≤ later.offset := by
    rw [(lex_eq_map source filename).1, List.map_map, List.pairwise_map]
    exact ordered.imp fun before => shown (Nat.le_of_lt before)
  rw [Lexed.code_eq, List.map_append]
  refine List.pairwise_append.2 ⟨?_, List.pairwise_singleton _ _, ?_⟩
  · exact lexemes.sublist (List.filter_sublist.map _)
  · intro place member stop isStop
    obtain rfl := List.mem_singleton.1 isStop
    obtain ⟨shownLexeme, isShown, rfl⟩ := List.mem_map.1 member
    replace isShown := List.mem_of_mem_filter isShown
    rw [(lex_eq_map source filename).1] at isShown
    obtain ⟨lexeme, isLexeme, rfl⟩ := List.mem_map.1 isShown
    obtain ⟨front, back, textEq, posEq⟩ :=
      Piece.pos_of_mem_stream _ _ _ _ (Event.mem_of_lexeme? isLexeme)
    rw [Piece.flatMap_text_all] at textEq
    refine shown ?_
    have posEq : lexeme.pos = Place.start.after front := posEq
    rw [posEq, Place.offset_after, Place.offset_after, textEq, byteCount_append]
    omega

namespace Parsed

variable {β : Type}

/-- Complaints are syntax errors at lexemes of a text other than comments, or at its end, in the order of
the text. -/
structure ComplainsInOrder (lexed : Lexed Position) (parsed : Parsed α) : Prop where
  placed : ∀ diagnostic ∈ parsed.diagnostics, ∃ error, diagnostic = .grammatical error
    ∧ ∃ lexeme ∈ lexed.code, error.pos = lexeme.pos
  ordered : parsed.diagnostics.Pairwise fun earlier later => earlier.pos.offset ≤ later.pos.offset

theorem complainsInOrder_ofLexed
    {production : Production Position α}
    {finish : α -> Option β}
    {lexed : Lexed Position}
    (noErrors : lexed.hasErrors = false)
    (sorted : (lexed.code.map Lexeme.pos).Pairwise fun earlier later =>
      earlier.offset ≤ later.offset) :
    (ofLexed limit production finish lexed).ComplainsInOrder lexed := by
  have answer : ofLexed limit production finish lexed
      = ofOutcome finish (production.readFrom limit lexed.significant lexed.stop) :=
    if_neg (by simp [noErrors])
  have lasting := ReadState.InOrder.lasting (fun place => Nat.le_refl place.offset) sorted
  have atStart : ReadState.InOrder (fun earlier later => earlier.offset ≤ later.offset)
      (lexed.code.map Lexeme.pos) (.start lexed.significant lexed.stop) := by
    rw [Lexed.code_eq, List.map_append]
    exact .start _ _
  have atEnd : ReadState.Lasting.AtEnd _ (production.readFrom limit lexed.significant lexed.stop) :=
    lasting.readFrom atStart
  have tells {final : ReadState Position} (inOrder : final.InOrder
      (fun earlier later => earlier.offset ≤ later.offset) (lexed.code.map Lexeme.pos))
      (tree : Option β) :
      ComplainsInOrder lexed ⟨tree, final.errors.reverse.map .grammatical⟩ := by
    constructor
    · refine List.forall_mem_map.2 fun error member => ⟨error, rfl, ?_⟩
      obtain ⟨lexeme, isCode, posEq⟩ :=
        List.mem_map.1 (inOrder.placed error (List.mem_reverse.1 member))
      exact ⟨lexeme, isCode, posEq.symm⟩
    · exact List.pairwise_map.2 (List.pairwise_reverse.2 inOrder.ordered)
  rw [answer]
  cases run : production.readFrom limit lexed.significant lexed.stop with
  | exhausted => exact ⟨List.forall_mem_nil _, .nil⟩
  | gaveUp final =>
      rw [run] at atEnd
      exact tells (atEnd final rfl) none
  | done value final =>
      rw [run] at atEnd
      exact tells (atEnd final rfl) (finish value)

end Parsed

/-- Complaints come in the order of the text: reading a text never goes back, whatever fails and is
skipped on the way, and what it complains about are lexemes of the text, none of them in front of one that
was complained about before. -/
theorem complaints_come_in_order
    (limit : Nat)
    (source : String)
    (filename : Option String)
    (noErrors : (lex source filename).hasErrors = false) :
    (Production.file.ReadsForward limit (lex source filename).significant (lex source filename).stop
        ∧ (parseFileWithin limit source filename).ComplainsInOrder (lex source filename))
      ∧ Production.singleDecl.ReadsForward limit (lex source filename).significant
          (lex source filename).stop
        ∧ (parseDeclWithin limit source filename).ComplainsInOrder (lex source filename) := by
  have sorted := pairwise_code source filename
  exact ⟨⟨fun part _ => part.movesForward, Parsed.complainsInOrder_ofLexed noErrors sorted⟩,
    fun part _ => part.movesForward, Parsed.complainsInOrder_ofLexed noErrors sorted⟩

/-- A declaration that is skipped, a statement that is skipped, and what is missing at the end. -/
theorem complaints_come_in_order_recovered :
    (lex "package p\nvar = 1\nfunc f() \x7b if \x7d\nx 1\n" none).hasErrors = false
      ∧ (parseFileWithin 9 "package p\nvar = 1\nfunc f() \x7b if \x7d\nx 1\n" none).diagnostics.map
          (fun diagnostic => diagnostic.pos.offset) = [14, 32, 34]
      ∧ (parseFileWithin 9 "package p\nvar = 1\nfunc f() \x7b if \x7d\nx 1\n" none).ComplainsInOrder
          (lex "package p\nvar = 1\nfunc f() \x7b if \x7d\nx 1\n" none) := by
  have noErrors : (lex "package p\nvar = 1\nfunc f() \x7b if \x7d\nx 1\n" none).hasErrors = false := by
    decide +kernel
  exact ⟨noErrors, by decide +kernel, (complaints_come_in_order 9 _ none noErrors).1.2⟩

end GoFront
