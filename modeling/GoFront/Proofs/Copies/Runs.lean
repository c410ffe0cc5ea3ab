import GoFront.Proofs.Copies.Texts
import GoFront.Proofs.Reading.Parses

/-!
# Runs on copies

A run is repeated on a copy of the text. If nothing is asked for, it ends in the same way, errors and all.
Otherwise a run without errors ends without errors on the copy, too, and yields a copy of what it yields on
the text.
-/

namespace GoFront

variable {P Q : Type} {α β γ δ : Type}

/-! ## Copied outcomes -/

/-- An outcome is repeated on a copy. Of runs with errors that is said only if nothing is asked for, and of
runs for which the allowance did not last nothing is said. -/
def Outcome.Copied
    (copying : Copying P Q)
    (copy : α -> β)
    (start : ReadState P) : Outcome P α -> Outcome Q β -> Prop
  | .done value final, other =>
      copying.Faithful ∨ final.errors = start.errors ->
        OnlyAsserted copying.asks final.cursor.ahead ∧ other = .done (copy value) (copying.state final)
  | .gaveUp final, other => copying.Faithful -> other = .gaveUp (copying.state final)
  | .exhausted, _ => True

namespace Outcome.Copied

variable {copying : Copying P Q} {copy : α -> β} {further : γ -> δ} {start : ReadState P}

/-- Errors of the first part are still there behind the second. -/
theorem bind
    {first : Outcome P α}
    {other : Outcome Q β}
    {next : α -> ReadState P -> Outcome P γ}
    {next' : β -> ReadState Q -> Outcome Q δ}
    (isSound : first.Sound start)
    (areSound : ∀ value middle, (next value middle).Sound middle)
    (copied : Copied copying copy start first other)
    (rest : ∀ value middle, first = .done value middle ->
      copying.Faithful ∨ middle.errors = start.errors -> OnlyAsserted copying.asks middle.cursor.ahead ->
      Copied copying further middle (next value middle) (next' (copy value) (copying.state middle))) :
    Copied copying further start (first.bind next) (other.bind next') := by
  cases first with
  | exhausted => trivial
  | gaveUp final =>
      intro faithful
      rw [copied faithful]
      rfl
  | done value middle =>
      obtain ⟨_, front⟩ := isSound
      have restSound := areSound value middle
      change Copied copying further start (next value middle) _
      cases run : next value middle with
      | exhausted => trivial
      | gaveUp final =>
          intro faithful
          obtain ⟨only, rfl⟩ := copied (.inl faithful)
          have restCopied := rest value middle rfl (.inl faithful) only
          rw [run] at restCopied
          exact restCopied faithful
      | done result final =>
          intro clean
          rw [run] at restSound
          obtain ⟨_, back⟩ := restSound
          have bothClean : copying.Faithful
              ∨ middle.errors = start.errors ∧ final.errors = middle.errors := by
            refine clean.imp_right fun clean => ?_
            have same : start.errors = middle.errors :=
              front.errors.eq_of_length_le (clean ▸ back.errors.length_le)
            exact ⟨same.symm, clean.trans same⟩
          have frontClean := bothClean.imp_right And.left
          obtain ⟨only, rfl⟩ := copied frontClean
          have restCopied := rest value middle rfl frontClean only
          rw [run] at restCopied
          exact restCopied (bothClean.imp_right And.right)

/-- Nothing is said of a phrase with errors if something is asked for. -/
theorem of_unclean
    {first : Outcome P α}
    {other : Outcome Q β}
    (unfaithful : ¬copying.Faithful)
    (unclean : ∀ value final, first = .done value final -> final.errors ≠ start.errors) :
    Copied copying copy start first other := by
  cases first with
  | exhausted => trivial
  | gaveUp final => exact fun faithful => absurd faithful unfaithful
  | done value final => exact fun clean => absurd (clean.resolve_left unfaithful) (unclean value final rfl)

theorem mapState
    {entered : ReadState P}
    {first : Outcome P α}
    {other : Outcome Q β}
    {change : ReadState P -> ReadState P}
    {change' : ReadState Q -> ReadState Q}
    (copied : Copied copying copy entered first other)
    (sameErrors : entered.errors = start.errors)
    (keeps : ∀ state, (change state).cursor = state.cursor ∧ (change state).errors = state.errors)
    (same : ∀ state, change' (copying.state state) = copying.state (change state)) :
    Copied copying copy start (first.mapState change) (other.mapState change') := by
  cases first with
  | exhausted => trivial
  | gaveUp final =>
      intro faithful
      obtain rfl : other = _ := copied faithful
      exact congrArg gaveUp (same final)
  | done value final =>
      intro clean
      obtain ⟨only, rfl⟩ := copied (clean.imp_right fun clean => by
        rw [sameErrors, ← clean, (keeps final).2])
      refine ⟨?_, congrArg (done (copy value)) (same final)⟩
      rw [(keeps final).1]
      exact only

/-- A larger allowance does not change a loop that comes to its end. -/
theorem iterate
    {step : α -> ReadState P -> Outcome P (Option α)}
    {step' : β -> ReadState Q -> Outcome Q (Option β)}
    {allowance larger : Nat}
    (enough : allowance ≤ larger)
    (areSound : ∀ value state, (step value state).Sound state)
    (steps : ∀ value state, OnlyAsserted copying.asks state.cursor.ahead ->
      Copied copying (Option.map copy) state (step value state)
        (step' (copy value) (copying.state state)))
    (value : α)
    (only : OnlyAsserted copying.asks start.cursor.ahead) :
    Copied copying copy start (Outcome.iterate step allowance value start)
      (Outcome.iterate step' larger (copy value) (copying.state start)) := by
  induction allowance generalizing larger value start with
  | zero => trivial
  | succ allowance inductionHypothesis =>
      obtain ⟨more, rfl⟩ : ∃ more, larger = more + 1 := ⟨larger - 1, by omega⟩
      refine bind (areSound value start) ?_ (steps value start only) ?_
      · intro next middle
        cases next with
        | none => exact ⟨[], .refl middle⟩
        | some next => exact Outcome.Sound.iterate areSound allowance next middle
      · intro next middle _ _ middleOnly
        cases next with
        | none => exact fun _ => ⟨middleOnly, rfl⟩
        | some next => exact inductionHypothesis (Nat.le_of_succ_le_succ enough) next middleOnly

end Outcome.Copied

/-! ## Copied productions -/

/-- A copy of what a nonterminal yields. -/
def Nonterminal.copy
    (asks : P -> Bool)
    (place : P -> Q) :
    (nonterminal : Nonterminal) -> nonterminal.Result P -> nonterminal.Result Q
  | type => Option.map (Tree.copy asks place)
  | expr _ | unary | block | stmt | ifStmt => Tree.copy asks place
  | literalBody => LiteralBody.copy asks place

/-- A copy of a text, and allowances for the text and for the copy on which nonterminals of the text are
read as they are of the copy. -/
structure Copier (P Q : Type) extends Copying P Q where
  limit : Nat
  allowance : Nat
  larger : Nat
  enough : allowance ≤ larger
  reads : ∀ nonterminal state, OnlyAsserted asks state.cursor.ahead ->
    Outcome.Copied toCopying (nonterminal.copy asks place) state
      (Nonterminal.read limit allowance nonterminal state)
      (Nonterminal.read limit larger nonterminal (toCopying.state state))

namespace Copier

/-- How the text is read. -/
abbrev first (copier : Copier P Q) : Machine P :=
  ruleMachine copier.limit copier.allowance

/-- How the copy is read. -/
abbrev second (copier : Copier P Q) : Machine Q :=
  ruleMachine copier.limit copier.larger

end Copier

/-- Every run of a production in front of a token is repeated on the copy by another production. -/
def Copies
    (copier : Copier P Q)
    (head : Token)
    (copy : α -> β)
    (production : Production P α)
    (other : Production Q β) : Prop :=
  ∀ state, state.cursor.token = head -> OnlyAsserted copier.asks state.cursor.ahead ->
    Outcome.Copied copier.toCopying copy state (copier.first.run production state)
      (copier.second.run other (copier.state state))

namespace Copies

variable {copier : Copier P Q} {head : Token} {copy : α -> β} {further : γ -> δ}

theorem pure
    {value : α}
    {other : β}
    (same : other = copy value) :
    Copies copier head copy (.pure value) (.pure other) := by
  subst same
  intro state _ only _
  exact ⟨only, rfl⟩

/-- What is read without errors is known of it for what follows. -/
theorem bind_known
    {first : Production P α}
    {first' : Production Q β}
    {next : α -> Production P γ}
    {next' : β -> Production Q δ}
    (start : Copies copier head copy first first')
    (known : α -> Prop)
    (isKnown : ∀ state value final, OnlyAsserted copier.asks state.cursor.ahead ->
      copier.Faithful ∨ Production.Parses copier.limit first state value final -> known value)
    (rest : ∀ value {behind}, known value ->
      Copies copier behind further (next value) (next' (copy value))) :
    Copies copier head further (.bind first next) (.bind first' next') := by
  intro state here only
  refine Outcome.Copied.bind (copier.first.run_sound first state)
    (fun value => copier.first.run_sound (next value)) (start state here only) ?_
  intro value middle run clean
  have isRead : copier.Faithful ∨ Production.Parses copier.limit first state value middle.cursor :=
    clean.imp_right fun clean => .of_run run clean
  exact rest value (isKnown state value middle.cursor only isRead) middle rfl

theorem bind
    {first : Production P α}
    {first' : Production Q β}
    {next : α -> Production P γ}
    {next' : β -> Production Q δ}
    (start : Copies copier head copy first first')
    (rest : ∀ value {behind}, Copies copier behind further (next value) (next' (copy value))) :
    Copies copier head further (.bind first next) (.bind first' next') :=
  start.bind_known (fun _ => True) (fun _ _ _ _ _ => trivial) fun value _ _ => rest value

theorem pure_bind
    {value : α}
    {value' : β}
    {next : α -> Production P γ}
    {next' : β -> Production Q δ}
    (rest : Copies copier head further (next value) (next' value')) :
    Copies copier head further (.bind (.pure value) next) (.bind (.pure value') next') :=
  rest

theorem bind_assoc
    {α' β' : Type}
    {first : Production P α'}
    {first' : Production Q β'}
    {middle : α' -> Production P α}
    {middle' : β' -> Production Q β}
    {next : α -> Production P γ}
    {next' : β -> Production Q δ}
    (copies : Copies copier head further (first.bind fun value => (middle value).bind next)
      (first'.bind fun value => (middle' value).bind next')) :
    Copies copier head further ((first.bind middle).bind next) ((first'.bind middle').bind next') := by
  intro state here only
  have copied := copies state here only
  change Outcome.Copied _ _ _
    (((copier.first.run first state).bind fun value => copier.first.run (middle value)).bind
      fun value => copier.first.run (next value))
    (((copier.second.run first' (copier.state state)).bind
      fun value => copier.second.run (middle' value)).bind fun value => copier.second.run (next' value))
  rw [Outcome.bind_assoc, Outcome.bind_assoc]
  exact copied

/-- A look at the lexemes ahead. -/
theorem look
    {next : Cursor P -> Production P γ}
    {next' : Cursor Q -> Production Q δ}
    (rest : ∀ cursor, cursor.token = head -> OnlyAsserted copier.asks cursor.ahead ->
      Copies copier head further (next cursor) (next' (copier.cursor cursor))) :
    Copies copier head further (.bind .look next) (.bind .look next') :=
  fun state here only => rest state.cursor here only state here only

/-- A look at the next token. -/
theorem lookToken
    {next : Cursor P -> Production P γ}
    {next' : Cursor Q -> Production Q δ}
    (rest : ∀ cursor cursor', cursor.token = head -> cursor'.token = head ->
      Copies copier head further (next cursor) (next' cursor')) :
    Copies copier head further (.bind .look next) (.bind .look next') := by
  refine look ?_
  intro cursor here only
  exact rest cursor _ here ((Copying.token_cursor only).trans here)

theorem header
    {next : Bool -> Production P γ}
    {next' : Bool -> Production Q δ}
    (rest : ∀ inside, Copies copier head further (next inside) (next' inside)) :
    Copies copier head further (.bind .header next) (.bind .header next') :=
  fun state => rest state.inHeader state

/-- A token other than a point can be passed. -/
theorem advance (notPoint : head ≠ .dot) :
    Copies copier head (Lexeme.map copier.place) .advance .advance := by
  intro state here only _
  refine ⟨Copying.onlyAsserted_advance only fun isPoint => absurd (here.symm.trans isPoint) notPoint, ?_⟩
  change Outcome.done _ _ = Outcome.done _ _
  congr 1
  · exact Copying.peek_cursor only
  · exact congrArg (fun cursor => (⟨cursor, _, _, _⟩ : ReadState Q)) (Copying.advance_cursor state.cursor)

theorem record_state
    (copying : Copying P Q)
    (state : ReadState P)
    (cause : SyntaxCause)
    (only : OnlyAsserted copying.asks state.cursor.ahead) :
    (copying.state state).record cause = copying.state (state.record cause) := by
  have samePos : (copying.cursor state.cursor).pos = copying.place state.cursor.pos :=
    Copying.pos_cursor only
  simp [Copying.state, ReadState.record, SyntaxError.map, samePos]

theorem report (cause : SyntaxCause) :
    Copies copier head id (.report cause) (.report cause) := by
  intro state _ only _
  exact ⟨only, congrArg (Outcome.done ()) (record_state copier.toCopying state cause only)⟩

theorem refuse (cause : SyntaxCause) :
    Copies copier head copy (.refuse cause) (.refuse cause) := by
  intro state _ only _
  exact congrArg Outcome.gaveUp (record_state copier.toCopying state cause only)

theorem refuse_bind
    (cause : SyntaxCause)
    {next : α -> Production P γ}
    {next' : β -> Production Q δ} :
    Copies copier head further (.bind (.refuse cause) next) (.bind (.refuse cause) next') :=
  refuse cause

theorem nested
    {body : Production P α}
    {body' : Production Q β}
    (inner : Copies copier head copy body body') :
    Copies copier head copy (.nested body) (.nested body') := by
  intro state here only
  change Outcome.Copied _ _ _
    (if copier.limit ≤ state.depth
      then .gaveUp (state.record (.nestingTooDeep copier.limit))
      else (copier.first.run body { state with depth := state.depth + 1 }).mapState _)
    (if copier.limit ≤ state.depth
      then .gaveUp ((copier.state state).record (.nestingTooDeep copier.limit))
      else (copier.second.run body' (copier.state { state with depth := state.depth + 1 })).mapState _)
  split
  · intro _
    exact congrArg Outcome.gaveUp (record_state copier.toCopying state _ only)
  · refine Outcome.Copied.mapState (inner { state with depth := state.depth + 1 } here only) rfl
      (fun _ => ⟨rfl, rfl⟩) ?_
    exact fun _ => rfl

theorem inHeader
    {inside : Bool}
    {body : Production P α}
    {body' : Production Q β}
    (inner : Copies copier head copy body body') :
    Copies copier head copy (.inHeader inside body) (.inHeader inside body') := by
  intro state here only
  refine Outcome.Copied.mapState (inner { state with inHeader := inside } here only) rfl
    (fun _ => ⟨rfl, rfl⟩) ?_
  exact fun _ => rfl

/-- A phrase that gives up is passed in the same way if nothing is asked for. -/
theorem recovering
    {recovery : Recovery}
    {body : Production P α}
    {body' : Production Q β}
    (inner : Copies copier head copy body body') :
    Copies copier head (Option.map copy) (.recovering recovery body) (.recovering recovery body') := by
  intro state here only
  have repeated := inner state here only
  rw [Machine.run_recovering, Machine.run_recovering]
  cases run : copier.first.run body state with
  | exhausted => trivial
  | done value final =>
      rw [run] at repeated
      intro clean
      obtain ⟨stillOnly, same⟩ := repeated clean
      rw [same]
      exact ⟨stillOnly, rfl⟩
  | gaveUp final =>
      rw [run] at repeated
      intro clean
      obtain ⟨_, reaches, more⟩ := Machine.reaches_of_gaveUp run
      have faithful : copier.Faithful := by
        refine clean.resolve_right fun clean => ?_
        rw [clean] at more
        exact Nat.lt_irrefl _ more
      refine ⟨faithful.onlyAsserted _, ?_⟩
      rw [repeated faithful]
      simp only [faithful.state_eq]
      exact congrArg (fun cursor => Outcome.done none (⟨cursor, _, _, _⟩ : ReadState Q))
        (copier.toShift.resume_cursor recovery state.cursor.consumed final.cursor)

theorem iterate
    (copy : α -> β)
    {step : α -> Production P (Option α)}
    {step' : β -> Production Q (Option β)}
    {start : α}
    {start' : β}
    (sameStart : start' = copy start)
    (steps : ∀ value {behind}, Copies copier behind (Option.map copy) (step value) (step' (copy value))) :
    Copies copier head copy (.iterate step start) (.iterate step' start') := by
  subst sameStart
  intro state _ only
  exact Outcome.Copied.iterate copier.enough (fun value => copier.first.run_sound (step value))
    (fun value state only => steps value state rfl only) start only

theorem call (nonterminal : Nonterminal) :
    Copies copier head (nonterminal.copy copier.asks copier.place) (.call nonterminal)
      (.call nonterminal) :=
  fun state _ only => copier.reads nonterminal state only

end Copies
end GoFront
