import GoFront.Proofs.Copies.Statements

/-!
# Runs at other places

Reading never looks at places. A run that is repeated on the same lexemes at other places, behind more
lexemes and more errors, takes the same steps: it ends in the same way, and what it yields is moved with
the lexemes. The lexemes at other places are a copy in which nothing is asked for. A run that ends within
its allowance ends in the same way on a larger one.
-/

namespace GoFront

variable {P Q : Type} {α β : Type}

/-- An outcome is repeated by another one: what it yields and where it ends is moved. Nothing is said of
an outcome for which the allowance did not last. -/
def Outcome.Mirrored
    (shift : Shift P Q)
    (move : α -> β) : Outcome P α -> Outcome Q β -> Prop
  | .done value state, other => other = .done (move value) (shift.state state)
  | .gaveUp state, other => other = .gaveUp (shift.state state)
  | .exhausted, _ => True

/-- Every run of a production is repeated by another production, on any allowance that is not smaller. -/
def Mirrors
    (shift : Shift P Q)
    (limit : Nat)
    (move : α -> β)
    (production : Production P α)
    (other : Production Q β) : Prop :=
  ∀ {less more : Nat}, less ≤ more -> ∀ state,
    Outcome.Mirrored shift move ((ruleMachine limit less).run production state)
      ((ruleMachine limit more).run other (shift.state state))

/-! ## Copies in which nothing is asked for -/

/-- A copy in which nothing is asked for. -/
def Shift.copying (shift : Shift P Q) : Copying P Q :=
  { shift with asks := fun _ => false }

theorem Shift.faithful (shift : Shift P Q) : shift.copying.Faithful :=
  fun _ => rfl

theorem Shift.cursor_copying (shift : Shift P Q) (cursor : Cursor P) :
    shift.copying.cursor cursor = shift.cursor cursor :=
  shift.faithful.cursor_eq cursor

theorem Shift.state_copying (shift : Shift P Q) (state : ReadState P) :
    shift.copying.state state = shift.state state :=
  shift.faithful.state_eq state

theorem Outcome.copied_iff_mirrored
    {shift : Shift P Q}
    {move : α -> β}
    {first : Outcome P α}
    {other : Outcome Q β}
    (start : ReadState P) :
    Copied shift.copying move start first other ↔ Mirrored shift move first other := by
  cases first with
  | exhausted => exact .rfl
  | gaveUp final =>
      change (shift.copying.Faithful -> other = .gaveUp (shift.copying.state final)) ↔ _
      rw [shift.state_copying]
      exact ⟨fun copied => copied shift.faithful, fun mirrored _ => mirrored⟩
  | done value final =>
      change (_ -> _ ∧ other = .done (move value) (shift.copying.state final)) ↔ _
      rw [shift.state_copying]
      exact ⟨fun copied => (copied (.inl shift.faithful)).2,
        fun mirrored _ => ⟨shift.faithful.onlyAsserted _, mirrored⟩⟩

namespace Mirrors

variable {shift : Shift P Q} {limit : Nat} {move copy : α -> β}
  {production : Production P α} {other : Production Q β}

theorem of_copies
    (copies : ∀ {less more : Nat} (enough : less ≤ more) {head : Token},
      Copies (.ofRules shift.copying limit enough) head copy production other)
    (same : ∀ value, copy value = move value) :
    Mirrors shift limit move production other := by
  obtain rfl : copy = move := funext same
  intro less more enough state
  have copied := copies enough state rfl (shift.faithful.onlyAsserted _)
  change Outcome.Copied _ _ _ _ ((ruleMachine limit more).run other (shift.copying.state state)) at copied
  rw [shift.state_copying] at copied
  exact (Outcome.copied_iff_mirrored state).1 copied

theorem copies
    {less more : Nat}
    {head : Token}
    (mirrors : Mirrors shift limit move production other)
    (enough : less ≤ more) :
    Copies (.ofRules shift.copying limit enough) head move production other := by
  intro state _ _
  change Outcome.Copied _ _ _ _ ((ruleMachine limit more).run other (shift.copying.state state))
  rw [shift.state_copying]
  exact (Outcome.copied_iff_mirrored state).2 (mirrors enough state)

theorem of_tree
    {slot : Slot}
    {production : Production P (Tree P slot)}
    {other : Production Q (Tree Q slot)}
    (copies : ∀ {less more : Nat} (enough : less ≤ more) {head : Token},
      Copies (.ofRules shift.copying limit enough) head shift.copying.tree production other) :
    Mirrors shift limit (Tree.map shift.place) production other :=
  of_copies copies (Tree.copy_eq_map _ shift.place shift.faithful)

/-! ## Phrases, declarations and files -/

theorem unary : Mirrors shift limit (Tree.map shift.place) (.call .unary) (.call .unary) :=
  of_tree fun _ => .call .unary

theorem type : Mirrors shift limit (Tree.map shift.place) Production.type Production.type :=
  of_tree fun _ => Copies.type

theorem params (variadic : Bool) :
    Mirrors shift limit (Tree.map shift.place) (Production.params variadic) (Production.params variadic) :=
  of_tree fun _ => Copies.params variadic

/-- A statement of a list. -/
theorem nestedStmt :
    Mirrors shift limit (Tree.map shift.place) (.nested (.call .stmt)) (.nested (.call .stmt)) :=
  of_tree fun _ => .nested (.call .stmt)

theorem forStmt : Mirrors shift limit (Tree.map shift.place) Production.forStmt Production.forStmt :=
  of_tree fun _ => Copies.forStmt

theorem decl : Mirrors shift limit (Tree.map shift.place) Production.decl Production.decl :=
  of_tree fun _ => Copies.decl

theorem singleDecl :
    Mirrors shift limit (Tree.map shift.place) Production.singleDecl Production.singleDecl :=
  of_tree fun _ => Copies.singleDecl

theorem file :
    Mirrors shift limit (Production.FileParts.map shift.place) Production.file Production.file :=
  of_copies (fun _ => Copies.file) (congrFun (Production.FileParts.copy_eq_map shift.faithful shift.place))

end Mirrors

section

variable {limit less more : Nat} {production : Production P α} {move : α -> α}
  {state : ReadState P} {outcome : Outcome P α}

/-- A run that comes to an end comes to the same end on a larger allowance. -/
theorem run_mono
    (moveNothing : ∀ value, move value = value)
    (mirrors : Mirrors Shift.identity limit move production production)
    (enough : less ≤ more)
    (run : (ruleMachine limit less).run production state = outcome)
    (ends : outcome ≠ .exhausted) :
    (ruleMachine limit more).run production state = outcome := by
  have mirrored := mirrors enough state
  rw [run, Shift.state_identity] at mirrored
  cases outcome with
  | exhausted => exact absurd rfl ends
  | done value final =>
      rw [mirrored, Shift.state_identity, moveNothing]
  | gaveUp final =>
      rw [mirrored, Shift.state_identity]

/-- Whether a run comes to an end is all that the allowance decides. -/
theorem run_eq_of_ends
    {allowance other : Nat}
    (moveNothing : ∀ value, move value = value)
    (mirrors : Mirrors Shift.identity limit move production production)
    (run : (ruleMachine limit other).run production state = outcome)
    (outcomeEnds : outcome ≠ .exhausted)
    (ends : (ruleMachine limit allowance).run production state ≠ .exhausted) :
    (ruleMachine limit allowance).run production state = outcome := by
  rcases Nat.le_total other allowance with enough | enough
  · exact run_mono moveNothing mirrors enough run outcomeEnds
  · exact (run_mono moveNothing mirrors enough rfl ends).symm.trans run

end

/-- A file that is read on an allowance is read in the same way on a larger one. -/
theorem run_file_mono
    {limit allowance allowance' : Nat}
    {state final : ReadState P}
    {parts : Production.FileParts P}
    (enough : allowance ≤ allowance')
    (run : (ruleMachine limit allowance).run Production.file state = .done parts final) :
    (ruleMachine limit allowance').run Production.file state = .done parts final :=
  run_mono Production.FileParts.map_id Mirrors.file enough run nofun

end GoFront
