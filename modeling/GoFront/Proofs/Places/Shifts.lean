import GoFront.Proofs.Places.Trees
import GoFront.Proofs.Reading.Rules

/-!
# Other places

Lexemes can stand at other places, behind more lexemes, and errors can have been recorded before. Recovery
finds the same lexeme there.
-/

namespace GoFront

variable {P Q : Type}

/-- Where a run is repeated: where its lexemes stand then, how many lexemes have been consumed before,
and which errors have been recorded before. -/
structure Shift (P Q : Type) where
  place : P -> Q
  passed : Nat
  errors : List (SyntaxError Q)

namespace Shift

variable (shift : Shift P Q)

/-- A cursor in the repeated run. -/
def cursor (cursor : Cursor P) : Cursor Q :=
  ⟨cursor.consumed + shift.passed, cursor.ahead.map (Lexeme.map shift.place),
    shift.place cursor.stop⟩

/-- A state of the repeated run. -/
def state (state : ReadState P) : ReadState Q :=
  ⟨shift.cursor state.cursor, state.depth, state.inHeader,
    state.errors.map (SyntaxError.map shift.place) ++ shift.errors⟩

/-! ## Looking ahead -/

@[simp] theorem peek_cursor (cursor : Cursor P) :
    (shift.cursor cursor).peek = cursor.peek.map shift.place := by
  obtain ⟨_, ahead, _⟩ := cursor
  cases ahead <;> rfl

@[simp] theorem token_cursor (cursor : Cursor P) :
    (shift.cursor cursor).token = cursor.token := by
  rw [Cursor.token, peek_cursor]
  rfl

/-! ## Moving on -/

@[simp] theorem advance_cursor (cursor : Cursor P) :
    (shift.cursor cursor).advance = shift.cursor cursor.advance := by
  obtain ⟨consumed, ahead, stop⟩ := cursor
  cases ahead with
  | nil => rfl
  | cons lexeme rest =>
      simp only [Shift.cursor, Cursor.advance, List.map_cons]
      rw [Nat.add_right_comm]

@[simp] theorem skip_cursor
    (cursor : Cursor P)
    (count : Nat) :
    (shift.cursor cursor).skip count = shift.cursor (cursor.skip count) := by
  simp only [Shift.cursor, Cursor.skip, List.length_map, List.map_drop]
  rw [Nat.add_right_comm]

theorem lexemesToDecl_map (lexemes : List (Lexeme P)) :
    Recovery.lexemesToDecl (lexemes.map (Lexeme.map shift.place))
      = Recovery.lexemesToDecl lexemes := by
  induction lexemes with
  | nil => rfl
  | cons lexeme rest inductionHypothesis =>
      rw [List.map_cons, Recovery.lexemesToDecl, Recovery.lexemesToDecl, inductionHypothesis]
      rfl

theorem lexemesToStmt_map
    (braces parens : Nat)
    (lexemes : List (Lexeme P)) :
    Recovery.lexemesToStmt braces parens (lexemes.map (Lexeme.map shift.place))
      = Recovery.lexemesToStmt braces parens lexemes := by
  induction lexemes generalizing braces parens with
  | nil => cases braces <;> rfl
  | cons lexeme rest inductionHypothesis =>
      cases braces <;> simp only [List.map_cons, Recovery.lexemesToStmt, inductionHypothesis] <;> rfl

/-- Reading resumes at the same lexeme. -/
theorem resume_cursor
    (recovery : Recovery)
    (start : Nat)
    (cursor : Cursor P) :
    recovery.resume (start + shift.passed) (shift.cursor cursor)
      = shift.cursor (recovery.resume start cursor) := by
  have sameDistance (lexemes : List (Lexeme P)) :
      recovery.distance (lexemes.map (Lexeme.map shift.place)) = recovery.distance lexemes := by
    cases recovery with
    | decl => exact shift.lexemesToDecl_map lexemes
    | stmt => exact shift.lexemesToStmt_map 0 0 lexemes
  have skips (cursor : Cursor P) :
      (shift.cursor cursor).skip (recovery.distance (shift.cursor cursor).ahead)
        = shift.cursor (cursor.skip (recovery.distance cursor.ahead)) := by
    rw [skip_cursor]
    exact congrArg (fun count => shift.cursor (cursor.skip count)) (sameDistance cursor.ahead)
  have sameTest : (shift.cursor cursor).consumed = start + shift.passed
      ↔ cursor.consumed = start := Nat.add_right_cancel_iff
  simp only [Recovery.resume, sameTest, advance_cursor]
  split <;> exact skips _

/-- A run that is repeated where it is. -/
def identity : Shift P P :=
  ⟨id, 0, []⟩

theorem state_identity (state : ReadState P) :
    identity.state state = state := by
  have lexeme : Lexeme.map (id : P -> P) = id := rfl
  have error : SyntaxError.map (id : P -> P) = id := rfl
  simp [Shift.state, Shift.cursor, identity, lexeme, error]

end Shift

end GoFront
