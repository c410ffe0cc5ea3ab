import GoFront.Proofs.Progress.Rules
import GoFront.Proofs.Reading.Accounts
import Mathlib.Logic.Relation

/-!
# Runs come to an end

Reading a text performs one task after another, each of which runs a part of a production from the state
that was reached by then. Whatever the text, the allowance lasts to the end, no loop that is entered on
the way stands still, and behind a failure reading resumes further on. Only at the end of the input
there is nothing to pass over.
-/

namespace GoFront

variable {P : Type} {limit : Nat}

/-! ## Tasks -/

/-- A production that is run from a state, on an allowance. -/
structure Task (P : Type) where
  {Value : Type}
  allowance : Nat
  production : Production P Value
  state : ReadState P

namespace Task

/-- The tasks that are performed next in order to perform a task. A loop goes on behind each step that
yields a value to go on with. -/
inductive Starts (limit : Nat) : Task P -> Task P -> Prop
  | first {α β : Type} {allowance : Nat} {state : ReadState P}
      (first : Production P α)
      (next : α -> Production P β) :
      Starts limit ⟨allowance, .bind first next, state⟩ ⟨allowance, first, state⟩
  | next {α β : Type} {allowance : Nat} {state middle : ReadState P} {value : α}
      {first : Production P α}
      (next : α -> Production P β)
      (run : (ruleMachine limit allowance).run first state = .done value middle) :
      Starts limit ⟨allowance, .bind first next, state⟩ ⟨allowance, next value, middle⟩
  | nested {α : Type} {allowance : Nat} {state : ReadState P}
      (body : Production P α)
      (allowed : state.depth < limit) :
      Starts limit ⟨allowance, .nested body, state⟩
        ⟨allowance, body, { state with depth := state.depth + 1 }⟩
  | inHeader {α : Type} {allowance : Nat} {state : ReadState P}
      (inside : Bool)
      (body : Production P α) :
      Starts limit ⟨allowance, .inHeader inside body, state⟩
        ⟨allowance, body, { state with inHeader := inside }⟩
  | recovering {α : Type} {allowance : Nat} {state : ReadState P}
      (recovery : Recovery)
      (body : Production P α) :
      Starts limit ⟨allowance, .recovering recovery body, state⟩ ⟨allowance, body, state⟩
  | step {α : Type} {allowance : Nat} {state : ReadState P}
      (step : α -> Production P (Option α))
      (value : α) :
      Starts limit ⟨allowance, .iterate step value, state⟩ ⟨allowance, step value, state⟩
  | again {α : Type} {allowance : Nat} {state middle : ReadState P} {value next : α}
      {step : α -> Production P (Option α)}
      (run : (ruleMachine limit allowance).run (step value) state = .done (some next) middle) :
      Starts limit ⟨allowance, .iterate step value, state⟩ ⟨allowance, .iterate step next, middle⟩
  | rule {allowance : Nat} {state : ReadState P}
      (nonterminal : Nonterminal) :
      Starts limit ⟨allowance + 1, .call nonterminal, state⟩ ⟨allowance, nonterminal.rule, state⟩

/-- A task is performed on the way of performing another. -/
def Performs (limit : Nat) : Task P -> Task P -> Prop :=
  Relation.ReflTransGen (Starts limit)

/-- A task does not stand still: with each step behind which a loop goes on, it has passed over a
lexeme, and so has reading resumed behind a failure, unless it began at the end. -/
def MovesOn (limit : Nat) : Task P -> Prop
  | ⟨allowance, .iterate step value, state⟩ =>
      ∀ next final,
        (ruleMachine limit allowance).run (step value) state = .done (some next) final ->
        state.cursor.consumed < final.cursor.consumed
  | ⟨allowance, .recovering recovery body, state⟩ =>
      ∀ failed, (ruleMachine limit allowance).run body state = .gaveUp failed ->
        state.cursor.token ≠ .eof ->
        state.cursor.consumed
          < (recovery.resume state.cursor.consumed failed.cursor).consumed
  | _ => True

/-- What is known of every task on the way. -/
structure Sane (limit : Nat) (task : Task P) : Prop where
  loops : task.production.LoopsAdvance limit
  regular : task.state.Regular

namespace Sane

theorem movesOn
    {task : Task P}
    (sane : task.Sane limit) :
    task.MovesOn limit := by
  obtain ⟨allowance, production, state⟩ := task
  cases production with
  | iterate step value =>
      intro next final run
      exact (sane.loops value).1 allowance state (some next) final sane.regular run rfl
  | recovering recovery body =>
      intro failed run notAtEnd
      obtain ⟨_, reaches, _⟩ := Machine.reaches_of_gaveUp run
      obtain ⟨passed, resumes, some⟩ := Reads.exists_of_resume recovery reaches
      have consumedEq := resumes.consumed
      have := some notAtEnd
      dsimp only at consumedEq
      omega
  | _ => trivial

/-- A step of the work on a task keeps what is known. -/
theorem of_starts
    {task part : Task P}
    (sane : task.Sane limit)
    (starts : Starts limit task part) :
    part.Sane limit := by
  obtain ⟨loops, regular⟩ := sane
  cases starts with
  | first first next => exact ⟨loops.1, regular⟩
  | next next run =>
      obtain ⟨_, reaches⟩ := Machine.reaches_of_done run
      exact ⟨loops.2 _, reaches.regular regular⟩
  | nested body _ => exact ⟨loops, regular⟩
  | inHeader inside body => exact ⟨loops, regular⟩
  | recovering recovery body => exact ⟨loops, regular⟩
  | step step value => exact ⟨(loops value).2, regular⟩
  | again run =>
      obtain ⟨_, reaches⟩ := Machine.reaches_of_done run
      exact ⟨loops, reaches.regular regular⟩
  | rule nonterminal => exact ⟨.rule nonterminal, regular⟩

theorem of_performs
    {task part : Task P}
    (sane : task.Sane limit)
    (performs : Performs limit task part) :
    part.Sane limit := by
  induction performs with
  | refl => exact sane
  | tail _ starts inductionHypothesis => exact inductionHypothesis.of_starts starts

end Sane
end Task

/-! ## Whole texts -/

namespace Production

variable {α : Type}

/-- The task of reading a sequence of lexemes from its start. -/
def task
    (production : Production P α)
    (lexemes : List (Lexeme P))
    (stop : P) : Task P :=
  ⟨allowance lexemes.length, production, .start lexemes stop⟩

/-- Reading a sequence of lexemes comes to an end, and nothing done on the way stands still. -/
structure ComesToEnd
    (limit : Nat)
    (production : Production P α)
    (lexemes : List (Lexeme P))
    (stop : P) : Prop where
  ends : production.readFrom limit lexemes stop ≠ .exhausted
  movesOn : ∀ part, (production.task lexemes stop).Performs limit part -> part.MovesOn limit

/-- The allowance for a number of lexemes is enough to read them. -/
theorem readFrom_ne_exhausted
    {need : Nat}
    {production : Production P α}
    {result : α -> Nat -> Nat -> List (Mention P) -> Prop}
    {lexemes : List (Lexeme P)}
    {stop : P}
    (isPhrase : ReadsPhrase (ruleMachine limit (allowance lexemes.length)) AtTop need production
      result)
    (enough : need ≤ 8)
    (regular : ∀ lexeme ∈ lexemes, lexeme.Regular) :
    production.readFrom limit lexemes stop ≠ .exhausted := by
  rw [readFrom_eq_run]
  apply (isPhrase ⟨none, none, none⟩ 8 rfl enough).finishes
  · exact regular
  · intro token known
    cases known
  · change 8 * lexemes.length + 8 ≤ 8 * (lexemes.length + 1)
    omega

theorem comesToEnd_of_phrase
    {need : Nat}
    {production : Production P α}
    {result : α -> Nat -> Nat -> List (Mention P) -> Prop}
    {lexemes : List (Lexeme P)}
    {stop : P}
    (isPhrase : ReadsPhrase (ruleMachine limit (allowance lexemes.length)) AtTop need production
      result)
    (enough : need ≤ 8)
    (loops : production.LoopsAdvance limit)
    (regular : ∀ lexeme ∈ lexemes, lexeme.Regular) :
    production.ComesToEnd limit lexemes stop where
  ends := readFrom_ne_exhausted isPhrase enough regular
  movesOn := by
    intro part performs
    have sane : (production.task lexemes stop).Sane limit := ⟨loops, regular⟩
    exact (sane.of_performs performs).movesOn

end Production

/-- Reading a file or a single declaration comes to an end whatever the text, and every loop and every
recovery on the way moves on. -/
theorem parse_comes_to_end
    (limit : Nat)
    (source : String)
    (filename : Option String) :
    Production.file.ComesToEnd limit (lex source filename).significant (lex source filename).stop
      ∧ Production.singleDecl.ComesToEnd limit (lex source filename).significant
        (lex source filename).stop := by
  have regular := regular_of_mem_significant source filename
  constructor
  · apply Production.comesToEnd_of_phrase (readsNonterminals limit _).file (by omega) .file regular
  · apply Production.comesToEnd_of_phrase (readsNonterminals limit _).singleDecl (by omega)
      .singleDecl regular

end GoFront
