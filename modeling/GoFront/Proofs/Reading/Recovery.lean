import GoFront.Proofs.Reading.Files

/-!
# Reading past what fails

At the top level a text is read line by line. What fails is passed over up to the next keyword that
starts a declaration. If a stretch of the text is nested and ends in a semicolon, no line that begins in
the stretch is read beyond it, and passing over what fails does not go beyond it either, as a declaration
comes next. So reading arrives at the start of that declaration.
-/

namespace GoFront

variable {P : Type} {α : Type}

/-! ## In front of a later part -/

/-- Reading has not gone beyond the start of a later part of the text: it is in a stretch before that part
or arrives there. -/
def InFront (behind ahead : List (Lexeme P)) : Prop :=
  Sheltered behind [] ahead ∨ ahead = behind

/-- A lexeme in front of a later part is passed. -/
theorem Sheltered.inFront
    {behind rest : List (Lexeme P)}
    {lexeme : Lexeme P}
    (sheltered : Sheltered behind [] (lexeme :: rest)) :
    InFront behind rest := by
  obtain ⟨shelter, due, aheadEq, scanEq, -, last⟩ := sheltered
  cases shelter with
  | nil => simp at last
  | cons head shelter =>
      obtain ⟨rfl, restEq⟩ := List.cons.inj aheadEq
      obtain ⟨after, -, scanRest⟩ := Option.bind_eq_some_iff.1 scanEq
      cases shelter with
      | nil => exact .inr restEq
      | cons next shelter =>
          refine .inl ⟨next :: shelter, after, restEq, scanRest, List.nil_sublist _, ?_⟩
          simpa using last

namespace InFront

variable {head : Lexeme P} {tail : List (Lexeme P)}

theorem ne_nil
    {ahead : List (Lexeme P)}
    (inFront : InFront (head :: tail) ahead) :
    ahead ≠ [] := by
  rcases inFront with sheltered | rfl
  · exact sheltered.ne_nil
  · exact List.cons_ne_nil head tail

/-- Passing over lexemes up to the next declaration does not go beyond one. -/
theorem drop_lexemesToDecl
    {ahead : List (Lexeme P)}
    (starts : head.token.startsDecl = true)
    (inFront : InFront (head :: tail) ahead) :
    InFront (head :: tail) (ahead.drop (Recovery.lexemesToDecl ahead)) := by
  induction ahead with
  | nil => exact absurd rfl inFront.ne_nil
  | cons lexeme rest inductionHypothesis =>
      rw [Recovery.lexemesToDecl]
      split
      · exact inFront
      · next passed =>
          rcases inFront with sheltered | arrived
          · exact inductionHypothesis sheltered.inFront
          · obtain ⟨rfl, -⟩ := List.cons.inj arrived
            exact absurd (by simp [starts]) passed

/-- Resuming after a failure does not go beyond a declaration. -/
theorem resume
    {cursor : Cursor P}
    (starts : head.token.startsDecl = true)
    (start : Nat)
    (sheltered : Sheltered (head :: tail) [] cursor.ahead) :
    InFront (head :: tail) (Recovery.decl.resume start cursor).ahead := by
  unfold Recovery.resume
  split
  · refine drop_lexemesToDecl starts ?_
    cases aheadEq : cursor.ahead with
    | nil => exact absurd aheadEq sheltered.ne_nil
    | cons lexeme rest =>
        rw [aheadEq] at sheltered
        simp only [Cursor.advance, aheadEq]
        exact sheltered.inFront
  · exact drop_lexemesToDecl starts (.inl sheltered)

end InFront

/-! ## Lines -/

theorem Machine.run_semicolon
    (machine : Machine P)
    (state : ReadState P) :
    machine.run Production.semicolon state
      = if state.cursor.atAny [.rParen, .rBrace] then .done () state
        else if state.cursor.token = .semi then .done () { state with cursor := state.cursor.advance }
        else .gaveUp (state.record (.unexpected state.cursor.token .semi)) := by
  change machine.run (if state.cursor.atAny [.rParen, .rBrace] then _ else _) state = _
  split
  · rfl
  · change (machine.run (if state.cursor.token = .semi then _ else _) state).bind _ = _
    split <;> rfl

/-- The end of a line stands in front of a bracket that closes, or it is a semicolon. -/
theorem Machine.semicolon_cases
    {machine : Machine P}
    {state final : ReadState P}
    {value : Unit}
    (run : machine.run Production.semicolon state = .done value final) :
    ∃ lexeme rest, state.cursor.ahead = lexeme :: rest ∧ final.errors = state.errors
      ∧ ((state.cursor.atAny [.rParen, .rBrace] = true ∧ final = state)
        ∨ (state.cursor.atAny [.rParen, .rBrace] = false ∧ lexeme.token = .semi
          ∧ final.cursor.ahead = rest)) := by
  rw [run_semicolon] at run
  split at run
  · next closes =>
      obtain ⟨-, rfl⟩ := Outcome.done.inj run
      have notAtEnd : state.cursor.token ≠ .eof := by
        intro atEnd
        simp [Cursor.atAny, atEnd] at closes
      obtain ⟨lexeme, rest, aheadEq, -⟩ := Cursor.exists_of_token_ne_eof notAtEnd
      exact ⟨lexeme, rest, aheadEq, rfl, .inl ⟨closes, rfl⟩⟩
  · next other =>
      split at run
      · next isSemi =>
          obtain ⟨-, rfl⟩ := Outcome.done.inj run
          have notAtEnd : state.cursor.token ≠ .eof := by simp [isSemi]
          obtain ⟨lexeme, rest, aheadEq, isToken⟩ := Cursor.exists_of_token_ne_eof notAtEnd
          refine ⟨lexeme, rest, aheadEq, rfl, .inr ⟨by simpa using other, ?_, ?_⟩⟩
          · exact isToken.trans isSemi
          · simp [Cursor.advance, aheadEq]
      · cases run

/-- A declaration that is read begins with a keyword of declarations other than imports. -/
theorem Machine.startsDecl_of_decl
    {machine : Machine P}
    {state final : ReadState P}
    {value : Decl P}
    (run : machine.run Production.decl state = .done value final) :
    state.cursor.token.startsDecl = true ∧ state.cursor.token ≠ .kwImport := by
  obtain ⟨kind, notImports, isKeyword, -⟩ | ⟨isFunc, -⟩ := machine.decl_cases run
  · rw [isKeyword]
    cases kind with
    | imports => exact absurd rfl notImports
    | vars | consts | types => exact ⟨rfl, nofun⟩
  · rw [isFunc]
    exact ⟨rfl, nofun⟩

/-- A production reads lines at the top level: a phrase that can stand anywhere and the end of its line. -/
def IsLine
    {phrase : Phrase}
    (machine : Machine P)
    (item : Production P (Tree P (.one phrase))) : Prop :=
  ∃ body, ReadsTree machine Anywhere 0 body
    ∧ ∀ state, machine.run item state = machine.run (Production.line body) state

namespace IsLine

variable {phrase : Phrase} {machine : Machine P} {item : Production P (Tree P (.one phrase))}
  {state final : ReadState P} {value : Tree P (.one phrase)}

theorem specDecl
    (nonterminals : ReadsNonterminals machine)
    (kind : SpecKind) :
    IsLine machine (Production.specDecl kind) :=
  ⟨_, nonterminals.specDeclBody kind, machine.run_specDecl kind⟩

theorem decl (nonterminals : ReadsNonterminals machine) :
    IsLine machine Production.decl :=
  ⟨_, nonterminals.declBody, machine.run_decl⟩

/-- As a phrase at the top level. -/
theorem reads (isLine : IsLine machine item) :
    Reads machine ⟨none, none, none⟩ item ⟨[], 0⟩ fun value after mentions =>
      ∃ reached, after = ⟨[], reached⟩
        ∧ Consumed Tree.outline (fun _ => True) value 0 reached mentions := by
  obtain ⟨body, isBody, same⟩ := isLine
  refine Reads.congr_run same ?_
  exact Reads.line isBody.inBrackets ⟨none, none, none⟩ 0 (fun isSome => nomatch isSome)
    (Nat.le_refl 0)

/-- The allowance lasts. -/
theorem finishes
    (isLine : IsLine machine item)
    (regular : state.Regular)
    (enough : 8 * state.cursor.ahead.length ≤ machine.allowance) :
    machine.run item state ≠ .exhausted :=
  isLine.reads.finishes state regular (fun _ member => nomatch member) enough

/-- A line is not empty. -/
theorem exists_of_done
    (isLine : IsLine machine item)
    (regular : state.Regular)
    (run : machine.run item state = .done value final) :
    ∃ passed, state.Reaches passed final ∧ 1 ≤ passed.length := by
  obtain ⟨passed, reaches⟩ := machine.reaches_of_done run
  obtain ⟨_, mentions, taken, ⟨reached, rfl, gains, -, -⟩, completes⟩ :=
    isLine.reads.completes state value final regular (fun _ member => nomatch member) run
  have samePassed : passed = taken :=
    List.append_cancel_right (reaches.ahead.symm.trans completes.ahead)
  have credit : reached ≤ 0 + 8 * taken.length := completes.credit
  exact ⟨passed, reaches, by rw [samePassed]; omega⟩

/-- A line that begins in front of a later part ends in front of it. -/
theorem inFront_of_done
    {behind : List (Lexeme P)}
    (isLine : IsLine machine item)
    (regular : state.Regular)
    (sheltered : Sheltered behind [] state.cursor.ahead)
    (run : machine.run item state = .done value final) :
    InFront behind final.cursor.ahead := by
  obtain ⟨body, isBody, same⟩ := isLine
  rw [same] at run
  obtain ⟨read, middle, bodyRun, run⟩ := Reads.run_bind_done run
  obtain ⟨_, last, lineEnd, run⟩ := Reads.run_bind_done run
  obtain ⟨-, rfl⟩ := Outcome.done.inj run
  obtain ⟨_, mentions, taken, ⟨reached, rfl, -⟩, completes⟩ :=
    (isBody ⟨some [], none, none⟩ 0 trivial (Nat.le_refl 0)).completes state read middle regular
      (fun _ member => nomatch member) bodyRun
  have inShelter : Sheltered behind [] middle.cursor.ahead :=
    completes.shelter [] rfl behind sheltered
  obtain ⟨lexeme, rest, aheadEq, -, ⟨-, rfl⟩ | ⟨-, -, restEq⟩⟩ := Machine.semicolon_cases lineEnd
  · exact .inl inShelter
  · rw [restEq]
    rw [aheadEq] at inShelter
    exact inShelter.inFront

/-- A line that fails in front of a later part has not been read beyond its start. -/
theorem sheltered_of_gaveUp
    {behind : List (Lexeme P)}
    (isLine : IsLine machine item)
    (regular : state.Regular)
    (sheltered : Sheltered behind [] state.cursor.ahead)
    (run : machine.run item state = .gaveUp final) :
    Sheltered behind [] final.cursor.ahead := by
  obtain ⟨body, isBody, same⟩ := isLine
  have reads := isBody ⟨some [], none, none⟩ 0 trivial (Nat.le_refl 0)
  rw [same] at run
  change (machine.run body state).bind _ = _ at run
  cases bodyRun : machine.run body state with
  | exhausted =>
      rw [bodyRun] at run
      cases run
  | gaveUp stopped =>
      rw [bodyRun] at run
      obtain rfl := Outcome.gaveUp.inj run
      exact reads.fails state stopped regular (fun _ member => nomatch member) bodyRun [] rfl behind
        sheltered
  | done read middle =>
      rw [bodyRun] at run
      obtain ⟨_, mentions, taken, ⟨reached, rfl, -⟩, completes⟩ :=
        reads.completes state read middle regular (fun _ member => nomatch member) bodyRun
      change (machine.run Production.semicolon middle).bind _ = _ at run
      rw [Machine.run_semicolon] at run
      split at run
      · cases run
      · split at run
        · cases run
        · obtain rfl := Outcome.gaveUp.inj run
          exact completes.shelter [] rfl behind sheltered

/-- A line that is read without errors is read in the same way if more lexemes follow. -/
theorem repeats
    {other : ReadState P}
    {rest : List (Lexeme P)}
    (isLine : IsLine machine item)
    (regular : state.Regular)
    (run : machine.run item state = .done value final)
    (clean : final.errors = state.errors)
    (otherAhead : other.cursor.ahead = state.cursor.ahead ++ rest)
    (sameDepth : other.depth = state.depth)
    (sameHeader : other.inHeader = state.inHeader) :
    ∃ otherFinal, machine.run item other = .done value otherFinal
      ∧ otherFinal.cursor.ahead = final.cursor.ahead ++ rest
      ∧ otherFinal.errors = other.errors := by
  obtain ⟨body, isBody, same⟩ := isLine
  rw [same] at run ⊢
  obtain ⟨read, middle, bodyRun, run⟩ := Reads.run_bind_done run
  obtain ⟨_, last, lineEnd, run⟩ := Reads.run_bind_done run
  obtain ⟨rfl, rfl⟩ := Outcome.done.inj run
  obtain ⟨_, mentions, taken, -, completes⟩ :=
    (isBody ⟨none, none, none⟩ 0 trivial (Nat.le_refl 0)).completes state read middle regular
      (fun _ member => nomatch member) bodyRun
  obtain ⟨lexeme, behind, aheadEq, sameErrors, ends⟩ := Machine.semicolon_cases lineEnd
  have bodyAgain := completes.repeats (sameErrors.symm.trans clean) lexeme behind aheadEq
    (fun _ member => nomatch member) other (behind ++ rest)
    (by rw [otherAhead, completes.ahead, aheadEq, List.append_assoc, List.cons_append])
    sameDepth sameHeader
  have sameToken : (other.moved taken.length (lexeme :: (behind ++ rest))).cursor.token
      = middle.cursor.token := by
    rw [Cursor.token_of_ahead aheadEq]
    rfl
  change ∃ otherFinal, (machine.run body other).bind _ = _ ∧ _
  rw [bodyAgain]
  change ∃ otherFinal, (machine.run Production.semicolon _).bind _ = _ ∧ _
  rw [Machine.run_semicolon, Cursor.atAny_congr _ sameToken, sameToken]
  rcases ends with ⟨closes, rfl⟩ | ⟨open', isSemi, restEq⟩
  · rw [if_pos closes]
    exact ⟨_, rfl, by rw [aheadEq]; rfl, rfl⟩
  · rw [open', if_neg Bool.false_ne_true, Cursor.token_of_ahead aheadEq, if_pos isSemi]
    exact ⟨_, rfl, by rw [restEq]; rfl, rfl⟩

end IsLine

/-! ## Loops over items -/

namespace Machine

variable {phrase : Phrase}

/-- Collects items for as long as a condition on what lies ahead holds, at most a number of times. What
fails is passed over. -/
def collect
    (machine : Machine P)
    (recovery : Recovery)
    (goesOn : Cursor P -> Bool)
    (item : Production P (Tree P (.one phrase)))
    (repetitions : Nat)
    (items : List (Tree P (.one phrase)))
    (state : ReadState P) : Outcome P (List (Tree P (.one phrase))) :=
  Outcome.iterate (fun items => machine.run (Production.look.bind fun cursor =>
      if goesOn cursor then
        (Production.recovering recovery item).bind fun next => .pure (some (next.toList ++ items))
      else .pure none))
    repetitions items state

variable {machine : Machine P} {recovery : Recovery} {goesOn : Cursor P -> Bool}
  {item : Production P (Tree P (.one phrase))} {items : List (Tree P (.one phrase))}
  {state final : ReadState P} {value : Tree P (.one phrase)}

theorem run_resuming
    (machine : Machine P)
    (recovery : Recovery)
    (goesOn : Cursor P -> Bool)
    (item : Production P (Tree P (.one phrase)))
    (state : ReadState P) :
    machine.run (Production.resuming recovery goesOn item) state
      = (machine.collect recovery goesOn item machine.allowance [] state).bind fun items state =>
          .done items.reverse state := rfl

theorem reaches_of_collect
    {repetitions : Nat}
    {result : List (Tree P (.one phrase))}
    (run : machine.collect recovery goesOn item repetitions items state = .done result final) :
    ∃ taken, state.Reaches taken final := by
  have sound : (machine.collect recovery goesOn item repetitions items state).Sound state :=
    Outcome.Sound.iterate (fun _ => machine.run_sound _) repetitions items state
  rw [run] at sound
  exact sound

theorem collect_stop
    (repetitions : Nat)
    (stops : goesOn state.cursor = false) :
    machine.collect recovery goesOn item (repetitions + 1) items state = .done items state := by
  change (machine.run (if goesOn state.cursor then _ else _) state).bind _ = _
  rw [stops]
  rfl

theorem collect_done
    (repetitions : Nat)
    (isMore : goesOn state.cursor = true)
    (run : machine.run item state = .done value final) :
    machine.collect recovery goesOn item (repetitions + 1) items state
      = machine.collect recovery goesOn item repetitions (value :: items) final := by
  change (machine.run (if goesOn state.cursor then _ else _) state).bind _ = _
  rw [if_pos isMore]
  change ((machine.run (.recovering recovery item) state).bind _).bind _ = _
  rw [Machine.run_recovering, run]
  rfl

theorem collect_gaveUp
    (repetitions : Nat)
    (isMore : goesOn state.cursor = true)
    (run : machine.run item state = .gaveUp final) :
    machine.collect recovery goesOn item (repetitions + 1) items state
      = machine.collect recovery goesOn item repetitions items
          { final with cursor := recovery.resume state.cursor.consumed final.cursor } := by
  change (machine.run (if goesOn state.cursor then _ else _) state).bind _ = _
  rw [if_pos isMore]
  change ((machine.run (.recovering recovery item) state).bind _).bind _ = _
  rw [Machine.run_recovering, run]
  rfl

theorem collect_exhausted
    (repetitions : Nat)
    (isMore : goesOn state.cursor = true)
    (run : machine.run item state = .exhausted) :
    machine.collect recovery goesOn item (repetitions + 1) items state = .exhausted := by
  change (machine.run (if goesOn state.cursor then _ else _) state).bind _ = _
  rw [if_pos isMore]
  change ((machine.run (.recovering recovery item) state).bind _).bind _ = _
  rw [Machine.run_recovering, run]
  rfl

/-- A loop that goes on behind an item that failed has an error more. -/
theorem errors_ne_of_gaveUp
    {result : List (Tree P (.one phrase))}
    {repetitions start : Nat}
    {stopped : ReadState P}
    (itemRun : machine.run item state = .gaveUp stopped)
    (run : machine.collect recovery goesOn item repetitions items
      { stopped with cursor := recovery.resume start stopped.cursor } = .done result final) :
    final.errors ≠ state.errors := by
  obtain ⟨_, _, more⟩ := machine.reaches_of_gaveUp itemRun
  obtain ⟨_, reaches⟩ := reaches_of_collect run
  intro clean
  have kept := reaches.errors.length_le
  rw [clean] at kept
  exact absurd kept (Nat.not_le_of_gt more)

theorem suffix_of_collect
    {result : List (Tree P (.one phrase))}
    (repetitions : Nat)
    (run : machine.collect recovery goesOn item repetitions items state = .done result final) :
    items <:+ result := by
  induction repetitions generalizing items state with
  | zero => cases run
  | succ repetitions inductionHypothesis =>
      by_cases isMore : goesOn state.cursor = true
      · cases itemRun : machine.run item state with
        | exhausted =>
            rw [collect_exhausted repetitions isMore itemRun] at run
            cases run
        | gaveUp stopped =>
            rw [collect_gaveUp repetitions isMore itemRun] at run
            exact inductionHypothesis run
        | done value next =>
            rw [collect_done repetitions isMore itemRun] at run
            exact (List.suffix_cons value items).trans (inductionHypothesis run)
      · rw [collect_stop repetitions (by simpa using isMore)] at run
        obtain ⟨rfl, -⟩ := Outcome.done.inj run
        exact List.suffix_rfl

/-- A loop without errors ends at once, or it reads an item and goes on behind it. -/
theorem first_of_collect
    {result : List (Tree P (.one phrase))}
    {repetitions : Nat}
    (run : machine.collect recovery goesOn item (repetitions + 1) items state = .done result final)
    (clean : final.errors = state.errors) :
    (goesOn state.cursor = false ∧ result = items ∧ final = state)
      ∨ ∃ value next, goesOn state.cursor = true ∧ machine.run item state = .done value next
        ∧ next.errors = state.errors
        ∧ machine.collect recovery goesOn item repetitions (value :: items) next
          = .done result final := by
  by_cases isMore : goesOn state.cursor = true
  · right
    cases itemRun : machine.run item state with
    | exhausted =>
        rw [collect_exhausted repetitions isMore itemRun] at run
        cases run
    | gaveUp stopped =>
        rw [collect_gaveUp repetitions isMore itemRun] at run
        exact absurd clean (errors_ne_of_gaveUp itemRun run)
    | done value next =>
        rw [collect_done repetitions isMore itemRun] at run
        -- neither the item nor what follows it can add an error that the whole loop does not have
        obtain ⟨_, reaches⟩ := machine.reaches_of_done itemRun
        obtain ⟨_, restReaches⟩ := reaches_of_collect run
        have same : state.errors = next.errors :=
          reaches.errors.eq_of_length_le (clean ▸ restReaches.errors.length_le)
        exact ⟨value, next, isMore, rfl, same.symm, run⟩
  · have stops : goesOn state.cursor = false := by simpa using isMore
    rw [collect_stop repetitions stops] at run
    obtain ⟨rfl, rfl⟩ := Outcome.done.inj run
    exact .inl ⟨stops, rfl, rfl⟩

/-- A loop without errors ends at once, or it begins with an item that is read. -/
theorem collect_cases
    {result : List (Tree P (.one phrase))}
    (repetitions : Nat)
    (run : machine.collect recovery goesOn item repetitions items state = .done result final)
    (clean : final.errors = state.errors) :
    (goesOn state.cursor = false ∧ result = items ∧ final = state)
      ∨ (∃ value next, machine.run item state = .done value next ∧ (value :: items) <:+ result) := by
  cases repetitions with
  | zero => cases run
  | succ repetitions =>
      obtain stopped | ⟨value, next, -, itemRun, -, run⟩ := first_of_collect run clean
      · exact .inl stopped
      · exact .inr ⟨value, next, itemRun, suffix_of_collect repetitions run⟩

end Machine

/-- A loop over lines is repeated in another state up to some point, from where on it goes on with other
lines collected and fewer repetitions left. -/
structure Passes
    {phrase : Phrase}
    (machine : Machine P)
    (goesOn : Cursor P -> Bool)
    (item : Production P (Tree P (.one phrase)))
    (repetitions : Nat)
    (items : List (Tree P (.one phrase)))
    (state : ReadState P)
    (left : Nat)
    (collected : List (Tree P (.one phrase)))
    (middle : ReadState P) : Prop where
  same : machine.collect .decl goesOn item repetitions items state
    = machine.collect .decl goesOn item left collected middle
  reaches : ∃ passed, state.Reaches passed middle ∧ repetitions ≤ left + passed.length

namespace Passes

variable {phrase : Phrase} {machine : Machine P} {goesOn : Cursor P -> Bool}
  {item : Production P (Tree P (.one phrase))} {repetitions left : Nat}
  {items more collected : List (Tree P (.one phrase))} {state next middle : ReadState P}

theorem refl
    (repetitions : Nat)
    (items : List (Tree P (.one phrase)))
    (state : ReadState P) :
    Passes machine goesOn item repetitions items state repetitions items state :=
  ⟨rfl, [], .refl state, Nat.le_refl _⟩

/-- One more line before. -/
theorem step
    {taken : List (Lexeme P)}
    (first : machine.collect .decl goesOn item (repetitions + 1) items state
      = machine.collect .decl goesOn item repetitions more next)
    (reaches : state.Reaches taken next)
    (consumes : 1 ≤ taken.length)
    (rest : Passes machine goesOn item repetitions more next left collected middle) :
    Passes machine goesOn item (repetitions + 1) items state left collected middle := by
  obtain ⟨same, passed, restReaches, enough⟩ := rest
  refine ⟨first.trans same, taken ++ passed, reaches.trans restReaches, ?_⟩
  rw [List.length_append]
  omega

end Passes

namespace IsLine

variable {phrase : Phrase} {machine : Machine P} {item : Production P (Tree P (.one phrase))}

/-- A loop over lines that begins in front of a declaration ends in front of it or arrives there. -/
theorem exists_arrival
    {head : Lexeme P}
    {tail : List (Lexeme P)}
    (goesOn : Cursor P -> Bool)
    (isLine : IsLine machine item)
    (stops : ∀ cursor, goesOn cursor = true -> cursor.token ≠ .eof)
    (starts : head.token.startsDecl = true)
    (repetitions : Nat)
    (items : List (Tree P (.one phrase)))
    (state : ReadState P)
    (regular : state.Regular)
    (inFront : InFront (head :: tail) state.cursor.ahead)
    (enough : 8 * state.cursor.ahead.length ≤ machine.allowance)
    (repeated : state.cursor.ahead.length ≤ repetitions + (head :: tail).length) :
    ∃ left collected middle,
      Passes machine goesOn item repetitions items state left collected middle
        ∧ InFront (head :: tail) middle.cursor.ahead
        ∧ (goesOn middle.cursor = false ∨ middle.cursor.ahead = head :: tail) := by
  induction repetitions generalizing items state with
  | zero =>
      refine ⟨0, items, state, .refl 0 items state, inFront, ?_⟩
      rcases inFront with ⟨shelter, due, aheadEq, -, -, last⟩ | arrived
      · rw [aheadEq, List.length_append] at repeated
        have shelterEmpty : shelter = [] := List.eq_nil_of_length_eq_zero (by omega)
        simp [shelterEmpty] at last
      · exact .inr arrived
  | succ repetitions inductionHypothesis =>
      by_cases isMore : goesOn state.cursor = true
      · rcases inFront with sheltered | arrived
        · -- a line is read or passed over, and some lexeme with it
          have further (more : List (Tree P (.one phrase))) (next : ReadState P)
              (taken : List (Lexeme P)) (reaches : state.Reaches taken next)
              (consumes : 1 ≤ taken.length)
              (nextInFront : InFront (head :: tail) next.cursor.ahead) :
              ∃ left collected middle,
                Passes machine goesOn item repetitions more next left collected middle
                  ∧ InFront (head :: tail) middle.cursor.ahead
                  ∧ (goesOn middle.cursor = false ∨ middle.cursor.ahead = head :: tail) := by
            have aheadLength := congrArg List.length reaches.ahead
            rw [List.length_append] at aheadLength
            exact inductionHypothesis more next (reaches.regular regular) nextInFront (by omega)
              (by omega)
          cases run : machine.run item state with
          | exhausted => exact absurd run (isLine.finishes regular enough)
          | done value final =>
              obtain ⟨taken, reaches, consumes⟩ := isLine.exists_of_done regular run
              obtain ⟨left, collected, middle, passes, rest⟩ := further (value :: items) final taken
                reaches consumes (isLine.inFront_of_done regular sheltered run)
              exact ⟨left, collected, middle,
                .step (Machine.collect_done repetitions isMore run) reaches consumes passes, rest⟩
          | gaveUp stopped =>
              obtain ⟨_, stoppedReaches, -⟩ := machine.reaches_of_gaveUp run
              obtain ⟨taken, reaches, consumes⟩ := Reads.exists_of_resume .decl stoppedReaches
              obtain ⟨left, collected, middle, passes, rest⟩ := further items _ taken reaches
                (consumes (stops _ isMore))
                (.resume starts _ (isLine.sheltered_of_gaveUp regular sheltered run))
              exact ⟨left, collected, middle, .step (Machine.collect_gaveUp repetitions isMore run)
                reaches (consumes (stops _ isMore)) passes, rest⟩
        · exact ⟨_, items, state, .refl _ items state, .inr arrived, .inr arrived⟩
      · exact ⟨_, items, state, .refl _ items state, inFront, .inl (by simpa using isMore)⟩

/-- A loop over lines that ends without errors is repeated if more lexemes follow. -/
theorem exists_repetition
    {rest : List (Lexeme P)}
    (goesOn : Cursor P -> Bool)
    (isLine : IsLine machine item)
    (stops : ∀ cursor, goesOn cursor = true -> cursor.token ≠ .eof)
    (peeks : ∀ first second : Cursor P, first.token = second.token ->
      goesOn first = goesOn second)
    (repetitions : Nat)
    (items result : List (Tree P (.one phrase)))
    (state final other : ReadState P)
    (regular : state.Regular)
    (otherRegular : other.Regular)
    (run : machine.collect .decl goesOn item repetitions items state = .done result final)
    (clean : final.errors = state.errors)
    (otherAhead : other.cursor.ahead = state.cursor.ahead ++ rest)
    (sameDepth : other.depth = state.depth)
    (sameHeader : other.inHeader = state.inHeader) :
    goesOn final.cursor = false ∧ ∃ left otherFinal,
      Passes machine goesOn item repetitions items other (left + 1) result otherFinal
        ∧ otherFinal.cursor.ahead = final.cursor.ahead ++ rest
        ∧ otherFinal.errors = other.errors := by
  induction repetitions generalizing items state other with
  | zero => cases run
  | succ repetitions inductionHypothesis =>
      obtain ⟨stopped, rfl, rfl⟩ | ⟨value, next, isMore, itemRun, nextClean, run⟩ :=
        Machine.first_of_collect run clean
      · exact ⟨stopped, repetitions, other, .refl _ _ _, otherAhead, rfl⟩
      · obtain ⟨lexeme, behind, aheadEq, -⟩ := Cursor.exists_of_token_ne_eof (stops _ isMore)
        have sameToken : other.cursor.token = state.cursor.token := by
          rw [aheadEq] at otherAhead
          rw [Cursor.token_of_ahead aheadEq]
          exact Cursor.token_of_ahead otherAhead
        have isMore' : goesOn other.cursor = true := (peeks _ _ sameToken).trans isMore
        obtain ⟨_, reaches, -⟩ := isLine.exists_of_done regular itemRun
        obtain ⟨otherNext, otherRun, otherNextAhead, sameErrors⟩ := isLine.repeats regular itemRun
          nextClean otherAhead sameDepth sameHeader
        obtain ⟨taken, otherReaches, consumes⟩ := isLine.exists_of_done otherRegular otherRun
        obtain ⟨ends, left, otherFinal, passes, finalAhead, finalErrors⟩ :=
          inductionHypothesis (value :: items) next otherNext (reaches.regular regular)
            (otherReaches.regular otherRegular) run (clean.trans nextClean.symm) otherNextAhead
            (otherReaches.depth.trans (sameDepth.trans reaches.depth.symm))
            (otherReaches.inHeader.trans (sameHeader.trans reaches.inHeader.symm))
        exact ⟨ends, left, otherFinal,
          .step (Machine.collect_done repetitions isMore' otherRun) otherReaches consumes passes,
          finalAhead, finalErrors.trans sameErrors⟩

end IsLine
end GoFront
