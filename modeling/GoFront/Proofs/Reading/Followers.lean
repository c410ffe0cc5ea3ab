import GoFront.Proofs.Reading.Terminators

/-!
# What follows an expression

A type or an expression that ends at the end of a line is read in the same way in front of a comma, a
closing bracket or a string, and the other way round: none of these tokens continues what stands in front
of it. A phrase that ends in a bracket of its own does not depend on what follows at all.
-/

namespace GoFront

variable {P α β : Type} {machine : Machine P} {production : Production P α}
  {state middle final : ReadState P} {value : α} {taken : List (Lexeme P)}

/-- Tokens in front of which every type and every expression ends. -/
def phraseEnds : List Token :=
  [.semi, .comma, .rParen, .rBrack, .rBrace, .stringLit, .rawStringLit]

/-! ## What a reading does not depend on -/

/-- Nothing is read, wherever the value is yielded. -/
def Immediate
    (machine : Machine P)
    (production : Production P α) : Prop :=
  ∀ ⦃state final value⦄, machine.run production state = .done value final ->
    final = state ∧ ∀ other, machine.run production other = .done value other

/-- Lexemes that are read without errors are some, and are read again whatever follows. -/
def Delimited
    (machine : Machine P)
    (production : Production P α) : Prop :=
  ∀ ⦃state final value taken⦄, CleanRun machine production state value final taken ->
    taken ≠ [] ∧ ∀ behind, ReadsAgain machine production state value taken behind

/-- Lexemes that are read without errors in front of a token that ends phrases are read again in front of
any such token. -/
def Detaches
    (machine : Machine P)
    (production : Production P α) : Prop :=
  ∀ ⦃state final value taken⦄, CleanRun machine production state value final taken ->
    final.cursor.token ∈ phraseEnds -> ∀ lexeme rest, lexeme.token ∈ phraseEnds ->
      ReadsAgain machine production state value taken (lexeme :: rest)

/-- Nothing but the next lexeme decides how to go on. -/
def Peeks (next : Cursor P -> Production P β) : Prop :=
  ∀ first second : Cursor P, first.token = second.token -> first.pos = second.pos ->
    next first = next second

theorem Peeks.eq_of_cons
    {next : Cursor P -> Production P β}
    {first second : Cursor P}
    {lexeme : Lexeme P}
    {rest rest' : List (Lexeme P)}
    (peeks : Peeks next)
    (firstAhead : first.ahead = lexeme :: rest)
    (secondAhead : second.ahead = lexeme :: rest') :
    next first = next second := by
  have samePeek : first.peek = second.peek := by
    rw [Cursor.peek_of_ahead firstAhead, Cursor.peek_of_ahead secondAhead]
  exact peeks first second (congrArg Lexeme.token samePeek) (congrArg Lexeme.pos samePeek)

/-- Where something was read, the same decision is made in front of the same lexemes. -/
theorem Peeks.eq_of_reaches
    {next : Cursor P -> Production P β}
    {cursor : Cursor P}
    {behind : List (Lexeme P)}
    (peeks : Peeks next)
    (reaches : state.Reaches taken final)
    (notEmpty : taken ≠ [])
    (aheadEq : cursor.ahead = taken ++ behind) :
    next cursor = next state.cursor := by
  obtain ⟨head, tail, rfl⟩ := List.exists_cons_of_ne_nil notEmpty
  exact peeks.eq_of_cons aheadEq reaches.ahead

theorem Cursor.token_congr_ahead
    {first second : Cursor P}
    (same : first.ahead = second.ahead)
    (notEnd : second.token ≠ .eof) :
    first.token = second.token := by
  obtain ⟨lexeme, rest, aheadEq, isToken⟩ := Cursor.exists_of_token_ne_eof notEnd
  rw [← isToken, Cursor.token_of_ahead (same.trans aheadEq)]

theorem ne_of_phraseEnds
    {token other : Token}
    (ends : token ∈ phraseEnds)
    (notEnd : other ∉ phraseEnds) :
    token ≠ other := by
  rintro rfl
  exact notEnd ends

theorem ne_eof_of_phraseEnds {token : Token} (ends : token ∈ phraseEnds) : token ≠ .eof :=
  ne_of_phraseEnds ends (by decide)

section

variable {next : α -> Production P β} {lexeme : Lexeme P} {front back rest : List (Lexeme P)}

namespace ReadsAgain

/-- Nothing is read again where nothing was read. -/
theorem of_immediate
    (state : ReadState P)
    (behind : List (Lexeme P))
    (again : ∀ other : ReadState P, machine.run production other = .done value other) :
    ReadsAgain machine production state value [] behind := by
  intro other aheadEq _ _
  rw [again other, List.length_nil, ReadState.moved_zero (aheadEq.trans (List.nil_append behind))]

theorem look
    {next : Cursor P -> Production P β}
    {value : β}
    {behind : List (Lexeme P)}
    (same : ∀ cursor : Cursor P, cursor.ahead = taken ++ behind -> next cursor = next state.cursor)
    (inner : ReadsAgain machine (next state.cursor) state value taken behind) :
    ReadsAgain machine (Production.look.bind next) state value taken behind := by
  intro other aheadEq sameDepth sameHeader
  change machine.run (next other.cursor) other = _
  rw [same other.cursor aheadEq]
  exact inner other aheadEq sameDepth sameHeader

theorem inHeader
    {inside : Bool}
    {behind : List (Lexeme P)}
    (inner : ReadsAgain machine production { state with inHeader := inside } value taken behind) :
    ReadsAgain machine (.inHeader inside production) state value taken behind := by
  intro other aheadEq sameDepth sameHeader
  exact (machine.encloses_inHeader inside production).run_eq_moved rfl
    (inner { other with inHeader := inside } aheadEq sameDepth rfl)

/-- What stands in front of other lexemes is read again in front of them, wherever these end. -/
theorem of_front
    (repeats : Repeats machine production)
    (detaches : Detaches machine production)
    (startRun : CleanRun machine production state value middle front)
    (restReaches : middle.Reaches back final)
    (ends : final.cursor.token ∈ phraseEnds)
    (lexemeEnds : lexeme.token ∈ phraseEnds) :
    ReadsAgain machine production state value front (back ++ lexeme :: rest) := by
  cases back with
  | nil =>
      have sameToken : middle.cursor.token = final.cursor.token :=
        Cursor.token_congr_ahead restReaches.ahead (ne_eof_of_phraseEnds ends)
      exact detaches startRun (sameToken ▸ ends) lexeme rest lexemeEnds
  | cons head back =>
      exact repeats startRun head (back ++ final.cursor.ahead) (back ++ lexeme :: rest)
        restReaches.ahead

end ReadsAgain

/-! ## Phrases that yield at once -/

namespace Immediate

theorem pure (value : α) : Immediate machine (.pure value) := by
  intro state final _ run
  obtain ⟨rfl, rfl⟩ := Outcome.done.inj run
  exact ⟨rfl, fun _ => rfl⟩

theorem refuse (cause : SyntaxCause) : Immediate machine (.refuse cause : Production P α) := by
  intro state final _ run
  cases run

theorem detaches (immediate : Immediate machine production) : Detaches machine production := by
  intro state final value taken cleanRun _ lexeme rest _
  obtain ⟨rfl, again⟩ := immediate cleanRun.run
  rw [cleanRun.reaches.eq_nil]
  exact .of_immediate _ _ again

theorem repeats (immediate : Immediate machine production) : Repeats machine production := by
  intro state final value taken cleanRun lexeme rest rest' _
  obtain ⟨rfl, again⟩ := immediate cleanRun.run
  rw [cleanRun.reaches.eq_nil]
  exact .of_immediate _ _ again

end Immediate

/-! ## Phrases that repeat -/

/-- Moving past a lexeme does not depend on what follows it. -/
theorem CleanRun.advance_again
    {value : Lexeme P}
    (cleanRun : CleanRun machine .advance state value final taken)
    (notAtEnd : final.cursor.ahead ≠ [])
    (behind : List (Lexeme P)) :
    ReadsAgain machine .advance state value taken behind := by
  obtain ⟨_, run, reaches, _⟩ := cleanRun
  obtain ⟨rfl, rfl⟩ := Outcome.done.inj run
  cases aheadEq : state.cursor.ahead with
  | nil => exact absurd (by simp [Cursor.advance, aheadEq]) notAtEnd
  | cons head tail =>
      have sameAhead : head :: tail = taken ++ state.cursor.advance.ahead :=
        aheadEq.symm.trans reaches.ahead
      rw [Cursor.ahead_advance, aheadEq, List.tail_cons] at sameAhead
      obtain rfl : [head] = taken := @List.append_cancel_right _ [head] tail taken sameAhead
      intro other otherAhead _ _
      change Outcome.done other.cursor.peek { other with cursor := other.cursor.advance } = _
      rw [Cursor.peek_of_ahead otherAhead, Cursor.peek_of_ahead aheadEq,
        ReadState.advance_eq_moved otherAhead]
      rfl

namespace Repeats

theorem advance : Repeats machine (Production.advance (P := P)) :=
  fun _ _ _ _ cleanRun _ _ _ aheadEq => cleanRun.advance_again (aheadEq ▸ List.cons_ne_nil _ _) _

theorem bind
    (start : Repeats machine production)
    (rest : ∀ value, Repeats machine (next value)) :
    Repeats machine (production.bind next) := by
  intro state final result taken cleanRun lexeme behind behind' aheadEq
  obtain ⟨value, middle, front, back, rfl, startRun, restRun⟩ := cleanRun.exists_of_bind
  refine .bind startRun.reaches ?_ (rest value restRun lexeme behind behind' aheadEq)
  have middleAhead := restRun.reaches.ahead
  rw [aheadEq] at middleAhead
  cases back with
  | nil => exact start startRun lexeme behind behind' middleAhead
  | cons head back => exact start startRun head (back ++ lexeme :: behind) _ middleAhead

theorem look
    {next : Cursor P -> Production P β}
    (peeks : Peeks next)
    (rest : ∀ cursor, Repeats machine (next cursor)) :
    Repeats machine (Production.look.bind next) := by
  intro state final value taken ⟨regular, run, reaches, clean⟩ lexeme behind behind' aheadEq
  refine .look (fun cursor cursorAhead => ?_)
    (rest state.cursor ⟨regular, run, reaches, clean⟩ lexeme behind behind' aheadEq)
  cases taken with
  | nil => exact peeks.eq_of_cons cursorAhead (reaches.ahead.trans aheadEq)
  | cons head tail => exact peeks.eq_of_cons cursorAhead reaches.ahead

theorem header
    {next : Bool -> Production P β}
    (rest : ∀ inside, Repeats machine (next inside)) :
    Repeats machine (Production.header.bind next) := by
  intro state final value taken ⟨regular, run, reaches, clean⟩ lexeme behind behind' aheadEq other
    otherAhead sameDepth sameHeader
  change machine.run (next other.inHeader) other = _
  rw [sameHeader]
  exact rest state.inHeader ⟨regular, run, reaches, clean⟩ lexeme behind behind' aheadEq other
    otherAhead sameDepth sameHeader

theorem inHeader
    {inside : Bool}
    (inner : Repeats machine production) :
    Repeats machine (.inHeader inside production) :=
  fun _ _ _ _ cleanRun lexeme rest rest' aheadEq =>
    .inHeader (inner cleanRun.of_inHeader lexeme rest rest' aheadEq)

theorem eat? (token : Token) : Repeats machine (Production.eat? (P := P) token) := by
  refine .look (fun first second same _ => ?_) fun cursor => ?_
  · rw [same]
  · split
    · exact .bind .advance fun _ => (Immediate.pure _).repeats
    · exact (Immediate.pure _).repeats

theorem mark? (token : Token) : Repeats machine (Production.mark? (P := P) token) :=
  .bind (.eat? token) fun _ => (Immediate.pure _).repeats

end Repeats

/-! ## Phrases that end in a token of their own -/

namespace Delimited

theorem repeats (delimited : Delimited machine production) : Repeats machine production :=
  fun _ _ _ _ cleanRun _ _ _ _ => (delimited cleanRun).2 _

theorem detaches (delimited : Delimited machine production) : Detaches machine production :=
  fun _ _ _ _ cleanRun _ _ _ _ => (delimited cleanRun).2 _

theorem refuse (cause : SyntaxCause) : Delimited machine (.refuse cause : Production P α) := by
  intro state final value taken cleanRun
  cases cleanRun.run

theorem expect
    {token : Token}
    (notAtEnd : token ≠ .eof) :
    Delimited machine (Production.expect (P := P) token) := by
  intro state final value taken ⟨_, run, reaches, _⟩
  change machine.run (if state.cursor.token = token then .advance else .refuse _) state = _ at run
  split at run
  · next isToken =>
    obtain ⟨rfl, rfl⟩ := Outcome.done.inj run
    obtain ⟨lexeme, rfl, sameToken⟩ := reaches.eq_singleton (isToken.trans_ne notAtEnd)
    refine ⟨List.cons_ne_nil _ _, fun behind other aheadEq _ _ => ?_⟩
    change machine.run (if other.cursor.token = token then .advance else .refuse _) other = _
    rw [Cursor.token_of_ahead aheadEq, if_pos (sameToken.trans isToken)]
    change Outcome.done other.cursor.peek { other with cursor := other.cursor.advance } = _
    rw [Cursor.peek_of_ahead aheadEq, Cursor.peek_of_ahead reaches.ahead,
      ReadState.advance_eq_moved aheadEq]
    rfl
  · cases run

/-- The end decides. -/
theorem bind
    (start : Repeats machine production)
    (rest : ∀ value, Delimited machine (next value)) :
    Delimited machine (production.bind next) := by
  intro state final result taken cleanRun
  obtain ⟨value, middle, front, back, rfl, startRun, restRun⟩ := cleanRun.exists_of_bind
  obtain ⟨notEmpty, again⟩ := rest value restRun
  refine ⟨List.append_ne_nil_of_right_ne_nil front notEmpty, fun behind => ?_⟩
  obtain ⟨head, back, rfl⟩ := List.exists_cons_of_ne_nil notEmpty
  exact .bind startRun.reaches
    (start startRun head (back ++ final.cursor.ahead) (back ++ behind) restRun.reaches.ahead)
    (again behind)

/-- A value can be made of what was read. -/
theorem bind_immediate
    (start : Delimited machine production)
    (rest : ∀ value, Immediate machine (next value)) :
    Delimited machine (production.bind next) := by
  intro state final result taken cleanRun
  obtain ⟨value, middle, front, back, rfl, startRun, restRun⟩ := cleanRun.exists_of_bind
  obtain ⟨notEmpty, again⟩ := start startRun
  obtain ⟨rfl, restAgain⟩ := rest value restRun.run
  rw [restRun.reaches.eq_nil, List.append_nil]
  refine ⟨notEmpty, fun behind other aheadEq sameDepth sameHeader => ?_⟩
  change (machine.run production other).bind (fun value => machine.run (next value)) = _
  rw [again behind other aheadEq sameDepth sameHeader]
  exact restAgain _

theorem mark
    {token : Token}
    (notAtEnd : token ≠ .eof) :
    Delimited machine (Production.mark (P := P) token) :=
  .bind_immediate (.expect notAtEnd) fun _ => .pure _

theorem ident : Delimited machine (Production.ident (P := P)) :=
  .bind_immediate (.expect (by decide)) fun _ => .pure _

/-- A look at the next lexeme. -/
theorem look
    {next : Cursor P -> Production P β}
    (peeks : Peeks next)
    (rest : ∀ cursor, Delimited machine (next cursor)) :
    Delimited machine (Production.look.bind next) := by
  intro state final value taken ⟨regular, run, reaches, clean⟩
  obtain ⟨notEmpty, again⟩ := rest state.cursor ⟨regular, run, reaches, clean⟩
  exact ⟨notEmpty, fun behind =>
    .look (fun cursor aheadEq => peeks.eq_of_reaches reaches notEmpty aheadEq) (again behind)⟩

theorem nested (inner : Delimited machine production) : Delimited machine (.nested production) := by
  intro state final value taken cleanRun
  obtain ⟨shallow, innerRun⟩ := cleanRun.of_nested
  obtain ⟨notEmpty, again⟩ := inner innerRun
  exact ⟨notEmpty, fun behind => .nested shallow (again behind)⟩

theorem inHeader
    {inside : Bool}
    (inner : Delimited machine production) :
    Delimited machine (.inHeader inside production) := by
  intro state final value taken cleanRun
  obtain ⟨notEmpty, again⟩ := inner cleanRun.of_inHeader
  exact ⟨notEmpty, fun behind => .inHeader (again behind)⟩

end Delimited

/-! ## Phrases that something else ends -/

namespace Detaches

/-- What is read in front of other lexemes must be read again in front of them. -/
theorem bind
    (repeats : Repeats machine production)
    (start : Detaches machine production)
    (rest : ∀ value, Detaches machine (next value)) :
    Detaches machine (production.bind next) := by
  intro state final result taken cleanRun ends lexeme behind lexemeEnds
  obtain ⟨value, middle, front, back, rfl, startRun, restRun⟩ := cleanRun.exists_of_bind
  exact .bind startRun.reaches (.of_front repeats start startRun restRun.reaches ends lexemeEnds)
    (rest value restRun ends lexeme behind lexemeEnds)

theorem bind_delimited
    (start : Delimited machine production)
    (rest : ∀ value, Detaches machine (next value)) :
    Detaches machine (production.bind next) :=
  .bind start.repeats start.detaches rest

/-- What is read in front of a phrase that is not empty need not detach. -/
theorem bind_closes
    (start : Repeats machine production)
    (closes : ∀ value, Closes machine (next value))
    (rest : ∀ value, Detaches machine (next value)) :
    Detaches machine (production.bind next) := by
  intro state final result taken cleanRun ends lexeme behind lexemeEnds
  obtain ⟨value, middle, front, back, rfl, startRun, restRun⟩ := cleanRun.exists_of_bind
  obtain ⟨_, last, -⟩ := closes value restRun
  cases back with
  | nil => cases last
  | cons head back =>
      exact .bind startRun.reaches
        (start startRun head (back ++ final.cursor.ahead) (back ++ lexeme :: behind)
          restRun.reaches.ahead)
        (rest value restRun ends lexeme behind lexemeEnds)

/-- Where there is no lexeme to move past, none that ends phrases comes next. -/
theorem advance : Detaches machine (Production.advance (P := P)) := by
  intro state final value taken cleanRun ends lexeme rest _
  obtain ⟨_, _, aheadEq, -⟩ := Cursor.exists_of_token_ne_eof (ne_eof_of_phraseEnds ends)
  exact cleanRun.advance_again (aheadEq ▸ List.cons_ne_nil _ _) _

/-- A look at the next lexeme. All tokens that end phrases are alike, unless something is read. -/
theorem look
    {next : Cursor P -> Production P β}
    (peeks : Peeks next)
    (alike : Closes machine (Production.look.bind next) ∨ ∀ first second : Cursor P,
      first.token ∈ phraseEnds -> second.token ∈ phraseEnds -> next first = next second)
    (rest : ∀ cursor, Detaches machine (next cursor)) :
    Detaches machine (Production.look.bind next) := by
  intro state final value taken cleanRun ends lexeme behind lexemeEnds
  obtain ⟨regular, run, reaches, clean⟩ := cleanRun
  refine .look (fun cursor aheadEq => ?_)
    (rest state.cursor ⟨regular, run, reaches, clean⟩ ends lexeme behind lexemeEnds)
  cases taken with
  | cons head tail => exact peeks.eq_of_cons aheadEq reaches.ahead
  | nil =>
      rcases alike with closes | alike
      · obtain ⟨_, last, -⟩ := closes ⟨regular, run, reaches, clean⟩
        cases last
      · have atEnd : state.cursor.token = final.cursor.token :=
          Cursor.token_congr_ahead reaches.ahead (ne_eof_of_phraseEnds ends)
        refine alike _ _ ?_ (atEnd ▸ ends)
        rw [Cursor.token_of_ahead aheadEq]
        exact lexemeEnds

theorem header
    {next : Bool -> Production P β}
    (rest : ∀ inside, Detaches machine (next inside)) :
    Detaches machine (Production.header.bind next) := by
  intro state final value taken ⟨regular, run, reaches, clean⟩ ends lexeme behind lexemeEnds other
    aheadEq sameDepth sameHeader
  change machine.run (next other.inHeader) other = _
  rw [sameHeader]
  exact rest state.inHeader ⟨regular, run, reaches, clean⟩ ends lexeme behind lexemeEnds other aheadEq
    sameDepth sameHeader

/-- A look whether a token comes next that ends no phrase. -/
theorem look_if
    {token : Token}
    {first second : Production P β}
    (notEnd : token ∉ phraseEnds)
    (firstDetaches : Detaches machine first)
    (secondDetaches : Detaches machine second) :
    Detaches machine (Production.look.bind fun cursor =>
      if cursor.token = token then first else second) := by
  refine .look (fun cursor cursor' same _ => ?_) (.inr fun cursor cursor' ends ends' => ?_)
    fun cursor => ?_
  · rw [same]
  · rw [if_neg (ne_of_phraseEnds ends notEnd), if_neg (ne_of_phraseEnds ends' notEnd)]
  · split
    · exact firstDetaches
    · exact secondDetaches

theorem eat?
    {token : Token}
    (notEnd : token ∉ phraseEnds) :
    Detaches machine (Production.eat? (P := P) token) :=
  .look_if notEnd (.bind .advance .advance fun _ => (Immediate.pure _).detaches)
    (Immediate.pure _).detaches

theorem mark?
    {token : Token}
    (notEnd : token ∉ phraseEnds) :
    Detaches machine (Production.mark? (P := P) token) :=
  .bind (.eat? token) (.eat? notEnd) fun _ => (Immediate.pure _).detaches

theorem nested (inner : Detaches machine production) : Detaches machine (.nested production) := by
  intro state final value taken cleanRun ends lexeme rest lexemeEnds
  obtain ⟨shallow, innerRun⟩ := cleanRun.of_nested
  exact .nested shallow (inner innerRun ends lexeme rest lexemeEnds)

/-- A step that is repeated until nothing comes next for it. -/
theorem iterate
    {step : α -> Production P (Option α)}
    {start : α}
    (repeats : ∀ value, Repeats machine (step value))
    (steps : ∀ value, Detaches machine (step value)) :
    Detaches machine (.iterate step start) := by
  intro state final result taken ⟨regular, run, reaches, clean⟩ ends lexeme rest lexemeEnds other
    aheadEq sameDepth sameHeader
  change Outcome.iterate (fun value => machine.run (step value)) machine.allowance start state = _ at run
  change Outcome.iterate (fun value => machine.run (step value)) machine.allowance start other = _
  generalize machine.allowance = repetitions at run ⊢
  induction repetitions generalizing start state taken other with
  | zero => cases run
  | succ repetitions inductionHypothesis =>
      rw [ReadsStep.iterate_succ] at run ⊢
      obtain ⟨next, middle, stepRun, restRun⟩ := Outcome.bind_eq_done run
      obtain ⟨front, startReaches⟩ := machine.reaches_of_done stepRun
      obtain ⟨back, restReaches⟩ : ∃ back, middle.Reaches back final := by
        cases next with
        | none =>
            obtain ⟨-, rfl⟩ := Outcome.done.inj restRun
            exact ⟨[], .refl _⟩
        | some next =>
            have sound := Outcome.Sound.iterate (fun value => machine.run_sound (step value))
              repetitions next middle
            change Outcome.iterate _ _ _ _ = _ at restRun
            rw [restRun] at sound
            exact sound
      have sameErrors : state.errors = middle.errors :=
        startReaches.errors.eq_of_length_le (clean ▸ restReaches.errors.length_le)
      obtain rfl : taken = front ++ back :=
        List.append_cancel_right (reaches.ahead.symm.trans (startReaches.trans restReaches).ahead)
      have startRun : CleanRun machine (step start) state next middle front :=
        ⟨regular, stepRun, startReaches, sameErrors.symm⟩
      have startAgain : ReadsAgain machine (step start) state next front (back ++ lexeme :: rest) :=
        .of_front (repeats start) (steps start) startRun restReaches ends lexemeEnds
      rw [List.append_assoc] at aheadEq
      rw [startAgain other aheadEq sameDepth sameHeader]
      cases next with
      | none =>
          obtain ⟨rfl, rfl⟩ := Outcome.done.inj restRun
          rw [restReaches.eq_nil, List.append_nil]
          rfl
      | some next =>
          have restAgain := inductionHypothesis (startReaches.regular regular) restReaches
            (clean.trans sameErrors) (other.moved front.length (back ++ lexeme :: rest)) rfl
            (sameDepth.trans startReaches.depth.symm) (sameHeader.trans startReaches.inHeader.symm)
            restRun
          change Outcome.iterate _ _ _ _ = _
          rw [restAgain, ReadState.moved_moved, List.length_append]

end Detaches

end

/-! ## Lists -/

section

variable {inside : Option (List Token) -> Prop} {need : Nat} {outline : α -> List (Mention P)}
  {valid : α -> Prop}

theorem Repeats.commaTail
    {closer : Token}
    (reads : ReadsPhrase machine inside need production (Consumed outline valid))
    (isInside : inside none) :
    Repeats machine (Production.commaTail closer production) := by
  have isList : Reads machine ⟨none, none, none⟩ (Production.commaTail closer production)
      ⟨[], need + 1⟩ _ :=
    .commaTail reads isInside (Nat.le_add_left 1 need) (Nat.le_succ need)
  exact isList.repeats

theorem Repeats.itemsUntil
    {closer : Token}
    {item : Bool -> Production P (α × Bool)}
    (reads : Reads.ReadsItem machine inside need outline valid item)
    (isInside : inside none) :
    Repeats machine (Production.itemsUntil closer item) := by
  have isList : Reads machine ⟨none, none, none⟩ (Production.itemsUntil closer item)
      ⟨[], need + 1⟩ _ :=
    .itemsUntil reads isInside (Nat.le_add_left 1 need) (Nat.le_succ need)
  exact isList.repeats

end

namespace ReadsNonterminals

variable (nonterminals : ReadsNonterminals machine)

include nonterminals

/-! ## Phrases in brackets -/

theorem typeArgs_delimited : Delimited machine Production.typeArgs := by
  refine .inHeader (.bind (.mark (by decide)) fun lBrack => .look (fun first second same _ => ?_)
    fun cursor => ?_)
  · rw [same]
  · split
    · exact .refuse _
    · refine .bind (nonterminals.type.repeats trivial) fun first => ?_
      refine .bind (.commaTail nonterminals.type trivial) fun rest => ?_
      exact .bind_immediate (.mark (by decide)) fun rBrack => .pure _

theorem parenType_delimited : Delimited machine Production.parenType := by
  refine .inHeader (.bind (.mark (by decide)) fun lParen => ?_)
  refine .bind (nonterminals.type.repeats trivial) fun inner => ?_
  exact .bind_immediate (.mark (by decide)) fun rParen => .pure _

theorem params_delimited (variadic : Bool) : Delimited machine (Production.params variadic) := by
  refine .inHeader (.bind (.mark (by decide)) fun lParen => ?_)
  refine .bind (.itemsUntil (fun _ => Reads.withComma nonterminals.paramEntry) trivial) fun entries => ?_
  split
  · exact .refuse _
  · exact .bind_immediate (.mark (by decide)) fun rParen => .pure _

theorem structType_delimited : Delimited machine Production.structType := by
  refine .bind (.mark (by decide)) fun keyword => .bind (.mark (by decide)) fun lBrace => ?_
  refine .bind (.itemsUntil (fun _ => Reads.withSemicolon nonterminals.fieldDecl) ⟨trivial, nofun⟩)
    fun fields => ?_
  exact .bind_immediate (.mark (by decide)) fun rBrace => .pure _

theorem interfaceType_delimited : Delimited machine Production.interfaceType := by
  refine .bind (.mark (by decide)) fun keyword => .bind (.mark (by decide)) fun lBrace => ?_
  refine .bind (.itemsUntil (fun _ => Reads.withSemicolon nonterminals.interfaceElem)
    ⟨trivial, nofun⟩) fun elems => ?_
  exact .bind_immediate (.mark (by decide)) fun rBrace => .pure _

theorem literalBodyRule_delimited : Delimited machine Production.literalBodyRule := by
  refine .nested (.inHeader (.bind (.mark (by decide)) fun lBrace => ?_))
  refine .bind (.itemsUntil nonterminals.element trivial) fun elements => ?_
  exact .bind_immediate (.mark (by decide)) fun rBrace => .pure _

theorem blockRule_delimited : Delimited machine Production.blockRule := by
  refine .nested (.inHeader (.bind (.mark (by decide)) fun lBrace => ?_))
  refine .bind (nonterminals.stmtList.repeats nofun) fun stmts => ?_
  exact .bind_immediate (.mark (by decide)) fun rBrace => .pure _

theorem groupExpr_delimited : Delimited machine Production.groupExpr := by
  refine .inHeader (.bind (.mark (by decide)) fun lParen => ?_)
  refine .bind (nonterminals.expr.repeats trivial) fun inner => ?_
  exact .bind_immediate (.mark (by decide)) fun rParen => .pure _

theorem sliceEnd_delimited
    (base : Expr P)
    (lBrack colon : Mark P)
    (low : Tree P (.maybe .expr))
    (high : Option (Expr P)) :
    Delimited machine (Production.sliceEnd base lBrack colon low high) := by
  refine .bind (.mark? .colon) fun second => ?_
  cases second with
  | none => exact .bind_immediate (.mark (by decide)) fun rBrack => .pure _
  | some secondColon =>
      cases high with
      | none => exact .refuse _
      | some high =>
          refine .look (fun first second same _ => by rw [same]) fun cursor => ?_
          split
          · exact .refuse _
          · refine .bind (nonterminals.expr.repeats trivial) fun max => ?_
            exact .bind_immediate (.mark (by decide)) fun rBrack => .pure _

theorem sliceTail_delimited
    (base : Expr P)
    (lBrack : Mark P)
    (low : Tree P (.maybe .expr)) :
    Delimited machine (Production.sliceTail base lBrack low) := by
  refine .bind (.mark (by decide)) fun colon => .look (fun first second same _ => ?_) fun cursor => ?_
  · rw [Cursor.atAny_congr _ same]
  · split
    · exact .bind (Immediate.pure _).repeats fun high =>
        nonterminals.sliceEnd_delimited base lBrack colon low high
    · exact .bind (nonterminals.expr.repeats trivial) fun _ => .bind (Immediate.pure _).repeats fun high =>
        nonterminals.sliceEnd_delimited base lBrack colon low high

theorem indexOrSlice_delimited (base : Expr P) : Delimited machine (Production.indexOrSlice base) := by
  refine .inHeader (.bind (.mark (by decide)) fun lBrack => .look (fun first second same _ => ?_)
    fun cursor => ?_)
  · rw [same]
  · split
    · exact nonterminals.sliceTail_delimited base lBrack .absent
    · refine .bind (nonterminals.expr.repeats trivial) fun first => ?_
      refine .look (fun first second same _ => ?_) fun cursor => ?_
      · rw [same]
      · split
        · exact nonterminals.sliceTail_delimited base lBrack (.present first)
        · refine .bind (.commaTail nonterminals.expr trivial) fun rest => ?_
          refine .bind_immediate (.mark (by decide)) fun rBrack => ?_
          split
          · exact .pure _
          · exact .refuse _
        · refine .bind_immediate (.mark (by decide)) fun rBrack => ?_
          split <;> exact .pure _

theorem callTail_delimited (func : Expr P) : Delimited machine (Production.callTail func) := by
  refine .inHeader (.bind (.mark (by decide)) fun lParen => ?_)
  have items : Reads.ReadsItem machine Anywhere 4
      (fun arg : Expr P × Option (Mark P) => arg.1.outline ++ (arg.2.map Mark.mention).toList)
      (fun arg => arg.2 = none)
      fun first => Production.argument (Production.takesType func && first) :=
    fun first => nonterminals.argument (Production.takesType func && first)
  refine .bind (.itemsUntil items trivial) fun args => ?_
  exact .bind_immediate (.mark (by decide)) fun rParen => .pure _

theorem selectorOrAssertion_delimited (base : Expr P) :
    Delimited machine (Production.selectorOrAssertion base) := by
  refine .bind (.mark (by decide)) fun dot => .look (fun first second same _ => ?_) fun cursor => ?_
  · rw [same]
  · split
    · exact .bind_immediate .ident fun name => .pure _
    · refine .inHeader (.bind (.mark (by decide)) fun lParen => .bind (.mark? _) fun keyword => ?_)
      split
      · exact .bind_immediate (.mark (by decide)) fun rParen => .pure _
      · refine .bind (nonterminals.type.repeats trivial) fun type => ?_
        exact .bind_immediate (.mark (by decide)) fun rParen => .pure _
    · exact .refuse _

end ReadsNonterminals

/-- The braces of a composite literal end it. -/
theorem literalTail_delimited
    (literalBody : Delimited machine (.call .literalBody))
    (type : Expr P) :
    Delimited machine (Production.literalTail type) := by
  unfold Production.literalTail
  split
  · exact .refuse _
  · exact .bind_immediate literalBody fun body => .pure _

/-! ## Types and expressions -/

theorem typeFrom_eq_none
    {token : Token}
    (ends : token ∈ phraseEnds) :
    Production.typeFrom (P := P) token = none := by
  revert token
  simp [phraseEnds, Production.typeFrom]

theorem isUnaryOp_eq_false
    {token : Token}
    (ends : token ∈ phraseEnds) :
    token.isUnaryOp = false := by
  revert token
  decide

theorem precedence_eq_none
    {token : Token}
    (ends : token ∈ phraseEnds) :
    token.precedence = .none := by
  revert token
  decide

/-- The nonterminals of types and expressions detach from what follows them, or end in a brace of their
own. -/
structure DetachesNonterminals (machine : Machine P) : Prop where
  type? : Detaches machine Production.type?
  exprOf : ∀ least, Detaches machine (.call (.expr least))
  unary : Detaches machine (.call .unary)
  literalBody : Delimited machine (.call .literalBody)
  block : Delimited machine Production.block

namespace DetachesNonterminals

variable (detaches : DetachesNonterminals machine) (nonterminals : ReadsNonterminals machine)

include detaches nonterminals

omit detaches in
theorem typeName : Detaches machine Production.typeName := by
  have args (package : Option (Ident P)) (name : Ident P) :
      Detaches machine (Production.look.bind fun cursor =>
        if cursor.token = .lBrack then Production.typeArgs.bind fun args =>
          .pure (Tree.typeName package name (.present args))
        else .pure (Tree.typeName package name .absent)) := by
    refine .look_if (by decide) ?_ (Immediate.pure _).detaches
    exact .bind_delimited nonterminals.typeArgs_delimited fun args => (Immediate.pure _).detaches
  refine .bind_delimited .ident fun first => .bind (.eat? .dot) (.eat? (by decide)) fun dot => ?_
  dsimp only
  split
  · refine .bind_delimited .ident fun name => ?_
    exact .bind (Immediate.pure _).repeats (Immediate.pure _).detaches fun names => args names.1 names.2
  · exact .bind (Immediate.pure _).repeats (Immediate.pure _).detaches fun names => args names.1 names.2

theorem type : Detaches machine Production.type := by
  refine .bind (nonterminals.type?.repeats trivial) detaches.type? fun type => ?_
  split
  · exact (Immediate.pure _).detaches
  · intro state final value taken cleanRun
    cases cleanRun.run

/-- Phrases that end in the type of their elements. -/
theorem elem
    (change : TypeExpr P -> α) :
    Detaches machine (Production.type.bind fun elem => .pure (change elem)) :=
  .bind (nonterminals.type.repeats trivial) (detaches.type nonterminals) fun _ =>
    (Immediate.pure _).detaches

omit detaches in
theorem elem_closes
    (change : TypeExpr P -> α) :
    Closes machine (Production.type.bind fun elem => .pure (change elem)) :=
  .bind (.of_anywhere nonterminals.type) fun _ => .pure _

theorem arrayOrSliceType : Detaches machine Production.arrayOrSliceType := by
  refine .bind_delimited (.mark (by decide)) fun lBrack => ?_
  refine .bind_closes (.mark? _) (fun rBrack => ?_) fun rBrack => ?_
  · split
    · exact elem_closes nonterminals _
    · refine .behind fun ellipsis => ?_
      split
      · exact .behind fun rBrack => elem_closes nonterminals _
      · exact .behind fun length => .behind fun rBrack => elem_closes nonterminals _
  · split
    · exact detaches.elem nonterminals _
    · refine .bind (.mark? _) (.mark? (by decide)) fun ellipsis => ?_
      split
      · exact .bind_delimited (.mark (by decide)) fun rBrack => detaches.elem nonterminals _
      · refine .bind_closes (.inHeader (nonterminals.expr.repeats trivial)) (fun length => ?_)
          fun length => ?_
        · exact .behind fun rBrack => elem_closes nonterminals _
        · exact .bind_delimited (.mark (by decide)) fun rBrack => detaches.elem nonterminals _

theorem mapType : Detaches machine Production.mapType := by
  refine .bind_delimited (.mark (by decide)) fun keyword => ?_
  refine .bind_delimited (.mark (by decide)) fun lBrack => ?_
  refine .bind (nonterminals.type.repeats trivial) (detaches.type nonterminals) fun key => ?_
  exact .bind_delimited (.mark (by decide)) fun rBrack => detaches.elem nonterminals _

theorem chanType : Detaches machine Production.chanType := by
  refine .bind (.mark? _) (.mark? (by decide)) fun arrow => ?_
  split
  · exact .bind_delimited (.mark (by decide)) fun keyword => detaches.elem nonterminals _
  · refine .bind_delimited (.mark (by decide)) fun keyword => ?_
    exact .bind (.mark? _) (.mark? (by decide)) fun arrow => detaches.elem nonterminals _

theorem pointerType : Detaches machine Production.pointerType :=
  .bind_delimited (.mark (by decide)) fun star => detaches.elem nonterminals _

theorem signature : Detaches machine Production.signature := by
  refine .bind_delimited (nonterminals.params_delimited true) fun inputs => ?_
  refine .look_if (by decide) ?_ ?_
  · exact .bind_delimited (nonterminals.params_delimited false) fun outputs =>
      (Immediate.pure _).detaches
  · exact .bind (nonterminals.type?.repeats trivial) detaches.type? fun output =>
      (Immediate.pure _).detaches

theorem funcType : Detaches machine Production.funcType := by
  refine .bind_delimited (.mark (by decide)) ?_
  intro keyword
  refine .bind (nonterminals.signature.repeats trivial) (detaches.signature nonterminals) ?_
  intro shape
  exact (Immediate.pure _).detaches

theorem typeFrom
    (token : Token)
    (production : Production P (TypeExpr P))
    (found : Production.typeFrom token = some production) :
    Detaches machine production := by
  unfold Production.typeFrom at found
  split at found <;> cases found
  · exact .bind (nonterminals.typeName.repeats trivial) (typeName nonterminals) fun name =>
      (Immediate.pure _).detaches
  · exact detaches.pointerType nonterminals
  · exact nonterminals.parenType_delimited.detaches
  · exact .bind (nonterminals.funcType.repeats trivial) (detaches.funcType nonterminals) fun type =>
      (Immediate.pure _).detaches
  · exact detaches.arrayOrSliceType nonterminals
  · exact detaches.mapType nonterminals
  · exact detaches.chanType nonterminals
  · exact detaches.chanType nonterminals
  · exact nonterminals.structType_delimited.detaches
  · exact nonterminals.interfaceType_delimited.detaches

theorem typeRule : Detaches machine Production.typeRule := by
  refine .nested (.look (fun first second same _ => ?_) (.inr fun first second ends ends' => ?_)
    fun cursor => ?_)
  · rw [same]
  · rw [typeFrom_eq_none ends, typeFrom_eq_none ends']
  · split
    · next production found =>
        exact .bind ((nonterminals.typeFrom _ _ found).repeats trivial)
          (detaches.typeFrom nonterminals _ _ found) fun type => (Immediate.pure _).detaches
    · exact (Immediate.pure _).detaches

theorem funcOperand : Detaches machine Production.funcOperand := by
  refine .bind (nonterminals.funcType.repeats trivial) (detaches.funcType nonterminals) fun type => ?_
  refine .look_if (by decide) ?_ (Immediate.pure _).detaches
  exact .bind_delimited (.inHeader detaches.block) fun body => (Immediate.pure _).detaches

theorem typeOperand : Detaches machine Production.typeOperand := by
  refine .look (fun first second same _ => ?_) (.inl (.of_anywhere nonterminals.typeOperand))
    fun cursor => ?_
  · rw [same]
  · refine .bind (nonterminals.type?.repeats trivial) detaches.type? fun type => ?_
    split
    · exact (Immediate.pure _).detaches
    · exact (Immediate.refuse _).detaches

theorem operand : Detaches machine Production.operand := by
  refine .look (fun first second same _ => ?_) (.inl (.of_anywhere nonterminals.operand))
    fun cursor => ?_
  · rw [same]
  · split
    · exact .bind .advance .advance fun lexeme => (Immediate.pure _).detaches
    · split
      · exact .bind_delimited .ident fun name => (Immediate.pure _).detaches
      · exact nonterminals.groupExpr_delimited.detaches
      · exact detaches.funcOperand nonterminals
      · exact detaches.typeOperand nonterminals

theorem suffix?_repeats (base : Expr P) : Repeats machine (Production.suffix? base) := by
  refine .look (fun first second same _ => ?_) fun cursor => .header fun inside => ?_
  · rw [same]
  · split
    · exact .bind (nonterminals.indexOrSlice_delimited base).repeats fun _ =>
        (Immediate.pure _).repeats
    · exact .bind (nonterminals.callTail_delimited base).repeats fun _ => (Immediate.pure _).repeats
    · split
      · exact .bind (literalTail_delimited detaches.literalBody base).repeats fun _ =>
          (Immediate.pure _).repeats
      · exact (Immediate.pure _).repeats
    · exact .bind (nonterminals.selectorOrAssertion_delimited base).repeats fun _ =>
        (Immediate.pure _).repeats
    · exact (Immediate.pure _).repeats

theorem suffix? (base : Expr P) : Detaches machine (Production.suffix? base) := by
  refine .look (fun first second same _ => ?_) (.inr fun first second ends ends' => ?_)
    fun cursor => .header fun inside => ?_
  · rw [same]
  · have noSuffix : ∀ token ∈ phraseEnds,
        token ≠ .lBrack ∧ token ≠ .lParen ∧ token ≠ .lBrace ∧ token ≠ .dot := by
      decide
    simp [noSuffix _ ends, noSuffix _ ends']
  · split
    · exact .bind_delimited (nonterminals.indexOrSlice_delimited base) fun _ =>
        (Immediate.pure _).detaches
    · exact .bind_delimited (nonterminals.callTail_delimited base) fun _ => (Immediate.pure _).detaches
    · split
      · exact .bind_delimited (literalTail_delimited detaches.literalBody base) fun _ =>
          (Immediate.pure _).detaches
      · exact (Immediate.pure _).detaches
    · exact .bind_delimited (nonterminals.selectorOrAssertion_delimited base) fun _ =>
        (Immediate.pure _).detaches
    · exact (Immediate.pure _).detaches

theorem primaryExpr : Detaches machine Production.primaryExpr :=
  .bind (nonterminals.operand.repeats trivial) (detaches.operand nonterminals) fun _ =>
    .iterate (detaches.suffix?_repeats nonterminals) (detaches.suffix? nonterminals)

omit detaches nonterminals in
theorem anyMark_repeats : Repeats machine (Production.anyMark (P := P)) :=
  .bind .advance fun _ => (Immediate.pure _).repeats

omit detaches nonterminals in
theorem anyMark : Detaches machine (Production.anyMark (P := P)) :=
  .bind .advance .advance fun _ => (Immediate.pure _).detaches

theorem unaryRule : Detaches machine Production.unaryRule := by
  refine .nested (.look (fun first second same _ => ?_) (.inr fun first second ends ends' => ?_)
    fun cursor => ?_)
  · rw [same]
  · rw [isUnaryOp_eq_false ends, isUnaryOp_eq_false ends']
  · split
    · refine .bind anyMark_repeats anyMark fun op => ?_
      exact .bind (nonterminals.unary.repeats trivial) detaches.unary fun operand =>
        (Immediate.pure _).detaches
    · exact detaches.primaryExpr nonterminals

omit detaches in
theorem binaryTail?_repeats
    (least : Precedence)
    (left : Expr P) :
    Repeats machine (Production.binaryTail? least left) := by
  refine .look (fun first second same _ => ?_) fun cursor => ?_
  · rw [same]
  · dsimp only
    split
    · exact (Immediate.pure _).repeats
    · exact .bind anyMark_repeats fun op =>
        .bind ((nonterminals.exprOf _).repeats trivial) fun right => (Immediate.pure _).repeats

theorem binaryTail?
    (least : Precedence)
    (left : Expr P) :
    Detaches machine (Production.binaryTail? least left) := by
  refine .look (fun first second same _ => ?_) (.inr fun first second ends ends' => ?_)
    fun cursor => ?_
  · rw [same]
  · rw [precedence_eq_none ends, precedence_eq_none ends']
  · dsimp only
    split
    · exact (Immediate.pure _).detaches
    · refine .bind anyMark_repeats anyMark fun op => ?_
      exact .bind ((nonterminals.exprOf _).repeats trivial) (detaches.exprOf _) fun right =>
        (Immediate.pure _).detaches

theorem exprRule (least : Precedence) : Detaches machine (Production.exprRule least) :=
  .bind (nonterminals.unary.repeats trivial) detaches.unary fun _ =>
    .iterate (binaryTail?_repeats nonterminals least) (detaches.binaryTail? nonterminals least)

end DetachesNonterminals

theorem Detaches.call
    {limit allowance : Nat}
    {nonterminal : Nonterminal}
    (rule : Detaches (ruleMachine (P := P) limit allowance) nonterminal.rule) :
    Detaches (ruleMachine (P := P) limit (allowance + 1)) (.call nonterminal) :=
  fun _ _ _ _ ⟨regular, run, reaches, clean⟩ => rule ⟨regular, run, reaches, clean⟩

theorem Delimited.call
    {limit allowance : Nat}
    {nonterminal : Nonterminal}
    (rule : Delimited (ruleMachine (P := P) limit allowance) nonterminal.rule) :
    Delimited (ruleMachine (P := P) limit (allowance + 1)) (.call nonterminal) :=
  fun _ _ _ _ ⟨regular, run, reaches, clean⟩ => rule ⟨regular, run, reaches, clean⟩

/-- What the rules read in front of a token that ends phrases, they read in front of any such token. -/
theorem detachesNonterminals (limit allowance : Nat) :
    DetachesNonterminals (ruleMachine (P := P) limit allowance) := by
  induction allowance with
  | zero =>
      refine ⟨?_, fun least => ?_, ?_, ?_, ?_⟩ <;> intro state final value taken cleanRun
        <;> cases cleanRun.run
  | succ allowance detaches =>
      have nonterminals := readsNonterminals (P := P) limit allowance
      exact {
        type? := .call (detaches.typeRule nonterminals)
        exprOf := fun least => .call (detaches.exprRule nonterminals least)
        unary := .call (detaches.unaryRule nonterminals)
        literalBody := .call nonterminals.literalBodyRule_delimited
        block := .call nonterminals.blockRule_delimited }

end GoFront
