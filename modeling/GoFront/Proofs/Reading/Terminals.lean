import GoFront.Proofs.Reading.Judgement

/-!
# Reading terminals

How the judgement passes over single lexemes: names, fixed tokens, operators and the ends of lines. A
production that reads a phrase in every frame is named as such, so that its users need not look inside.
-/

namespace GoFront

variable {P : Type}

/-! ## Phrases -/

/-- A production reads a phrase of its own wherever there is enough credit, inside suitable brackets.
The values are described together with the credit before and behind them, and with the mentions of the
lexemes consumed. -/
def ReadsPhrase {α : Type}
    (machine : Machine P)
    (inside : Option (List Token) -> Prop)
    (need : Nat)
    (production : Production P α)
    (result : α -> Nat -> Nat -> List (Mention P) -> Prop) : Prop :=
  ∀ (frame : Frame) (credit : Nat), inside frame.outer -> need ≤ credit ->
    Reads machine frame production ⟨[], credit⟩ fun value after mentions =>
      ∃ reached, after = ⟨[], reached⟩ ∧ result value credit reached mentions

/-- Phrases that can stand anywhere. -/
def Anywhere (_ : Option (List Token)) : Prop := True

/-- Phrases that contain semicolons, which must stand inside brackets. -/
def InBrackets (outer : Option (List Token)) : Prop :=
  outer ≠ some []

/-- A valid value that mentions the lexemes consumed for it. -/
def Consumed {α : Type}
    (outline : α -> List (Mention P))
    (valid : α -> Prop)
    (value : α)
    (credit reached : Nat)
    (mentions : List (Mention P)) : Prop :=
  credit + 8 ≤ reached ∧ mentions = outline value ∧ valid value

theorem inBrackets_of_due
    (token : Token)
    (due : List Token)
    (outer : Option (List Token)) :
    InBrackets (outer.map ((token :: due) ++ ·)) := by
  cases outer <;> simp [InBrackets]

theorem inside_map_nil
    {inside : Option (List Token) -> Prop}
    {outer : Option (List Token)}
    (isInside : inside outer) :
    inside (outer.map ([] ++ ·)) := by
  cases outer <;> exact isInside

theorem ReadsPhrase.inBrackets
    {α : Type}
    {machine : Machine P}
    {need : Nat}
    {production : Production P α}
    {result : α -> Nat -> Nat -> List (Mention P) -> Prop}
    (isPhrase : ReadsPhrase machine Anywhere need production result) :
    ReadsPhrase machine InBrackets need production result :=
  fun frame credit _ enough => isPhrase frame credit trivial enough

/-! ## Leaves as lexemes -/

/-- Whether a token is a keyword, an operator or a bracket, which the tree keeps as such. -/
def isMark (token : Token) : Bool :=
  !token.isLiteral && token ≠ .eof && token ≠ .semi

theorem Mark.lexeme_of_regular
    {lexeme : Lexeme P}
    (regular : lexeme.Regular)
    (fixed : lexeme.token.isLiteral = false) :
    (⟨lexeme.token, lexeme.pos⟩ : Mark P).lexeme = lexeme := by
  have noText : lexeme.literal = none := by
    simpa [fixed] using regular.2
  cases lexeme
  cases noText
  rfl

theorem Ident.lexeme_of_regular
    {lexeme : Lexeme P}
    (regular : lexeme.Regular)
    (isName : lexeme.token = .ident) :
    (Production.identOf lexeme).lexeme = lexeme := by
  obtain ⟨token, pos, literal⟩ := lexeme
  obtain rfl : token = .ident := isName
  obtain ⟨text, rfl⟩ := Option.isSome_iff_exists.1 (regular.2.trans rfl)
  rfl

theorem BasicLit.lexeme_of_regular
    {lexeme : Lexeme P}
    {kind : LitKind}
    (regular : lexeme.Regular)
    (isKind : lexeme.token = kind.token) :
    (⟨kind, lexeme.literal.getD "", lexeme.pos⟩ : BasicLit P).lexeme = lexeme := by
  obtain ⟨token, pos, literal⟩ := lexeme
  obtain rfl : token = kind.token := isKind
  have isLiteral : kind.token.isLiteral = true := by
    cases kind <;> rfl
  obtain ⟨text, rfl⟩ := Option.isSome_iff_exists.1 (regular.2.trans isLiteral)
  rfl

namespace Reads

variable {machine : Machine P} {frame : Frame} {due after : List Token} {credit : Nat}
  {α β : Type} {post : β -> Progress -> List (Mention P) -> Prop}

/-- A phrase and what follows it. -/
theorem phrase
    {inside : Option (List Token) -> Prop}
    {need : Nat}
    {first : Production P α}
    {result : α -> Nat -> Nat -> List (Mention P) -> Prop}
    {next : α -> Production P β}
    (isPhrase : ReadsPhrase machine inside need first result)
    (isInside : inside (frame.outer.map (due ++ ·)))
    (enough : need ≤ credit)
    (rest : ∀ value reached mentions, result value credit reached mentions ->
      Reads machine ⟨frame.outer, none, frame.follower⟩ (next value) ⟨due, reached⟩
        fun result after more => post result after (mentions ++ more)) :
    Reads machine frame (first.bind next) ⟨due, credit⟩ post := by
  refine bind (within due credit (isPhrase _ credit isInside enough)) ?_
  rintro value _ mentions ⟨_, rfl, reached, rfl, holds⟩
  exact rest value reached mentions holds

/-- A phrase at the end. -/
theorem last
    {inside : Option (List Token) -> Prop}
    {need : Nat}
    {production : Production P α}
    {result : α -> Nat -> Nat -> List (Mention P) -> Prop}
    {post : α -> Progress -> List (Mention P) -> Prop}
    (isPhrase : ReadsPhrase machine inside need production result)
    (isInside : inside (frame.outer.map (due ++ ·)))
    (enough : need ≤ credit)
    (holds : ∀ value reached mentions, result value credit reached mentions ->
      post value ⟨due, reached⟩ mentions) :
    Reads machine frame production ⟨due, credit⟩ post := by
  refine weaken (within due credit (isPhrase _ credit isInside enough)) ?_
  rintro value _ mentions ⟨_, rfl, reached, rfl, description⟩
  exact ⟨mentions, .refl _, holds value reached mentions description⟩

/-- A phrase inside or outside a header. -/
theorem readsInHeader
    {inside : Option (List Token) -> Prop}
    {need : Nat}
    {header : Bool}
    {production : Production P α}
    {result : α -> Nat -> Nat -> List (Mention P) -> Prop}
    (isPhrase : ReadsPhrase machine inside need production result) :
    ReadsPhrase machine inside need (.inHeader header production) result :=
  fun frame credit isInside enough => inHeader (isPhrase frame credit isInside enough)

/-- A phrase one level deeper. -/
theorem readsNested
    {inside : Option (List Token) -> Prop}
    {need : Nat}
    {production : Production P α}
    {result : α -> Nat -> Nat -> List (Mention P) -> Prop}
    (isPhrase : ReadsPhrase machine inside need production result) :
    ReadsPhrase machine inside need (.nested production) result :=
  fun frame credit isInside enough => nested (isPhrase frame credit isInside enough)

/-- A phrase that consumes lexemes consumes at least one. -/
theorem consumed_lt
    {inside : Option (List Token) -> Prop}
    {need : Nat}
    {production : Production P α}
    {outline : α -> List (Mention P)}
    {valid : α -> Prop}
    {state final : ReadState P}
    {value : α}
    (isPhrase : ReadsPhrase machine inside need production (Consumed outline valid))
    (isInside : inside none)
    (regular : state.Regular)
    (run : machine.run production state = .done value final) :
    state.cursor.consumed < final.cursor.consumed := by
  have reads := isPhrase ⟨none, none, none⟩ need isInside (Nat.le_refl _)
  obtain ⟨_, mentions, taken, ⟨reached, rfl, gains, -, -⟩, completes⟩ :=
    reads.completes state value final regular (fun _ member => nomatch member) run
  obtain ⟨passed, reaches⟩ := machine.reaches_of_done run
  have samePassed : passed = taken :=
    List.append_cancel_right (reaches.ahead.symm.trans completes.ahead)
  have credit : reached ≤ need + 8 * taken.length := completes.credit
  rw [reaches.consumed, samePassed]
  omega

theorem consumed_le
    {production : Production P α}
    {state final : ReadState P}
    {value : α}
    (run : machine.run production state = .done value final) :
    state.cursor.consumed ≤ final.cursor.consumed := by
  obtain ⟨passed, reaches⟩ := machine.reaches_of_done run
  rw [reaches.consumed]
  exact Nat.le_add_right _ _

theorem consumed_eq
    {production : Production P α}
    {state final : ReadState P}
    {value : α}
    {taken behind : List (Lexeme P)}
    (run : machine.run production state = .done value final)
    (stateAhead : state.cursor.ahead = taken ++ behind)
    (finalAhead : final.cursor.ahead = behind) :
    final.cursor.consumed = state.cursor.consumed + taken.length := by
  obtain ⟨passed, reaches⟩ := machine.reaches_of_done run
  have samePassed : passed ++ behind = taken ++ behind := by
    rw [← stateAhead, reaches.ahead, finalAhead]
  rw [reaches.consumed, List.append_cancel_right samePassed]

/-- A phrase that never ends in front of a token has taken that token in if it comes second. -/
theorem two_le_length_of_takes
    {production : Production P α}
    {state final : ReadState P}
    {value : α}
    {token : Token}
    {taken behind : List (Lexeme P)}
    {lexeme : Lexeme P}
    (run : machine.run production state = .done value final)
    (stateAhead : state.cursor.ahead = taken ++ lexeme :: behind)
    (finalAhead : final.cursor.ahead = lexeme :: behind)
    (nonempty : 1 ≤ taken.length)
    (second : state.cursor.tokenAfter 1 = token)
    (takes : final.cursor.token = token -> state.cursor.consumed + 2 ≤ final.cursor.consumed) :
    2 ≤ taken.length := by
  by_contra short
  obtain ⟨first, rfl⟩ := List.length_eq_one_iff.1 (show taken.length = 1 by omega)
  have isToken : lexeme.token = token := by
    rw [← second, Cursor.tokenAfter, stateAhead]
    rfl
  have consumed := takes ((Cursor.token_of_ahead finalAhead).trans isToken)
  have total := consumed_eq run stateAhead finalAhead
  rw [List.length_singleton] at total
  omega

/-! ## Fixed tokens -/

/-- A token that must come next. -/
theorem expect
    {token : Token}
    {post : Lexeme P -> Progress -> List (Mention P) -> Prop}
    (notAtEnd : token ≠ .eof)
    (stepEq : Brackets.step due token = some after)
    (inside : token = .semi -> due = [] -> frame.outer ≠ some [])
    (holds : ∀ lexeme : Lexeme P, lexeme.token = token -> lexeme.Regular ->
      ∃ mentions, post lexeme ⟨after, credit + 8⟩ mentions ∧ Covers mentions [lexeme]) :
    Reads machine frame (Production.expect token) ⟨due, credit⟩ post := by
  refine look (fun first second same _ => ?_) fun cursor _ => ?_
  · simp only [same]
  · split
    · next found => exact advance (congrArg some found) notAtEnd stepEq inside holds
    · exact refuse

/-- A token that may come next. -/
theorem eat?
    {token : Token}
    {post : Option (Lexeme P) -> Progress -> List (Mention P) -> Prop}
    (notAtEnd : token ≠ .eof)
    (stepEq : Brackets.step due token = some after)
    (inside : token = .semi -> due = [] -> frame.outer ≠ some [])
    (found : ∀ lexeme : Lexeme P, lexeme.token = token -> lexeme.Regular ->
      ∃ mentions, post (some lexeme) ⟨after, credit + 8⟩ mentions ∧ Covers mentions [lexeme])
    (missing : post none ⟨due, credit⟩ []) :
    Reads machine frame (Production.eat? token) ⟨due, credit⟩ post := by
  refine look (fun first second same _ => ?_) fun cursor _ => ?_
  · simp only [same]
  · split
    · next isNext =>
        have taken : Reads machine ⟨frame.outer, some cursor.token, none⟩ .advance ⟨due, credit⟩
            fun lexeme progress mentions =>
              progress = ⟨after, credit + 8⟩ ∧ post (some lexeme) progress mentions := by
          refine advance (congrArg some isNext) notAtEnd stepEq inside ?_
          intro lexeme isToken regular
          obtain ⟨mentions, holds, covers⟩ := found lexeme isToken regular
          exact ⟨mentions, ⟨rfl, holds⟩, covers⟩
        refine bind taken ?_
        · rintro lexeme _ mentions ⟨rfl, holds⟩
          rw [← List.append_nil mentions] at holds
          exact pure holds
    · exact pure missing

/-! ## Fixed tokens behind which reading goes on -/

theorem isMark_iff (token : Token) :
    isMark token = true ↔ token.isLiteral = false ∧ token ≠ .eof ∧ token ≠ .semi := by
  simp [isMark, and_assoc]

/-- The leaf that a fixed token becomes. -/
theorem covers_mark
    {lexeme : Lexeme P}
    {token : Token}
    (fixed : isMark token = true)
    (isToken : lexeme.token = token)
    (regular : lexeme.Regular) :
    Covers [Mark.mention ⟨token, lexeme.pos⟩] [lexeme] := by
  subst isToken
  rw [Mark.mention, Mark.lexeme_of_regular regular ((isMark_iff _).1 fixed).1]
  exact .leaf lexeme .nil

/-- A keyword, an operator or a bracket that must come next, and what follows it. -/
theorem mark
    {token : Token}
    {next : Mark P -> Production P β}
    (fixed : isMark token = true)
    (stepEq : Brackets.step due token = some after)
    (rest : ∀ mark : Mark P, mark.token = token ->
      Reads machine ⟨frame.outer, none, frame.follower⟩ (next mark) ⟨after, credit + 8⟩
        fun result progress more => post result progress (mark.mention :: more)) :
    Reads machine frame ((Production.mark token).bind next) ⟨due, credit⟩ post := by
  obtain ⟨-, notAtEnd, notSemi⟩ := (isMark_iff token).1 fixed
  have start : Reads machine ⟨frame.outer, frame.known, none⟩ (Production.mark token) ⟨due, credit⟩
      fun mark progress mentions => mark.token = token ∧ progress = ⟨after, credit + 8⟩
        ∧ mentions = [mark.mention] := by
    refine map (expect notAtEnd stepEq (fun isSemi => absurd isSemi notSemi) ?_)
    intro lexeme isToken regular
    exact ⟨_, ⟨rfl, rfl, rfl⟩, covers_mark fixed isToken regular⟩
  refine bind start ?_
  rintro mark _ _ ⟨isToken, rfl, rfl⟩
  exact rest mark isToken

/-- A keyword, an operator or a bracket that may come next, and what follows. -/
theorem mark?
    {token : Token}
    {next : Option (Mark P) -> Production P β}
    (fixed : isMark token = true)
    (stepEq : Brackets.step due token = some after)
    (found : ∀ mark : Mark P, mark.token = token ->
      Reads machine ⟨frame.outer, none, frame.follower⟩ (next (some mark)) ⟨after, credit + 8⟩
        fun result progress more => post result progress (mark.mention :: more))
    (missing : Reads machine ⟨frame.outer, none, frame.follower⟩ (next none) ⟨due, credit⟩ post) :
    Reads machine frame ((Production.mark? token).bind next) ⟨due, credit⟩ post := by
  obtain ⟨-, notAtEnd, notSemi⟩ := (isMark_iff token).1 fixed
  have start : Reads machine ⟨frame.outer, frame.known, none⟩ (Production.mark? token)
      ⟨due, credit⟩ fun mark? progress mentions =>
        (∃ mark : Mark P, mark? = some mark ∧ mark.token = token ∧ progress = ⟨after, credit + 8⟩
          ∧ mentions = [mark.mention])
        ∨ (mark? = none ∧ progress = ⟨due, credit⟩ ∧ mentions = []) := by
    refine map (eat? notAtEnd stepEq (fun isSemi => absurd isSemi notSemi) ?_
      (.inr ⟨rfl, rfl, rfl⟩))
    intro lexeme isToken regular
    exact ⟨_, .inl ⟨_, rfl, rfl, rfl, rfl⟩, covers_mark fixed isToken regular⟩
  refine bind start ?_
  rintro _ _ _ (⟨mark, rfl, isToken, rfl, rfl⟩ | ⟨rfl, rfl, rfl⟩)
  · exact found mark isToken
  · exact missing

/-- A token that may come next and is no bracket, and what follows in both cases. -/
theorem maybeMark
    {token : Token}
    {next : Option (Mark P) -> Production P β}
    (fixed : isMark token = true)
    (plain : Brackets.isBracket token = false)
    (rest : ∀ mark : Option (Mark P),
      Reads machine ⟨frame.outer, none, frame.follower⟩ (next mark) ⟨due, credit⟩
        fun result progress more =>
          post result progress ((mark.map Mark.mention).toList ++ more)) :
    Reads machine frame ((Production.mark? token).bind next) ⟨due, credit⟩ post :=
  mark? fixed (Brackets.step_of_not_bracket due token plain)
    (fun mark _ => spend (Nat.le_add_right _ _) (rest (some mark))) (rest none)

/-- A fixed token that does not come next is passed over. -/
theorem run_mark?_missing
    {token : Token}
    {next : Option (Mark P) -> Production P β}
    {state : ReadState P}
    (missing : state.cursor.token ≠ token) :
    machine.run ((Production.mark? token).bind next) state = machine.run (next none) state := by
  have eats : machine.run (Production.eat? token) state = .done none state := by
    change machine.run (if state.cursor.token = token then _ else _) state = _
    rw [if_neg missing]
    rfl
  change ((machine.run (Production.eat? token) state).bind _).bind _ = _
  rw [eats]
  rfl

/-- The next token, known to be an operator, and what follows it. -/
theorem anyMark
    {token : Token}
    {next : Mark P -> Production P β}
    (known : frame.known = some token)
    (fixed : isMark token = true)
    (plain : Brackets.isBracket token = false)
    (rest : ∀ mark : Mark P, mark.token = token ->
      Reads machine ⟨frame.outer, none, frame.follower⟩ (next mark) ⟨due, credit + 8⟩
        fun result progress more => post result progress (mark.mention :: more)) :
    Reads machine frame (Production.anyMark.bind next) ⟨due, credit⟩ post := by
  obtain ⟨-, notAtEnd, notSemi⟩ := (isMark_iff token).1 fixed
  have start : Reads machine ⟨frame.outer, frame.known, none⟩ Production.anyMark ⟨due, credit⟩
      fun mark progress mentions => mark.token = token ∧ progress = ⟨due, credit + 8⟩
        ∧ mentions = [mark.mention] := by
    refine map (advance known notAtEnd (Brackets.step_of_not_bracket due token plain)
      (fun isSemi => absurd isSemi notSemi) ?_)
    intro lexeme isToken regular
    refine ⟨_, ⟨isToken, rfl, rfl⟩, ?_⟩
    rw [isToken]
    exact covers_mark fixed isToken regular
  refine bind start ?_
  rintro mark _ _ ⟨isToken, rfl, rfl⟩
  exact rest mark isToken

/-- A token that had to come next came next. -/
theorem token_of_mark
    {token : Token}
    {next : Mark P -> Production P β}
    {state final : ReadState P}
    {value : β}
    (run : machine.run ((Production.mark token).bind next) state = .done value final) :
    state.cursor.token = token := by
  obtain ⟨mark, middle, markRun, -⟩ := run_bind_done run
  obtain ⟨lexeme, other, expectRun, -⟩ := run_bind_done markRun
  change machine.run (if state.cursor.token = token then _ else _) state = _ at expectRun
  by_contra otherToken
  rw [if_neg otherToken] at expectRun
  cases expectRun

/-! ## Names -/

/-- A name. -/
theorem readsIdent :
    ReadsPhrase machine Anywhere 0 Production.ident
      (Consumed (fun name => [name.mention]) fun _ => True) := by
  intro frame credit _ _
  refine map (expect (by decide) rfl (fun isSemi => nomatch isSemi) ?_)
  intro lexeme isToken regular
  refine ⟨_, ⟨_, rfl, Nat.le_refl _, rfl, trivial⟩, ?_⟩
  change Covers [Mention.leaf (Production.identOf lexeme).lexeme] [lexeme]
  rw [Ident.lexeme_of_regular regular isToken]
  exact .leaf lexeme .nil

/-- A name, and what follows it. -/
theorem ident
    {next : Ident P -> Production P β}
    (rest : ∀ name : Ident P,
      Reads machine ⟨frame.outer, none, frame.follower⟩ (next name) ⟨due, credit + 8⟩
        fun result progress more => post result progress (name.mention :: more)) :
    Reads machine frame (Production.ident.bind next) ⟨due, credit⟩ post := by
  refine phrase readsIdent trivial (Nat.zero_le _) ?_
  rintro name reached _ ⟨gains, rfl, -⟩
  exact (rest name).spend gains

/-- A name that may come next, and what follows. -/
theorem ident?
    {next : Option (Ident P) -> Production P β}
    (rest : ∀ name : Option (Ident P),
      Reads machine ⟨frame.outer, none, frame.follower⟩ (next name) ⟨due, credit⟩
        fun result progress more =>
          post result progress ((name.map Ident.mention).toList ++ more)) :
    Reads machine frame (Production.ident?.bind next) ⟨due, credit⟩ post := by
  have start : Reads machine ⟨frame.outer, frame.known, none⟩ Production.ident? ⟨due, credit⟩
      fun name progress mentions => credit ≤ progress.credit ∧ progress.due = due
        ∧ mentions = (name.map Ident.mention).toList := by
    refine map (eat? (by decide) rfl (fun isSemi => nomatch isSemi) ?_
      ⟨Nat.le_refl _, rfl, rfl⟩)
    intro lexeme isToken regular
    refine ⟨_, ⟨Nat.le_add_right _ _, rfl, rfl⟩, ?_⟩
    change Covers [Mention.leaf (Production.identOf lexeme).lexeme] [lexeme]
    rw [Ident.lexeme_of_regular regular isToken]
    exact .leaf lexeme .nil
  refine bind start ?_
  rintro name ⟨_, more⟩ _ ⟨enough, rfl, rfl⟩
  exact (rest name).spend enough

/-! ## Tokens that the tree does not keep -/

/-- A comma that may come next, and what follows. -/
theorem comma?
    {next : Option (Lexeme P) -> Production P β}
    (found : ∀ lexeme, Reads machine ⟨frame.outer, none, frame.follower⟩ (next (some lexeme))
      ⟨due, credit + 8⟩ post)
    (missing : Reads machine ⟨frame.outer, none, frame.follower⟩ (next none) ⟨due, credit⟩ post) :
    Reads machine frame ((Production.eat? .comma).bind next) ⟨due, credit⟩ post := by
  have start : Reads machine ⟨frame.outer, frame.known, none⟩ (Production.eat? .comma) ⟨due, credit⟩
      fun comma progress mentions => mentions = []
        ∧ progress = ⟨due, if comma.isSome then credit + 8 else credit⟩ := by
    refine eat? (by decide) rfl (fun isSemi => nomatch isSemi) ?_ ⟨rfl, rfl⟩
    intro lexeme isComma _
    exact ⟨[], ⟨rfl, rfl⟩, .separator lexeme (.inl isComma) .nil⟩
  refine bind start ?_
  rintro (_ | lexeme) _ _ ⟨rfl, rfl⟩
  · exact missing
  · exact found lexeme

/-- A token that the shape of the tree implies and that may come next, and what follows. -/
theorem implied?
    {token : Token}
    {next : Option (Lexeme P) -> Production P β}
    (fixed : isMark token = true)
    (plain : Brackets.isBracket token = false)
    (found : ∀ lexeme, Reads machine ⟨frame.outer, none, frame.follower⟩ (next (some lexeme))
      ⟨due, credit + 8⟩ fun result progress more => post result progress (.implied token :: more))
    (missing : Reads machine ⟨frame.outer, none, frame.follower⟩ (next none) ⟨due, credit⟩ post) :
    Reads machine frame ((Production.eat? token).bind next) ⟨due, credit⟩ post := by
  obtain ⟨-, notAtEnd, notSemi⟩ := (isMark_iff token).1 fixed
  have start : Reads machine ⟨frame.outer, frame.known, none⟩ (Production.eat? token) ⟨due, credit⟩
      fun lexeme progress mentions =>
        (∃ read, lexeme = some read ∧ progress = ⟨due, credit + 8⟩ ∧ mentions = [.implied token])
        ∨ (lexeme = none ∧ progress = ⟨due, credit⟩ ∧ mentions = []) := by
    refine eat? notAtEnd (Brackets.step_of_not_bracket due token plain)
      (fun isSemi => absurd isSemi notSemi) ?_ (.inr ⟨rfl, rfl, rfl⟩)
    intro lexeme isToken _
    refine ⟨_, .inl ⟨lexeme, rfl, rfl, rfl⟩, ?_⟩
    rw [← isToken]
    exact .implied lexeme .nil
  refine bind start ?_
  rintro _ _ _ (⟨lexeme, rfl, rfl, rfl⟩ | ⟨rfl, rfl, rfl⟩)
  · exact found lexeme
  · exact missing

/-- A token that the shape of the tree implies, and what follows it. -/
theorem implied
    {token : Token}
    {next : Lexeme P -> Production P β}
    (fixed : isMark token = true)
    (plain : Brackets.isBracket token = false)
    (rest : ∀ lexeme, Reads machine ⟨frame.outer, none, frame.follower⟩ (next lexeme)
      ⟨due, credit + 8⟩ fun result progress more => post result progress (.implied token :: more)) :
    Reads machine frame ((Production.expect token).bind next) ⟨due, credit⟩ post := by
  obtain ⟨-, notAtEnd, notSemi⟩ := (isMark_iff token).1 fixed
  have start : Reads machine ⟨frame.outer, frame.known, none⟩ (Production.expect token) ⟨due, credit⟩
      fun _ progress mentions => progress = ⟨due, credit + 8⟩ ∧ mentions = [.implied token] := by
    refine expect notAtEnd (Brackets.step_of_not_bracket due token plain)
      (fun isSemi => absurd isSemi notSemi) ?_
    intro lexeme isToken _
    refine ⟨_, ⟨rfl, rfl⟩, ?_⟩
    rw [← isToken]
    exact .implied lexeme .nil
  refine bind start ?_
  rintro lexeme _ _ ⟨rfl, rfl⟩
  exact rest lexeme

/-- A semicolon inside brackets, and what follows it. -/
theorem semi
    {next : Lexeme P -> Production P β}
    (inside : InBrackets (frame.outer.map (due ++ ·)))
    (rest : ∀ lexeme, Reads machine ⟨frame.outer, none, frame.follower⟩ (next lexeme)
      ⟨due, credit + 8⟩ post) :
    Reads machine frame ((Production.expect .semi).bind next) ⟨due, credit⟩ post := by
  have start : Reads machine ⟨frame.outer, frame.known, none⟩ (Production.expect .semi) ⟨due, credit⟩
      fun _ progress mentions => progress = ⟨due, credit + 8⟩ ∧ mentions = [] := by
    refine expect (by decide) rfl (fun _ dueEmpty outerEmpty => ?_) ?_
    · subst dueEmpty
      change frame.outer = some [] at outerEmpty
      rw [outerEmpty] at inside
      exact inside rfl
    · intro lexeme isSemi _
      exact ⟨[], ⟨rfl, rfl⟩, .separator lexeme (.inr isSemi) .nil⟩
  refine bind start ?_
  rintro lexeme _ _ ⟨rfl, rfl⟩
  exact rest lexeme

/-- A semicolon that may come next, inside brackets, and what follows. -/
theorem semi?
    {next : Option (Lexeme P) -> Production P β}
    (inside : InBrackets (frame.outer.map (due ++ ·)))
    (rest : ∀ lexeme, Reads machine ⟨frame.outer, none, frame.follower⟩ (next lexeme)
      ⟨due, credit⟩ post) :
    Reads machine frame ((Production.eat? .semi).bind next) ⟨due, credit⟩ post := by
  have start : Reads machine ⟨frame.outer, frame.known, none⟩ (Production.eat? .semi) ⟨due, credit⟩
      fun _ progress mentions => credit ≤ progress.credit ∧ progress.due = due
        ∧ mentions = [] := by
    refine eat? (by decide) rfl (fun _ dueEmpty outerEmpty => ?_) ?_ ⟨Nat.le_refl _, rfl, rfl⟩
    · subst dueEmpty
      change frame.outer = some [] at outerEmpty
      rw [outerEmpty] at inside
      exact inside rfl
    · intro lexeme isSemi _
      exact ⟨[], ⟨Nat.le_add_right _ _, rfl, rfl⟩, .separator lexeme (.inr isSemi) .nil⟩
  refine bind start ?_
  rintro lexeme ⟨_, more⟩ _ ⟨enough, rfl, rfl⟩
  exact (rest lexeme).spend enough

/-- The end of a line inside brackets, and what follows it. -/
theorem semicolon
    {next : Unit -> Production P β}
    (inside : InBrackets (frame.outer.map (due ++ ·)))
    (rest : Reads machine ⟨frame.outer, none, frame.follower⟩ (next ()) ⟨due, credit⟩ post) :
    Reads machine frame (Production.semicolon.bind next) ⟨due, credit⟩ post := by
  have start : Reads machine ⟨frame.outer, frame.known, none⟩ Production.semicolon ⟨due, credit⟩
      fun _ progress mentions => credit ≤ progress.credit ∧ progress.due = due
        ∧ mentions = [] := by
    refine look (fun first second same _ => ?_) fun cursor _ => ?_
    · rw [Cursor.atAny_congr _ same]
    · split
      · exact pure ⟨Nat.le_refl _, rfl, rfl⟩
      · exact semi inside fun _ => pure ⟨Nat.le_add_right _ _, rfl, rfl⟩
  refine bind start ?_
  rintro ⟨⟩ ⟨_, more⟩ _ ⟨enough, rfl, rfl⟩
  exact rest.spend enough

/-! ## Literals and checked construction -/

/-- A known literal, and what follows it. -/
theorem literal
    (kind : LitKind)
    {next : Lexeme P -> Production P β}
    (known : frame.known = some kind.token)
    (rest : ∀ lexeme : Lexeme P,
      Reads machine ⟨frame.outer, none, frame.follower⟩ (next lexeme) ⟨due, credit + 8⟩
        fun result progress more => post result progress
          (BasicLit.mention ⟨kind, lexeme.literal.getD "", lexeme.pos⟩ :: more)) :
    Reads machine frame (Production.advance.bind next) ⟨due, credit⟩ post := by
  have start : Reads machine ⟨frame.outer, frame.known, none⟩ Production.advance ⟨due, credit⟩
      fun lexeme progress mentions => progress = ⟨due, credit + 8⟩
        ∧ mentions = [BasicLit.mention ⟨kind, lexeme.literal.getD "", lexeme.pos⟩] := by
    refine advance known ?_ (Brackets.step_of_not_bracket due _ ?_) ?_ ?_
    · cases kind <;> decide
    · cases kind <;> rfl
    · cases kind <;> exact fun isSemi => nomatch isSemi
    · intro lexeme isToken regular
      refine ⟨_, ⟨rfl, rfl⟩, ?_⟩
      rw [BasicLit.mention, BasicLit.lexeme_of_regular regular isToken]
      exact .leaf lexeme .nil
  refine bind start ?_
  rintro lexeme _ _ ⟨rfl, rfl⟩
  exact rest lexeme

/-- A phrase made of parts that fit. -/
theorem built
    {parts : Except InvalidNode α}
    {post : α -> Progress -> List (Mention P) -> Prop}
    (fits : ∀ node, parts = .ok node -> post node ⟨due, credit⟩ []) :
    Reads machine frame (Production.build parts) ⟨due, credit⟩ post := by
  cases parts with
  | error reason => exact refuse
  | ok node => exact pure (fits node rfl)

/-- A phrase made of parts that fit, and what follows. -/
theorem build
    {parts : Except InvalidNode α}
    {next : α -> Production P β}
    (rest : ∀ node, parts = .ok node ->
      Reads machine ⟨frame.outer, none, frame.follower⟩ (next node) ⟨due, credit⟩ post) :
    Reads machine frame ((Production.build parts).bind next) ⟨due, credit⟩ post := by
  have start : Reads machine ⟨frame.outer, frame.known, none⟩ (Production.build parts) ⟨due, credit⟩
      fun node progress mentions => parts = .ok node ∧ progress = ⟨due, credit⟩
        ∧ mentions = [] :=
    built fun node fits => ⟨fits, rfl, rfl⟩
  refine bind start ?_
  rintro node _ _ ⟨fits, rfl, rfl⟩
  exact rest node fits

end Reads
end GoFront
