import GoFront.Proofs.Reading.Contexts

/-!
# Words that stand in braces only

The lexemes of a type or an expression contain neither the keyword of a range clause nor the operator of a
definition, except between the braces of a function or a type in it. The same holds of a simple statement
and the keyword. So a search outside braces passes over these phrases.
-/

namespace GoFront

variable {P α β : Type}

/-! ## Lexemes outside braces -/

/-- Lexemes of which none outside braces has one of the given tokens. -/
inductive Shielded (banned : List Token) : List (Lexeme P) -> Prop
  | nil : Shielded banned []
  | cons
      {lexeme : Lexeme P}
      {rest : List (Lexeme P)}
      (allowed : lexeme.token ∉ .lBrace :: .rBrace :: banned)
      (shielded : Shielded banned rest) :
      Shielded banned (lexeme :: rest)
  | braces
      {lBrace rBrace : Lexeme P}
      {inner rest : List (Lexeme P)}
      (opens : lBrace.token = .lBrace)
      (nested : Brackets.Nested inner)
      (closes : rBrace.token = .rBrace)
      (shielded : Shielded banned rest) :
      Shielded banned (lBrace :: (inner ++ rBrace :: rest))

namespace Shielded

variable {banned fewer : List Token} {first second lexemes behind : List (Lexeme P)}

theorem append
    (firstShielded : Shielded banned first)
    (secondShielded : Shielded banned second) :
    Shielded banned (first ++ second) := by
  induction firstShielded with
  | nil => exact secondShielded
  | cons allowed _ inductionHypothesis => exact .cons allowed inductionHypothesis
  | braces opens nested closes _ inductionHypothesis =>
      rw [List.cons_append, List.append_assoc]
      exact .braces opens nested closes inductionHypothesis

theorem mono
    (subset : fewer ⊆ banned)
    (shielded : Shielded banned lexemes) :
    Shielded fewer lexemes := by
  induction shielded with
  | nil => exact .nil
  | cons allowed _ inductionHypothesis =>
      refine .cons (fun isBanned => allowed ?_) inductionHypothesis
      rcases List.mem_cons.1 isBanned with isBrace | isBanned
      · exact isBrace ▸ List.mem_cons_self
      · rcases List.mem_cons.1 isBanned with isBrace | isBanned
        · exact isBrace ▸ List.mem_cons_of_mem _ List.mem_cons_self
        · exact List.mem_cons_of_mem _ (List.mem_cons_of_mem _ (subset isBanned))
  | braces opens nested closes _ inductionHypothesis =>
      exact .braces opens nested closes inductionHypothesis

end Shielded

/-! ## Searches -/

namespace Cursor

/-- Whether a token stands outside brackets, behind a number of open ones. -/
def standsOutside (token : Token) : (depth : Nat) -> List (Lexeme P) -> Bool
  | _, [] => false
  | depth, lexeme :: rest =>
      (lexeme.token = token && depth = 0)
        || standsOutside token (bracketDepth depth lexeme.token) rest

variable {terminator needle : Token} {needles due after banned : List Token}
  {lexemes inner rest : List (Lexeme P)}

theorem standsOutside_eq_false
    {token : Token}
    (depth : Nat)
    (others : ∀ lexeme ∈ lexemes, lexeme.token ≠ token) :
    standsOutside token depth lexemes = false := by
  induction lexemes generalizing depth with
  | nil => rfl
  | cons lexeme lexemes inductionHypothesis =>
      obtain ⟨other, others⟩ := List.forall_mem_cons.1 others
      simp [standsOutside, other, inductionHypothesis _ others]

/-- Between braces nothing ends a search and nothing is found. -/
theorem occurIn_braces
    {outer : List Token}
    (inBraces : .rBrace ∈ outer)
    (scanEq : Brackets.scan due inner = some after) :
    occurIn terminator (needle :: needles) (due ++ outer).length ((due ++ outer).count .rBrace)
        (inner ++ rest)
      = occurIn terminator (needle :: needles) (after ++ outer).length ((after ++ outer).count .rBrace)
          rest := by
  induction inner generalizing due with
  | nil =>
      obtain rfl := Option.some.inj scanEq
      rfl
  | cons head inner inductionHypothesis =>
      obtain ⟨between, stepEq, scanEq⟩ := Option.bind_eq_some_iff.1 scanEq
      have stepEq := Brackets.step_append outer stepEq
      have isOpen : (due ++ outer).length ≠ 0 :=
        Nat.ne_of_gt (List.length_pos_of_mem (List.mem_append_right due inBraces))
      have inBrace : (due ++ outer).count .rBrace ≠ 0 :=
        Nat.ne_of_gt (List.count_pos_iff.2 (List.mem_append_right due inBraces))
      rw [← inductionHypothesis scanEq, ← bracketDepth_of_step stepEq, ← braceDepth_of_step stepEq]
      simp only [List.cons_append, occurIn, isOpen, inBrace, decide_false, Bool.and_false,
        Bool.false_eq_true, if_false]

theorem standsOutside_braces
    {token : Token}
    {outer : List Token}
    (inBraces : outer ≠ [])
    (scanEq : Brackets.scan due inner = some after) :
    standsOutside token (due ++ outer).length (inner ++ rest)
      = standsOutside token (after ++ outer).length rest := by
  induction inner generalizing due with
  | nil =>
      obtain rfl := Option.some.inj scanEq
      rfl
  | cons head inner inductionHypothesis =>
      obtain ⟨between, stepEq, scanEq⟩ := Option.bind_eq_some_iff.1 scanEq
      have isOpen : (due ++ outer).length ≠ 0 := by simp [inBraces]
      rw [← inductionHypothesis scanEq, ← bracketDepth_of_step (Brackets.step_append outer stepEq)]
      simp only [List.cons_append, standsOutside, isOpen, decide_false, Bool.and_false, Bool.false_or]

/-- A brace that opens and the one that closes it leave the due brackets alone. -/
theorem scan_of_braces
    {lBrace rBrace : Lexeme P}
    (opens : lBrace.token = .lBrace)
    (nested : Brackets.Nested inner)
    (closes : rBrace.token = .rBrace) :
    Brackets.scan due (lBrace :: (inner ++ rBrace :: lexemes)) = Brackets.scan due lexemes := by
  have innerEq : Brackets.scan (.rBrace :: due) inner = some (.rBrace :: due) :=
    Brackets.scan_append_outer (.rBrace :: due) nested
  simp [Brackets.scan, Brackets.scan_append, Brackets.step, opens, innerEq, closes]

/-- A search for a shielded token passes over lexemes unless they end it. -/
theorem occurIn_shielded
    (isBanned : needle ∈ banned)
    (notBrace : needle ≠ .lBrace)
    (shielded : Shielded banned lexemes)
    (outside : due.count .rBrace = 0)
    (scanEq : Brackets.scan due lexemes = some after) :
    occurIn terminator (needle :: needles) due.length 0 (lexemes ++ rest)
      = (!standsOutside terminator due.length lexemes
          && occurIn terminator (needle :: needles) after.length 0 rest) := by
  induction shielded generalizing due with
  | nil =>
      obtain rfl := Option.some.inj scanEq
      rfl
  | @cons lexeme lexemes allowed _ inductionHypothesis =>
      obtain ⟨between, stepEq, scanEq⟩ := Option.bind_eq_some_iff.1 scanEq
      have notNeedle : lexeme.token ≠ needle := by
        rintro rfl
        exact allowed (List.mem_cons_of_mem _ (List.mem_cons_of_mem _ isBanned))
      have bracesEq : braceDepth 0 lexeme.token = 0 := by
        have notOpener : lexeme.token ≠ .lBrace := fun isBrace => allowed (by simp [isBrace])
        revert notOpener
        cases lexeme.token <;> simp [braceDepth]
      have stays : between.count .rBrace = 0 := by
        rw [← braceDepth_of_step stepEq, outside, bracesEq]
      by_cases ends : lexeme.token = terminator ∧ due = []
      · simp [occurIn, standsOutside, ends]
      · have goesOn : (lexeme.token = terminator && decide (due.length = 0)) = false := by
          simpa using ends
        rw [List.cons_append, occurIn, standsOutside, goesOn, if_neg Bool.false_ne_true,
          Bool.false_or, bracketDepth_of_step stepEq, bracesEq]
        simp only [notNeedle, decide_false, Bool.false_and, Bool.false_eq_true, if_false]
        exact inductionHypothesis stays scanEq
  | @braces lBrace rBrace inner lexemes opens nested closes _ inductionHypothesis =>
      rw [scan_of_braces opens nested closes] at scanEq
      have passes := @occurIn_braces _ terminator needle needles [] [] inner
        (rBrace :: (lexemes ++ rest)) (.rBrace :: due) List.mem_cons_self nested
      have outsidePasses := @standsOutside_braces _ [] [] inner (rBrace :: lexemes) terminator
        (.rBrace :: due) (List.cons_ne_nil _ _) nested
      simp only [List.nil_append, List.length_cons, List.count_cons_self, outside] at passes outsidePasses
      by_cases ends : Token.lBrace = terminator ∧ due = []
      · simp [occurIn, standsOutside, opens, ends]
      · have goesOn : (decide (Token.lBrace = terminator) && decide (due.length = 0)) = false := by
          simpa using ends
        rw [List.cons_append, List.append_assoc, List.cons_append, occurIn, standsOutside, opens, goesOn,
          if_neg Bool.false_ne_true, Bool.false_or]
        simp only [notBrace.symm, decide_false, Bool.false_and, Bool.false_eq_true, if_false,
          bracketDepth, braceDepth]
        rw [passes, outsidePasses]
        simpa [occurIn, standsOutside, closes, bracketDepth, braceDepth]
          using inductionHypothesis outside scanEq

end Cursor

/-! ## Readings -/

/-- What is read without errors from a state is shielded. -/
def ShieldsFrom
    (banned : List Token)
    (machine : Machine P)
    (production : Production P α)
    (state : ReadState P) : Prop :=
  ∀ ⦃final value taken⦄, CleanRun machine production state value final taken -> Shielded banned taken

/-- What is read without errors is shielded. -/
def Shields
    (banned : List Token)
    (machine : Machine P)
    (production : Production P α) : Prop :=
  ∀ state, ShieldsFrom banned machine production state

section

variable {banned : List Token} {machine : Machine P} {production : Production P α}
  {state : ReadState P} {next : α -> Production P β} {token : Token}

theorem ShieldsFrom.look
    {next : Cursor P -> Production P β}
    (rest : ShieldsFrom banned machine (next state.cursor) state) :
    ShieldsFrom banned machine (Production.look.bind next) state :=
  fun _ _ _ ⟨regular, run, reaches, clean⟩ => rest ⟨regular, run, reaches, clean⟩

theorem ShieldsFrom.advance (allowed : state.cursor.token ∉ .lBrace :: .rBrace :: banned) :
    ShieldsFrom banned machine Production.advance state := by
  intro final value taken ⟨_, run, reaches, _⟩
  obtain ⟨rfl, rfl⟩ := Outcome.done.inj run
  cases taken with
  | nil => exact .nil
  | cons head tail =>
      obtain rfl := reaches.eq_nil_of_advance
      rw [Cursor.token_of_ahead reaches.ahead] at allowed
      exact .cons allowed .nil

theorem ShieldsFrom.bind
    (first : ShieldsFrom banned machine production state)
    (rest : ∀ value, Shields banned machine (next value)) :
    ShieldsFrom banned machine (production.bind next) state := by
  intro final result taken cleanRun
  obtain ⟨value, middle, front, back, rfl, firstRun, restRun⟩ := cleanRun.exists_of_bind
  exact (first firstRun).append (rest value middle restRun)

theorem ShieldsFrom.pure_bind
    {value : α}
    (rest : ShieldsFrom banned machine (next value) state) :
    ShieldsFrom banned machine ((Production.pure value).bind next) state :=
  fun _ _ _ ⟨regular, run, reaches, clean⟩ => rest ⟨regular, run, reaches, clean⟩

namespace Shields

theorem of_immediate (immediate : Immediate machine production) :
    Shields banned machine production := by
  intro state final value taken cleanRun
  obtain ⟨rfl, -⟩ := immediate cleanRun.run
  rw [cleanRun.reaches.eq_nil]
  exact .nil

theorem mono
    {fewer : List Token}
    (subset : fewer ⊆ banned)
    (shields : Shields banned machine production) :
    Shields fewer machine production :=
  fun state _ _ _ cleanRun => (shields state cleanRun).mono subset

theorem pure (value : α) : Shields banned machine (.pure value) := .of_immediate (.pure value)

theorem refuse (cause : SyntaxCause) : Shields banned machine (.refuse cause : Production P α) :=
  .of_immediate (.refuse cause)

theorem bind
    (first : Shields banned machine production)
    (rest : ∀ value, Shields banned machine (next value)) :
    Shields banned machine (production.bind next) :=
  fun state => (first state).bind rest

theorem look
    {next : Cursor P -> Production P β}
    (rest : ∀ cursor, Shields banned machine (next cursor)) :
    Shields banned machine (Production.look.bind next) :=
  fun state => .look (rest state.cursor state)

theorem header
    {next : Bool -> Production P β}
    (rest : ∀ inside, Shields banned machine (next inside)) :
    Shields banned machine (Production.header.bind next) :=
  fun state _ _ _ ⟨regular, run, reaches, clean⟩ => rest state.inHeader state ⟨regular, run, reaches, clean⟩

theorem nested (inner : Shields banned machine production) :
    Shields banned machine (.nested production) :=
  fun _ _ _ _ cleanRun => inner _ cleanRun.of_nested.2

theorem inHeader
    {inside : Bool}
    (inner : Shields banned machine production) :
    Shields banned machine (.inHeader inside production) :=
  fun _ _ _ _ cleanRun => inner _ cleanRun.of_inHeader

/-- A step that is repeated. -/
theorem iterate
    {step : α -> Production P (Option α)}
    {start : α}
    (steps : ∀ value, Shields banned machine (step value)) :
    Shields banned machine (.iterate step start) := by
  intro state final result taken cleanRun
  have iterated := cleanRun.iterated
  clear cleanRun
  induction iterated with
  | stop last => exact steps _ _ last
  | more first _ inductionHypothesis => exact (steps _ _ first).append inductionHypothesis

theorem expect (allowed : token ∉ .lBrace :: .rBrace :: banned) :
    Shields banned machine (Production.expect (P := P) token) := by
  intro state
  refine .look ?_
  split
  · next isToken => exact .advance (isToken ▸ allowed)
  · exact refuse _ state

theorem eat? (allowed : token ∉ .lBrace :: .rBrace :: banned) :
    Shields banned machine (Production.eat? (P := P) token) := by
  intro state
  refine .look ?_
  split
  · next isToken => exact .bind (.advance (isToken ▸ allowed)) fun _ => pure _
  · exact pure _ state

theorem mark (allowed : token ∉ .lBrace :: .rBrace :: banned) :
    Shields banned machine (Production.mark (P := P) token) :=
  .bind (.expect allowed) fun _ => .pure _

theorem mark? (allowed : token ∉ .lBrace :: .rBrace :: banned) :
    Shields banned machine (Production.mark? (P := P) token) :=
  .bind (.eat? allowed) fun _ => .pure _

/-- What stands between braces does not matter. -/
theorem braces
    {result : Mark P -> α -> Mark P -> β}
    (nested : ∀ ⦃state final value taken⦄, CleanRun machine production state value final taken ->
      Brackets.Nested taken) :
    Shields banned machine ((Production.mark .lBrace).bind fun lBrace => production.bind fun value =>
      (Production.mark .rBrace).bind fun rBrace => .pure (result lBrace value rBrace)) := by
  intro state final value taken cleanRun
  obtain ⟨_, _, _, _, rfl, opens, cleanRun⟩ := cleanRun.exists_of_bind
  obtain ⟨_, _, _, _, rfl, inner, cleanRun⟩ := cleanRun.exists_of_bind
  obtain ⟨_, _, _, _, rfl, closes, lastRun⟩ := cleanRun.exists_of_bind
  obtain ⟨lBrace, rfl, isOpener, -⟩ := opens.of_mark (by decide)
  obtain ⟨rBrace, rfl, isCloser, -⟩ := closes.of_mark (by decide)
  exact .braces isOpener (nested inner) isCloser (pure _ _ lastRun)

theorem itemBraces
    {inside : Option (List Token) -> Prop}
    {need : Nat}
    {outline : α -> List (Mention P)}
    {valid : α -> Prop}
    {item : Bool -> Production P (α × Bool)}
    {result : Mark P -> List α -> Mark P -> β}
    (reads : Reads.ReadsItem machine inside need outline valid item)
    (isInside : inside none) :
    Shields banned machine ((Production.mark .lBrace).bind fun lBrace =>
      (Production.itemsUntil .rBrace item).bind fun items =>
        (Production.mark .rBrace).bind fun rBrace => .pure (result lBrace items rBrace)) := by
  refine braces fun state final items taken cleanRun => ?_
  have isList : Reads machine ⟨none, none, none⟩ (Production.itemsUntil .rBrace item) ⟨[], need + 1⟩ _ :=
    .itemsUntil reads isInside (Nat.le_add_left 1 need) (Nat.le_succ need)
  exact isList.closesBrackets (fun _ _ _ holds => holds.1 ▸ rfl) cleanRun

/-! ### Lists -/

theorem many {step : Production P (Option α)} (steps : Shields banned machine step) :
    Shields banned machine (Production.many step) := by
  refine .bind (.iterate fun _ => .bind steps fun _ => .pure _) ?_
  intro _
  exact .pure _

theorem commaSeparated
    (noComma : .comma ∉ .lBrace :: .rBrace :: banned)
    (items : Shields banned machine production) :
    Shields banned machine (Production.commaSeparated production) := by
  refine .bind items fun first => .bind (.many (.bind (.eat? noComma) fun comma => ?_)) fun _ => .pure _
  split
  · exact .bind items fun _ => .pure _
  · exact .pure _

theorem commaTail
    {closer : Token}
    (noComma : .comma ∉ .lBrace :: .rBrace :: banned)
    (items : Shields banned machine production) :
    Shields banned machine (Production.commaTail closer production) := by
  refine .many (.bind (.eat? noComma) fun comma => .look fun cursor => ?_)
  split
  · exact .bind items fun _ => .pure _
  · exact .pure _

theorem itemsUntil
    {closer : Token}
    {item : (first : Bool) -> Production P (α × Bool)}
    (items : ∀ first, Shields banned machine (item first)) :
    Shields banned machine (Production.itemsUntil closer item) := by
  refine .bind (.iterate fun (items, more) => .look fun cursor => ?_) fun _ => .pure _
  split
  · exact .bind (‹∀ first, Shields banned machine (item first)› _) fun _ => .pure _
  · exact .pure _

theorem withComma
    (noComma : .comma ∉ .lBrace :: .rBrace :: banned)
    (item : Shields banned machine production) :
    Shields banned machine (Production.withComma production) := by
  refine .bind item ?_
  intro value
  exact .bind (.eat? noComma) fun comma => .pure _

end Shields

end

/-! ## Types and expressions -/

/-- The words that tell the kinds of loop header apart. -/
def loopWords : List Token :=
  [.kwRange, .define]

/-- The nonterminals of types and expressions shield the words of loop headers. -/
structure ShieldsNonterminals (machine : Machine P) : Prop where
  type? : Shields loopWords machine Production.type?
  exprOf : ∀ least, Shields loopWords machine (.call (.expr least))
  unary : Shields loopWords machine (.call .unary)
  literalBody : Shields loopWords machine (.call .literalBody)
  block : Shields loopWords machine Production.block

namespace ShieldsNonterminals

variable {machine : Machine P} (shields : ShieldsNonterminals machine)

include shields

theorem type : Shields loopWords machine Production.type := by
  refine .bind shields.type? fun type => ?_
  split
  · exact .pure _
  · exact .look fun _ => .refuse _

theorem expr : Shields loopWords machine Production.expr := shields.exprOf .or

omit shields in
theorem ident : Shields loopWords machine (Production.ident (P := P)) :=
  .bind (.expect (by decide)) fun _ => .pure _

omit shields in
theorem identList : Shields loopWords machine (Production.identList (P := P)) :=
  .commaSeparated (by decide) ident

theorem exprList : Shields loopWords machine Production.exprList :=
  .bind (.commaSeparated (by decide) shields.expr) fun _ => .pure _

theorem typeArgs : Shields loopWords machine Production.typeArgs := by
  refine .inHeader (.bind (.mark (by decide)) fun lBrack => .look fun cursor => ?_)
  split
  · exact .refuse _
  · refine .bind shields.type fun first => .bind (.commaTail (by decide) shields.type) fun rest => ?_
    exact .bind (.mark (by decide)) fun rBrack => .pure _

theorem typeName : Shields loopWords machine Production.typeName := by
  have args (package : Option (Ident P)) (name : Ident P) :
      Shields loopWords machine (Production.look.bind fun cursor =>
        if cursor.token = .lBrack then Production.typeArgs.bind fun args =>
          .pure (Tree.typeName package name (.present args))
        else .pure (Tree.typeName package name .absent)) := by
    refine .look fun cursor => ?_
    split
    · exact .bind shields.typeArgs fun _ => .pure _
    · exact .pure _
  refine .bind ident fun first => .bind (.eat? (by decide)) fun dot => ?_
  dsimp only
  split
  · exact .bind ident fun name => .bind (.pure _) fun names => args names.1 names.2
  · exact .bind (.pure _) fun names => args names.1 names.2

/-- A type behind what was read before. -/
theorem elem (change : TypeExpr P -> α) :
    Shields loopWords machine (Production.type.bind fun elem => .pure (change elem)) :=
  .bind shields.type fun _ => .pure _

theorem arrayOrSliceType : Shields loopWords machine Production.arrayOrSliceType := by
  refine .bind (.mark (by decide)) fun lBrack => .bind (.mark? (by decide)) fun rBrack => ?_
  split
  · exact shields.elem _
  · refine .bind (.mark? (by decide)) fun ellipsis => ?_
    split
    · exact .bind (.mark (by decide)) fun rBrack => shields.elem _
    · exact .bind (.inHeader shields.expr) fun length => .bind (.mark (by decide)) fun rBrack =>
        shields.elem _

theorem mapType : Shields loopWords machine Production.mapType := by
  refine .bind (.mark (by decide)) ?_
  intro keyword
  refine .bind (.mark (by decide)) ?_
  intro lBrack
  refine .bind shields.type ?_
  intro key
  exact .bind (.mark (by decide)) fun rBrack => shields.elem _

theorem chanType : Shields loopWords machine Production.chanType := by
  refine .bind (.mark? (by decide)) fun arrow => ?_
  split
  · exact .bind (.mark (by decide)) fun keyword => shields.elem _
  · exact .bind (.mark (by decide)) fun keyword => .bind (.mark? (by decide)) fun arrow =>
      shields.elem _

theorem paramEntry : Shields loopWords machine Production.paramEntry := by
  refine .look fun cursor => ?_
  dsimp only
  split
  · exact .bind ident fun _ => .pure _
  · split
    · exact .bind ident fun name => .bind (.mark? (by decide)) fun ellipsis => shields.elem _
    · exact .bind (.mark? (by decide)) fun ellipsis => shields.elem _

theorem params (variadic : Bool) : Shields loopWords machine (Production.params variadic) := by
  refine .inHeader (.bind (.mark (by decide)) fun lParen => ?_)
  refine .bind (.itemsUntil fun _ => .withComma (by decide) shields.paramEntry) fun entries => ?_
  split
  · exact .refuse _
  · exact .bind (.mark (by decide)) fun _ => .pure _

theorem signature : Shields loopWords machine Production.signature := by
  refine .bind (shields.params true) fun inputs => .look fun cursor => ?_
  split
  · exact .bind (shields.params false) fun _ => .pure _
  · exact .bind shields.type? fun _ => .pure _

theorem funcType : Shields loopWords machine Production.funcType := by
  refine .bind (.mark (by decide)) ?_
  intro keyword
  exact .bind shields.signature fun shape => .pure _

theorem parenType : Shields loopWords machine Production.parenType := by
  refine .inHeader ?_
  refine .bind (.mark (by decide)) ?_
  intro lParen
  refine .bind shields.type ?_
  intro inner
  exact .bind (.mark (by decide)) fun rParen => .pure _

variable (nonterminals : ReadsNonterminals machine)

include nonterminals

omit shields in
theorem structType : Shields loopWords machine Production.structType := by
  refine .bind (.mark (by decide)) ?_
  intro _
  refine .itemBraces (fun _ => Reads.withSemicolon nonterminals.fieldDecl) ⟨trivial, nofun⟩

omit shields in
theorem interfaceType : Shields loopWords machine Production.interfaceType := by
  refine .bind (.mark (by decide)) ?_
  intro _
  refine .itemBraces (fun _ => Reads.withSemicolon nonterminals.interfaceElem) ⟨trivial, nofun⟩

theorem typeFrom
    {token : Token}
    {production : Production P (TypeExpr P)}
    (found : Production.typeFrom token = some production) :
    Shields loopWords machine production := by
  unfold Production.typeFrom at found
  split at found <;> cases found
  · exact .bind shields.typeName fun _ => .pure _
  · exact .bind (.mark (by decide)) fun _ => shields.elem _
  · exact shields.parenType
  · exact .bind shields.funcType fun _ => .pure _
  · exact shields.arrayOrSliceType
  · exact shields.mapType
  · exact shields.chanType
  · exact shields.chanType
  · exact structType nonterminals
  · exact interfaceType nonterminals

theorem typeRule : Shields loopWords machine Production.typeRule := by
  refine .nested (.look fun cursor => ?_)
  split
  · next found => exact .bind (shields.typeFrom nonterminals found) fun _ => .pure _
  · exact .pure _

omit nonterminals

theorem groupExpr : Shields loopWords machine Production.groupExpr := by
  refine .inHeader ?_
  refine .bind (.mark (by decide)) ?_
  intro lParen
  refine .bind shields.expr ?_
  intro inner
  exact .bind (.mark (by decide)) fun rParen => .pure _

theorem funcOperand : Shields loopWords machine Production.funcOperand := by
  refine .bind shields.funcType fun type => .look fun cursor => ?_
  split
  · exact .bind (.inHeader shields.block) fun _ => .pure _
  · exact .pure _

theorem typeOperand : Shields loopWords machine Production.typeOperand := by
  refine .look fun cursor => .bind shields.type? fun type => ?_
  split
  · exact .pure _
  · exact .refuse _

omit shields in
/-- No literal, no unary operator and no binary one is such a word. -/
theorem allowed_of_operator
    {token : Token}
    (isOperator : (Production.litKind? token).isSome ∨ token.isUnaryOp = true
      ∨ token.precedence ≠ .none) :
    token ∉ .lBrace :: .rBrace :: loopWords := by
  have others : ∀ token ∈ .lBrace :: .rBrace :: loopWords,
      ¬((Production.litKind? token).isSome ∨ token.isUnaryOp = true ∨ token.precedence ≠ .none) := by
    decide
  exact fun isBanned => others _ isBanned isOperator

theorem operand : Shields loopWords machine Production.operand := by
  intro state
  refine .look ?_
  split
  · next found =>
      exact .bind (.advance (allowed_of_operator (.inl (by rw [found]; rfl)))) fun _ => .pure _
  · split
    · exact .bind (ident state) fun _ => .pure _
    · exact shields.groupExpr state
    · exact shields.funcOperand state
    · exact shields.typeOperand state

theorem sliceEnd
    (base : Expr P)
    (lBrack colon : Mark P)
    (low : Tree P (.maybe .expr))
    (high : Option (Expr P)) :
    Shields loopWords machine (Production.sliceEnd base lBrack colon low high) := by
  refine .bind (.mark? (by decide)) fun second => ?_
  split
  · exact .bind (.mark (by decide)) fun _ => .pure _
  · split
    · exact .refuse _
    · refine .look fun cursor => ?_
      split
      · exact .refuse _
      · exact .bind shields.expr fun max => .bind (.mark (by decide)) fun _ => .pure _

theorem sliceTail
    (base : Expr P)
    (lBrack : Mark P)
    (low : Tree P (.maybe .expr)) :
    Shields loopWords machine (Production.sliceTail base lBrack low) := by
  refine .bind (.mark (by decide)) fun colon => .look fun cursor => ?_
  split
  · exact .bind (.pure _) fun high => shields.sliceEnd base lBrack colon low high
  · exact .bind shields.expr fun _ => .bind (.pure _) fun high =>
      shields.sliceEnd base lBrack colon low high

theorem indexOrSlice (base : Expr P) : Shields loopWords machine (Production.indexOrSlice base) := by
  refine .inHeader (.bind (.mark (by decide)) fun lBrack => .look fun cursor => ?_)
  split
  · exact shields.sliceTail base lBrack .absent
  · refine .bind shields.expr fun first => .look fun cursor => ?_
    split
    · exact shields.sliceTail base lBrack (.present first)
    · refine .bind (.commaTail (by decide) shields.expr) fun rest => .bind (.mark (by decide)) fun _ => ?_
      split
      · exact .pure _
      · exact .refuse _
    · refine .bind (.mark (by decide)) fun _ => ?_
      split <;> exact .pure _

theorem argument (isType : Bool) : Shields loopWords machine (Production.argument isType) := by
  have rest (arg : Expr P) : Shields loopWords machine
      ((Production.mark? .ellipsis).bind fun ellipsis => (Production.eat? .comma).bind fun comma =>
        Production.look.bind fun cursor =>
          if ellipsis.isSome then .pure ((arg, ellipsis), false)
          else if comma.isSome then .pure ((arg, none), true)
          else if cursor.token = .rParen then .pure ((arg, none), false)
          else .refuse .argumentCommaExpected) := by
    refine .bind (.mark? (by decide)) ?_
    intro ellipsis
    refine .bind (.eat? (by decide)) ?_
    intro comma
    refine .look ?_
    intro cursor
    split
    · exact .pure _
    · split
      · exact .pure _
      · split
        · exact .pure _
        · exact .refuse _
  unfold Production.argument
  dsimp only
  split
  · exact .bind shields.type fun type => .bind (.pure _) fun arg => rest arg
  · exact .bind shields.expr fun arg => rest arg

theorem callTail (func : Expr P) : Shields loopWords machine (Production.callTail func) := by
  refine .inHeader ?_
  refine .bind (.mark (by decide)) ?_
  intro lParen
  refine .bind (.itemsUntil fun _ => shields.argument _) ?_
  intro args
  exact .bind (.mark (by decide)) fun rParen => .pure _

theorem selectorOrAssertion (base : Expr P) :
    Shields loopWords machine (Production.selectorOrAssertion base) := by
  refine .bind (.mark (by decide)) fun dot => .look fun cursor => ?_
  split
  · exact .bind ident fun _ => .pure _
  · refine .inHeader (.bind (.mark (by decide)) fun lParen => .bind (.mark? (by decide)) fun keyword => ?_)
    split
    · exact .bind (.mark (by decide)) fun _ => .pure _
    · exact .bind shields.type fun _ => .bind (.mark (by decide)) fun _ => .pure _
  · exact .refuse _

theorem literalTail (type : Expr P) : Shields loopWords machine (Production.literalTail type) := by
  unfold Production.literalTail
  split
  · exact .refuse _
  · exact .bind shields.literalBody fun _ => .pure _

theorem suffix? (base : Expr P) : Shields loopWords machine (Production.suffix? base) := by
  refine .look fun cursor => .header fun inside => ?_
  split
  · exact .bind (shields.indexOrSlice base) fun _ => .pure _
  · exact .bind (shields.callTail base) fun _ => .pure _
  · split
    · exact .bind (shields.literalTail base) fun _ => .pure _
    · exact .pure _
  · exact .bind (shields.selectorOrAssertion base) fun _ => .pure _
  · exact .pure _

theorem primaryExpr : Shields loopWords machine Production.primaryExpr :=
  .bind shields.operand fun _ => .iterate shields.suffix?

theorem unaryRule : Shields loopWords machine Production.unaryRule := by
  refine .nested fun state => .look ?_
  split
  · next isOperator =>
      have op : ShieldsFrom loopWords machine Production.anyMark state :=
        .bind (.advance (allowed_of_operator (.inr (.inl isOperator)))) fun _ => .pure _
      exact op.bind fun _ => .bind shields.unary fun _ => .pure _
  · exact shields.primaryExpr state

theorem binaryTail?
    (least : Precedence)
    (left : Expr P) :
    Shields loopWords machine (Production.binaryTail? least left) := by
  intro state
  refine .look ?_
  dsimp only
  split
  · exact Shields.pure _ state
  · next binds =>
      have isOperator : state.cursor.token.precedence ≠ .none := by
        intro isNone
        simp [isNone] at binds
      have op : ShieldsFrom loopWords machine Production.anyMark state :=
        .bind (.advance (allowed_of_operator (.inr (.inr isOperator)))) fun _ => .pure _
      exact op.bind fun _ => .bind (shields.exprOf _) fun _ => .pure _

theorem exprRule (least : Precedence) : Shields loopWords machine (Production.exprRule least) :=
  .bind shields.unary fun _ => .iterate (shields.binaryTail? least)

end ShieldsNonterminals

namespace ReadsNonterminals

variable {machine : Machine P} (nonterminals : ReadsNonterminals machine)

include nonterminals

theorem literalBodyRule_shields : Shields loopWords machine Production.literalBodyRule :=
  .nested (.inHeader (.itemBraces nonterminals.element trivial))

theorem blockRule_shields : Shields loopWords machine Production.blockRule :=
  .nested (.inHeader (.braces fun _ _ _ _ cleanRun => nonterminals.stmtList.closesBrackets nofun cleanRun))

end ReadsNonterminals

theorem Shields.call
    {banned : List Token}
    {limit allowance : Nat}
    {nonterminal : Nonterminal}
    (rule : Shields banned (ruleMachine (P := P) limit allowance) nonterminal.rule) :
    Shields banned (ruleMachine (P := P) limit (allowance + 1)) (.call nonterminal) :=
  fun _ _ _ _ ⟨regular, run, reaches, clean⟩ => rule _ ⟨regular, run, reaches, clean⟩

theorem shieldsNonterminals (limit allowance : Nat) :
    ShieldsNonterminals (ruleMachine (P := P) limit allowance) := by
  induction allowance with
  | zero =>
      refine ⟨?_, fun least => ?_, ?_, ?_, ?_⟩ <;> intro state final value taken cleanRun
        <;> cases cleanRun.run
  | succ allowance shields =>
      have nonterminals := readsNonterminals (P := P) limit allowance
      exact {
        type? := .call (shields.typeRule nonterminals)
        exprOf := fun least => .call (shields.exprRule least)
        unary := .call shields.unaryRule
        literalBody := .call nonterminals.literalBodyRule_shields
        block := .call nonterminals.blockRule_shields }

/-! ## Simple statements -/

namespace ShieldsNonterminals

variable {machine : Machine P} (shields : ShieldsNonterminals machine)

include shields

/-- A simple statement can be a definition, but it is not searched for its operator. -/
theorem simpleTail (left : ExprList P) : Shields [.kwRange] machine (Production.simpleTail left) := by
  have subset : [.kwRange] ⊆ loopWords := by decide
  have expr : Shields [.kwRange] machine Production.expr := shields.expr.mono subset
  have exprList : Shields [.kwRange] machine Production.exprList := shields.exprList.mono subset
  have assigns : ∀ token ∈ [Token.lBrace, .rBrace, .kwRange],
      ¬(token.isAssignOp = true ∨ token = .inc ∨ token = .dec) := by
    decide
  intro state
  have op (isOperator : state.cursor.token.isAssignOp = true ∨ state.cursor.token = .inc
      ∨ state.cursor.token = .dec) : ShieldsFrom [.kwRange] machine Production.anyMark state :=
    .bind (.advance fun isBanned => assigns _ isBanned isOperator) fun _ => .pure _
  refine .look ?_
  split
  · split
    · exact Shields.refuse _ state
    · exact ShieldsFrom.bind (Shields.mark (by decide) state) fun _ => .bind exprList fun _ => .pure _
  · split
    · next isAssign => exact (op (.inl isAssign)).bind fun _ => .bind exprList fun _ => .pure _
    · unfold Production.onlyExpr
      split
      · refine .pure_bind ?_
        split
        · next atOp => exact (op (.inr (.inl atOp))).bind fun _ => .pure _
        · next atOp => exact (op (.inr (.inr atOp))).bind fun _ => .pure _
        · exact ShieldsFrom.bind (Shields.mark (by decide) state) fun _ => .bind expr fun _ => .pure _
        · exact Shields.pure _ state
      · intro final value taken cleanRun
        cases cleanRun.run

theorem simpleStmt : Shields [.kwRange] machine Production.simpleStmt :=
  .bind (shields.exprList.mono (by decide)) shields.simpleTail

end ShieldsNonterminals

end GoFront
