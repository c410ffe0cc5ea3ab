import GoFront.Proofs.Reading.ParsedExprs
import GoFront.Proofs.Shape.Grouping
import GoFront.Proofs.Thinning.Files

/-!
# Communications

A case of a select statement sends or receives. What stands behind it as a receive may be any expression.
It asks a channel, perhaps in parentheses, exactly if its text begins with an arrow there and the operators
in it end before any binary one.
-/

namespace GoFront

variable {P : Type}

/-- The token of what a tree mentions. -/
def Mention.token : Mention P -> Token
  | leaf lexeme => lexeme.token
  | implied token => token

/-- What covers lexemes begins with the token of the first one, unless that is a pause. -/
theorem Covers.token_head?
    {mentions : List (Mention P)}
    {lexeme : Lexeme P}
    {lexemes : List (Lexeme P)}
    (covers : Covers mentions (lexeme :: lexemes))
    (noPause : lexeme.token.isPause = false) :
    mentions.head?.map Mention.token = some lexeme.token := by
  cases covers with
  | leaf | implied => rfl
  | separator _ separates => rcases separates with isComma | isSemi <;> simp_all [Token.isPause]

namespace Tree

variable {slot : Slot}

/-- An expression without the parentheses around it. -/
def core : {slot : Slot} -> Tree P slot -> Tree P slot
  | _, group _ inner _ => inner.core
  | _, tree => tree

/-- The operand that an expression begins with, and the unary operators in front of it. -/
def leftmost : {slot : Slot} -> Tree P slot -> Tree P slot
  | _, binary left _ _ => left.leftmost
  | _, tree => tree

theorem leftmost_of_operand
    {expr : Expr P}
    (isOperand : expr.operator? = none) :
    expr.leftmost = expr := by
  cases expr with
  | binary => cases isOperand
  | _ => rfl

/-- Whether an expression asks a channel for a value. -/
def isReceive : Expr P -> Bool
  | unary op _ => op.token = .arrow
  | _ => false

/-- The text of a tree begins with a token. -/
def BeginsWith (token : Token) (tree : Tree P slot) : Prop :=
  tree.outline.head?.map Mention.token = some token

/-- What asks a channel begins with an arrow, and it is no binary expression. -/
theorem beginsWith_of_isReceive
    {expr : Expr P}
    (isReceive : expr.isReceive = true) :
    expr.BeginsWith .arrow ∧ expr.operator? = none := by
  cases expr with
  | unary op operand => exact ⟨congrArg some (of_decide_eq_true isReceive), rfl⟩
  | _ => cases isReceive

/-- A statement sends with an arrow, or it receives: without parentheses its expression asks a channel
exactly if it begins with an arrow and is no binary expression. -/
def Communicates : SimpleStmt P -> Prop
  | send _ arrow _ => arrow.token = .arrow
  | receive _ expr =>
      expr.core.isReceive = true ↔ expr.core.BeginsWith .arrow ∧ expr.core.operator? = none
  | _ => False

end Tree

namespace Production

variable {limit : Nat} {state : ReadState P} {final : Cursor P}

/-! ## Steps of expressions -/

/-- What holds at the start of a repetition and behind each step holds at its end. -/
theorem Repeats.preserves
    {α : Type}
    {property : α -> Prop}
    {step : α -> Production P (Option α)}
    {start result : α}
    (repeats : Repeats limit step state start result final)
    (holds : property start)
    (steps : ∀ {state : ReadState P} {value next : α} {middle : Cursor P}, property value ->
      Parses limit (step value) state (some next) middle -> property next) :
    property result := by
  induction repeats with
  | stop => exact holds
  | more first _ inductionHypothesis => exact inductionHypothesis (steps holds first)

theorem exists_of_binaryTail?
    {least : Precedence}
    {left value : Expr P}
    (parses : Parses limit (binaryTail? least left) state (some value) final) :
    ∃ op right, value = .binary left op right := by
  have parses := parses_bind_look.1 parses
  dsimp only at parses
  split at parses
  · cases (parses_pure.1 parses).1
  · obtain ⟨op, _, -, parses⟩ := parses_bind.1 parses
    obtain ⟨right, _, -, parses⟩ := parses_bind.1 parses
    exact ⟨op, right, Option.some.inj (parses_pure.1 parses).1⟩

/-- An expression begins with an operand, which is read first. -/
theorem exists_leftmost
    {expr : Expr P}
    (parses : Parses limit Production.expr state expr final) :
    ∃ operand middle, Parses limit unaryRule state operand middle ∧ expr.leftmost = operand.leftmost := by
  obtain ⟨operand, middle, parses, repeats⟩ := parses_bind.1 (parses_call.1 parses)
  refine ⟨operand, middle, parses_call.1 parses, ?_⟩
  have steps {state : ReadState P} {left next : Expr P} {middle : Cursor P}
      (known : left.leftmost = operand.leftmost)
      (step : Parses limit (binaryTail? .or left) state (some next) middle) :
      next.leftmost = operand.leftmost := by
    obtain ⟨op, right, rfl⟩ := exists_of_binaryTail? step
    exact known
  refine (parses_iterate.1 repeats).preserves ?_ steps
  rfl

/-- Where an arrow comes next, an expression begins by asking a channel. -/
theorem isReceive_leftmost
    {expr : Expr P}
    (parses : Parses limit Production.expr state expr final)
    (atArrow : state.cursor.token = .arrow) :
    Tree.isReceive expr.leftmost = true := by
  obtain ⟨operand, middle, parses, isLeftmost⟩ := exists_leftmost parses
  have parses := parses_bind_look.1 (parses_nested.1 parses).2
  rw [ReadState.cursor_deeper, atArrow] at parses
  obtain ⟨op, _, isOp, parses⟩ := parses_bind.1 parses
  obtain ⟨inner, _, -, parses⟩ := parses_bind.1 parses
  obtain ⟨rfl, -⟩ := parses_anyMark.1 isOp
  obtain ⟨rfl, -⟩ := parses_pure.1 parses
  rw [isLeftmost]
  exact decide_eq_true atArrow

/-- What is in parentheses is an expression by itself. -/
theorem exists_of_group
    {lParen rParen : Mark P}
    {inner : Expr P}
    (parses : Parses limit Production.expr state (.group lParen inner rParen) final) :
    ∃ (opened : ReadState P) (middle : Cursor P), opened.cursor = state.cursor.advance
      ∧ Parses limit Production.expr opened inner middle := by
  obtain parses | ⟨_, _, -, parses⟩ := operand_or_suffix?_of_expr parses nofun nofun
  · obtain isAtom | parses := isAtom_or_group_of_operand parses
    · cases isAtom
    obtain ⟨_, _, _, middle, isGroup, isInner⟩ := exists_of_groupExpr parses
    obtain ⟨-, rfl, -⟩ := Tree.group.inj isGroup
    exact ⟨_, middle, rfl, isInner⟩
  · obtain ⟨isNone, -⟩ | ⟨_, isSome, isApplied | parses⟩ := cases_of_suffix? parses
    · cases isNone
    · obtain rfl := Option.some.inj isSome
      cases isApplied
    · obtain rfl := Option.some.inj isSome
      obtain ⟨_, _, isOther⟩ | ⟨_, _, _, _, isOther⟩ | ⟨_, _, _, _, _, isOther, -⟩ :=
        cases_of_selectorOrAssertion parses
      all_goals cases isOther

/-- The text of an expression begins with the token that came next when it was read. -/
theorem beginsWith_of_parses
    {expr : Expr P}
    (regular : state.Regular)
    (parses : Parses limit Production.expr state expr final) :
    expr.BeginsWith state.cursor.token := by
  have noPause := Begins.expr parses
  obtain ⟨allowance, run⟩ := parses
  obtain ⟨_, mentions, taken, ⟨reached, rfl, enough, rfl, -⟩, completes⟩ :=
    ((readsNonterminals limit allowance).expr ⟨none, none, none⟩ 4 trivial (by decide)).completes
      state expr _ regular nofun run
  cases taken with
  | nil =>
      -- nothing is credited where no lexeme is taken
      have credit : reached ≤ 4 + 8 * 0 := completes.credit
      omega
  | cons lexeme rest =>
      have isNext : state.cursor.token = lexeme.token := Cursor.token_of_ahead completes.ahead
      rw [isNext] at noPause
      exact isNext ▸ (completes.covers rfl).token_head? noPause

/-- What is left of an expression without the parentheses around it is an expression by itself. -/
theorem exists_parses_core
    {state : ReadState P}
    {final : Cursor P}
    (expr : Expr P)
    (regular : state.Regular)
    (parses : Parses limit Production.expr state expr final) :
    ∃ (opened : ReadState P) (middle : Cursor P), opened.Regular
      ∧ Parses limit Production.expr opened expr.core middle := by
  cases expr with
  | group lParen inner rParen =>
      obtain ⟨opened, middle, isOpened, parses⟩ := exists_of_group parses
      refine exists_parses_core inner (regular_of_suffix regular ?_) parses
      rw [isOpened, Cursor.ahead_advance]
      exact List.tail_suffix _
  | _ => exact ⟨state, final, regular, parses⟩

end Production

namespace Tree

/-- What is read for a case communicates. -/
theorem communicates_of_parses
    {limit : Nat}
    {state : ReadState P}
    {stmt : SimpleStmt P}
    {final : Cursor P}
    (regular : state.Regular)
    (parses : Production.Parses limit Production.communication state stmt final) :
    stmt.Communicates := by
  have receives {bound : Tree P (.maybe .binding)} {state : ReadState P} {expr : Expr P}
      {middle : Cursor P} (regular : state.Regular)
      (parses : Production.Parses limit Production.expr state expr middle) :
      (receive bound expr).Communicates := by
    refine ⟨beginsWith_of_isReceive, fun ⟨begins, isOperand⟩ => ?_⟩
    obtain ⟨opened, middle, regular, parses⟩ := Production.exists_parses_core expr regular parses
    have isNext := (Production.beginsWith_of_parses regular parses).symm.trans begins
    have isReceive := Production.isReceive_leftmost parses (Option.some.inj isNext)
    rwa [leftmost_of_operand isOperand] at isReceive
  obtain ⟨bound, middle, binds, parses⟩ := Production.parses_bind.1 parses
  obtain ⟨taken, aheadEq⟩ := binds.exists_taken
  have behind : (state.moveTo middle).Regular :=
    Production.regular_of_suffix regular ⟨taken, aheadEq.symm⟩
  obtain ⟨expr, _, isExpr, parses⟩ := Production.parses_bind.1 parses
  split at parses
  · obtain ⟨rfl, -⟩ := Production.parses_pure.1 parses
    exact receives behind isExpr
  · obtain ⟨arrow, _, isArrow, parses⟩ := Production.parses_bind.1 parses
    rw [Production.parses_mark?] at isArrow
    split at isArrow
    · obtain ⟨rfl, -⟩ := isArrow
      obtain ⟨value, _, -, parses⟩ := Production.parses_bind.1 parses
      obtain ⟨rfl, -⟩ := Production.parses_pure.1 parses
      rfl
    · obtain ⟨rfl, -⟩ := isArrow
      obtain ⟨rfl, -⟩ := Production.parses_pure.1 parses
      exact receives behind isExpr

/-- The cases of selects communicate. -/
def communicating : PhraseProperty P where
  holds
    | _, commCase _ stmt => stmt.Communicates
    | _, _ => True
  ordinary := by
    intro slot tree ordinary
    cases tree with
    | commCase => cases ordinary
    | _ => trivial

theorem communicating_of_unwitnessed
    {slot : Slot}
    (tree : Tree P slot)
    (unwitnessed : tree.isWitnessed = false) :
    communicating.holds tree := by
  cases tree with
  | commCase => cases unwitnessed
  | _ => trivial

end Tree

/-- The cases that are read of a text are witnessed to communicate. -/
def Thinning.communicating
    (limit : Nat)
    {text : List (Lexeme P)}
    (regular : ∀ lexeme ∈ text, lexeme.Regular) : Thinning P :=
  .witnessing limit regular Tree.communicating Tree.communicating_of_unwitnessed
    (fun {_ _ tree _} _ _ => by cases tree; trivial) fun isSuffix parses =>
      Tree.communicates_of_parses (fun lexeme member => regular lexeme (isSuffix.subset member)) parses

/-- Select cases communicate if they begin so. In every text that is read without complaints each case of a
select sends with an arrow or receives. In any parentheses, the expression of what receives is an arrow with
its operand exactly if it begins with an arrow there and is no binary expression. -/
theorem select_cases_communicate
    (limit : Nat)
    (source : String)
    (filename : Option String) :
    (∀ file, (parseFileWithin limit source filename).Accepts file ->
        ∀ (keyword : Mark Position) (stmt : SimpleStmt Position), file.Has (.commCase keyword stmt) ->
          stmt.Communicates)
      ∧ ∀ decl, (parseDeclWithin limit source filename).Accepts decl ->
        ∀ (keyword : Mark Position) (stmt : SimpleStmt Position), Tree.Occurs (.commCase keyword stmt) decl ->
          stmt.Communicates := by
  have regular := regular_of_mem_significant source filename
  constructor
  · intro file accepted keyword stmt has
    exact (Thinning.communicating limit regular).holds_of_file rfl accepted has
  · intro decl accepted keyword stmt occurs
    exact (Thinning.communicating limit regular).holds_of_decl rfl accepted occurs

/-- A receive in parentheses, and a send. -/
theorem select_cases_communicate_both :
    (∃ file, (parseFileWithin 20
          "package p\nfunc f() \x7b select \x7b case v := (<-c): \x7d \x7d" none).Accepts file
        ∧ ∃ keyword bound expr, file.Has (.commCase keyword (.receive bound expr))
          ∧ expr.core.isReceive = true)
      ∧ ∃ decl, (parseDeclWithin 20
          "func f() \x7b select \x7b case d <- v: \x7d \x7d" none).Accepts decl
        ∧ ∃ keyword channel arrow value,
          Tree.Occurs (.commCase keyword (.send channel arrow value)) decl ∧ arrow.token = .arrow := by
  obtain ⟨file, accepted, has⟩ : ∃ file, (parseFileWithin 20
      "package p\nfunc f() \x7b select \x7b case v := (<-c): \x7d \x7d" none).Accepts file
        ∧ file.Has (.commCase ⟨.kwCase, ⟨30, 2, none⟩⟩ (.receive
          (.present (.binding (.boundNames [⟨"v", ⟨35, 2, none⟩⟩]) ⟨.define, ⟨37, 2, none⟩⟩))
          (.group ⟨.lParen, ⟨40, 2, none⟩⟩
            (.unary ⟨.arrow, ⟨41, 2, none⟩⟩ (.ident ⟨"c", ⟨43, 2, none⟩⟩)) ⟨.rParen, ⟨44, 2, none⟩⟩))) :=
    ⟨_, ⟨rfl, rfl⟩,
      .inr (.inside (.head _) (.inside (.tail _ (.tail _ (.head _))) (.inside (.head _)
        (.inside (.head _) (.inside (.head _) (.inside (.head _) (.inside (.head _)
          (.inside (.head _) (.inside (.head _) (.refl _))))))))))⟩
  obtain ⟨decl, declAccepted, occurs⟩ : ∃ decl, (parseDeclWithin 20
      "func f() \x7b select \x7b case d <- v: \x7d \x7d" none).Accepts decl
        ∧ Tree.Occurs (.commCase ⟨.kwCase, ⟨20, 1, none⟩⟩ (.send (.ident ⟨"d", ⟨25, 1, none⟩⟩)
          ⟨.arrow, ⟨27, 1, none⟩⟩ (.ident ⟨"v", ⟨30, 1, none⟩⟩))) decl :=
    ⟨_, ⟨rfl, rfl⟩,
      .inside (.tail _ (.tail _ (.head _))) (.inside (.head _) (.inside (.head _) (.inside (.head _)
        (.inside (.head _) (.inside (.head _) (.inside (.head _) (.inside (.head _) (.refl _))))))))⟩
  have known := select_cases_communicate 20
  refine ⟨⟨file, accepted, _, _, _, has, ?_⟩, decl, declAccepted, _, _, _, _, occurs, ?_⟩
  · exact ((known _ _).1 file accepted _ _ has).2 ⟨rfl, rfl⟩
  · exact (known _ _).2 decl declAccepted _ _ occurs

/-- A name is accepted as what a case receives. -/
theorem select_case_asks_nothing :
    ∃ file, (parseFileWithin 100
        "package p\nfunc f() \x7b\n\tselect \x7b\n\tcase x:\n\t\x7d\n\x7d\n" none).Accepts file
      ∧ ∃ keyword name, file.Has (.commCase keyword (.receive .absent (.ident name))) := by
  obtain ⟨file, accepted, has⟩ : ∃ file, (parseFileWithin 100
      "package p\nfunc f() \x7b\n\tselect \x7b\n\tcase x:\n\t\x7d\n\x7d\n" none).Accepts file
        ∧ file.Has (.commCase ⟨.kwCase, ⟨32, 4, none⟩⟩
          (.receive .absent (.ident ⟨"x", ⟨37, 4, none⟩⟩))) :=
    ⟨_, ⟨rfl, rfl⟩,
      .inr (.inside (.head _) (.inside (.tail _ (.tail _ (.head _))) (.inside (.head _)
        (.inside (.head _) (.inside (.head _) (.inside (.head _) (.inside (.head _)
          (.inside (.head _) (.inside (.head _) (.refl _))))))))))⟩
  exact ⟨file, accepted, _, _, has⟩

end GoFront
