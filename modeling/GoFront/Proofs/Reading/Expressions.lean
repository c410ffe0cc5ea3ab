import GoFront.Proofs.Reading.Types

/-!
# Reading expressions

How expressions are read, if nonterminals are read as they should. A suffix extends what the expression
before it mentions; where that expression is read as a type, its outline is refined.
-/

namespace GoFront

variable {P : Type}

/-- The rest of a slice expression from behind its second part. -/
def Production.sliceEnd
    (base : Expr P)
    (lBrack colon : Mark P)
    (low : Tree P (.maybe .expr))
    (high : Option (Expr P)) : Production P (Expr P) :=
  (mark? .colon).bind fun second =>
    match second with
    | none => (mark .rBrack).bind fun rBrack =>
        .pure (.simpleSlice base lBrack low colon (.ofOption high) rBrack)
    | some secondColon =>
        match high with
        | none => .refuse .middleIndexMissing
        | some high => look.bind fun cursor =>
            if cursor.token = .rBrack then .refuse .finalIndexMissing
            else expr.bind fun max => (mark .rBrack).bind fun rBrack =>
              .pure (.fullSlice base lBrack low colon high secondColon max rBrack)

/-! ## Operators -/

theorem isMark_of_isUnaryOp
    {token : Token}
    (isOp : token.isUnaryOp = true) :
    isMark token = true ∧ Brackets.isBracket token = false := by
  revert isOp
  cases token <;> decide

theorem isMark_of_precedence
    {token : Token}
    (isOp : token.precedence ≠ .none) :
    isMark token = true ∧ Brackets.isBracket token = false := by
  revert isOp
  cases token <;> decide

/-- A production reads expressions that could be read as types. -/
def ReadsExpr
    (machine : Machine P)
    (need : Nat)
    (production : Production P (Expr P)) : Prop :=
  ReadsPhrase machine Anywhere need production (Consumed Tree.outline Tree.PointsMarked)

/-- A value that extends an expression. -/
def Extends
    (base value : Expr P)
    (credit reached : Nat)
    (mentions : List (Mention P)) : Prop :=
  credit + 8 ≤ reached ∧ Refines (base.outline ++ mentions) value.outline ∧ value.PointsMarked

namespace Tree

/-- A list is read item by item. -/
theorem forall₂_of_mapM
    {α β : Type}
    {read : α -> Option β}
    {items : List α}
    {results : List β}
    (found : items.mapM read = some results) :
    List.Forall₂ (fun item result => read item = some result) items results := by
  induction items generalizing results with
  | nil =>
      obtain rfl : [] = results := Option.some.inj found
      exact .nil
  | cons item items inductionHypothesis =>
      rw [List.mapM_cons] at found
      obtain ⟨result, isResult, found⟩ := Option.bind_eq_some_iff.1 found
      obtain ⟨rest, isRest, found⟩ := Option.bind_eq_some_iff.1 found
      obtain rfl := Option.some.inj found
      exact .cons isResult (inductionHypothesis isRest)

/-- What all items of a list have, all that are read from them have. -/
theorem forall_of_mapM
    {α β : Type}
    {read : α -> Option β}
    {items : List α}
    {results : List β}
    {before : α -> Prop}
    {after : β -> Prop}
    (each : ∀ item result, read item = some result -> before item -> after result)
    (found : items.mapM read = some results)
    (all : ∀ item ∈ items, before item) :
    ∀ result ∈ results, after result := by
  have reads := forall₂_of_mapM found
  clear found
  induction reads with
  | nil => exact List.forall_mem_nil _
  | cons isResult _ inductionHypothesis =>
      obtain ⟨here, behind⟩ := List.forall_mem_cons.1 all
      exact List.forall_mem_cons.2 ⟨each _ _ isResult here, inductionHypothesis behind⟩

end Tree

/-- Expressions read as types. -/
theorem refines_readTypes
    (exprs : List (Expr P))
    (types : List (TypeExpr P))
    (found : exprs.mapM Tree.readType? = some types)
    (marked : ∀ expr ∈ exprs, expr.PointsMarked) :
    Refines (exprs.flatMap Tree.outline) (types.flatMap Tree.outline) := by
  have reads := Tree.forall₂_of_mapM found
  clear found
  induction reads with
  | nil => exact .refl _
  | cons isType _ inductionHypothesis =>
      obtain ⟨exprMarked, exprsMarked⟩ := List.forall_mem_cons.1 marked
      exact (Tree.refines_readType? _ _ isType exprMarked).append (inductionHypothesis exprsMarked)

namespace ReadsNonterminals

open Reads

variable {machine : Machine P} (nonterminals : ReadsNonterminals machine)
include nonterminals

theorem exprList : ReadsTree machine Anywhere 4 Production.exprList := by
  intro frame credit _ enough
  refine map (last (commaSeparated nonterminals.expr) trivial enough ?_)
  rintro exprs reached _ ⟨gains, rfl, -⟩
  exact ⟨_, rfl, gains, (Tree.outline_ofList exprs).symm, trivial⟩

/-! ## Operands -/

omit nonterminals in
theorem token_of_litKind?
    {token : Token}
    {kind : LitKind}
    (found : Production.litKind? token = some kind) :
    token = kind.token := by
  revert found
  cases token <;> cases kind <;> decide

theorem funcOperand : ReadsExpr machine 0 Production.funcOperand := by
  intro frame credit _ _
  refine phrase nonterminals.funcType trivial (Nat.zero_le _) ?_
  rintro type reached _ ⟨gains, rfl, -⟩
  refine look (fun first second same _ => ?_) fun cursor _ => ?_
  · rw [same]
  · split
    · refine map (last (readsInHeader nonterminals.block) trivial (by omega) ?_)
      rintro body _ _ ⟨more, rfl, -⟩
      exact ⟨_, rfl, by omega, rfl, trivial⟩
    · exact Reads.pure ⟨_, rfl, gains, List.append_nil _, trivial⟩

theorem groupExpr : ReadsExpr machine 0 Production.groupExpr := by
  intro frame credit _ _
  refine inHeader (mark rfl rfl fun lParen _ => ?_)
  refine phrase nonterminals.expr trivial (by omega) ?_
  rintro inner reached _ ⟨gains, rfl, marked⟩
  refine mark rfl rfl fun rParen _ => ?_
  exact Reads.pure ⟨_, rfl, by omega, rfl, marked⟩

theorem typeOperand : ReadsExpr machine 2 Production.typeOperand := by
  intro frame credit _ enough
  refine look (fun first second same _ => ?_) fun cursor _ => ?_
  · rw [same]
  · refine phrase nonterminals.type? trivial enough ?_
    rintro _ reached _ (⟨rfl, rfl, rfl⟩ | ⟨type, rfl, gains, rfl⟩)
    · exact refuse
    · exact Reads.pure ⟨_, rfl, gains, List.append_nil _, trivial⟩

theorem operand : ReadsExpr machine 2 Production.operand := by
  intro frame credit _ enough
  refine look (fun first second same _ => ?_) fun cursor _ => ?_
  · rw [same]
  · split
    · next kind found =>
        refine literal kind (congrArg some (token_of_litKind? found)) fun lexeme => ?_
        exact Reads.pure ⟨_, rfl, Nat.le_refl _, rfl, trivial⟩
    · split
      · refine ident fun name => ?_
        exact Reads.pure ⟨_, rfl, Nat.le_refl _, rfl, trivial⟩
      · exact nonterminals.groupExpr _ credit trivial (Nat.zero_le _)
      · exact nonterminals.funcOperand _ credit trivial (Nat.zero_le _)
      · exact nonterminals.typeOperand _ credit trivial enough

/-! ## Slices, indices and type arguments -/

theorem sliceEnd
    (frame : Frame)
    (credit : Nat)
    (enough : 4 ≤ credit)
    (base : Expr P)
    (lBrack colon : Mark P)
    (low : Tree P (.maybe .expr))
    (high : Option (Expr P)) :
    Reads machine frame (Production.sliceEnd base lBrack colon low high) ⟨[.rBrack], credit⟩
      fun value after mentions => ∃ reached, after = ⟨[], reached⟩
        ∧ credit ≤ reached
        ∧ base.outline ++ lBrack.mention :: (low.outline
          ++ colon.mention :: ((Tree.ofOption high).outline ++ mentions)) = value.outline
        ∧ value.PointsMarked := by
  refine mark? rfl rfl (fun secondColon _ => ?_) ?_
  · cases high with
    | none => exact refuse
    | some high =>
        refine look (fun first second same _ => ?_) fun cursor _ => ?_
        · rw [same]
        · split
          · exact refuse
          · refine phrase nonterminals.expr trivial (by omega) ?_
            rintro max reached _ ⟨gains, rfl, -⟩
            refine mark rfl rfl fun rBrack _ => Reads.pure ⟨_, rfl, by omega, rfl, trivial⟩
  · refine mark rfl rfl fun rBrack _ => Reads.pure ⟨_, rfl, by omega, rfl, trivial⟩

/-- The rest of a slice expression closes its brackets. -/
theorem sliceTail
    (frame : Frame)
    (credit : Nat)
    (enough : 4 ≤ credit)
    (base : Expr P)
    (lBrack : Mark P)
    (low : Tree P (.maybe .expr)) :
    Reads machine frame (Production.sliceTail base lBrack low) ⟨[.rBrack], credit⟩
      fun value after mentions => ∃ reached, after = ⟨[], reached⟩ ∧ credit ≤ reached
        ∧ base.outline ++ lBrack.mention :: (low.outline ++ mentions) = value.outline
        ∧ value.PointsMarked := by
  refine mark rfl rfl fun colon _ => look (fun first second same _ => ?_) fun cursor _ => ?_
  · rw [Cursor.atAny_congr _ same]
  · split
    · refine pure_bind (weaken (nonterminals.sliceEnd _ _ (by omega) base lBrack colon low none) ?_)
      rintro value _ mentions ⟨reached, rfl, more, mentionsEq, marked⟩
      exact ⟨_, .refl _, reached, rfl, by omega, mentionsEq, marked⟩
    · refine phrase nonterminals.expr trivial (by omega) ?_
      rintro high reached _ ⟨gains, rfl, -⟩
      refine pure_bind (weaken (nonterminals.sliceEnd _ _ (by omega) base lBrack colon low
        (some high)) ?_)
      rintro value _ mentions ⟨_, rfl, more, mentionsEq, marked⟩
      exact ⟨_, .refl _, _, rfl, by omega, mentionsEq, marked⟩

theorem indexOrSlice
    {base : Expr P}
    (marked : base.PointsMarked) :
    ReadsPhrase machine Anywhere 0 (Production.indexOrSlice base) (Extends base) := by
  intro frame credit _ _
  refine inHeader (mark rfl rfl fun lBrack _ => look (fun first second same _ => ?_)
    fun cursor _ => ?_)
  · rw [same]
  · split
    · refine weaken (nonterminals.sliceTail _ _ (by omega) base lBrack .absent) ?_
      rintro value _ mentions ⟨reached, rfl, more, mentionsEq, valueMarked⟩
      refine ⟨_, .refl _, reached, rfl, by omega, ?_, valueMarked⟩
      rw [← mentionsEq]
      exact .refl _
    · refine phrase nonterminals.expr trivial (by omega) ?_
      rintro first reached _ ⟨gains, rfl, firstMarked⟩
      refine look (fun first second same _ => ?_) fun cursor _ => ?_
      · rw [same]
      · split
        · refine weaken (nonterminals.sliceTail _ _ (by omega) base lBrack
            (.present first)) ?_
          rintro value _ mentions ⟨_, rfl, more, mentionsEq, valueMarked⟩
          refine ⟨_, .refl _, _, rfl, by omega, ?_, valueMarked⟩
          rw [← mentionsEq]
          exact .refl _
        · refine Reads.bind (commaTail nonterminals.expr trivial (by omega) (by omega)) ?_
          rintro rest _ _ ⟨rfl, rfl, restMarked⟩
          refine mark rfl rfl fun rBrack _ => ?_
          split
          · next types found =>
              refine Reads.pure ⟨_, rfl, by omega, ?_, marked⟩
              have args := refines_readTypes (first :: rest) types found
                (List.forall_mem_cons.2 ⟨firstMarked, restMarked⟩)
              rw [List.flatMap_cons, ← Tree.outline_ofList types] at args
              rw [← List.append_assoc first.outline]
              exact ((args.append_right [rBrack.mention]).cons lBrack.mention).append_left
                base.outline
          · exact refuse
        · refine mark rfl rfl fun rBrack _ => ?_
          split
          · next type =>
              refine Reads.pure ⟨_, rfl, by omega, ?_, marked⟩
              change Refines _ (base.outline
                ++ lBrack.mention :: ((type.outline ++ []) ++ [rBrack.mention]))
              rw [List.append_nil]
              exact .refl _
          · refine Reads.pure ⟨_, rfl, by omega, ?_, marked, firstMarked⟩
            exact .refl _

/-! ## Calls -/

omit nonterminals in
/-- The arguments of a call mention the ellipsis behind the last of them. -/
theorem outline_arguments
    (args : List (Expr P × Option (Mark P)))
    (plain : ∀ arg ∈ args.dropLast, arg.2 = none) :
    args.flatMap (fun arg => arg.1.outline ++ (arg.2.map Mark.mention).toList)
      = (Tree.ofList (args.map Prod.fst)).outline
        ++ ((args.getLast?.bind Prod.snd).map Mark.mention).toList := by
  induction args with
  | nil => rfl
  | cons arg args inductionHypothesis =>
      cases args with
      | nil =>
          change (arg.1.outline ++ (arg.2.map Mark.mention).toList) ++ []
            = (arg.1.outline ++ []) ++ (arg.2.map Mark.mention).toList
          rw [List.append_nil, List.append_nil]
      | cons next args =>
          obtain ⟨argPlain, restPlain⟩ := List.forall_mem_cons.1 plain
          rw [List.flatMap_cons, inductionHypothesis restPlain, argPlain]
          change (arg.1.outline ++ []) ++ _ = (arg.1.outline ++ _) ++ _
          rw [List.append_nil, List.append_assoc]
          rfl

omit nonterminals in
/-- What follows an argument. -/
theorem argumentEnd
    (frame : Frame)
    (credit : Nat)
    (arg : Expr P) :
    Reads machine frame ((Production.mark? .ellipsis).bind fun ellipsis =>
        (Production.eat? .comma).bind fun comma => Production.look.bind fun cursor =>
          if ellipsis.isSome then .pure ((arg, ellipsis), false)
          else if comma.isSome then .pure ((arg, none), true)
          else if cursor.token = .rParen then .pure ((arg, none), false)
          else .refuse .argumentCommaExpected) ⟨[], credit⟩
      fun value after mentions => ∃ reached, after = ⟨[], reached⟩ ∧ credit ≤ reached
        ∧ arg.outline ++ mentions
          = value.1.1.outline ++ (value.1.2.map Mark.mention).toList
        ∧ (value.2 = true -> value.1.2 = none) := by
  refine maybeMark rfl rfl fun ellipsis => ?_
  cases ellipsis with
  | some ellipsis =>
      refine comma? (fun comma => ?_) ?_
      · refine look (fun _ _ _ _ => rfl) fun cursor _ => ?_
        exact Reads.pure ⟨_, rfl, by omega, rfl, nofun⟩
      · refine look (fun _ _ _ _ => rfl) fun cursor _ => ?_
        exact Reads.pure ⟨_, rfl, by omega, rfl, nofun⟩
  | none =>
      refine comma? (fun comma => ?_) ?_
      · refine look (fun _ _ _ _ => rfl) fun cursor _ => ?_
        exact Reads.pure ⟨_, rfl, by omega, rfl, fun _ => rfl⟩
      · refine look (fun first second same _ => ?_) fun cursor _ => ?_
        · rw [same]
        · simp only [Option.isSome_none, Bool.false_eq_true, if_false]
          split
          · exact Reads.pure ⟨_, rfl, by omega, rfl, nofun⟩
          · exact refuse

theorem argument :
    ReadsItem machine Anywhere 4
      (fun arg : Expr P × Option (Mark P) => arg.1.outline ++ (arg.2.map Mark.mention).toList)
      (fun arg => arg.2 = none) Production.argument := by
  intro isType frame credit _ enough
  cases isType with
  | true =>
      refine phrase nonterminals.type trivial (by omega) ?_
      rintro type reached _ ⟨gains, rfl, -⟩
      refine pure_bind (weaken (argumentEnd _ _ (.typeOperand type)) ?_)
      rintro value _ mentions ⟨_, rfl, more, mentionsEq, plain⟩
      exact ⟨_, .refl _, _, rfl, by omega, mentionsEq, plain⟩
  | false =>
      refine phrase nonterminals.expr trivial enough ?_
      rintro arg reached _ ⟨gains, rfl, -⟩
      refine weaken (argumentEnd _ _ arg) ?_
      rintro value _ mentions ⟨_, rfl, more, mentionsEq, plain⟩
      exact ⟨_, .refl _, _, rfl, by omega, mentionsEq, plain⟩

theorem callTail (func : Expr P) :
    ReadsPhrase machine Anywhere 0 (Production.callTail func)
      fun value credit reached mentions => credit + 8 ≤ reached
        ∧ func.outline ++ mentions = value.outline := by
  intro frame credit _ _
  refine inHeader (mark rfl rfl fun lParen _ => ?_)
  have items : ReadsItem machine Anywhere 4
      (fun arg : Expr P × Option (Mark P) => arg.1.outline ++ (arg.2.map Mark.mention).toList)
      (fun arg => arg.2 = none)
      fun first => Production.argument (Production.takesType func && first) :=
    fun first => nonterminals.argument (Production.takesType func && first)
  refine Reads.bind (itemsUntil items trivial (by omega) (by omega)) ?_
  rintro args _ _ ⟨rfl, rfl, plain⟩
  refine mark rfl rfl fun rParen _ => Reads.pure ⟨credit + 8 + 8, rfl, ?_, ?_⟩
  · omega
  · rw [outline_arguments args plain, List.append_assoc]
    rfl

/-! ## Selectors, literals and suffixes -/

theorem selectorOrAssertion
    (base : Expr P) :
    ReadsPhrase machine Anywhere 0 (Production.selectorOrAssertion base) (Extends base) := by
  intro frame credit _ _
  refine mark rfl rfl fun dot isDot => look (fun first second same _ => ?_) fun cursor _ => ?_
  · rw [same]
  · split
    · refine ident fun name => ?_
      exact Reads.pure ⟨_, rfl, by omega, .refl _, isDot⟩
    · refine inHeader (mark rfl rfl fun lParen _ => mark? rfl rfl (fun keyword _ => ?_) ?_)
      · refine mark rfl rfl fun rParen _ => ?_
        exact Reads.pure ⟨_, rfl, by omega, .refl _, trivial⟩
      · refine phrase nonterminals.type trivial (by omega) ?_
        rintro type reached _ ⟨gains, rfl, -⟩
        refine mark rfl rfl fun rParen _ => ?_
        exact Reads.pure ⟨_, rfl, by omega, .refl _, trivial⟩
    · exact refuse

theorem literalTail
    {base : Expr P}
    (marked : base.PointsMarked) :
    ReadsPhrase machine Anywhere 2 (Production.literalTail base) (Extends base) := by
  intro frame credit _ enough
  unfold Production.literalTail
  split
  · exact refuse
  · next type found =>
      refine map (last nonterminals.literalBody trivial enough ?_)
      rintro body reached _ ⟨gains, rfl, -⟩
      refine ⟨_, rfl, gains, ?_, trivial⟩
      exact (Tree.refines_readType? base type found marked).append_right body.outline

/-- A suffix extends the expression before it. -/
theorem suffix?
    (outer : Option (List Token))
    (credit : Nat)
    (enough : 2 ≤ credit) :
    ReadsStep machine outer [] credit Tree.PointsMarked Tree.outline Production.suffix? := by
  intro base marked
  refine look (fun first second same _ => ?_) fun cursor _ => header fun inside => ?_
  · rw [same]
  · split
    · refine map (last (nonterminals.indexOrSlice marked) trivial (Nat.zero_le _) ?_)
      rintro value reached _ ⟨gains, refines, valueMarked⟩
      exact ⟨reached, rfl, gains, valueMarked, refines⟩
    · refine map (last (nonterminals.callTail base) trivial (Nat.zero_le _) ?_)
      rintro call reached mentions ⟨gains, mentionsEq⟩
      refine ⟨reached, rfl, gains, trivial, ?_⟩
      rw [mentionsEq]
      exact .refl _
    · split
      · refine map (last (nonterminals.literalTail marked) trivial enough ?_)
        rintro value reached _ ⟨gains, refines, valueMarked⟩
        exact ⟨reached, rfl, gains, valueMarked, refines⟩
      · exact Reads.pure ⟨rfl, rfl⟩
    · refine map (last (nonterminals.selectorOrAssertion base) trivial (Nat.zero_le _) ?_)
      rintro value reached _ ⟨gains, refines, valueMarked⟩
      exact ⟨reached, rfl, gains, valueMarked, refines⟩
    · exact Reads.pure ⟨rfl, rfl⟩

omit nonterminals in
/-- What follows an expression in a loop refines what was mentioned before. -/
theorem extended
    {first : Production P (Expr P)}
    {next : Expr P -> Production P (Option (Expr P))}
    {need : Nat}
    (reads : ReadsExpr machine need first)
    (steps : ∀ outer credit, need ≤ credit ->
      ReadsStep machine outer [] credit Tree.PointsMarked Tree.outline next) :
    ReadsExpr machine need (first.bind fun left => .iterate next left) := by
  intro frame credit _ enough
  have refined : Reads machine frame (first.bind fun left => .iterate next left) ⟨[], credit⟩
      fun value after mentions => ∃ reached, after = ⟨[], reached⟩ ∧ credit + 8 ≤ reached
        ∧ Refines mentions value.outline ∧ value.PointsMarked := by
    refine phrase reads trivial enough ?_
    rintro left reached _ ⟨gains, rfl, marked⟩
    refine weaken (iterate (by omega) marked (steps frame.outer reached (by omega))) ?_
    rintro value _ mentions ⟨rfl, valueMarked, refines⟩
    exact ⟨_, .refl _, reached, rfl, gains, refines, valueMarked⟩
  refine weaken refined ?_
  rintro value _ mentions ⟨reached, rfl, gains, refines, marked⟩
  exact ⟨_, refines, reached, rfl, gains, rfl, marked⟩

theorem primaryExpr : ReadsExpr machine 2 Production.primaryExpr :=
  extended nonterminals.operand fun outer credit enough =>
    nonterminals.suffix? outer credit enough

/-! ## Literal values -/

theorem elementExpr :
    ReadsTree machine Anywhere 4 (Production.elementExpr) := by
  intro frame credit _ enough
  refine look (fun first second same _ => ?_) fun cursor _ => ?_
  · rw [same]
  · split
    · refine map (last nonterminals.literalBody trivial (by omega) ?_)
      rintro body reached _ ⟨gains, rfl, -⟩
      exact ⟨_, rfl, gains, rfl, trivial⟩
    · refine last nonterminals.expr trivial enough ?_
      rintro value reached _ ⟨gains, rfl, -⟩
      exact ⟨_, rfl, gains, rfl, trivial⟩

omit nonterminals in
/-- What follows an element of a literal. -/
theorem elementEnd
    (frame : Frame)
    (credit : Nat)
    (element : Tree P (.one .element)) :
    Reads machine frame ((Production.eat? .comma).bind fun comma => Production.look.bind fun cursor =>
        if comma.isSome then .pure (element, true)
        else if cursor.token = .rBrace then .pure (element, false)
        else .refuse .elementCommaExpected) ⟨[], credit⟩
      fun value after mentions => ∃ reached, after = ⟨[], reached⟩ ∧ credit ≤ reached
        ∧ value.1 = element ∧ mentions = [] := by
  refine comma? (fun comma => ?_) ?_
  · refine look (fun _ _ _ _ => rfl) fun cursor _ => ?_
    exact Reads.pure ⟨_, rfl, by omega, rfl, rfl⟩
  · refine look (fun first second same _ => ?_) fun cursor _ => ?_
    · rw [same]
    · simp only [Option.isSome_none, Bool.false_eq_true, if_false]
      split
      · exact Reads.pure ⟨_, rfl, by omega, rfl, rfl⟩
      · exact refuse

theorem element :
    ReadsItem machine Anywhere 4 Tree.outline (fun _ => True) fun _ => Production.element := by
  intro _ frame credit _ enough
  refine phrase nonterminals.elementExpr trivial enough ?_
  rintro first reached _ ⟨gains, rfl, -⟩
  refine mark? rfl rfl (fun colon _ => ?_) ?_
  · refine phrase nonterminals.elementExpr trivial (by omega) ?_
    rintro value _ _ ⟨more, rfl, -⟩
    refine build fun node fits => ?_
    obtain rfl := Except.ok.inj fits
    refine weaken (elementEnd _ _ _) ?_
    rintro ⟨element, another⟩ _ _ ⟨_, rfl, rest, rfl, rfl⟩
    refine ⟨_, .refl _, _, rfl, by omega, ?_, fun _ => trivial⟩
    rw [List.append_nil]
    exact (List.append_assoc first.outline [colon.mention] value.outline).symm
  · refine build fun node fits => ?_
    obtain rfl := Except.ok.inj fits
    refine weaken (elementEnd _ _ _) ?_
    rintro ⟨element, another⟩ _ _ ⟨_, rfl, rest, rfl, rfl⟩
    refine ⟨_, .refl _, _, rfl, by omega, ?_, fun _ => trivial⟩
    rw [List.append_nil]
    rfl

theorem literalBodyRule :
    ReadsPhrase machine Anywhere 1 Production.literalBodyRule
      (Consumed LiteralBody.outline fun _ => True) := by
  refine readsNested (readsInHeader fun frame credit _ _ => ?_)
  refine mark rfl rfl fun lBrace _ => ?_
  refine Reads.bind (itemsUntil nonterminals.element trivial (by omega) (by omega)) ?_
  rintro elements _ _ ⟨rfl, rfl, -⟩
  refine mark rfl rfl fun rBrace _ => Reads.pure ⟨_, rfl, by omega, ?_, trivial⟩
  rw [← Tree.outline_ofList]
  rfl

/-! ## Operators -/

theorem unaryRule : ReadsExpr machine 2 Production.unaryRule := by
  refine readsNested fun frame credit _ enough => ?_
  refine look (fun first second same _ => ?_) fun cursor _ => ?_
  · rw [same]
  · split
    · next isOp =>
        obtain ⟨fixed, plain⟩ := isMark_of_isUnaryOp isOp
        refine anyMark rfl fixed plain fun op _ => ?_
        refine map (last nonterminals.unary trivial (by omega) ?_)
        rintro operand reached _ ⟨gains, rfl, marked⟩
        exact ⟨_, rfl, by omega, rfl, marked⟩
    · exact nonterminals.primaryExpr _ credit trivial enough

/-- An operator and its right operand extend the expression to the left. -/
theorem binaryTail?
    (least : Precedence)
    (outer : Option (List Token))
    (credit : Nat) :
    ReadsStep machine outer [] credit Tree.PointsMarked Tree.outline
      (Production.binaryTail? least) := by
  intro left _
  refine look (fun first second same _ => ?_) fun cursor _ => ?_
  · rw [same]
  · dsimp only
    split
    · exact Reads.pure ⟨rfl, rfl⟩
    · next isOp =>
        simp only [Bool.or_eq_true, decide_eq_true_eq, not_or] at isOp
        obtain ⟨fixed, plain⟩ := isMark_of_precedence isOp.1
        refine anyMark rfl fixed plain fun op _ => ?_
        refine map (last (nonterminals.exprOf _) trivial (by omega) ?_)
        rintro right reached _ ⟨gains, rfl, -⟩
        exact ⟨reached, rfl, by omega, trivial, .refl _⟩

theorem exprRule (least : Precedence) : ReadsExpr machine 3 (Production.exprRule least) :=
  extended nonterminals.unary fun outer credit _ => nonterminals.binaryTail? least outer credit

end ReadsNonterminals
end GoFront
