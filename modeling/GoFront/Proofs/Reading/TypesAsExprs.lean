import GoFront.Proofs.Reading.ParsedTypes
import GoFront.Proofs.Reading.Terminators

/-!
# Types where expressions are expected

In brackets behind an expression the grammar cannot know yet whether types or expressions come, so it
reads expressions and takes them for types later. What is read as a type is also read as an expression
that is taken for the same type, except for channels that can only be received from: their arrow is read
as an operator, which no type has.
-/

namespace GoFront

variable {P : Type}

namespace Tree

/-- The tokens that make an operand a type, whatever follows them. -/
def operandTypeStarts : List Token :=
  [.kwFunc, .lBrack, .kwMap, .kwChan, .kwStruct, .kwInterface]

/-- Types that are read as expressions: no receive-only channel stands where an expression would have
an operator in front of an operand. Behind a bracket or keyword of their own, types are read as types
and any type may stand. -/
inductive ReadsAsExpr : TypeExpr P -> Prop
  | operand
      {type : TypeExpr P}
      (leads : type.leadToken ∈ operandTypeStarts) : ReadsAsExpr type
  | pointer
      (star : Mark P)
      {elem : TypeExpr P}
      (reads : ReadsAsExpr elem) : ReadsAsExpr (pointerType star elem)
  | paren
      (lParen rParen : Mark P)
      {inner : TypeExpr P}
      (reads : ReadsAsExpr inner) : ReadsAsExpr (parenType lParen inner rParen)
  | name
      (package : Option (Ident P))
      (name : Ident P) : ReadsAsExpr (namedType (typeName package name absent))
  | applied
      (package : Option (Ident P))
      (name : Ident P)
      (lBrack rBrack : Mark P)
      {args : Tree P (.many .type)}
      (each : ∀ arg ∈ args.toList, ReadsAsExpr arg) :
      ReadsAsExpr (namedType (typeName package name (present (typeArgs lBrack (typeList args) rBrack))))

end Tree

namespace Production

variable {limit : Nat} {state : ReadState P} {final : Cursor P}

/-! ## Expressions in front of a comma or a closing bracket -/

/-- The tokens that end an expression wherever they follow it. -/
def argumentEnds : List Token :=
  [.comma, .rBrack, .rParen]

theorem parses_suffix?_of_ends
    {base : Expr P}
    (ends : state.cursor.token ∈ argumentEnds) :
    Parses limit (suffix? base) state none state.cursor := by
  simp only [argumentEnds, List.mem_cons, List.not_mem_nil, or_false] at ends
  obtain atToken | atToken | atToken := ends <;> simp [suffix?, atToken]

theorem parses_suffix?_of_brack
    {base value : Expr P}
    (atBrack : state.cursor.token = .lBrack)
    (parses : Parses limit (indexOrSlice base) state value final) :
    Parses limit (suffix? base) state (some value) final := by
  simpa [suffix?, atBrack] using parses

/-- An operand without unary operators takes the suffixes behind it. -/
theorem parses_unary_of_operand
    {base result : Expr P}
    {middle : Cursor P}
    (room : state.depth < limit)
    (notOp : state.cursor.token.isUnaryOp = false)
    (isOperand : Parses limit operand (state.deeper 1) base middle)
    (suffixes : Repeats limit suffix? ((state.moveTo middle).deeper 1) base result final) :
    Parses limit (.call .unary) state result final := by
  refine parses_call.2 (parses_nested.2 ⟨room, ?_⟩)
  have primary : Parses limit primaryExpr (state.deeper 1) result final :=
    parses_bind.2 ⟨base, middle, isOperand, parses_iterate.2 suffixes⟩
  exact parses_bind_look.2 ((if_neg (Bool.eq_false_iff.1 notOp)).symm ▸ primary)

/-- An operand that no suffix follows. -/
theorem parses_unary_of_ends
    {result : Expr P}
    (room : state.depth < limit)
    (notOp : state.cursor.token.isUnaryOp = false)
    (isOperand : Parses limit operand (state.deeper 1) result final)
    (ends : final.token ∈ argumentEnds) :
    Parses limit (.call .unary) state result final :=
  parses_unary_of_operand room notOp isOperand (.stop (parses_suffix?_of_ends ends))

theorem parses_unary_of_op
    {result : Expr P}
    (room : state.depth < limit)
    (isOp : state.cursor.token.isUnaryOp)
    (parses : Parses limit (.call .unary) ((state.moveTo state.cursor.advance).deeper 1) result
      final) :
    Parses limit (.call .unary) state
      (.unary ⟨state.cursor.token, state.cursor.pos⟩ result) final := by
  refine parses_call.2 (parses_nested.2 ⟨room, ?_⟩)
  refine parses_bind_look.2 ((if_pos isOp).symm ▸ ?_)
  refine parses_bind.2 ⟨_, _, parses_anyMark.2 ⟨rfl, rfl⟩, ?_⟩
  exact parses_bind.2 ⟨result, final, parses, parses_pure.2 ⟨rfl, rfl⟩⟩

/-- An operand with its unary operators is an expression if no binary operator follows. -/
theorem parses_expr_of_unary
    {result : Expr P}
    (parses : Parses limit (.call .unary) state result final)
    (ends : final.token ∈ argumentEnds) :
    Parses limit expr state result final := by
  have stops : Parses limit (binaryTail? .or result) (state.moveTo final) none final := by
    simp only [argumentEnds, List.mem_cons, List.not_mem_nil, or_false] at ends
    obtain atToken | atToken | atToken := ends <;> simp [binaryTail?, atToken, Token.precedence]
  exact parses_call.2 (parses_bind.2 ⟨result, final, parses, parses_iterate.2 (.stop stops)⟩)

/-- What a name is read as in an expression takes suffixes like a name does. -/
theorem Names.exists_base
    {package : Option (Ident P)}
    {name : Ident P}
    {behind : Cursor P}
    (names : Names state.cursor package name behind)
    (room : state.depth < limit) :
    ∃ base : Expr P, base.readType? = some (.namedType (.typeName package name .absent))
      ∧ ∀ result final, Repeats limit suffix? ((state.moveTo behind).deeper 1) base result final ->
        Parses limit (.call .unary) state result final := by
  have isName (atName : state.cursor.token = .ident) :
      Parses limit operand (state.deeper 1) (.ident (identOf state.cursor.peek))
        state.cursor.advance := by
    simp [operand, atName, litKind?]
  have notOp (atName : state.cursor.token = .ident) : state.cursor.token.isUnaryOp = false := by
    rw [atName]
    rfl
  cases names with
  | plain atName _ =>
      exact ⟨_, rfl, fun _ _ suffixes =>
        parses_unary_of_operand room (notOp atName) (isName atName) suffixes⟩
  | qualified atName dot atMember =>
      refine ⟨.selector (.ident (identOf state.cursor.peek)) ⟨.dot, state.cursor.advance.pos⟩
        (identOf state.cursor.advance.advance.peek), rfl, fun _ _ suffixes => ?_⟩
      refine parses_unary_of_operand room (notOp atName) (isName atName) (.more ?_ suffixes)
      simp [suffix?, dot, selectorOrAssertion, atMember]

/-! ## Types read as expressions -/

/-- From where a type is read, an expression is read up to the same place and taken for the type. -/
def ReadsAlike (limit : Nat) (type : TypeExpr P) : Prop :=
  ∀ (state : ReadState P) (final : Cursor P), Parses limit type? state (some type) final ->
    final.token ∈ argumentEnds -> ∃ value : Expr P, value.readType? = some type
      ∧ Parses (limit + 1) (.call .unary) state value final

namespace ReadsAlike

/-- A function type in front of no body is a type in an expression as well. -/
theorem function
    {type : TypeExpr P}
    (leads : type.leadToken = .kwFunc) :
    ReadsAlike limit type := by
  intro state final parses ends
  obtain ⟨room, atToken, parses⟩ := parses_of_type? parses (congrArg typeFrom leads)
  rw [leads] at atToken
  simp only [bind_eq, parses_bind, parses_pure] at parses
  obtain ⟨shape, _, parses, rfl, rfl⟩ := parses
  refine ⟨.typeOperand (.functionType shape), rfl, ?_⟩
  refine parses_unary_of_ends (Nat.lt_succ_of_lt room) (by simp [atToken, Token.isUnaryOp]) ?_ ends
  have noBody : final.token ≠ .lBrace := by
    rintro atBrace
    simp [argumentEnds, atBrace] at ends
  have isOperand : Parses (limit + 1) funcOperand (state.deeper 1)
      (.typeOperand (.functionType shape)) final := by
    simp only [funcOperand, bind_eq, parses_bind, parses_look]
    refine ⟨shape, final, parses.mono (Nat.le_succ limit), _, _, ⟨rfl, rfl⟩, ?_⟩
    simp [noBody]
  simpa [Production.operand, atToken, litKind?] using isOperand

/-- What is read behind a bracket or a keyword of its own is a type in an expression as well. -/
theorem operand
    {type : TypeExpr P}
    (leads : type.leadToken ∈ Tree.operandTypeStarts) :
    ReadsAlike limit type := by
  by_cases isFunc : type.leadToken = .kwFunc
  · exact .function isFunc
  intro state final parses ends
  obtain ⟨room, -⟩ := parses_type?.1 parses
  have atToken := token_of_parses_type? parses
  rw [← atToken] at leads isFunc
  have isOperand : Parses (limit + 1) typeOperand (state.deeper 1) (.typeOperand type) final := by
    simp only [typeOperand, bind_eq, parses_bind, parses_look]
    exact ⟨_, _, ⟨rfl, rfl⟩, some type, final, parses.deeper 1 (Nat.le_refl _), by simp⟩
  refine ⟨.typeOperand type, rfl, ?_⟩
  simp only [Tree.operandTypeStarts, List.mem_cons, List.not_mem_nil, or_false, isFunc, false_or]
    at leads
  refine parses_unary_of_ends (Nat.lt_succ_of_lt room) ?_ ?_ ends
  · obtain starts | starts | starts | starts | starts := leads <;> rw [starts] <;> rfl
  · obtain starts | starts | starts | starts | starts := leads <;>
      simpa [Production.operand, starts, litKind?] using isOperand

theorem pointer
    (star : Mark P)
    {elem : TypeExpr P}
    (reads : ReadsAlike limit elem) :
    ReadsAlike limit (Tree.pointerType star elem) := by
  intro state final parses ends
  obtain ⟨room, -, parses⟩ := parses_of_type? parses rfl
  obtain ⟨atStar, read, elemParses, same⟩ := parses_pointerType.1 parses
  obtain ⟨rfl, rfl⟩ := Tree.pointerType.inj same
  replace atStar : state.cursor.token = .star := atStar
  obtain ⟨value, isElem, elemParses⟩ := reads _ _ elemParses ends
  have isOp : state.cursor.token.isUnaryOp := by rw [atStar]; rfl
  refine ⟨_, ?_, parses_unary_of_op (Nat.lt_succ_of_lt room) isOp elemParses⟩
  simp [Tree.readType?, isElem, atStar]

theorem paren
    (lParen rParen : Mark P)
    {inner : TypeExpr P}
    (reads : ReadsAlike limit inner) :
    ReadsAlike limit (Tree.parenType lParen inner rParen) := by
  intro state final parses ends
  obtain ⟨room, -, parses⟩ := parses_of_type? parses rfl
  obtain ⟨atParen, read, middle, innerParses, closes, same, rfl⟩ := parses_parenType.1 parses
  obtain ⟨rfl, rfl, rfl⟩ := Tree.parenType.inj same
  replace atParen : state.cursor.token = .lParen := atParen
  have innerEnds : middle.token ∈ argumentEnds := by
    rw [closes]
    decide
  obtain ⟨value, isInner, innerParses⟩ := reads _ _ innerParses innerEnds
  have isGroup : Parses (limit + 1) groupExpr (state.deeper 1)
      (.group ⟨.lParen, state.cursor.pos⟩ value ⟨.rParen, middle.pos⟩) middle.advance := by
    simp only [groupExpr, bind_eq, parses_inHeader, parses_bind, parses_mark, parses_pure]
    exact ⟨_, _, ⟨atParen, rfl, rfl⟩, value, middle, parses_expr_of_unary innerParses innerEnds, _, _,
      ⟨closes, rfl, rfl⟩, rfl, rfl⟩
  refine ⟨.group ⟨.lParen, state.cursor.pos⟩ value ⟨.rParen, middle.pos⟩, ?_,
    parses_unary_of_ends (Nat.lt_succ_of_lt room) (by rw [atParen]; rfl) ?_ ends⟩
  · simp [Tree.readType?, isInner]
  · simpa [Production.operand, atParen, litKind?] using isGroup

end ReadsAlike

/-- Types behind commas are read as expressions behind commas. -/
theorem exists_exprs_of_types
    {types : List (TypeExpr P)}
    (each : ∀ type ∈ types, ReadsAlike limit type)
    (parses : Parses limit (commaTail .rBrack Production.type) state types final)
    (closes : final.token = .rBrack) :
    ∃ exprs : List (Expr P), exprs.mapM Tree.readType? = some types
      ∧ Parses (limit + 1) (commaTail .rBrack expr) state exprs final
      ∧ state.cursor.token ∈ argumentEnds := by
  induction types generalizing state with
  | nil =>
      refine ⟨[], rfl, ?_⟩
      obtain ⟨noComma, rfl⟩ | ⟨atComma, atCloser, rfl⟩ := parses_commaTail_nil.1 parses
      · exact ⟨parses_commaTail_nil.2 (.inl ⟨noComma, rfl⟩), by simp [argumentEnds, closes]⟩
      · exact ⟨parses_commaTail_nil.2 (.inr ⟨atComma, atCloser, rfl⟩), by simp [argumentEnds, atComma]⟩
  | cons first rest inductionHypothesis =>
      obtain ⟨atComma, goesOn, middle, firstParses, restParses⟩ := parses_commaTail_cons.1 parses
      obtain ⟨readsFirst, readsRest⟩ := List.forall_mem_cons.1 each
      obtain ⟨exprs, areTypes, exprsParse, ends⟩ := inductionHypothesis readsRest restParses
      obtain ⟨value, isType, valueParses⟩ := readsFirst _ _ (parses_type.1 firstParses) ends
      refine ⟨value :: exprs, by simp [isType, areTypes], ?_, by simp [argumentEnds, atComma]⟩
      exact parses_commaTail_cons.2
        ⟨atComma, goesOn, middle, parses_expr_of_unary valueParses ends, exprsParse⟩

section Subscripts

variable {first : Expr P} {front : Cursor P}
  (atBrack : state.cursor.token = .lBrack)
  (notColon : state.cursor.advance.token ≠ .colon)
  (firstParses : Parses limit expr ((state.moveTo state.cursor.advance).place false) first front)
include atBrack notColon firstParses

/-- Behind the first expression in brackets, the token in front decides. -/
theorem parses_behindFirst
    {value : Expr P}
    {slice : Mark P -> Production P (Expr P)}
    {tail : Mark P -> Expr P -> Cursor P -> Production P (Expr P)}
    (rest : Parses limit (tail ⟨.lBrack, state.cursor.pos⟩ first front)
      ((state.moveTo front).place false) value final) :
    Parses limit (.inHeader false (.bind (mark .lBrack) fun lBrack => .bind .look fun cursor =>
      if cursor.token = .colon then slice lBrack
      else .bind expr fun first => .bind .look fun cursor => tail lBrack first cursor))
      state value final := by
  refine parses_inHeader.2 (parses_bind.2 ⟨_, _, parses_mark.2 ⟨atBrack, rfl, rfl⟩, ?_⟩)
  refine parses_bind_look.2 ((if_neg notColon).symm ▸ ?_)
  exact parses_bind.2 ⟨first, front, firstParses, parses_bind_look.2 rest⟩

/-- Behind a comma, expressions in brackets must be types. -/
theorem parses_indexOrSlice_of_comma
    (base : Expr P)
    {rest : List (Expr P)}
    {types : List (TypeExpr P)}
    {middle : Cursor P}
    (atComma : front.token = .comma)
    (restParses : Parses limit (commaTail .rBrack expr) ((state.moveTo front).place false) rest middle)
    (closes : middle.token = .rBrack)
    (areTypes : (first :: rest).mapM Tree.readType? = some types) :
    Parses limit (indexOrSlice base) state
      (instantiate base ⟨.lBrack, state.cursor.pos⟩ types ⟨.rBrack, middle.pos⟩) middle.advance := by
  refine parses_behindFirst atBrack notColon firstParses ?_
  rw [atComma]
  refine parses_bind.2 ⟨rest, middle, restParses, ?_⟩
  refine parses_bind.2 ⟨_, _, parses_mark.2 ⟨closes, rfl, rfl⟩, ?_⟩
  rw [areTypes]
  exact parses_pure.2 ⟨rfl, rfl⟩

/-- One expression in brackets is an index, unless it can only be a type. -/
theorem exists_of_subscript
    (base : Expr P)
    (closes : front.token = .rBrack) :
    ∃ value : Expr P, Parses limit (indexOrSlice base) state value front.advance
      ∧ ((∃ type, first = .typeOperand type
          ∧ value = instantiate base ⟨.lBrack, state.cursor.pos⟩ [type] ⟨.rBrack, front.pos⟩)
        ∨ value = .index base ⟨.lBrack, state.cursor.pos⟩ first ⟨.rBrack, front.pos⟩) := by
  by_cases isType : ∃ type, first = .typeOperand type
  · obtain ⟨type, rfl⟩ := isType
    refine ⟨_, ?_, .inl ⟨type, rfl, rfl⟩⟩
    refine parses_behindFirst atBrack notColon firstParses ?_
    rw [closes]
    exact parses_bind.2 ⟨_, _, parses_mark.2 ⟨closes, rfl, rfl⟩, parses_pure.2 ⟨rfl, rfl⟩⟩
  · refine ⟨_, ?_, .inr rfl⟩
    refine parses_behindFirst atBrack notColon firstParses ?_
    rw [closes]
    refine parses_bind.2 ⟨_, _, parses_mark.2 ⟨closes, rfl, rfl⟩, ?_⟩
    split
    · exact absurd ⟨_, rfl⟩ isType
    · exact parses_pure.2 ⟨rfl, rfl⟩

end Subscripts

/-- Type arguments behind a name are read behind an expression as well. -/
theorem exists_of_typeArgs
    (base : Expr P)
    {lBrack rBrack : Mark P}
    {types : Tree P (.many .type)}
    (parses : Parses limit typeArgs state (.typeArgs lBrack (.typeList types) rBrack) final)
    (each : ∀ type ∈ types.toList, ReadsAlike limit type) :
    ∃ value : Expr P, Parses (limit + 1) (indexOrSlice base) state value final
      ∧ (2 ≤ types.toList.length ->
        value = .instantiation base (.typeArgs lBrack (.typeList types) rBrack))
      ∧ ∀ package name, base.readType? = some (.namedType (.typeName package name .absent)) ->
        value.readType? = some (.namedType (.typeName package name
          (.present (.typeArgs lBrack (.typeList types) rBrack)))) := by
  obtain ⟨atBrack, -, first, front, firstParses, rest, middle, restParses, closes, same, rfl⟩ :=
    parses_typeArgs.1 parses
  obtain ⟨rfl, sameList, rfl⟩ := Tree.typeArgs.inj same
  obtain rfl := Tree.typeList.inj sameList
  rw [Tree.toList_ofList] at each ⊢
  obtain ⟨readsFirst, readsRest⟩ := List.forall_mem_cons.1 each
  obtain ⟨exprs, areTypes, exprsParse, ends⟩ := exists_exprs_of_types readsRest restParses closes
  obtain ⟨value, isType, valueParses⟩ := readsFirst _ _ firstParses ends
  have notColon : state.cursor.advance.token ≠ .colon := by
    obtain ⟨-, _, found, -⟩ := parses_type?.1 firstParses
    rintro atColon
    change typeFrom state.cursor.advance.token = _ at found
    rw [atColon] at found
    cases found
  have valueParses := parses_expr_of_unary valueParses ends
  by_cases atComma : front.token = .comma
  · have areTypes : (value :: exprs).mapM Tree.readType? = some (first :: rest) := by
      simp [isType, areTypes]
    refine ⟨_, parses_indexOrSlice_of_comma atBrack notColon valueParses base atComma exprsParse
      closes areTypes, fun _ => rfl, fun package name isBase => ?_⟩
    simp [instantiate, Tree.readType?, isBase, Tree.withTypeArgs?]
  · cases rest with
    | cons second rest => exact absurd (parses_commaTail_cons.1 restParses).1 atComma
    | nil =>
        obtain ⟨-, rfl⟩ | ⟨isComma, -⟩ := parses_commaTail_nil.1 restParses
        · obtain ⟨subscripted, subscriptParses, shape⟩ :=
            exists_of_subscript atBrack notColon valueParses base closes
          refine ⟨subscripted, subscriptParses, by simp, fun package name isBase => ?_⟩
          obtain ⟨type, rfl, rfl⟩ | rfl := shape
          · obtain rfl := Option.some.inj isType
            simp [instantiate, Tree.readType?, isBase, Tree.withTypeArgs?]
          · simp [Tree.readType?, isBase, isType, Tree.withTypeArgs?, Tree.ofList]
        · exact absurd isComma atComma

namespace ReadsAlike

theorem name
    (package : Option (Ident P))
    (name : Ident P) :
    ReadsAlike limit (Tree.namedType (.typeName package name .absent)) := by
  intro state final parses ends
  obtain ⟨room, _, _, _, names, ⟨same, rfl⟩ | ⟨_, _, same⟩⟩ := exists_of_namedType parses
  · obtain ⟨rfl, rfl, -⟩ := Tree.typeName.inj same
    obtain ⟨base, isType, takes⟩ := names.exists_base (Nat.lt_succ_of_lt room)
    exact ⟨base, isType, takes base final (.stop (parses_suffix?_of_ends ends))⟩
  · cases (Tree.typeName.inj same).2.2

theorem applied
    (package : Option (Ident P))
    (name : Ident P)
    (lBrack rBrack : Mark P)
    {args : Tree P (.many .type)}
    (each : ∀ arg ∈ args.toList, ReadsAlike limit arg) :
    ReadsAlike limit (Tree.namedType (.typeName package name
      (.present (.typeArgs lBrack (.typeList args) rBrack)))) := by
  intro state final parses ends
  obtain ⟨room, _, _, _, names, ⟨same, -⟩ | ⟨_, argsParse, same⟩⟩ := exists_of_namedType parses
  · cases (Tree.typeName.inj same).2.2
  · obtain ⟨rfl, rfl, sameArgs⟩ := Tree.typeName.inj same
    obtain rfl := Tree.present.inj sameArgs
    obtain ⟨base, isBase, takes⟩ := names.exists_base (Nat.lt_succ_of_lt room)
    obtain ⟨value, valueParses, -, isType⟩ := exists_of_typeArgs base argsParse each
    have suffix := parses_suffix?_of_brack (parses_typeArgs.1 argsParse).1 valueParses
    exact ⟨value, isType package name isBase,
      takes value final (.more suffix (.stop (parses_suffix?_of_ends ends)))⟩

end ReadsAlike

/-- What is read as a type is read as an expression, if no receive-only channel gets in the way. -/
theorem readsAlike
    {type : TypeExpr P}
    (legible : Tree.ReadsAsExpr type) :
    ReadsAlike limit type := by
  induction legible with
  | operand leads => exact .operand leads
  | pointer star _ elem => exact .pointer star elem
  | paren lParen rParen _ inner => exact .paren lParen rParen inner
  | name package name => exact .name package name
  | applied package name lBrack rBrack _ each => exact .applied package name lBrack rBrack each

end Production

/-! ## Runs -/

namespace ReadsNonterminals

open Reads

/-- Brackets behind any expression are read to an end. -/
theorem finishesSubscript
    {machine : Machine P}
    (nonterminals : ReadsNonterminals machine)
    (frame : Frame)
    (base : Expr P) :
    Reads machine frame (Production.indexOrSlice base) ⟨[], 8⟩ fun _ _ _ => True := by
  have slice {frame : Frame} {lBrack : Mark P} {low : Tree P (.maybe .expr)} {credit : Nat}
      (enough : 4 ≤ credit) :
      Reads machine frame (Production.sliceTail base lBrack low) ⟨[.rBrack], credit⟩
        fun _ _ _ => True :=
    weaken (nonterminals.sliceTail _ _ enough base lBrack low)
      fun _ _ mentions _ => ⟨mentions, .refl _, trivial⟩
  refine inHeader (mark rfl rfl fun lBrack _ => look (fun first second same _ => ?_)
    fun cursor _ => ?_)
  · rw [same]
  split
  · exact slice (by omega)
  refine phrase nonterminals.expr trivial (by omega) ?_
  rintro first reached _ ⟨gains, rfl, -⟩
  refine look (fun first second same _ => ?_) fun cursor _ => ?_
  · rw [same]
  split
  · exact slice (by omega)
  · refine Reads.bind (commaTail nonterminals.expr trivial (by omega) (by omega)) ?_
    rintro rest _ _ ⟨rfl, rfl, -⟩
    refine mark rfl rfl fun rBrack _ => ?_
    split
    · exact Reads.pure trivial
    · exact refuse
  · refine mark rfl rfl fun rBrack _ => ?_
    split <;> exact Reads.pure trivial

end ReadsNonterminals

/-- What is read on more room is read on less, unless phrases nest too deep for it. -/
theorem CleanRun.of_parses
    {α : Type}
    {limit limit' allowance : Nat}
    {production : Production P α}
    {state final : ReadState P}
    {value : α}
    {taken : List (Lexeme P)}
    (room : limit ≤ limit')
    (finishes : (ruleMachine limit allowance).run production state ≠ .exhausted)
    (parses : Production.Parses limit' production state value final.cursor)
    (regular : state.Regular)
    (reaches : state.Reaches taken final)
    (clean : final.errors = state.errors) :
    ((ruleMachine limit allowance).run production state).TooDeep limit state
      ∨ CleanRun (ruleMachine limit allowance) production state value final taken := by
  obtain ⟨allowance', run⟩ := parses
  have roomyRun := Production.Parses.run_of_le run (Nat.le_max_right allowance allowance')
  rw [← reaches.eq_moveTo clean] at roomyRun
  obtain tooDeep | narrowRun :=
    Machine.run_of_roomy room (Nat.le_max_left allowance allowance') finishes roomyRun
  · exact .inl tooDeep
  · exact .inr ⟨regular, narrowRun, reaches, clean⟩

/-- In front of a comma or a closing bracket, what is read as a type is read as an expression as well, up
to the same place, and taken for the same type: unless phrases nest too deep for the expression, whose
operands stand one level deeper, and unless a receive-only channel is in the way. So several types
that are read in brackets behind the name of a type are read behind an expression too. -/
theorem types_read_as_exprs
    {limit allowance : Nat}
    {state final : ReadState P}
    {taken : List (Lexeme P)}
    (enough : Production.allowance state.cursor.ahead.length ≤ allowance) :
    (∀ type : TypeExpr P,
      CleanRun (ruleMachine limit allowance) Production.type state type final taken ->
      type.ReadsAsExpr -> final.cursor.token = .comma ∨ final.cursor.token = .rBrack ->
      ((ruleMachine limit allowance).run Production.expr state).TooDeep limit state
        ∨ ∃ value : Expr P, value.readType? = some type
          ∧ CleanRun (ruleMachine limit allowance) Production.expr state value final taken)
      ∧ ∀ (base : Expr P) (lBrack rBrack : Mark P) (types : Tree P (.many .type)),
        CleanRun (ruleMachine limit allowance) Production.typeArgs state
          (.typeArgs lBrack (.typeList types) rBrack) final taken ->
        (∀ type ∈ types.toList, type.ReadsAsExpr) -> 2 ≤ types.toList.length ->
        ((ruleMachine limit allowance).run (Production.indexOrSlice base) state).TooDeep limit state
          ∨ CleanRun (ruleMachine limit allowance) (Production.indexOrSlice base) state
            (.instantiation base (.typeArgs lBrack (.typeList types) rBrack)) final taken := by
  have nonterminals := readsNonterminals (P := P) limit allowance
  have lasts : 8 * state.cursor.ahead.length + 8 ≤ allowance := by
    simp only [Production.allowance] at enough
    omega
  have unknown (token : Token) (known : token ∈ (none : Option Token)) :
      state.cursor.token = token := nomatch known
  constructor
  · rintro type ⟨regular, run, reaches, clean⟩ legible follower
    have ends : final.cursor.token ∈ Production.argumentEnds := by
      obtain atComma | atBrack := follower
      · simp [Production.argumentEnds, atComma]
      · simp [Production.argumentEnds, atBrack]
    have parses := Production.parses_type.1 (Production.Parses.of_run run clean)
    obtain ⟨value, isType, parses⟩ := Production.readsAlike legible state final.cursor parses ends
    have finishes := (nonterminals.expr ⟨none, none, none⟩ 8 trivial (by omega)).finishes state
      regular unknown lasts
    obtain tooDeep | valueRun := CleanRun.of_parses (Nat.le_succ limit) finishes
      (Production.parses_expr_of_unary parses ends) regular reaches clean
    · exact .inl tooDeep
    · exact .inr ⟨value, isType, valueRun⟩
  · rintro base lBrack rBrack types ⟨regular, run, reaches, clean⟩ legible several
    have parses := Production.Parses.of_run run clean
    obtain ⟨value, parses, isInstantiation, -⟩ := Production.exists_of_typeArgs base parses
      fun type member => Production.readsAlike (legible type member)
    have finishes := (nonterminals.finishesSubscript ⟨none, none, none⟩ base).finishes state regular
      unknown lasts
    rw [isInstantiation several] at parses
    exact CleanRun.of_parses (Nat.le_succ limit) finishes parses regular reaches clean

/-- The lexemes of `[*T, []<-chan int]`, each at its number. -/
def pointerAndSlice : List (Lexeme Nat) :=
  [⟨.lBrack, 0, none⟩, ⟨.star, 1, none⟩, ⟨.ident, 2, some "T"⟩, ⟨.comma, 3, none⟩, ⟨.lBrack, 4, none⟩,
    ⟨.rBrack, 5, none⟩, ⟨.arrow, 6, none⟩, ⟨.kwChan, 7, none⟩, ⟨.ident, 8, some "int"⟩,
    ⟨.rBrack, 9, none⟩, ⟨.semi, 10, none⟩]

/-- A pointer, alone and as a type argument in front of a slice of receive-only channels. -/
theorem types_read_as_exprs_pointer :
    (∃ value : Expr Nat,
      value.readType?
          = some (.pointerType ⟨.star, 1⟩ (.namedType (.typeName none ⟨"T", 2⟩ .absent)))
        ∧ CleanRun (ruleMachine 9 96) Production.expr (.start (pointerAndSlice.drop 1) 11) value
          ⟨⟨2, pointerAndSlice.drop 3, 11⟩, 0, false, []⟩ ((pointerAndSlice.drop 1).take 2))
      ∧ ∀ base : Expr Nat, ∃ args,
        CleanRun (ruleMachine 9 96) (Production.indexOrSlice base) (.start pointerAndSlice 11)
          (.instantiation base args) ⟨⟨10, pointerAndSlice.drop 10, 11⟩, 0, false, []⟩
          (pointerAndSlice.take 10) := by
  have regular : (ReadState.start pointerAndSlice 11).Regular := by
    change ∀ lexeme ∈ pointerAndSlice,
      lexeme.token ≠ .eof ∧ lexeme.literal.isSome = lexeme.token.isLiteral
    decide
  have elem : Tree.ReadsAsExpr (P := Nat) (.namedType (.typeName none ⟨"T", 2⟩ .absent)) := .name _ _
  have enough {lexemes : List (Lexeme Nat)} (short : lexemes.length ≤ 11) :
      Production.allowance (ReadState.start lexemes 11).cursor.ahead.length ≤ 96 :=
    Nat.mul_le_mul_left 8 (Nat.add_le_add_right short 1)
  constructor
  · have run : CleanRun (ruleMachine 9 96) Production.type (.start (pointerAndSlice.drop 1) 11)
        (.pointerType ⟨.star, 1⟩ (.namedType (.typeName none ⟨"T", 2⟩ .absent)))
        ⟨⟨2, pointerAndSlice.drop 3, 11⟩, 0, false, []⟩ ((pointerAndSlice.drop 1).take 2) :=
      ⟨fun lexeme member => regular lexeme (List.mem_of_mem_drop member), rfl,
        ⟨rfl, rfl, rfl, rfl, rfl, List.suffix_rfl⟩, rfl⟩
    exact ((types_read_as_exprs (enough (by decide))).1 _ run (.pointer _ elem)
      (.inl rfl)).resolve_left (Outcome.not_tooDeep_done rfl)
  · have run : CleanRun (ruleMachine 9 96) Production.typeArgs (.start pointerAndSlice 11)
        (.typeArgs ⟨.lBrack, 0⟩ (.typeList (.ofList
          [.pointerType ⟨.star, 1⟩ (.namedType (.typeName none ⟨"T", 2⟩ .absent)),
            .sliceType ⟨.lBrack, 4⟩ ⟨.rBrack, 5⟩ (.chanType .recv ⟨.kwChan, 7⟩ (some ⟨.arrow, 6⟩)
              (.namedType (.typeName none ⟨"int", 8⟩ .absent)))])) ⟨.rBrack, 9⟩)
        ⟨⟨10, pointerAndSlice.drop 10, 11⟩, 0, false, []⟩ (pointerAndSlice.take 10) :=
      ⟨regular, rfl, ⟨rfl, rfl, rfl, rfl, rfl, List.suffix_rfl⟩, rfl⟩
    refine fun base => ⟨_, ((types_read_as_exprs (enough (by decide))).2 base _ _ _ run ?_
      (Nat.le_refl 2)).resolve_left (Outcome.not_tooDeep_done rfl)⟩
    rw [Tree.toList_ofList]
    exact List.forall_mem_cons.2 ⟨.pointer _ elem,
      List.forall_mem_singleton.2 (.operand (by decide))⟩

/-- The lexemes of `[<-chan int, T]`, each at its number. -/
def receiverAndName : List (Lexeme Nat) :=
  [⟨.lBrack, 0, none⟩, ⟨.arrow, 1, none⟩, ⟨.kwChan, 2, none⟩, ⟨.ident, 3, some "int"⟩,
    ⟨.comma, 4, none⟩, ⟨.ident, 5, some "T"⟩, ⟨.rBrack, 6, none⟩, ⟨.semi, 7, none⟩]

/-- The arrow of a receive-only channel is read as an operator: in front of the same comma, what is read
as a type is read as an expression without errors that is no type, and brackets that are read behind
the name of a type are refused behind an expression. -/
theorem receiver_reads_as_no_type :
    (∃ (type : TypeExpr Nat) (value : Expr Nat) (final : ReadState Nat),
      (ruleMachine 9 72).run Production.type (.start (receiverAndName.drop 1) 8) = .done type final
        ∧ (ruleMachine 9 72).run Production.expr (.start (receiverAndName.drop 1) 8)
          = .done value final
        ∧ final.cursor.ahead = receiverAndName.drop 4 ∧ final.errors = []
        ∧ value.readType? = none)
      ∧ (∃ (args : Tree Nat (.one .typeArgs)) (final : ReadState Nat),
        (ruleMachine 9 72).run Production.typeArgs (.start receiverAndName 8) = .done args final
          ∧ final.errors = [])
      ∧ ∀ base : Expr Nat, ∃ final : ReadState Nat,
        (ruleMachine 9 72).run (Production.indexOrSlice base) (.start receiverAndName 8)
            = .gaveUp final
          ∧ final.errors.map SyntaxError.cause = [.typeArgumentExpected] :=
  ⟨⟨_, _, _, rfl, rfl, rfl, rfl, rfl⟩, ⟨_, _, rfl, rfl⟩, fun _ => ⟨_, rfl, rfl⟩⟩

end GoFront
