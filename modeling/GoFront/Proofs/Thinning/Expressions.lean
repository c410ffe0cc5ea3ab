import GoFront.Proofs.Forms.Expressions
import GoFront.Proofs.Thinning.Types

/-!
# Expressions in thinned texts

An expression is read of a thinned text as of the whole one. A comma behind the last argument or element may
have been left out, but not one behind a lone index, where it tells type arguments from an index.
-/

namespace GoFront

open Production (Parses)

variable {P : Type}

/-! ## Types read as expressions -/

namespace Tree

theorem everywhere_named {property : PhraseProperty P} {package : Option (Ident P)} {name : Ident P} :
    (namedType (typeName package name absent)).Everywhere property :=
  (everywhere_iff rfl).2 ((everywhere_iff rfl).2 everywhere_absent)

/-- A type that gets arguments is made of nothing else. -/
theorem everywhere_withTypeArgs?
    (property : PhraseProperty P)
    {args : Tree P (.one .typeArgs)}
    {base type : TypeExpr P}
    (found : withTypeArgs? args base = some type) :
    base.Everywhere property ∧ (type.Everywhere property ↔ args.Everywhere property) := by
  unfold withTypeArgs? at found
  split at found
  · obtain rfl := Option.some.inj found
    exact ⟨everywhere_named,
      (everywhere_iff rfl).trans ((everywhere_iff rfl).trans everywhere_present)⟩
  · cases found

/-- An expression that is read as a type is made of the same parts. Only type arguments can come in, which
an index is read as. -/
theorem everywhere_readType?
    (property : PhraseProperty P)
    {slot : Slot}
    {tree : Tree P slot}
    {type : TypeExpr P}
    (found : tree.readType? = some type) :
    (type.Everywhere property -> tree.Everywhere property)
      ∧ ((∀ lBrack types rBrack, property.holds (typeArgs lBrack types rBrack)) -> tree.Everywhere property ->
        type.Everywhere property) := by
  induction tree generalizing type with
  | typeOperand operand =>
      obtain rfl := Option.some.inj found
      exact ⟨fun everywhere => (everywhere_iff rfl).2 everywhere, fun _ everywhere => everywhere.parts⟩
  | ident name =>
      obtain rfl := Option.some.inj found
      exact ⟨fun _ => .node (property.ordinary _ rfl) trivial, fun _ _ => everywhere_named⟩
  | selector base dot name =>
      cases base with
      | ident package =>
          obtain rfl := Option.some.inj found
          have here : (ident package).Everywhere property := .node (property.ordinary _ rfl) trivial
          exact ⟨fun _ => (everywhere_iff rfl).2 here, fun _ _ => everywhere_named⟩
      | _ => cases found
  | index base lBrack subscript rBrack baseHypothesis subscriptHypothesis =>
      obtain ⟨arg, isArg, found⟩ := Option.bind_eq_some_iff.1 found
      obtain ⟨outer, isOuter, found⟩ := Option.bind_eq_some_iff.1 found
      obtain ⟨outerEverywhere, same⟩ := everywhere_withTypeArgs? property found
      refine ⟨fun everywhere => ?_, fun typeArgs everywhere => same.2 (.node (typeArgs _ _ _) ?_)⟩
      · have args : (typeList (ofList [arg])).Everywhere property := (same.1 everywhere).parts
        have subscriptEverywhere :=
          (subscriptHypothesis isArg).1 (everywhere_typeList.1 args arg List.mem_cons_self)
        exact (everywhere_iff rfl).2 ⟨(baseHypothesis isOuter).1 outerEverywhere, subscriptEverywhere⟩
      · have argEverywhere := (subscriptHypothesis isArg).2 typeArgs everywhere.parts.2
        have args : (typeList (ofList [arg])).Everywhere property :=
          everywhere_typeList.2 (List.forall_mem_singleton.2 argEverywhere)
        exact args
  | instantiation base args baseHypothesis argsHypothesis =>
      obtain ⟨outer, isOuter, found⟩ := Option.bind_eq_some_iff.1 found
      obtain ⟨outerEverywhere, same⟩ := everywhere_withTypeArgs? property found
      refine ⟨fun everywhere => (everywhere_iff rfl).2 ⟨?_, same.1 everywhere⟩,
        fun _ everywhere => same.2 everywhere.parts.2⟩
      exact (baseHypothesis isOuter).1 outerEverywhere
  | unary op operand operandHypothesis =>
      change (if op.token = .star then _ else none) = _ at found
      split at found
      · obtain ⟨elem, isElem, found⟩ := Option.bind_eq_some_iff.1 found
        obtain rfl := Option.some.inj found
        have hypothesis := operandHypothesis isElem
        exact ⟨fun everywhere => (everywhere_iff rfl).2 (hypothesis.1 everywhere.parts),
          fun typeArgs everywhere => (everywhere_iff rfl).2 (hypothesis.2 typeArgs everywhere.parts)⟩
      · cases found
  | group lParen inner rParen innerHypothesis =>
      obtain ⟨type, isType, found⟩ := Option.bind_eq_some_iff.1 found
      obtain rfl := Option.some.inj found
      have hypothesis := innerHypothesis isType
      exact ⟨fun everywhere => (everywhere_iff rfl).2 (hypothesis.1 everywhere.parts),
        fun typeArgs everywhere => (everywhere_iff rfl).2 (hypothesis.2 typeArgs everywhere.parts)⟩
  | _ => cases found

theorem everywhere_mapM_readType?
    (property : PhraseProperty P)
    {exprs : List (Expr P)}
    {types : List (TypeExpr P)}
    (found : exprs.mapM readType? = some types) :
    ((∀ type ∈ types, type.Everywhere property) -> ∀ expr ∈ exprs, expr.Everywhere property)
      ∧ ((∀ lBrack types rBrack, property.holds (typeArgs lBrack types rBrack)) ->
        (∀ expr ∈ exprs, expr.Everywhere property) -> ∀ type ∈ types, type.Everywhere property) := by
  have read := forall₂_of_mapM found
  clear found
  induction read with
  | nil => simp
  | cons isType _ inductionHypothesis =>
      have here := everywhere_readType? property isType
      simp only [List.forall_mem_cons]
      exact ⟨fun both => ⟨here.1 both.1, inductionHypothesis.1 both.2⟩,
        fun typeArgs both => ⟨here.2 typeArgs both.1, inductionHypothesis.2 typeArgs both.2⟩⟩

end Tree

/-! ## Operands -/

namespace ThinsNonterminals

variable {thinning : Thinning P} {allowance : Nat} (thins : ThinsNonterminals thinning allowance)

include thins

theorem exprList : Thins thinning allowance NoParts Production.exprList (.of .tree) := by
  refine .bind (.commaSeparated Begins.expr thins.expr) ?_
  intro _
  exact .node rfl fun _ => by simp [Tree.children]

theorem groupExpr : Thins thinning allowance NoParts Production.groupExpr (.of .tree) := by
  refine .inHeader ?_
  refine .skip (.mark rfl (by decide)) ?_
  intro lParen
  refine .bind thins.expr ?_
  intro inner
  refine .skip (.mark rfl (by decide)) ?_
  intro rParen
  exact .node rfl fun _ => by simp [Tree.children]

theorem funcOperand : Thins thinning allowance NoParts Production.funcOperand (.of .tree) := by
  refine .bind thins.funcType fun type => .look_token rfl ?_ (.node rfl fun property => ?_)
  · exact .bind (.inHeader thins.block) fun body => .node rfl fun _ => by simp [Tree.children]
  · have isType : (Tree.functionType type).Everywhere property ↔ type.Everywhere property :=
      Tree.everywhere_iff rfl
    simp [Tree.children, isType]

theorem typeOperand : Thins thinning allowance NoParts Production.typeOperand (.of .tree) := by
  intro state
  refine .look ?_
  intro thinned _
  refine .bind (thins.type? state) ?_
  intro type middle
  cases type with
  | some type => exact .node rfl fun _ => by simp [Tree.children]
  | none => exact .refuse

theorem operand : Thins thinning allowance NoParts Production.operand (.of .tree) := by
  intro state
  by_cases isPause : state.cursor.token.isPause = true
  · exact .of_begins Begins.operand isPause
  have noPause : state.cursor.token.isPause = false := Bool.eq_false_iff.2 isPause
  have notSeparator := Token.isSeparator_of_not_isPause noPause
  refine .look fun thinned thinner => ?_
  rw [thinner.token_eq notSeparator]
  split
  · next found =>
    have notAtEnd : state.cursor.token ≠ .eof := by
      intro atEnd
      cases found.symm.trans (congrArg Production.litKind? atEnd)
    exact .skip (.advance notAtEnd notSeparator) fun lexeme _ => .node rfl fun _ => by
      simp [Tree.children]
  · split
    · exact .skip (.of_thins .ident) fun name _ => .node rfl fun _ => by simp [Tree.children]
    · exact thins.groupExpr state
    · exact thins.funcOperand state
    · exact thins.typeOperand state

/-! ## Suffixes -/

theorem sliceTail
    (base : Expr P)
    (lBrack : Mark P)
    (low : Tree P (.maybe .expr)) :
    Thins thinning allowance (fun property => base.Everywhere property ∧ low.Everywhere property)
      (Production.sliceTail base lBrack low) (.of .tree) := by
  have noSeparator {cursor : Cursor P} (isStop : cursor.atAny [.colon, .rBrack] = true) :
      cursor.token.isSeparator = false := by
    have member := List.contains_iff_mem.1 isStop
    simp only [List.mem_cons, List.not_mem_nil, or_false] at member
    rcases member with isToken | isToken <;> rw [isToken] <;> rfl
  refine .skip (.mark rfl (by decide)) fun colon => .readUnless Begins.expr.bind (fun same => ?_) noSeparator
    (.pure_bind ?_) (.bind thins.expr fun high => .pure_bind ?_)
  · rw [Cursor.atAny, same, Cursor.atAny]
  · refine .skip (.mark? rfl (by decide)) fun second => ?_
    split
    · exact .skip (.mark rfl (by decide)) fun rBrack => .node rfl fun _ => by simp [Tree.children]
    · exact .refuse
  · refine .skip (.mark? rfl (by decide)) fun second => ?_
    split
    · exact .skip (.mark rfl (by decide)) fun rBrack => .node rfl fun _ => by simp [Tree.children, and_assoc]
    · refine .readUnless Begins.expr.bind (fun same => by rw [same]) (fun isStop => isStop ▸ rfl) .refuse ?_
      refine .bind thins.expr ?_
      intro max
      refine .skip (.mark rfl (by decide)) ?_
      intro rBrack
      exact .node rfl fun _ => by simp [Tree.children, and_assoc]

omit thins in
/-- An instantiation is made of an expression and of types. -/
theorem instantiation
    {parts : PhraseProperty P -> Prop}
    {base : Expr P}
    {lBrack rBrack : Mark P}
    {types : List (TypeExpr P)}
    {state : ReadState P}
    (attests : parts thinning.attested -> base.Everywhere thinning.attested
      ∧ ∀ type ∈ types, type.Everywhere thinning.attested)
    (spares : base.Everywhere thinning.Spares -> (∀ type ∈ types, type.Everywhere thinning.Spares) ->
      parts thinning.Spares) :
    ThinsFrom thinning allowance parts (.pure (Production.instantiate base lBrack types rBrack))
      (.pure (Production.instantiate base lBrack types rBrack)) (.of .tree) state := by
  have whole (property : PhraseProperty P) :
      (Production.instantiate base lBrack types rBrack).Everywhere property ↔ base.Everywhere property
        ∧ (Tree.typeArgs lBrack (.typeList (.ofList types)) rBrack).Everywhere property :=
    Tree.everywhere_iff rfl
  refine .done (fun attested => (whole _).2 ⟨(attests attested).1, ?_⟩) fun spared _ => ?_
  · exact .node (thinning.attests _ rfl) (Tree.everywhere_typeList.2 (attests attested).2)
  · obtain ⟨baseSpared, argsSpared⟩ := (whole _).1 spared
    exact spares baseSpared (Tree.everywhere_typeList.1 argsSpared.parts)

/-- Between brackets with commas stand types that are read as expressions. -/
theorem instantiate
    (base first : Expr P)
    (lBrack : Mark P) :
    Thins thinning allowance (fun property => base.Everywhere property ∧ first.Everywhere property)
      ((Production.commaTail .rBrack Production.expr).bind fun rest =>
        (Production.mark .rBrack).bind fun rBrack =>
          match (first :: rest).mapM Tree.readType? with
          | some types => .pure (Production.instantiate base lBrack types rBrack)
          | none => .refuse .typeArgumentExpected) (.of .tree) := by
  refine .bind (.commaTail rfl Begins.expr thins.expr) fun rest => .skip (.mark rfl (by decide)) fun rBrack
    state => ?_
  split
  · next types found =>
    have read (property : PhraseProperty P) := Tree.everywhere_mapM_readType? property found
    refine instantiation (fun attested => ⟨attested.1.1, ?_⟩) fun baseSpared typesSpared => ?_
    · exact (read _).2 (fun _ _ _ => thinning.attests _ rfl)
        (List.forall_mem_cons.2 ⟨attested.1.2, attested.2⟩)
    · have exprs := List.forall_mem_cons.1 ((read _).1 typesSpared)
      exact ⟨⟨baseSpared, exprs.1⟩, exprs.2⟩
  · exact .refuse

omit thins in
/-- A comma in front of the bracket tells type arguments from an index, so that they do not spare it. -/
theorem not_spared_of_lost_comma
    {base first expr : Expr P}
    {lBrack : Mark P}
    {state : ReadState P}
    {final : Cursor P}
    {comma : Lexeme P}
    (lost : thinning.Lost comma state.cursor.advance)
    (isComma : comma.token = .comma)
    (atComma : state.cursor.token = comma.token)
    (parses : Parses thinning.limit ((Production.commaTail .rBrack Production.expr).bind fun rest =>
        (Production.mark .rBrack).bind fun rBrack =>
          match (first :: rest).mapM Tree.readType? with
          | some types => .pure (Production.instantiate base lBrack types rBrack)
          | none => .refuse .typeArgumentExpected) state expr final) :
    ¬ expr.Everywhere thinning.Spares := by
  obtain ⟨rest, middle, tail, parses⟩ := Production.parses_bind.1 parses
  have atBracket : middle = state.cursor.advance := by
    cases rest with
    | nil =>
        rcases Production.parses_commaTail_nil.1 tail with ⟨notComma, -⟩ | ⟨-, -, middleEq⟩
        · exact absurd (atComma.trans isComma) notComma
        · exact middleEq
    | cons second rest =>
        obtain ⟨-, -, _, itemParses, -⟩ := Production.parses_commaTail_cons.1 tail
        exact absurd ((Begins.expr itemParses).symm.trans lost.isPause) Bool.false_ne_true
  subst atBracket
  obtain ⟨rBrack, _, markParses, parses⟩ := Production.parses_bind.1 parses
  obtain ⟨closes, rfl, -⟩ := Production.parses_mark.1 markParses
  have closes : state.cursor.advance.token = .rBrack := closes
  split at parses
  · obtain ⟨rfl, -⟩ := Production.parses_pure.1 parses
    intro spared
    obtain ⟨closer, behind, ahead, isCloser⟩ := Cursor.exists_of_token_ne_eof (closes.trans_ne (by decide))
    have isSuffix := lost.isSuffix
    rw [ahead] at isSuffix
    have argsSpared : Tree.Everywhere thinning.Spares (_ : Tree P (.one .typeArgs)) := spared.parts.2
    have isKept := argsSpared.here comma closer behind isSuffix isComma (isCloser.trans closes)
      (congrArg Lexeme.pos (Cursor.peek_of_ahead ahead)).symm
    exact Bool.false_ne_true (lost.isLost.symm.trans isKept)
  · exact absurd parses Production.not_parses_refuse

omit thins in
/-- Between brackets without commas stands a subscript, or a type. -/
theorem subscript
    (base first : Expr P)
    (lBrack : Mark P) :
    Thins thinning allowance (fun property => base.Everywhere property ∧ first.Everywhere property)
      ((Production.mark .rBrack).bind fun rBrack =>
        match first with
        | .typeOperand type => .pure (Production.instantiate base lBrack [type] rBrack)
        | subscript => .pure (.index base lBrack subscript rBrack)) (.of .tree) := by
  refine .skip (.mark rfl (by decide)) fun rBrack state => ?_
  split
  · exact instantiation (fun attested => ⟨attested.1, List.forall_mem_singleton.2 attested.2.parts⟩)
      fun baseSpared typesSpared =>
        ⟨baseSpared, (Tree.everywhere_iff rfl).2 (typesSpared _ List.mem_cons_self)⟩
  · exact .node rfl fun _ => by simp [Tree.children]

theorem indexOrSlice (base : Expr P) :
    Thins thinning allowance (fun property => base.Everywhere property)
      (Production.indexOrSlice base) (.of .tree) := by
  have slice (lBrack : Mark P) := thins.sliceTail base lBrack .absent
  refine .inHeader (.skip (.mark rfl (by decide)) fun lBrack => .look_token rfl
    (.of_parts (fun _ => by simp) (slice lBrack)) (.bind thins.expr fun first state => ?_))
  refine .look fun thinned thinner => ?_
  by_cases same : thinned.cursor.token = state.cursor.token
  · rw [same]
    split
    · exact .of_parts (fun _ => by simp) (thins.sliceTail base lBrack (.present first) state)
    · exact thins.instantiate base first lBrack state
    · exact subscript base first lBrack state
  obtain ⟨lexeme, _, ahead, lost⟩ := thinner.exists_lost same
  have isSeparator := Token.isSeparator_of_isOptionalBefore lost.isOptional
  have isToken := Cursor.token_of_ahead ahead
  rcases Token.eq_or_eq_of_isSeparator isSeparator with isComma | isSemi
  · rw [isToken, isComma]
    refine (thins.instantiate base first lBrack state).of_not_spared fun _ _ _ _ run _ => ?_
    exact not_spared_of_lost_comma lost isComma isToken run.parses
  · have atSemi := isToken.trans isSemi
    rw [atSemi]
    refine .of_not_parses fun _ value final parses => ?_
    obtain ⟨_, _, parses, -⟩ := Production.parses_bind.1 parses
    cases atSemi.symm.trans (Production.parses_mark.1 parses).1

/-- Behind an argument with an ellipsis no other one follows, with a comma or without. -/
theorem argument (isType : Bool) :
    Thins thinning allowance NoParts (Production.argument isType) (.item .rParen (.left .tree)) := by
  have rest (arg : Expr P) : Thins thinning allowance (fun property => arg.Everywhere property)
      ((Production.mark? .ellipsis).bind fun ellipsis => (Production.eat? .comma).bind fun comma =>
        Production.look.bind fun cursor =>
          if ellipsis.isSome then .pure ((arg, ellipsis), false)
          else if comma.isSome then .pure ((arg, none), true)
          else if cursor.token = .rParen then .pure ((arg, none), false)
          else .refuse .argumentCommaExpected) (.item .rParen (.left .tree)) := by
    refine .skip (.mark? rfl (by decide)) fun ellipsis => ?_
    cases ellipsis with
    | none => exact .commaOrCloser rfl fun _ => .rfl
    | some ellipsis =>
        have last (state : ReadState P) :
            ThinsFrom thinning allowance (fun property => arg.Everywhere property)
            (.pure ((arg, some ellipsis), false)) (.pure ((arg, some ellipsis), false))
            (.item .rParen (.left .tree)) state := .pure_item (fun _ => .rfl) (.inl rfl)
        intro state
        refine .eat? rfl (.look fun _ _ => last _) (fun _ => .look fun _ _ => last _) ?_
        intro _ _ _
        exact .look fun _ _ => last _
  have whole (property : PhraseProperty P) (type : TypeExpr P) :
      (Tree.typeOperand type).Everywhere property ↔ type.Everywhere property := Tree.everywhere_iff rfl
  unfold Production.argument
  dsimp only
  split
  · exact .bind_all thins.type fun type => .pure_bind (.of_parts (fun _ => (whole _ type).symm) (rest _))
  · exact .bind_all thins.expr fun arg => rest arg

theorem callTail (func : Expr P) :
    Thins thinning allowance (fun property => func.Everywhere property) (Production.callTail func)
      (.of .tree) := by
  refine .inHeader (.skip (.mark rfl (by decide)) fun lParen => .itemsUntil_bind rfl
    (fun _ => Begins.argument _) (fun _ => thins.argument _) (fun run => run.token_of_mark) fun args =>
      .skip (.mark rfl (by decide)) fun rParen => .node rfl fun property => ?_)
  have whole : (Tree.exprList (.ofList (args.map Prod.fst))).Everywhere property
      ↔ ∀ arg ∈ args, arg.1.Everywhere property :=
    (Tree.everywhere_iff rfl).trans (by simp [Tree.children])
  simp [Tree.children, whole]

theorem selectorOrAssertion (base : Expr P) :
    Thins thinning allowance (fun property => base.Everywhere property)
      (Production.selectorOrAssertion base) (.of .tree) := by
  refine .skip (.mark rfl (by decide)) fun dot state => .look_cases (fun thinned _ same => ?_)
    fun thinned isSeparator _ => ?_
  · rw [same]
    split
    · exact .skip (.of_thins .ident) fun name _ => .node rfl fun _ => by simp [Tree.children]
    · refine .of_thins (.inHeader (.skip (.mark rfl (by decide)) fun lParen => .skip (.mark? rfl (by decide))
        fun keyword => ?_))
      split
      · exact .skip (.mark rfl (by decide)) fun rParen => .node rfl fun _ => by simp [Tree.children]
      · refine .bind thins.type ?_
        intro type
        refine .skip (.mark rfl (by decide)) ?_
        intro rParen
        exact .node rfl fun _ => by simp [Tree.children]
    · exact .refuse
  · rcases Token.eq_or_eq_of_isSeparator isSeparator with isToken | isToken <;> rw [isToken] <;>
      exact .refuse

theorem literalTail (base : Expr P) :
    Thins thinning allowance (fun property => base.Everywhere property) (Production.literalTail base)
      (.of .tree) := by
  unfold Production.literalTail
  split
  · exact .refuse
  · next type found =>
    have whole (property : PhraseProperty P) (body : LiteralBody P) :
        (Tree.compositeLit (.present type) body.lBrace body.elements body.rBrace).Everywhere property
          ↔ type.Everywhere property ∧ body.elements.Everywhere property :=
      (Tree.everywhere_iff rfl).trans (by simp [Tree.children])
    have read (property : PhraseProperty P) := Tree.everywhere_readType? property found
    refine .bind thins.literalBody fun body state =>
      .done (fun attested => (whole _ _).2 ?_) fun spared _ => ?_
    · exact ⟨(read _).2 (fun _ _ _ => thinning.attests _ rfl) attested.1, attested.2⟩
    · exact ((whole _ _).1 spared).imp_left (read _).1

theorem suffix? (base : Expr P) :
    Thins thinning allowance (fun property => base.Everywhere property) (Production.suffix? base)
      (.of (Thins.Step .tree base)) := by
  have keep : Thins thinning allowance (fun property => base.Everywhere property) (.pure none)
      (.of (Thins.Step .tree base)) := .pure fun _ => .rfl
  have more {production : Production P (Expr P)}
      (reads : Thins thinning allowance (fun property => base.Everywhere property) production (.of .tree)) :
      Thins thinning allowance (fun property => base.Everywhere property) (some <$> production)
        (.of (Thins.Step .tree base)) :=
    .bind_all reads fun _ => .pure fun _ => .rfl
  refine fun state => .look_cases (fun thinned _ same => ?_) fun thinned isSeparator isCloser => ?_
  · refine .header fun inside => ?_
    rw [same]
    split
    · exact more (thins.indexOrSlice base) state
    · refine Thins.bind_all (thins.callTail base) (fun call => .pure fun property => ?_) state
      exact Tree.everywhere_iff rfl
    · split
      · exact more (thins.literalTail base) state
      · exact keep state
    · exact more (thins.selectorOrAssertion base) state
    · exact keep state
  · refine .header fun inside => ?_
    rcases Token.eq_or_eq_of_isSeparator isSeparator with isToken | isToken <;>
      rcases Token.eq_or_eq_or_eq_of_isCloser isCloser with isOther | isOther | isOther <;>
        rw [isToken, isOther] <;> exact keep state

theorem primaryExpr : Thins thinning allowance NoParts Production.primaryExpr (.of .tree) := by
  refine .bind_all thins.operand ?_
  intro _
  exact .iterate fun base => thins.suffix? base

/-! ## Literal values -/

theorem elementExpr : Thins thinning allowance NoParts Production.elementExpr (.of .tree) := by
  refine .look_token rfl ?_ thins.expr
  refine .bind thins.literalBody ?_
  intro body
  exact .node rfl fun _ => by simp [Tree.children]

theorem element :
    Thins thinning allowance NoParts Production.element (.item .rBrace .tree) := by
  refine .bind_all thins.elementExpr fun first => .skip (.mark? rfl (by decide)) fun colon => ?_
  split
  · next colon =>
    refine .bind thins.elementExpr fun value => .bind_all (.build fun element isElement property => ?_)
      fun element => .commaOrCloser rfl fun _ => .rfl
    obtain rfl := Except.ok.inj isElement
    have key : (Tree.elementKey first colon).Everywhere property ↔ first.Everywhere property :=
      Tree.everywhere_iff rfl
    exact (Tree.everywhere_iff rfl).trans (by simp [Tree.children, key])
  · refine .bind_all (.build fun element isElement property => ?_)
      fun element => .commaOrCloser rfl fun _ => .rfl
    obtain rfl := Except.ok.inj isElement
    exact (Tree.everywhere_iff rfl).trans (by simp [Tree.children])

theorem literalBodyRule :
    Thins thinning allowance NoParts Production.literalBodyRule
      (.of fun property body => body.elements.Everywhere property) := by
  refine .nested (.inHeader (.skip (.mark rfl (by decide)) fun lBrace => .itemsUntil_bind rfl
    (fun _ => Begins.element) (fun _ => thins.element) (fun run => run.token_of_mark) fun elements =>
      .skip (.mark rfl (by decide)) fun rBrace => .pure fun property => ?_))
  exact (Tree.everywhere_iff rfl).trans (by simp [Tree.children])

/-! ## Operators -/

theorem unaryRule : Thins thinning allowance NoParts Production.unaryRule (.of .tree) := by
  refine .nested fun state => .look_cases (fun thinned _ same => ?_) fun thinned isSeparator isCloser => ?_
  · rw [same]
    refine .choice .rfl (fun isUnary => ?_) fun _ => thins.primaryExpr state
    have notAtEnd : state.cursor.token ≠ .eof := by
      intro atEnd
      cases isUnary.symm.trans (congrArg Token.isUnaryOp atEnd)
    have notSeparator : state.cursor.token.isSeparator = false := by
      revert isUnary
      cases state.cursor.token <;> simp [Token.isUnaryOp, Token.isSeparator]
    refine .skip (.anyMark notAtEnd notSeparator) ?_
    intro op middle
    refine .bind (thins.unary middle) ?_
    intro operand _
    exact .node rfl fun _ => by simp [Tree.children]
  · have notUnary {token : Token} (isPause : token.isPause = true) : token.isUnaryOp = false := by
      revert isPause
      cases token <;> simp [Token.isUnaryOp, Token.isPause]
    rw [notUnary (Token.isPause_of_isSeparator isSeparator), notUnary (Token.isPause_of_isCloser isCloser)]
    exact thins.primaryExpr state

theorem binaryTail? (least : Precedence) (left : Expr P) :
    Thins thinning allowance (fun property => left.Everywhere property) (Production.binaryTail? least left)
      (.of (Thins.Step .tree left)) := by
  refine fun state => .look_cases (fun thinned _ same => ?_) fun thinned isSeparator isCloser => ?_
  · rw [same]
    refine .choice .rfl (fun _ => .pure fun _ => .rfl) ?_
    intro isOperator
    have notAtEnd : state.cursor.token ≠ .eof := by
      rintro atEnd
      exact isOperator (by rw [atEnd]; rfl)
    have notSeparator : state.cursor.token.isSeparator = false := by
      by_contra isSeparator
      rcases Token.eq_or_eq_of_isSeparator (Bool.not_eq_false _ ▸ isSeparator) with isToken | isToken <;>
        exact isOperator (by rw [isToken]; rfl)
    refine .skip (.anyMark notAtEnd notSeparator) ?_
    intro op middle
    refine .bind (thins.exprOf _ middle) ?_
    intro right _
    refine .pure ?_
    intro property
    exact (Tree.everywhere_iff rfl).trans (by simp [Tree.children])
  · have noOperator {token : Token} (isPause : token.isPause = true) : token.precedence = .none := by
      revert isPause
      cases token <;> simp [Token.precedence, Token.isPause]
    rw [noOperator (Token.isPause_of_isSeparator isSeparator),
      noOperator (Token.isPause_of_isCloser isCloser)]
    exact .pure fun _ => .rfl

theorem exprRule (least : Precedence) :
    Thins thinning allowance NoParts (Production.exprRule least) (.of .tree) := by
  refine .bind_all thins.unary ?_
  intro _
  exact .iterate fun left => thins.binaryTail? least left

end ThinsNonterminals
end GoFront
