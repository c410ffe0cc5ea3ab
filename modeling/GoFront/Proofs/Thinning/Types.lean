import GoFront.Proofs.Reading.EntryLookahead
import GoFront.Proofs.Thinning.Lists

/-!
# Types and signatures in thinned texts

A type, a signature and type parameters are read of a thinned text as of the whole one. What an entry of a
parameter list or a field is told by is either kept or tells the same with the closing bracket behind it.
-/

namespace GoFront

open Production (Parses ParamEntry)

variable {P : Type}

/-- All nonterminals read a thinned text as they read the text. A statement does not end in front of a
closing parenthesis. -/
structure ThinsNonterminals (thinning : Thinning P) (allowance : Nat) : Prop where
  type? : Thins thinning allowance NoParts Production.type? (.of (.option .tree))
  exprOf : ∀ least, Thins thinning allowance NoParts (.call (.expr least)) (.of .tree)
  unary : Thins thinning allowance NoParts (.call .unary) (.of .tree)
  literalBody : Thins thinning allowance NoParts (.call .literalBody)
    (.of fun property body => body.elements.Everywhere property)
  block : Thins thinning allowance NoParts Production.block (.of .tree)
  stmt : Thins thinning allowance NoParts (.call .stmt)
    (.upTo .tree fun _ cursor => cursor.token ≠ .rParen)
  ifStmt : Thins thinning allowance NoParts (.call .ifStmt) (.of .tree)

namespace ThinsNonterminals

variable {thinning : Thinning P} {allowance : Nat} (thins : ThinsNonterminals thinning allowance)

include thins

theorem type : Thins thinning allowance NoParts Production.type (.of .tree) := by
  refine .bind thins.type? fun found => ?_
  split
  · exact .pure fun _ => by simp
  · exact fun _ => .look fun _ _ => .refuse

theorem expr : Thins thinning allowance NoParts Production.expr (.of .tree) := thins.exprOf .or

omit thins in
theorem identList : Thins thinning allowance NoParts Production.identList (.of .nothing) :=
  Holding.list_nothing (P := P) ▸ .commaSeparated Begins.ident .ident

theorem typeList : Thins thinning allowance NoParts Production.typeList (.of .tree) := by
  refine .bind (.commaSeparated Begins.type thins.type) ?_
  intro types
  exact .node rfl fun _ => by simp [Tree.children]

/-! ## Named types -/

theorem typeArgs : Thins thinning allowance NoParts Production.typeArgs (.of .tree) := by
  have args (lBrack : Mark P) : Thins thinning allowance NoParts
      (Production.type.bind fun first => (Production.commaTail .rBrack Production.type).bind fun rest =>
        (Production.mark .rBrack).bind fun rBrack =>
          .pure (Tree.typeArgs lBrack (.typeList (.ofList (first :: rest))) rBrack)) (.of .tree) := by
    refine .bind thins.type fun first => .bind (.commaTail rfl Begins.type thins.type) fun rest =>
      .skip (.mark rfl (by decide)) fun rBrack state => .done (fun attested => ?_) fun spared _ => ?_
    · exact .node (thinning.attests _ rfl)
        (Tree.everywhere_typeList.2 (List.forall_mem_cons.2 ⟨attested.1.2, attested.2⟩))
    · have types := List.forall_mem_cons.1 (Tree.everywhere_typeList.1 spared.parts)
      exact ⟨⟨trivial, types.1⟩, types.2⟩
  refine .inHeader (.skip (.mark rfl (by decide)) fun lBrack state => .look_cases (fun thinned _ same => ?_)
    fun thinned isSeparator _ => ?_)
  · rw [same]
    exact .choice .rfl (fun _ => .refuse) fun _ => args lBrack state
  · rw [if_neg (Token.ne_of_isSeparator isSeparator rfl)]
    exact .of_begins Begins.type.bind (Token.isPause_of_isSeparator isSeparator)

theorem typeName : Thins thinning allowance NoParts Production.typeName (.of .tree) := by
  have args (package : Option (Ident P)) (name : Ident P) : Thins thinning allowance NoParts
      (Production.look.bind fun cursor =>
        if cursor.token = .lBrack then Production.typeArgs.bind fun args =>
          .pure (Tree.typeName package name (.present args))
        else .pure (Tree.typeName package name .absent)) (.of .tree) :=
    .look_token rfl (.bind thins.typeArgs fun _ => .node rfl fun _ => by simp [Tree.children])
      (.node rfl fun _ => by simp [Tree.children])
  refine .skip .ident fun first => .skip (.eat? rfl (by decide)) fun dot => ?_
  dsimp only
  split
  · exact .skip .ident fun name => .pure_bind (args (some first) name)
  · exact .pure_bind (args none first)

/-! ## Arrays, maps and channels -/

/-- A type is read of which another tree is made. -/
theorem elem
    {slot : Slot}
    {change : TypeExpr P -> Tree P slot}
    (ordinary : ∀ elem, (change elem).isTelling = false)
    (same : ∀ property elem, ((change elem).children.Forall fun part => part.2.Everywhere property)
      ↔ elem.Everywhere property) :
    Thins thinning allowance NoParts (Production.type.bind fun elem => .pure (change elem))
      (.of .tree) :=
  .map thins.type fun property elem => (Tree.everywhere_iff (ordinary elem)).trans (same property elem)

theorem arrayOrSliceType : Thins thinning allowance NoParts Production.arrayOrSliceType (.of .tree) := by
  refine .skip (.mark rfl (by decide)) fun lBrack state => .mark?_closer rfl (fun rBrack => ?_) ?_
  · split
    · exact thins.elem (fun _ => rfl) fun _ _ => .rfl
    · refine .skip (.mark? rfl (by decide)) fun ellipsis => ?_
      split
      · refine .skip (.mark rfl (by decide)) ?_
        intro rBrack
        refine thins.elem (fun _ => rfl) ?_
        intro _ _
        exact .rfl
      · refine .bind (.inHeader thins.expr) ?_
        intro length
        refine .skip (.mark rfl (by decide)) ?_
        intro rBrack
        refine .bind thins.type ?_
        intro elem
        exact .node rfl fun _ => by simp [Tree.children]
  · exact .mark?_bind rfl (.bind (.inHeader .expr))

theorem mapType : Thins thinning allowance NoParts Production.mapType (.of .tree) := by
  refine .skip (.mark rfl (by decide)) ?_
  intro keyword
  refine .skip (.mark rfl (by decide)) ?_
  intro lBrack
  refine .bind thins.type ?_
  intro key
  refine .skip (.mark rfl (by decide)) ?_
  intro rBrack
  refine .bind thins.type ?_
  intro value
  exact .node rfl fun _ => by simp [Tree.children]

theorem chanType : Thins thinning allowance NoParts Production.chanType (.of .tree) := by
  refine .skip (.mark? rfl (by decide)) fun arrow => ?_
  split
  · refine .skip (.mark rfl (by decide)) ?_
    intro keyword
    refine thins.elem (fun _ => rfl) ?_
    intro _ _
    exact .rfl
  · refine .skip (.mark rfl (by decide)) ?_
    intro keyword
    refine .skip (.mark? rfl (by decide)) ?_
    intro arrow
    refine thins.elem (fun _ => rfl) ?_
    intro _ _
    exact .rfl

theorem pointerType : Thins thinning allowance NoParts Production.pointerType (.of .tree) := by
  refine .skip (.mark rfl (by decide)) ?_
  intro _
  refine thins.elem (fun _ => rfl) ?_
  intro _ _
  exact .rfl

theorem parenType : Thins thinning allowance NoParts Production.parenType (.of .tree) := by
  refine .inHeader ?_
  refine .skip (.mark rfl (by decide)) ?_
  intro lParen
  refine .bind thins.type ?_
  intro inner
  refine .skip (.mark rfl (by decide)) ?_
  intro rParen
  exact .node rfl fun _ => by simp [Tree.children]

/-! ## Parameter lists -/

/-- The type of an entry has a property everywhere. -/
def EntryHolds : Holding P (ParamEntry P)
  | _, .bare _ => True
  | property, .unnamed _ type | property, .named _ _ type => type.Everywhere property

omit thins in
theorem unnamedParam_iff {property : PhraseProperty P} {entry : ParamEntry P} :
    entry.unnamedParam.Everywhere property ↔ EntryHolds property entry := by
  cases entry with
  | bare name =>
      have name : (Tree.typeName none name .absent).Everywhere property :=
        .node (property.ordinary _ rfl) Tree.everywhere_absent
      exact iff_of_true (.node (property.ordinary _ rfl) (.node (property.ordinary _ rfl) name)) trivial
  | unnamed ellipsis type => exact Tree.everywhere_iff rfl
  | named name ellipsis type => exact Tree.everywhere_iff rfl

omit thins in
theorem namedParams_iff
    {property : PhraseProperty P}
    {pending : List (Ident P)}
    {entries : List (ParamEntry P)}
    {params : List (Tree P (.one .param))}
    (found : ParamEntry.namedParams? pending entries = some params) :
    (∀ param ∈ params, param.Everywhere property) ↔ ∀ entry ∈ entries, EntryHolds property entry := by
  induction entries generalizing pending params with
  | nil =>
      cases pending with
      | nil =>
          obtain rfl : [] = params := Option.some.inj found
          simp
      | cons _ _ => cases found
  | cons entry rest inductionHypothesis =>
      cases entry with
      | bare name =>
          rw [ParamEntry.namedParams?] at found
          simp [inductionHypothesis found, EntryHolds]
      | named name ellipsis type =>
          rw [ParamEntry.namedParams?] at found
          obtain ⟨more, isMore, rfl⟩ := Option.map_eq_some_iff.1 found
          rw [List.forall_mem_cons, List.forall_mem_cons, inductionHypothesis isMore]
          exact and_congr_left fun _ => Tree.everywhere_iff rfl
      | unnamed _ _ =>
          rw [ParamEntry.namedParams?] at found
          cases found

omit thins in
/-- The parameters of a list are made of the types of its entries. -/
theorem resolve_iff
    {property : PhraseProperty P}
    {variadic : Bool}
    {entries : List (ParamEntry P)}
    {params : List (Tree P (.one .param))}
    (resolved : ParamEntry.resolve variadic entries = .ok params) :
    (∀ param ∈ params, param.Everywhere property) ↔ ∀ entry ∈ entries, EntryHolds property entry := by
  obtain ⟨-, found | ⟨-, rfl⟩⟩ := ParamEntry.of_resolve_ok resolved
  · exact namedParams_iff found
  · rw [List.forall_mem_map]
    exact forall₂_congr fun _ _ => unnamedParam_iff

omit thins in
theorem bareEntry {ends : ParamEntry P -> Cursor P -> Prop} :
    Thins thinning allowance NoParts Production.bareEntry (.upTo EntryHolds ends) := by
  refine .skip .ident ?_
  intro _
  exact .pure fun _ => .rfl

theorem unnamedEntry {ends : ParamEntry P -> Cursor P -> Prop} :
    Thins thinning allowance NoParts Production.unnamedEntry (.upTo EntryHolds ends) := by
  refine .skip (.mark? rfl (by decide)) ?_
  intro _
  refine .bind thins.type ?_
  intro _
  exact .pure fun _ => by simp [EntryHolds]

theorem namedEntry {ends : ParamEntry P -> Cursor P -> Prop} :
    Thins thinning allowance NoParts Production.namedEntry (.upTo EntryHolds ends) := by
  refine .skip .ident ?_
  intro _
  refine .skip (.mark? rfl (by decide)) ?_
  intro _
  refine .bind thins.type ?_
  intro _
  exact .pure fun _ => by simp [EntryHolds]

omit thins in
/-- A lone name is told to be one by the comma or the parenthesis behind it. -/
theorem atBareParam_of_thinner
    {state thinned : ReadState P}
    (isBare : Production.atBareParam state.cursor = true)
    (thinner : thinning.Thinner state thinned)
    (behind : thinning.Thinner (state.moveTo state.cursor.advance)
      (thinned.moveTo thinned.cursor.advance))
    (lostBefore : thinning.LostBefore .rParen state.cursor.advance) :
    Production.atBareParam thinned.cursor = true := by
  rw [Production.atBareParam, Production.tokenAfter_one_eq] at isBare ⊢
  simp only [Bool.and_eq_true, decide_eq_true_eq] at isBare ⊢
  refine ⟨(thinner.token_eq_iff rfl).2 isBare.1, ?_⟩
  rcases behind.token_or_closer lostBefore with same | closes
  · have same : thinned.cursor.advance.token = state.cursor.advance.token := same
    rw [same]
    exact isBare.2
  · have closes : thinned.cursor.advance.token = .rParen := closes
    rw [closes]
    rfl

theorem paramEntry :
    Thins thinning allowance NoParts Production.paramEntry
      (.upTo EntryHolds fun _ => thinning.LostBefore .rParen) := by
  intro state
  rw [Production.paramEntry_eq]
  by_cases isBare : Production.atBareParam state.cursor = true
  · refine .look_into Production.bareEntry ?_ fun thinner parses ends thinnedParses behind => ?_
    · rw [if_pos isBare]
      exact bareEntry state
    · rw [if_pos isBare] at parses
      obtain rfl := Production.end_of_bareEntry parses
      obtain rfl := Production.end_of_bareEntry thinnedParses
      exact if_pos (atBareParam_of_thinner isBare thinner behind ends)
  by_cases isNamed : Production.atNamedParam state.cursor = true
  · refine .look_into Production.namedEntry ?_ fun thinner _ _ parses _ => ?_
    · rw [if_neg isBare, if_pos isNamed]
      exact thins.namedEntry state
    · obtain ⟨notBare, isNamed⟩ := Production.atParam_of_namedEntry thinner.other_regular parses
      exact (if_neg (Bool.eq_false_iff.1 notBare)).trans (if_pos isNamed)
  · refine .look_into Production.unnamedEntry ?_
      fun {_ _ final last} thinner parses ends thinnedParses behind => ?_
    · rw [if_neg isBare, if_neg isNamed]
      exact thins.unnamedEntry state
    · rw [if_neg isBare, if_neg isNamed] at parses
      have both := Production.not_atParam_of_unnamedEntry thinner.other_regular thinnedParses ?_
      · exact (if_neg both.1).trans (if_neg both.2)
      intro atName
      have atName := (thinner.token_eq_iff rfl).1 atName
      obtain ⟨-, further⟩ := thinner.advance (atName.trans_ne (by decide)) (atName ▸ rfl)
      rcases Production.goesOn_of_not_atParam isNamed atName with dot | ⟨opens, follows⟩
      · exact .inl ((further.token_eq_iff rfl).2 dot)
      · refine .inr ⟨(further.token_eq_iff rfl).2 opens, ?_⟩
        rw [Production.brackFollowedBy_of_unnamedEntry thinner.regular atName opens parses] at follows
        rcases behind.token_or_closer ends with same | closes
        · have same : last.token = final.token := same
          rw [same]
          simpa using follows
        · exact .inr closes

/-- The parameters of a list are made of its entries. That of the list itself is attested. -/
theorem params (variadic : Bool) :
    Thins thinning allowance NoParts (Production.params variadic) (.of .tree) := by
  have body : Thins thinning allowance NoParts (Production.params variadic)
      (.of fun property tree => tree.children.Forall fun part => part.2.Everywhere property) := by
    refine .inHeader (.skip (.mark rfl (by decide)) fun lParen => .itemsUntil_bind rfl
      (fun _ => Begins.paramEntry.withComma) (fun _ => .withComma rfl thins.paramEntry) (fun run => ?_)
      fun entries => ?_)
    · split at run
      · cases run.run
      · exact run.token_of_mark
    · split
      · exact .refuse
      · next resolved =>
        exact .skip (.mark rfl (by decide)) fun rParen => .pure fun property => by
          simp [Tree.children, resolve_iff resolved]
  intro state
  constructor
  intro tree final taken isSuffix cleanRun _
  obtain ⟨attested, reads⟩ := (body state).of_run isSuffix cleanRun trivial
  refine ⟨.node (thinning.attests_params isSuffix cleanRun.parses) attested, fun spared isEnd => ?_⟩
  exact reads spared.parts isEnd

theorem signature : Thins thinning allowance NoParts Production.signature (.of .tree) := by
  refine .bind (thins.params true) fun inputs => .look_token rfl ?_ ?_
  · refine .bind (thins.params false) fun outputs => .node rfl fun property => ?_
    have results : (Tree.resultParams outputs).Everywhere property ↔ outputs.Everywhere property :=
      Tree.everywhere_iff rfl
    simp [Tree.children, results]
  · refine .bind thins.type? fun output => .node rfl fun property => ?_
    have result (type : TypeExpr P) : (Tree.resultType type).Everywhere property ↔ type.Everywhere property :=
      Tree.everywhere_iff rfl
    cases output <;> simp [Tree.children, result]

theorem funcType : Thins thinning allowance NoParts Production.funcType (.of .tree) := by
  refine .skip (.mark rfl (by decide)) ?_
  intro _
  refine .bind thins.signature ?_
  intro _
  exact .node rfl fun _ => by simp [Tree.children]

/-! ## Type parameters -/

theorem typeTerm : Thins thinning allowance NoParts Production.typeTerm (.of .tree) := by
  refine .skip (.mark? rfl (by decide)) fun tilde => .bind thins.type fun type => ?_
  split <;> exact .node rfl fun _ => by simp [Tree.children]

theorem typeElem : Thins thinning allowance NoParts Production.typeElem (.of .tree) := by
  have more (bar : Option (Lexeme P)) : Thins thinning allowance NoParts
      (if bar.isSome then Production.typeTerm.bind fun next => .pure (some next) else .pure none)
      (.of (.option .tree)) := by
    split
    · exact .some_item thins.typeTerm
    · exact .pure fun _ => by simp
  refine .bind thins.typeTerm ?_
  intro first
  refine .bind (.many (.skip (.eat? rfl (by decide)) more)) ?_
  intro rest
  exact .node rfl fun _ => by simp [Tree.children]

theorem typeParam : Thins thinning allowance NoParts Production.typeParam (.of .tree) := by
  refine .skip identList ?_
  intro _
  refine .bind thins.typeElem ?_
  intro _
  exact .node rfl fun _ => by simp [Tree.children]

theorem typeParams : Thins thinning allowance NoParts Production.typeParams (.of .tree) := by
  refine .inHeader (.skip (.mark rfl (by decide)) fun lBrack => .itemsUntil_bind rfl
    (fun _ => Begins.typeParam.withComma) (fun _ => .withComma rfl thins.typeParam.anywhere) (fun run => ?_)
    fun entries => ?_)
  · split at run
    · cases run.run
    · exact run.token_of_mark
  · split
    · exact .refuse
    · exact .skip (.mark rfl (by decide)) fun rBrack => .node rfl fun _ => by simp [Tree.children]

/-! ## Structures and interfaces -/

omit thins in
theorem stringLit : Thins thinning allowance NoParts Production.stringLit (.of .nothing) := by
  refine fun state => .look_cases (fun thinned thinner same => ?_) fun thinned isSeparator _ => ?_
  · rw [same]
    split
    · next atToken =>
      exact .skip (.advance (atToken.trans_ne (by decide)) (atToken ▸ rfl)) fun _ _ => .pure fun _ => .rfl
    · next atToken =>
      exact .skip (.advance (atToken.trans_ne (by decide)) (atToken ▸ rfl)) fun _ _ => .pure fun _ => .rfl
    · exact .refuse
  · rcases Token.eq_or_eq_of_isSeparator isSeparator with isToken | isToken <;> rw [isToken] <;>
      exact .refuse

omit thins in
theorem tag? : Thins thinning allowance NoParts Production.tag? (.of .nothing) := by
  refine fun state => .look fun thinned thinner => .choice ?_
    (fun _ => .skip (stringLit state) fun _ _ => .pure fun _ => .rfl) fun _ => .pure fun _ => .rfl
  rw [thinner.atAny_eq (by decide)]

theorem embeddedField {ends : Tree P (.one .field) -> Cursor P -> Prop} :
    Thins thinning allowance NoParts Production.embeddedField (.upTo .tree ends) := by
  refine .skip (.mark? rfl (by decide)) ?_
  intro _
  refine .bind thins.typeName ?_
  intro _
  refine .skip tag? ?_
  intro _
  exact .node rfl fun _ => by simp [Tree.children]

theorem namedField {ends : Tree P (.one .field) -> Cursor P -> Prop} :
    Thins thinning allowance NoParts Production.namedField (.upTo .tree ends) := by
  refine .skip identList ?_
  intro _
  refine .bind thins.type ?_
  intro _
  refine .skip tag? ?_
  intro _
  exact .node rfl fun _ => by simp [Tree.children]

/-- An embedded type is told to be one by the end of its line or the brace behind it. -/
theorem fieldDecl :
    Thins thinning allowance NoParts Production.fieldDecl
      (.upTo .tree fun _ => thinning.LostBefore .rBrace) := by
  intro state
  rw [Production.fieldDecl_eq]
  by_cases isEmbedded : Production.atEmbeddedField state.cursor = true
  · refine .look_into Production.embeddedField ?_
      fun {thinned _ final last} thinner parses ends thinnedParses behind => if_pos ?_
    · rw [if_pos isEmbedded]
      exact thins.embeddedField state
    rw [if_pos isEmbedded] at parses
    by_cases atName : state.cursor.token = .ident
    · have thinnedName := (thinner.token_eq_iff rfl).2 atName
      obtain ⟨_, _, tag, middle, rfl, tagParses, told⟩ :=
        Production.exists_of_embeddedField thinner.regular atName parses
      obtain ⟨_, _, _, middle', same, tagParses', told'⟩ :=
        Production.exists_of_embeddedField thinner.other_regular thinnedName thinnedParses
      obtain ⟨rfl, rfl, rfl⟩ := Tree.embeddedField.inj same
      rw [told']
      rcases Production.cases_of_tag? tagParses' with ⟨rfl, lastEq⟩ | ⟨-, isEnd⟩
      · rcases Production.cases_of_tag? tagParses with ⟨-, rfl⟩ | ⟨isSome, -⟩
        · obtain ⟨-, further⟩ := thinner.advance (atName.trans_ne (by decide)) (atName ▸ rfl)
          rcases Bool.or_eq_true_iff.1 (told.symm.trans isEmbedded) with dot | isEnd
          · have thinnedDot : thinned.cursor.advance.token = .dot :=
              (further.token_eq_iff rfl).2 (of_decide_eq_true dot)
            simp [thinnedDot]
          · refine Bool.or_eq_true_iff.2 (.inr ?_)
            rcases behind.token_or_closer ends with sameToken | closes
            · have sameToken : last.token = final.token := sameToken
              rwa [← ReadState.cursor_moveTo thinned middle', ← lastEq, sameToken]
            · have closes : last.token = .rBrace := closes
              rw [← ReadState.cursor_moveTo thinned middle', ← lastEq, closes]
              rfl
        · cases isSome
      · exact Bool.or_eq_true_iff.2 (.inr isEnd)
    · have atStar := Production.star_of_atEmbeddedField isEmbedded atName
      exact Production.atEmbeddedField_of_star ((thinner.token_eq_iff rfl).2 atStar)
  · refine .look_into Production.namedField ?_ fun thinner _ _ parses _ => ?_
    · rw [if_neg isEmbedded]
      exact thins.namedField state
    · have notEmbedded := Production.not_atEmbeddedField_of_namedField thinner.other_regular parses
      exact if_neg (Bool.eq_false_iff.1 notEmbedded)

theorem structType : Thins thinning allowance NoParts Production.structType (.of .tree) := by
  refine .skip (.mark rfl (by decide)) ?_
  intro keyword
  refine .skip (.mark rfl (by decide)) ?_
  intro lBrace
  refine .itemsUntil_bind rfl (fun _ => Begins.fieldDecl.withSemicolon) (fun _ => .withSemicolon
      thins.fieldDecl) (fun run => run.token_of_mark) ?_
  intro fields
  refine .skip (.mark rfl (by decide)) ?_
  intro rBrace
  exact .node rfl fun _ => by simp [Tree.children]

/-- A method is told by the parenthesis behind its name. -/
theorem interfaceElem : Thins thinning allowance NoParts Production.interfaceElem (.of .tree) := by
  have constraint : Thins thinning allowance NoParts
      (Production.typeElem.bind fun elem => .pure (Tree.constraint elem)) (.of .tree) :=
    .bind thins.typeElem fun _ => .node rfl fun _ => by simp [Tree.children]
  have method : Thins thinning allowance NoParts (Production.ident.bind fun name =>
      Production.signature.bind fun shape => .pure (Tree.method name shape)) (.of .tree) :=
    .skip .ident fun _ => .bind thins.signature fun _ => .node rfl fun _ => by simp [Tree.children]
  refine fun state => .look fun thinned thinner => .choice ?_ (fun _ => method state) fun _ =>
    constraint state
  simp only [Production.tokenAfter_one_eq, Bool.and_eq_true, decide_eq_true_eq]
  rw [thinner.token_eq_iff rfl]
  refine and_congr_right fun atName => ?_
  exact (thinner.advance (atName.trans_ne (by decide)) (atName ▸ rfl)).2.token_eq_iff rfl

theorem interfaceType : Thins thinning allowance NoParts Production.interfaceType (.of .tree) := by
  have items : Thins thinning allowance NoParts (Production.withSemicolon Production.interfaceElem)
      (.item .rBrace .tree) := .withSemicolon thins.interfaceElem.anywhere
  refine .skip (.mark rfl (by decide)) ?_
  intro keyword
  refine .skip (.mark rfl (by decide)) ?_
  intro lBrace
  refine .itemsUntil_bind rfl (fun _ => Begins.interfaceElem.withSemicolon) (fun _ => items) (fun run =>
      run.token_of_mark) ?_
  intro elems
  refine .skip (.mark rfl (by decide)) ?_
  intro rBrace
  exact .node rfl fun _ => by simp [Tree.children]

/-! ## Types -/

theorem typeFrom
    {token : Token}
    {production : Production P (TypeExpr P)}
    (found : Production.typeFrom token = some production) :
    Thins thinning allowance NoParts production (.of .tree) := by
  revert found
  unfold Production.typeFrom
  split <;> rintro ⟨⟩
  · exact .bind thins.typeName fun _ => .node rfl fun _ => by simp [Tree.children]
  · exact thins.pointerType
  · exact thins.parenType
  · exact .bind thins.funcType fun _ => .node rfl fun _ => by simp [Tree.children]
  · exact thins.arrayOrSliceType
  · exact thins.mapType
  · exact thins.chanType
  · exact thins.chanType
  · exact thins.structType
  · exact thins.interfaceType

theorem typeRule : Thins thinning allowance NoParts Production.typeRule (.of (.option .tree)) := by
  refine .nested fun state => .look_cases (fun thinned _ same => ?_) fun thinned isSeparator isCloser => ?_
  · rw [same]
    split
    · next found => exact (thins.typeFrom found).some_item state
    · exact .pure fun _ => by simp
  · rcases Token.eq_or_eq_of_isSeparator isSeparator with isToken | isToken <;>
      rcases Token.eq_or_eq_or_eq_of_isCloser isCloser with isOther | isOther | isOther <;>
        rw [isToken, isOther] <;> exact .pure fun _ => by simp

end ThinsNonterminals
end GoFront
