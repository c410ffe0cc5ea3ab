import GoFront.Proofs.Thinning.Expressions

/-!
# Declarations in thinned texts

A declaration is read of a thinned text as of the whole one. The semicolon behind the last spec of a group
may have been left out.
-/

namespace GoFront

open Production (Parses)

variable {P : Type} {thinning : Thinning P} {allowance : Nat}

/-- Type parameters are told by the token behind the first name, where no comma was left out. -/
theorem Thinning.Thinner.atTypeParams_eq
    {state thinned : ReadState P}
    (thinner : thinning.Thinner state thinned) :
    Production.atTypeParams thinned.cursor = Production.atTypeParams state.cursor
      ∨ Production.atTypeParams state.cursor = true ∧ state.cursor.advance.token = .ident
        ∧ state.cursor.advance.advance.token = .comma
        ∧ state.cursor.advance.advance.advance.token.isCloser = true := by
  simp only [Production.atTypeParams, Production.tokenAfter_one_eq, Production.tokenAfter_two_eq]
  by_cases opens : state.cursor.token = .lBrack
  case neg => simp [opens, mt (thinner.token_eq_iff rfl).1 opens]
  have behind := (thinner.advance (opens.trans_ne (by decide)) (opens ▸ rfl)).2
  have thinnedOpens := (thinner.token_eq_iff rfl).2 opens
  by_cases atName : state.cursor.advance.token = .ident
  case neg =>
    have notName : thinned.cursor.advance.token ≠ .ident := mt (behind.token_eq_iff rfl).1 atName
    simp [atName, notName]
  have further := (behind.advance (atName.trans_ne (by decide)) (atName ▸ rfl)).2
  have thinnedName : thinned.cursor.advance.token = .ident := (behind.token_eq_iff rfl).2 atName
  simp only [opens, thinnedOpens, atName, thinnedName, decide_true, Bool.and_true, Bool.true_and, true_and]
  by_cases same : thinned.cursor.advance.advance.token = state.cursor.advance.advance.token
  · exact .inl (congrArg _ same)
  obtain ⟨lexeme, _, ahead, lost⟩ := further.exists_lost same
  have isToken : state.cursor.advance.advance.token = lexeme.token := Cursor.token_of_ahead ahead
  rcases Token.eq_or_eq_of_isSeparator (Token.isSeparator_of_isOptionalBefore lost.isOptional) with
    isComma | isSemi
  · exact .inr ⟨by rw [isToken, isComma]; rfl, isToken.trans isComma, lost.isCloser⟩
  · refine .inl ?_
    have closes : thinned.cursor.advance.advance.token.isCloser = true :=
      (further.tokens.resolve_left same : _) |> Token.isCloser_of_isOptionalBefore
    rw [isToken, isSemi]
    rcases Token.eq_or_eq_or_eq_of_isCloser closes with isCloser | isCloser | isCloser <;>
      rw [isCloser] <;> rfl

namespace ThinsNonterminals

variable (thins : ThinsNonterminals thinning allowance)

include thins

/-! ## Specs -/

omit thins in
theorem importName? : Thins thinning allowance NoParts Production.importName? (.of .nothing) := by
  refine fun state => .look_cases (fun thinned _ same => ?_) fun thinned isSeparator isCloser => ?_
  · rw [same]
    split
    · exact .skip (.of_thins .ident) fun _ _ => .pure fun _ => .rfl
    · exact .skip (.of_thins (.mark rfl (by decide))) fun _ _ => .pure fun _ => .rfl
    · exact .pure fun _ => .rfl
  · rcases Token.eq_or_eq_of_isSeparator isSeparator with isToken | isToken <;>
      rcases Token.eq_or_eq_or_eq_of_isCloser isCloser with isOther | isOther | isOther <;>
        rw [isToken, isOther] <;> exact .pure fun _ => .rfl

omit thins in
theorem importSpec : Thins thinning allowance NoParts Production.importSpec (.of .tree) := by
  refine .skip importName? ?_
  intro _
  refine .skip stringLit ?_
  intro _
  exact .node rfl fun _ => by simp [Tree.children]

theorem constSpec (first : Bool) :
    Thins thinning allowance NoParts (Production.constSpec first) (.of .tree) := by
  refine .skip identList ?_
  intro names
  refine .bind thins.type? ?_
  intro type state
  refine .look ?_
  intro thinned thinner
  refine .choice ?_ (fun _ => ?_) fun _ => .node rfl fun _ => by simp [Tree.children]
  · rw [Bool.or_eq_true, Bool.or_eq_true, decide_eq_true_eq, decide_eq_true_eq, thinner.token_eq_iff rfl]
  · refine .skip (.of_thins (.expect rfl (by decide))) ?_
    intro _ middle
    refine .bind (thins.exprList middle) ?_
    intro values _
    exact .node rfl fun _ => by simp [Tree.children]

theorem varSpec : Thins thinning allowance NoParts Production.varSpec (.of .tree) := by
  have built (names : List (Ident P)) (type : Option (TypeExpr P)) (values : Tree P (.maybe .exprList)) :
      Thins thinning allowance
        (fun property => (∀ found ∈ type, found.Everywhere property) ∧ values.Everywhere property)
        ((Production.build (Tree.varSpec? names (.ofOption type) values)).bind fun spec =>
          .pure (Tree.varSpecOf spec)) (.of .tree) := by
    refine .bind_all (.build fun spec isSpec property => ?_) fun spec => .node rfl fun _ => .rfl
    obtain rfl : Tree.varSpec names (.ofOption type) values = spec := by
      cases type <;> cases values <;> cases isSpec <;> rfl
    exact (Tree.everywhere_iff rfl).trans (by simp [Tree.children])
  refine .skip identList ?_
  intro names
  refine .bind thins.type? ?_
  intro type
  refine .skip (.eat? rfl (by decide)) ?_
  intro assign
  dsimp only
  split
  · exact .bind thins.exprList fun values => .pure_bind
      (.of_parts (fun _ => by simp) (built names type (.present values)))
  · exact .pure_bind (.of_parts (fun _ => by simp) (built names type .absent))

theorem typeSpec : Thins thinning allowance NoParts Production.typeSpec (.of .tree) := by
  have defined (name : Ident P) (generics : Tree P (.maybe .typeParams)) :
      Thins thinning allowance (fun property => generics.Everywhere property)
        (Production.type.bind fun type => .pure (.typeSpecOf (.typeDef name generics type))) (.of .tree) := by
    refine .bind thins.type fun type => .node rfl fun property => ?_
    exact (Tree.everywhere_iff rfl).trans (by simp [Tree.children])
  refine .skip .ident fun name => .skip (.mark? rfl (by decide)) fun assign => ?_
  split
  · refine .bind thins.type fun type => .node rfl fun property => ?_
    exact (Tree.everywhere_iff rfl).trans (by simp [Tree.children])
  · refine fun state => .look fun thinned thinner => ?_
    rcases thinner.atTypeParams_eq with same | ⟨isGeneric, atName, atComma, closes⟩
    · rw [same]
      refine .choice .rfl (fun _ => .bind (thins.typeParams state) fun generics _ => .pure_bind ?_)
        fun _ => .pure_bind ?_
      · exact .of_parts (fun _ => by simp) (defined name (.present generics) _)
      · exact .of_parts (fun _ => by simp) (defined name .absent _)
    · rw [if_pos isGeneric]
      refine .of_not_parses fun _ value final parses => ?_
      obtain ⟨_, _, parses, -⟩ := Production.parses_bind.1 parses
      rw [Production.ident_of_typeParams parses atName atComma] at closes
      cases closes

theorem singleSpec (kind : SpecKind) (first : Bool) :
    Thins thinning allowance NoParts (Production.singleSpec kind first) (.of .tree) := by
  cases kind with
  | imports => exact importSpec
  | consts => exact thins.constSpec first
  | vars => exact thins.varSpec
  | types => exact thins.typeSpec

theorem spec (kind : SpecKind) : Thins thinning allowance NoParts (Production.spec kind) (.of .tree) := by
  have items (first : Bool) : Thins thinning allowance NoParts
      (Production.withSemicolon (Production.singleSpec kind first)) (.item .rParen .tree) :=
    .withSemicolon (thins.singleSpec kind first).anywhere
  refine .skip (.mark? rfl (by decide)) fun lParen => ?_
  split
  · exact thins.singleSpec kind true
  · refine .itemsUntil_bind rfl (fun first => (Begins.singleSpec kind first).withSemicolon) items
      (fun run => run.token_of_mark) fun specs => .skip (.mark rfl (by decide)) fun rParen =>
        .bind_all (.build fun group isGroup property => ?_) fun group => .node rfl fun _ => .rfl
    unfold Tree.groupSpec? at isGroup
    split at isGroup
    · cases isGroup
    · obtain rfl := Except.ok.inj isGroup
      exact (Tree.everywhere_iff rfl).trans (by simp [Tree.children])

/-! ## Declarations -/

theorem specDecl (kind : SpecKind) :
    Thins thinning allowance NoParts (Production.specDecl kind) (.of .tree) := by
  refine .skip ?_ fun keyword => .bind_all (thins.spec kind) fun spec =>
    .bind_all (.build fun decl isDecl property => ?_) fun decl => .skip .semicolon fun _ =>
      .pure fun _ => .rfl
  · cases kind <;> exact .mark rfl (by decide)
  · unfold Tree.specDecl? at isDecl
    split at isDecl
    · obtain rfl := Except.ok.inj isDecl
      exact Tree.everywhere_iff rfl
    · cases isDecl

theorem body? : Thins thinning allowance NoParts Production.body? (.of .tree) := by
  refine .look_token rfl ?_ (.node rfl fun _ => by simp [Tree.children])
  refine .bind thins.block ?_
  intro body
  exact .node rfl fun _ => by simp [Tree.children]

theorem funcTail (keyword : Mark P) :
    Thins thinning allowance NoParts (Production.funcTail keyword) (.of .tree) := by
  have rest (name : Ident P) (generics : Tree P (.maybe .typeParams)) :
      Thins thinning allowance (fun property => generics.Everywhere property)
        (Production.signature.bind fun shape => Production.body?.bind fun body =>
          .pure (Tree.funcDecl keyword name generics shape body)) (.of .tree) :=
    .bind thins.signature fun shape => .bind thins.body? fun body => .node rfl fun _ => by
      simp [Tree.children, and_assoc]
  refine .skip .ident fun name => .look_token rfl (.bind thins.typeParams fun generics => .pure_bind ?_)
    (.pure_bind ?_)
  · exact .of_parts (fun _ => by simp) (rest name (.present generics))
  · exact .of_parts (fun _ => by simp) (rest name .absent)

theorem methodTail (keyword : Mark P) :
    Thins thinning allowance NoParts (Production.methodTail keyword) (.of .tree) := by
  refine .bind (thins.params false) ?_
  intro receiver
  refine .skip .ident ?_
  intro name
  refine .bind thins.signature ?_
  intro shape
  refine .bind thins.body? ?_
  intro body
  exact .node rfl fun _ => by simp [Tree.children, and_assoc]

theorem funcOrMethod : Thins thinning allowance NoParts Production.funcOrMethod (.of .tree) := by
  have rest (decl : Decl P) : Thins thinning allowance (fun property => decl.Everywhere property)
      (Production.semicolon.bind fun _ => .pure decl) (.of .tree) :=
    .skip .semicolon fun _ => .pure fun _ => .rfl
  exact .skip (.mark rfl (by decide)) fun keyword => .look_token rfl
    (.bind_all (thins.methodTail keyword) rest) (.bind_all (thins.funcTail keyword) rest)

theorem specifiedDecl (kind : SpecKind) :
    Thins thinning allowance NoParts (Production.specifiedDecl kind) (.of .tree) := by
  refine .bind (thins.specDecl kind) ?_
  intro decl
  exact .node rfl fun _ => by simp [Tree.children]

theorem decl : Thins thinning allowance NoParts Production.decl (.of .tree) := by
  refine fun state => .look_cases (fun thinned _ same => ?_) fun thinned isSeparator _ => ?_
  · rw [same]
    split
    · exact thins.specifiedDecl .vars state
    · exact thins.specifiedDecl .consts state
    · exact thins.specifiedDecl .types state
    · exact thins.funcOrMethod state
    · exact .refuse
  · rcases Token.eq_or_eq_of_isSeparator isSeparator with isToken | isToken <;> rw [isToken] <;>
      exact .refuse

end ThinsNonterminals
end GoFront
