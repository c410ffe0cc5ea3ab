import GoFront.Proofs.Forms.Expressions
import GoFront.Proofs.Reading.Declarations

/-!
# Forms of declarations

A declaration has specs of the kind that its keyword names, whether they stand alone or in a group.
-/

namespace GoFront

variable {P : Type}

open GoFront.Tree (Plain)

/-! ## Specs -/

/-- A spec of a kind that is no group. -/
structure Tree.IsSingle (inside : Bool) (kind : SpecKind) (spec : Spec P) : Prop where
  plain : spec.Plain inside
  specKind : spec.specKind = kind
  isGroup : spec.isGroup = false

/-- A spec or a group of a kind, with the values that it needs. -/
structure Tree.Specifies (inside : Bool) (kind : SpecKind) (spec : Spec P) : Prop where
  plain : spec.Plain inside
  specKind : spec.specKind = kind
  hasValues : spec.hasValues = true

namespace Tree

variable {inside : Bool}

theorem plain_of_varSpec?
    {names : List (Ident P)}
    {type : Tree P (.maybe .type)}
    {values : Tree P (.maybe .exprList)}
    {spec : Tree P (.one .varSpec)}
    (some : names ≠ [])
    (isType : type.Plain inside)
    (isValues : values.Plain inside)
    (built : varSpec? names type values = .ok spec) :
    spec.Plain inside := by
  -- a spec without a type has values
  have either : spec = varSpec names type values
      ∧ (type.toOption.isSome = true ∨ values.toOption.isSome = true) := by
    cases type with
    | present type => exact ⟨(Except.ok.inj built).symm, .inl rfl⟩
    | absent =>
        cases values with
        | present values => exact ⟨(Except.ok.inj built).symm, .inr rfl⟩
        | absent => cases built
  obtain ⟨rfl, given⟩ := either
  exact .of ⟨some, given⟩ rfl ⟨isType, isValues⟩

theorem plain_of_groupSpec?
    {kind : SpecKind}
    {lParen rParen : Mark P}
    {specs : List (Spec P)}
    {group : Tree P (.one .groupSpec)}
    (all : ∀ spec ∈ specs, spec.IsSingle inside kind)
    (leads : ∀ spec ∈ specs.head?, spec.hasValues = true)
    (built : groupSpec? kind lParen specs rParen = .ok group) :
    (groupSpecOf group).Specifies inside kind := by
  obtain rfl := ReadsNonterminals.eq_of_groupSpec? built
  have groupPlain : (groupSpec kind lParen (ofList specs) rParen).Plain inside := by
    apply Plain.of
    · change (∀ spec ∈ (Tree.ofList specs).toList, spec.specKind = kind ∧ spec.isGroup = false)
        ∧ ∀ first ∈ (Tree.ofList specs).toList.head?, first.hasValues = true
      rw [toList_ofList]
      exact ⟨fun spec member => ⟨(all spec member).specKind, (all spec member).isGroup⟩, leads⟩
    · rfl
    · exact Plain.ofList fun spec member => (all spec member).plain
  exact ⟨.of trivial rfl groupPlain, rfl, rfl⟩

theorem plain_of_specDecl?
    {kind : SpecKind}
    {keyword : Mark P}
    {spec : Spec P}
    {decl : SpecDecl P kind}
    (isKeyword : keyword.token = kind.keyword)
    (specifies : spec.Specifies inside kind)
    (built : specDecl? kind keyword spec = .ok decl) :
    decl.Plain inside := by
  obtain rfl := ReadsNonterminals.eq_of_specDecl? built
  exact .of ⟨isKeyword, specifies.specKind, specifies.hasValues⟩ rfl specifies.plain

end Tree

namespace YieldsPlain

open Yields

variable {inside : Bool} {machine : Machine P} (plain : YieldsPlain machine)

omit plain in
theorem importSpec :
    Yields inside machine (Production.importSpec (P := P)) (Tree.IsSingle inside .imports) := by
  refine skip ?_
  intro name
  exact skip fun path => done ⟨.of trivial rfl trivial, rfl, rfl⟩

include plain

/-- Only constants that come first need values. -/
theorem constSpec (first : Bool) :
    Yields inside machine (Production.constSpec (P := P) first) fun spec =>
      spec.IsSingle inside .consts ∧ (first = true -> spec.hasValues = true) := by
  refine bind identList ?_
  intro names some
  refine bind plain.type? ?_
  intro type isType
  refine skip ?_
  intro cursor
  apply choice
  · intro _
    refine skip fun assign => bind plain.exprList fun values isValues => done ⟨⟨?_, rfl, rfl⟩, ?_⟩
    · exact .of some rfl ⟨.ofOption isType, .present isValues⟩
    · exact fun _ => rfl
  · intro later
    refine done ⟨⟨?_, rfl, rfl⟩, ?_⟩
    · exact .of some rfl ⟨.ofOption isType, .absent⟩
    · rintro rfl
      exact absurd rfl later

theorem varSpec : Yields inside machine (Production.varSpec (P := P)) (Tree.IsSingle inside .vars) := by
  have behind {names : List (Ident P)} {type : Option (TypeExpr P)}
      (some : names ≠ [])
      (isType : ∀ found ∈ type, found.Plain inside)
      {values : Tree P (.maybe .exprList)}
      (isValues : values.Plain inside) :
      Yields inside machine ((Production.build (Tree.varSpec? names (.ofOption type) values)).bind
        fun spec => .pure (Tree.varSpecOf spec)) (Tree.IsSingle inside .vars) := by
    refine bind (build fun spec => Tree.plain_of_varSpec? some (.ofOption isType) isValues) ?_
    intro spec isSpec
    exact done ⟨.of trivial rfl isSpec, rfl, rfl⟩
  refine bind identList ?_
  intro names some
  refine bind plain.type? ?_
  intro type isType
  refine skip ?_
  intro assign
  refine choice (fun _ => ?_) fun _ => ?_
  · exact bind plain.exprList fun values isValues =>
      pure_bind (behind some isType (.present isValues))
  · exact pure_bind (behind some isType .absent)

theorem typeSpec :
    Yields inside machine (Production.typeSpec (P := P)) (Tree.IsSingle inside .types) := by
  have behind (name : Ident P) {generics : Tree P (.maybe .typeParams)}
      (isGenerics : generics.Plain inside) :
      Yields inside machine (Production.type.bind fun type =>
        .pure (Tree.typeSpecOf (.typeDef name generics type))) (Tree.IsSingle inside .types) := by
    refine bind plain.type fun type isType => done ⟨?_, rfl, rfl⟩
    exact .of trivial rfl (.of trivial rfl ⟨isGenerics, isType⟩)
  refine skip fun name => skip fun assign => ?_
  cases assign with
  | some assign =>
      refine bind plain.type fun type isType => done ⟨?_, rfl, rfl⟩
      exact .of trivial rfl (.of trivial rfl isType)
  | none =>
      refine skip fun cursor => choice (fun _ => ?_) fun _ => ?_
      · exact bind plain.typeParams fun generics isGenerics =>
          pure_bind (behind name (.present isGenerics))
      · exact pure_bind (behind name .absent)

theorem singleSpec
    (kind : SpecKind)
    (first : Bool) :
    Yields inside machine (Production.singleSpec (P := P) kind first) fun spec =>
      spec.IsSingle inside kind ∧ (first = true -> spec.hasValues = true) := by
  -- specs other than constants need no values
  have needless {kind : SpecKind} {spec : Spec P} (notConsts : kind ≠ .consts)
      (single : spec.IsSingle inside kind) :
      spec.IsSingle inside kind ∧ (first = true -> spec.hasValues = true) := by
    refine ⟨single, fun _ => ?_⟩
    cases spec with
    | constSpec _ _ _ => exact absurd single.specKind.symm notConsts
    | _ => rfl
  cases kind with
  | imports => exact importSpec.weaken fun spec => needless (by decide)
  | consts => exact plain.constSpec first
  | vars => exact plain.varSpec.weaken fun spec => needless (by decide)
  | types => exact plain.typeSpec.weaken fun spec => needless (by decide)

theorem spec (kind : SpecKind) :
    Yields inside machine (Production.spec (P := P) kind) (Tree.Specifies inside kind) := by
  refine skip fun lParen => ?_
  cases lParen with
  | none =>
      apply (plain.singleSpec kind true).weaken
      exact fun spec ⟨single, hasValues⟩ => ⟨single.plain, single.specKind, hasValues rfl⟩
  | some lParen =>
      have members : Yields inside machine
          (Production.itemsUntil .rParen fun first =>
            Production.withSemicolon (Production.singleSpec (P := P) kind first))
          fun specs => (∀ spec ∈ specs, spec.IsSingle inside kind)
            ∧ ∀ spec ∈ specs.head?, spec.hasValues = true :=
        itemsUntil fun first => withSemicolon (plain.singleSpec kind first)
      refine bind members fun specs ⟨all, leads⟩ => skip fun rParen => ?_
      refine bind (build fun group => Tree.plain_of_groupSpec? all leads) fun group isGroup => ?_
      exact done isGroup

/-! ## Declarations -/

theorem specDecl (kind : SpecKind) :
    Yields inside machine (Production.specDecl (P := P) kind) (Plain inside) := by
  refine bind (mark kind.keyword) fun keyword isKeyword => bind (plain.spec kind) ?_
  intro spec specifies
  refine bind (build fun decl => Tree.plain_of_specDecl? isKeyword specifies) fun decl isDecl => ?_
  exact skip fun _ => done isDecl

theorem body? : Yields inside machine (Production.body? (P := P)) (Plain inside) := by
  refine skip fun cursor => choice (fun _ => ?_) fun _ => ?_
  · exact bind plain.block fun body isBody => done (.present isBody)
  · exact done .absent

theorem funcTail (keyword : Mark P) :
    Yields inside machine (Production.funcTail keyword) fun decl =>
      decl.Plain inside ∧ decl.isImportDecl = false := by
  have behind (name : Ident P) {generics : Tree P (.maybe .typeParams)}
      (isGenerics : generics.Plain inside) :
      Yields inside machine (Production.signature.bind fun shape => Production.body?.bind fun body =>
        .pure (Tree.funcDecl keyword name generics shape body)) fun decl =>
          decl.Plain inside ∧ decl.isImportDecl = false := by
    refine bind plain.signature fun shape isShape => bind plain.body? fun body isBody => done ?_
    exact ⟨.of trivial rfl ⟨isGenerics, isShape, isBody⟩, rfl⟩
  refine skip fun name => skip fun cursor => choice (fun _ => ?_) fun _ => ?_
  · exact bind plain.typeParams fun generics isGenerics =>
      pure_bind (behind name (.present isGenerics))
  · exact pure_bind (behind name .absent)

theorem methodTail (keyword : Mark P) :
    Yields inside machine (Production.methodTail keyword) fun decl =>
      decl.Plain inside ∧ decl.isImportDecl = false := by
  refine bind (plain.params false) fun receiver ⟨isReceiver, fixed⟩ => skip fun name => ?_
  refine bind plain.signature fun shape isShape => bind plain.body? fun body isBody => done ?_
  exact ⟨.of (fixed rfl) rfl ⟨isReceiver, isShape, isBody⟩, rfl⟩

theorem funcOrMethod :
    Yields inside machine (Production.funcOrMethod (P := P)) fun decl =>
      decl.Plain inside ∧ decl.isImportDecl = false := by
  refine skip fun keyword => skip fun cursor => choice (fun _ => ?_) fun _ => ?_
  · exact bind (plain.methodTail keyword) fun decl isDecl => skip fun _ => done isDecl
  · exact bind (plain.funcTail keyword) fun decl isDecl => skip fun _ => done isDecl

theorem specifiedDecl (kind : SpecKind) :
    Yields inside machine (Production.specifiedDecl (P := P) kind) fun decl =>
      decl.Plain inside ∧ ∃ inner, decl = .specified kind inner := by
  refine bind (plain.specDecl kind) fun inner isInner => done ⟨?_, inner, rfl⟩
  exact .of trivial rfl isInner

theorem decl :
    Yields inside machine (Production.decl (P := P)) fun decl =>
      decl.Plain inside ∧ decl.isImportDecl = false := by
  constructor
  intro state decl final atFlag run
  obtain ⟨kind, notImports, -, run⟩ | ⟨-, run⟩ := machine.decl_cases run
  · obtain ⟨isDecl, inner, rfl⟩ := (plain.specifiedDecl kind).of_run atFlag run
    exact ⟨isDecl, decide_eq_false notImports⟩
  · exact plain.funcOrMethod.of_run atFlag run

/-- What is declared can stand among statements unless a function comes next. -/
theorem isLocalDecl_of_run
    {state final : ReadState P}
    {decl : Decl P}
    (notFunc : state.cursor.token ≠ .kwFunc)
    (run : machine.run Production.decl state = .done decl final) :
    decl.isLocalDecl = true := by
  obtain ⟨kind, notImports, -, run⟩ | ⟨isFunc, -⟩ := machine.decl_cases run
  · obtain ⟨-, inner, rfl⟩ := (plain.specifiedDecl kind).of_run rfl run
    exact decide_eq_true notImports
  · exact absurd isFunc notFunc

end YieldsPlain
end GoFront
