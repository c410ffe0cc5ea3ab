import GoFront.Proofs.Reading.Declarations
import GoFront.Proofs.Shape.Expressions

/-!
# Layers of declarations

Declarations are graded. A declaration has specs of the kind that its keyword names, so that all parts
fit; only a variable can lack what it needs.
-/

namespace GoFront

variable {P : Type}

open GoFront.Tree (Graded)

/-! ## Specs -/

namespace Tree

variable {layers : Nat} {kind : SpecKind}

/-- A graded spec of a kind that is no group. -/
structure SingleSpec (layers : Nat) (kind : SpecKind) (spec : Spec P) : Prop where
  graded : spec.Graded layers
  specKind : spec.specKind = kind
  isGroup : spec.isGroup = false

/-- A graded spec or group of a kind. -/
structure KindSpec (layers : Nat) (kind : SpecKind) (spec : Spec P) : Prop where
  graded : spec.Graded layers
  specKind : spec.specKind = kind

theorem eq_of_varSpec?_error
    {names : List (Ident P)}
    {type : Tree P (.maybe .type)}
    {values : Tree P (.maybe .exprList)}
    {reason : InvalidNode}
    (refused : varSpec? names type values = .error reason) :
    reason = .varWithoutTypeOrValue := by
  cases type with
  | present _ => cases refused
  | absent =>
      cases values with
      | present _ => cases refused
      | absent => exact (Except.error.inj refused).symm

theorem graded_of_varSpec?
    {names : List (Ident P)}
    {type : Tree P (.maybe .type)}
    {values : Tree P (.maybe .exprList)}
    {spec : Tree P (.one .varSpec)}
    (isType : type.Graded layers)
    (isValues : values.Graded layers)
    (built : varSpec? names type values = .ok spec) :
    spec.Graded (layers + 1) := by
  have isSpec : (varSpec names type values).Graded (layers + 1) :=
    .node trivial rfl ⟨isType, isValues⟩
  cases type with
  | present _ => exact Except.ok.inj built ▸ isSpec
  | absent =>
      cases values with
      | present _ => exact Except.ok.inj built ▸ isSpec
      | absent => cases built

/-- Specs of a kind that are no groups form a group. -/
theorem groupSpec?_eq_ok
    {specs : List (Spec P)}
    (lParen rParen : Mark P)
    (all : ∀ spec ∈ specs, spec.SingleSpec layers kind) :
    groupSpec? kind lParen specs rParen = .ok (groupSpec kind lParen (ofList specs) rParen) := by
  have noneBad : (specs.find? fun spec => spec.isGroup || spec.specKind ≠ kind) = none := by
    rw [List.find?_eq_none]
    intro spec member
    simp [(all spec member).isGroup, (all spec member).specKind]
  rw [groupSpec?, noneBad]

/-- A keyword and a spec of its kind form a declaration. -/
theorem specDecl?_eq_ok
    {keyword : Mark P}
    {spec : Spec P}
    (isKeyword : keyword.token = kind.keyword)
    (isSpec : spec.KindSpec layers kind) :
    specDecl? kind keyword spec = .ok (specDecl kind keyword spec) := by
  simp [specDecl?, isKeyword, isSpec.specKind]

end Tree

open GoFront.Tree (SingleSpec KindSpec)

namespace Builds

variable {room : Nat} {machine : Machine P} {α β : Type} {property : β -> Prop}

/-- Parts that are known to fit make a phrase. -/
theorem bind_built
    {node : Except InvalidNode α}
    {value : α}
    {next : α -> Production P β}
    (isBuilt : node = .ok value)
    (rest : Builds room machine (next value) property) :
    Builds room machine ((Production.build node).bind next) property := by
  subst isBuilt
  exact pure_bind rest

end Builds

namespace BuildsGraded

open Builds

variable {room : Nat} {machine : Machine P} (graded : BuildsGraded machine)

theorem importName? : Builds room machine (Production.importName? (P := P)) fun _ => True := by
  refine skip look fun cursor => ?_
  split
  · exact skip ident fun _ => done trivial
  · exact skip (mark _) fun _ => done trivial
  · exact done trivial

theorem importSpec :
    Builds room machine (Production.importSpec (P := P)) (SingleSpec (8 * room + 11) .imports) := by
  refine skip importName? ?_
  intro name
  exact skip stringLit fun path => done ⟨.node trivial rfl trivial, rfl, rfl⟩

include graded

theorem constSpec (first : Bool) :
    Builds room machine (Production.constSpec (P := P) first) (SingleSpec (8 * room + 11) .consts) := by
  refine skip identList ?_
  intro names
  refine bind graded.type? ?_
  intro type isType
  refine skip look ?_
  intro cursor
  have typeGraded : (Tree.ofOption type).Graded (8 * room + 10) :=
    .ofOption fun type isFound => (isType type isFound).mono (by omega)
  refine choice (fun _ => ?_) fun _ => done ⟨.node trivial rfl ⟨typeGraded, .absent⟩, rfl, rfl⟩
  refine skip (expect _) fun assign => bind graded.exprList fun values isValues => done ?_
  exact ⟨.node trivial rfl ⟨typeGraded, .present (isValues.mono (by omega))⟩, rfl, rfl⟩

/-- Only here can parts be missing. -/
theorem varSpec :
    Builds room machine (Production.varSpec (P := P)) (SingleSpec (8 * room + 11) .vars) := by
  have behind {names : List (Ident P)} {type : Option (TypeExpr P)}
      (isType : ∀ found ∈ type, found.Graded (8 * room + 3))
      {values : Tree P (.maybe .exprList)}
      (isValues : values.Graded (8 * room + 9)) :
      Builds room machine ((Production.build (Tree.varSpec? names (.ofOption type) values)).bind
        fun spec => .pure (Tree.varSpecOf spec)) (SingleSpec (8 * room + 11) .vars) := by
    have typeGraded : (Tree.ofOption type).Graded (8 * room + 9) :=
      .ofOption fun type isFound => (isType type isFound).mono (by omega)
    refine bind (build (fun _ => Tree.eq_of_varSpec?_error)
      fun spec => Tree.graded_of_varSpec? typeGraded isValues) fun spec isSpec => done ?_
    exact ⟨.node trivial rfl isSpec, rfl, rfl⟩
  refine skip identList ?_
  intro names
  refine bind graded.type? ?_
  intro type isType
  refine skip (eat? _) ?_
  intro assign
  refine choice (fun _ => ?_) fun _ => pure_bind (behind isType .absent)
  exact bind graded.exprList fun values isValues => pure_bind (behind isType (.present isValues))

theorem typeSpec :
    Builds room machine (Production.typeSpec (P := P)) (SingleSpec (8 * room + 11) .types) := by
  have behind (name : Ident P) {generics : Tree P (.maybe .typeParams)}
      (isGenerics : generics.Graded (8 * room + 7)) :
      Builds room machine (Production.type.bind fun type =>
        .pure (Tree.typeSpecOf (.typeDef name generics type))) (SingleSpec (8 * room + 11) .types) := by
    refine bind graded.type fun type isType => done ⟨?_, rfl, rfl⟩
    have typeDef : (Tree.typeDef name generics type).Graded (8 * room + 8) :=
      .node trivial rfl ⟨isGenerics, isType.mono (by omega)⟩
    exact .node trivial rfl (typeDef.mono (by omega))
  refine skip ident fun name => skip (mark? _) fun assign => ?_
  cases assign with
  | some assign =>
      refine bind graded.type fun type isType => done ⟨?_, rfl, rfl⟩
      have aliasDecl : (Tree.aliasDecl name assign type).Graded (8 * room + 4) :=
        .node trivial rfl isType
      exact .node trivial rfl (aliasDecl.mono (by omega))
  | none =>
      refine skip look fun cursor => choice (fun _ => ?_) fun _ => pure_bind (behind name .absent)
      exact bind graded.typeParams fun generics isGenerics =>
        pure_bind (behind name (.present isGenerics))

theorem singleSpec
    (kind : SpecKind)
    (first : Bool) :
    Builds room machine (Production.singleSpec (P := P) kind first)
      (SingleSpec (8 * room + 11) kind) := by
  cases kind with
  | imports => exact importSpec
  | consts => exact graded.constSpec first
  | vars => exact graded.varSpec
  | types => exact graded.typeSpec

theorem spec (kind : SpecKind) :
    Builds room machine (Production.spec (P := P) kind) (KindSpec (8 * room + 13) kind) := by
  refine skip (mark? _) fun lParen => ?_
  cases lParen with
  | none =>
      apply (graded.singleSpec kind true).weaken
      exact fun spec single => ⟨single.graded.mono (by omega), single.specKind⟩
  | some lParen =>
      have members : Builds room machine (Production.itemsUntil .rParen fun first =>
          Production.withSemicolon (Production.singleSpec (P := P) kind first))
          fun specs => ∀ spec ∈ specs, spec.SingleSpec (8 * room + 11) kind :=
        itemsUntil fun first => withSemicolon (graded.singleSpec kind first)
      refine bind members fun specs all => skip (mark _) fun rParen => ?_
      have group : (Tree.groupSpec kind lParen (.ofList specs) rParen).Graded (8 * room + 12) :=
        .node trivial rfl (.ofList fun spec member => (all spec member).graded)
      exact bind_built (Tree.groupSpec?_eq_ok lParen rParen all) (done ⟨.node trivial rfl group, rfl⟩)

/-! ## Declarations -/

theorem specDecl (kind : SpecKind) :
    Builds room machine (Production.specDecl (P := P) kind) (Graded (8 * room + 14)) := by
  refine bind (mark _) fun keyword isKeyword => bind (graded.spec kind) fun spec isSpec => ?_
  refine bind_built (Tree.specDecl?_eq_ok isKeyword isSpec) (skip semicolon fun _ => done ?_)
  exact .node trivial rfl isSpec.graded

theorem specifiedDecl (kind : SpecKind) :
    Builds room machine (Production.specifiedDecl (P := P) kind) (Graded (8 * room + 15)) :=
  bind (graded.specDecl kind) fun _ isDecl => done (.node trivial rfl isDecl)

theorem body? : Builds room machine (Production.body? (P := P)) (Graded (8 * room + 3)) := by
  refine skip look ?_
  intro _
  refine choice (fun _ => bind graded.block fun _ isBody => done (.present isBody)) ?_
  intro _
  exact done .absent

theorem funcTail (keyword : Mark P) :
    Builds room machine (Production.funcTail keyword) (Graded (8 * room + 8)) := by
  have behind (name : Ident P) {generics : Tree P (.maybe .typeParams)}
      (isGenerics : generics.Graded (8 * room + 7)) :
      Builds room machine (Production.signature.bind fun shape => Production.body?.bind fun body =>
        .pure (Tree.funcDecl keyword name generics shape body)) (Graded (8 * room + 8)) := by
    refine bind graded.signature fun shape isShape => bind graded.body? fun body isBody => done ?_
    exact .node trivial rfl ⟨isGenerics, isShape, isBody.mono (by omega)⟩
  refine skip ident fun name => skip look fun cursor => choice (fun _ => ?_) fun _ => ?_
  · exact bind graded.typeParams fun generics isGenerics =>
      pure_bind (behind name (.present isGenerics))
  · exact pure_bind (behind name .absent)

theorem methodTail (keyword : Mark P) :
    Builds room machine (Production.methodTail keyword) (Graded (8 * room + 8)) := by
  refine bind (graded.params false) fun receiver isReceiver => skip ident fun name => ?_
  refine bind graded.signature fun shape isShape => bind graded.body? fun body isBody => done ?_
  exact .node trivial rfl ⟨isReceiver.mono (by omega), isShape, isBody.mono (by omega)⟩

theorem funcOrMethod :
    Builds room machine (Production.funcOrMethod (P := P)) (Graded (8 * room + 8)) := by
  refine skip (mark _) fun keyword => skip look fun cursor => choice (fun _ => ?_) fun _ => ?_
  · exact bind (graded.methodTail keyword) fun decl isDecl => skip semicolon fun _ => done isDecl
  · exact bind (graded.funcTail keyword) fun decl isDecl => skip semicolon fun _ => done isDecl

theorem decl : Builds room machine (Production.decl (P := P)) (Graded (8 * room + 15)) := by
  refine skip look fun cursor => ?_
  split
  · exact graded.specifiedDecl .vars
  · exact graded.specifiedDecl .consts
  · exact graded.specifiedDecl .types
  · exact graded.funcOrMethod.weaken fun _ isDecl => isDecl.mono (by omega)
  · exact refuse (.of_other rfl)

end BuildsGraded
end GoFront
