import GoFront.Grammar.Rules
import GoFront.Proofs.Forms.Plain
import GoFront.Proofs.Forms.Yields
import GoFront.Proofs.Reading.Types

/-!
# Forms of types and signatures

Types, signatures and type parameters are put together of parts that fit. The names and the ellipses of
a parameter list are checked when the kinds of its entries have been told apart.
-/

namespace GoFront

variable {P : Type}

open GoFront.Tree (Plain)

/-- What a nonterminal yields inside or outside of a header can stand there. -/
def Nonterminal.AllPlain (inside : Bool) :
    (nonterminal : Nonterminal) -> nonterminal.Result P -> Prop
  | type => fun (found : Option (TypeExpr P)) => ∀ type ∈ found, type.Plain inside
  | expr _ | unary | block | stmt | ifStmt => Plain inside
  | literalBody => fun body => body.elements.Plain inside

/-- Whether a type is a name. -/
def Tree.isNamedType : TypeExpr P -> Bool
  | namedType _ => true
  | _ => false

/-- All nonterminals yield what can stand where they are read. Only where a name comes next is a type
read that is one. -/
structure YieldsPlain (machine : Machine P) : Prop where
  yields : ∀ {inside : Bool} (nonterminal : Nonterminal),
    Yields inside machine (.call nonterminal) (nonterminal.AllPlain inside)
  unnamed : ∀ {state final : ReadState P} {type : TypeExpr P}, state.cursor.token ≠ .ident ->
    machine.run Production.type? state = .done (some type) final -> type.isNamedType = false

/-! ## Parameter lists -/

namespace Production
namespace ParamEntry

variable {inside : Bool}

/-- The type of an entry can stand anywhere. -/
def TypePlain (inside : Bool) : ParamEntry P -> Prop
  | bare _ => True
  | unnamed _ type | named _ _ type => type.Plain inside

theorem unnamedParam_plain
    {entry : ParamEntry P}
    (typePlain : entry.TypePlain inside) :
    entry.unnamedParam.Plain inside := by
  cases entry with
  | bare name =>
      have namePlain : (Tree.typeName none name .absent).Plain inside := .of trivial rfl .absent
      exact .of nofun rfl (.of trivial rfl namePlain)
  | unnamed ellipsis type => exact .of nofun rfl typePlain
  | named name ellipsis type => exact .of nofun rfl typePlain

theorem isVariadicParam_unnamedParam (entry : ParamEntry P) :
    entry.unnamedParam.isVariadicParam = entry.hasEllipsis := by
  cases entry <;> rfl

theorem isNamedParam_unnamedParam (entry : ParamEntry P) :
    entry.unnamedParam.isNamedParam = false := by
  cases entry <;> rfl

theorem mem_dropLast_cons
    {α : Type}
    {head item : α}
    {rest : List α}
    (member : item ∈ rest.dropLast) :
    item ∈ (head :: rest).dropLast := by
  cases rest with
  | nil => cases member
  | cons next rest => exact List.mem_cons_of_mem head member

/-- What is known of the parameters of a list with names: they are variadic where the entries are. -/
theorem of_namedParams?
    {pending : List (Ident P)}
    {entries : List (ParamEntry P)}
    {params : List (Tree P (.one .param))}
    (typesPlain : ∀ entry ∈ entries, entry.TypePlain inside)
    (found : namedParams? pending entries = some params) :
    (∀ param ∈ params, param.Plain inside ∧ param.isNamedParam = true)
      ∧ ((∀ entry ∈ entries, entry.hasEllipsis = false) ->
          ∀ param ∈ params, param.isVariadicParam = false)
      ∧ ((∀ entry ∈ entries.dropLast, entry.hasEllipsis = false) ->
          ∀ param ∈ params.dropLast, param.isVariadicParam = false) := by
  induction pending, entries using namedParams?.induct generalizing params with
  | case1 =>
      obtain rfl : [] = params := Option.some.inj found
      simp
  | case2 => cases found
  | case3 pending name rest inductionHypothesis =>
      obtain ⟨_, restTypes⟩ := List.forall_mem_cons.1 typesPlain
      rw [namedParams?] at found
      obtain ⟨plain, fixed, lastOnly⟩ := inductionHypothesis restTypes found
      refine ⟨plain, fun none => fixed (List.forall_mem_cons.1 none).2, fun none => ?_⟩
      exact lastOnly fun entry member => none entry (mem_dropLast_cons member)
  | case4 pending name ellipsis type rest inductionHypothesis =>
      obtain ⟨typePlain, restTypes⟩ := List.forall_mem_cons.1 typesPlain
      rw [namedParams?] at found
      obtain ⟨more, isMore, rfl⟩ := Option.map_eq_some_iff.1 found
      obtain ⟨plain, fixed, lastOnly⟩ := inductionHypothesis restTypes isMore
      refine ⟨List.forall_mem_cons.2 ⟨⟨?_, rfl⟩, plain⟩, fun none => ?_, fun none => ?_⟩
      · refine .of ?_ rfl typePlain
        intro names isNames
        obtain rfl := Option.some.inj isNames
        simp
      · obtain ⟨here, behind⟩ := List.forall_mem_cons.1 none
        exact List.forall_mem_cons.2 ⟨here, fixed behind⟩
      · cases rest with
        | nil =>
            obtain rfl : [] = more := Option.some.inj isMore
            simp
        | cons next rest =>
            obtain ⟨here, behind⟩ := List.forall_mem_cons.1 none
            cases more with
            | nil => simp
            | cons param more => exact List.forall_mem_cons.2 ⟨here, lastOnly behind⟩
  | case5 =>
      rw [namedParams?] at found
      cases found

/-- What is known of the parameters that a list of entries declares. -/
theorem of_resolve
    {variadic : Bool}
    {entries : List (ParamEntry P)}
    {params : List (Tree P (.one .param))}
    (typesPlain : ∀ entry ∈ entries, entry.TypePlain inside)
    (resolved : resolve variadic entries = .ok params) :
    (∀ param ∈ params, param.Plain inside)
      ∧ Tree.NamesAgree params
      ∧ (∀ param ∈ params.dropLast, param.isVariadicParam = false)
      ∧ (variadic = false -> ∀ param ∈ params, param.isVariadicParam = false) := by
  obtain ⟨noneMisplaced, declared⟩ := of_resolve_ok resolved
  have fixed : variadic = false -> ∀ entry ∈ entries, entry.hasEllipsis = false := by
    rintro rfl
    exact noneMisplaced
  have lastOnly : ∀ entry ∈ entries.dropLast, entry.hasEllipsis = false := by
    cases variadic with
    | true => exact noneMisplaced
    | false => exact fun entry member => fixed rfl entry (List.dropLast_subset _ member)
  rcases declared with found | ⟨-, rfl⟩
  · obtain ⟨plain, namedFixed, namedLastOnly⟩ := of_namedParams? typesPlain found
    exact ⟨fun param member => (plain param member).1,
      .inl fun param member => (plain param member).2, namedLastOnly lastOnly,
      fun notVariadic => namedFixed (fixed notVariadic)⟩
  · refine ⟨?_, .inr ?_, ?_, fun notVariadic => ?_⟩
    · exact List.forall_mem_map.2 fun entry member => unnamedParam_plain (typesPlain entry member)
    · exact List.forall_mem_map.2 fun entry _ => isNamedParam_unnamedParam entry
    · rw [← List.map_dropLast]
      refine List.forall_mem_map.2 fun entry member => ?_
      rw [isVariadicParam_unnamedParam, lastOnly entry member]
    · refine List.forall_mem_map.2 fun entry member => ?_
      rw [isVariadicParam_unnamedParam, fixed notVariadic entry member]

end ParamEntry
end Production

/-! ## Types -/

namespace YieldsPlain

open Yields

variable {inside : Bool} {machine : Machine P} (plain : YieldsPlain machine)

include plain

theorem type? :
    Yields inside machine (Production.type? (P := P)) fun found => ∀ type ∈ found, type.Plain inside :=
  plain.yields .type

theorem type : Yields inside machine (Production.type (P := P)) (Plain inside) := by
  apply bind plain.type?
  intro found typePlain
  cases found with
  | some type => exact done (typePlain type rfl)
  | none => exact skip fun _ => refuse _

theorem expr : Yields inside machine (Production.expr (P := P)) (Plain inside) :=
  plain.yields (.expr .or)

omit plain in
theorem identList :
    Yields inside machine (Production.identList (P := P)) fun names => names ≠ [] := by
  have anyName : Yields inside machine (Production.ident (P := P)) fun _ => True :=
    skip fun _ => done trivial
  exact (commaSeparated anyName).weaken fun _ holds => holds.1

theorem typeList : Yields inside machine (Production.typeList (P := P)) (Plain inside) := by
  apply bind (commaSeparated plain.type)
  rintro types ⟨some, all⟩
  exact done (.ofTypes some all)

theorem typeArgs : Yields inside machine (Production.typeArgs (P := P)) (Plain inside) := by
  apply inHeader
  refine skip ?_
  intro lBrack
  refine skip ?_
  intro cursor
  refine choice (fun _ => refuse _) ?_
  intro _
  apply bind plain.type
  intro first firstPlain
  apply bind (commaTail plain.type)
  intro rest restPlain
  refine skip fun rBrack => done ?_
  have all := List.forall_mem_cons.2 ⟨firstPlain, restPlain⟩
  exact .sheltered trivial rfl rfl (.ofTypes (List.cons_ne_nil first rest) all)

theorem typeName : Yields inside machine (Production.typeName (P := P)) (Plain inside) := by
  have behind (package : Option (Ident P)) (name : Ident P) :
      Yields inside machine (Production.look.bind fun cursor =>
        if cursor.token = .lBrack then
          Production.typeArgs.bind fun args => .pure (Tree.typeName package name (.present args))
        else .pure (Tree.typeName package name .absent)) (Plain inside) := by
    refine skip fun cursor => choice (fun _ => ?_) fun _ => ?_
    · refine bind plain.typeArgs fun args isArgs => done ?_
      exact .of trivial rfl (.present isArgs)
    · exact done (.of trivial rfl .absent)
  refine skip fun first => skip fun dot => choice (fun _ => ?_) fun _ => ?_
  · exact skip fun name => skip fun _ => behind _ _
  · exact skip fun _ => behind _ _

theorem arrayOrSliceType :
    Yields inside machine (Production.arrayOrSliceType (P := P)) (Plain inside) := by
  refine skip fun lBrack => skip fun rBrack => ?_
  cases rBrack with
  | some rBrack => exact bind plain.type fun elem isElem => done (.of trivial rfl isElem)
  | none =>
      refine skip fun ellipsis => ?_
      cases ellipsis with
      | some ellipsis =>
          refine skip fun rBrack => bind plain.type fun elem isElem => done ?_
          exact .of trivial rfl isElem
      | none =>
          refine bind (inHeader plain.expr) fun length isLength => skip fun rBrack => ?_
          refine bind plain.type fun elem isElem => done ?_
          exact .sheltered trivial rfl rfl ⟨isLength, isElem.outside⟩

theorem mapType : Yields inside machine (Production.mapType (P := P)) (Plain inside) := by
  refine skip ?_
  intro keyword
  refine skip ?_
  intro lBrack
  refine bind plain.type ?_
  intro key isKey
  refine skip fun rBrack => bind plain.type fun value isValue => done ?_
  exact .of trivial rfl ⟨isKey, isValue⟩

theorem chanType : Yields inside machine (Production.chanType (P := P)) (Plain inside) := by
  refine skip fun arrow => ?_
  cases arrow with
  | some arrow =>
      refine skip fun keyword => bind plain.type fun elem isElem => done ?_
      exact .of ⟨nofun, nofun⟩ rfl isElem
  | none =>
      refine skip ?_
      intro keyword
      refine skip ?_
      intro arrow
      refine bind plain.type ?_
      intro elem isElem
      refine done ?_
      cases arrow with
      | none => exact .of ⟨fun _ => rfl, fun _ => rfl⟩ rfl isElem
      | some arrow => exact .of ⟨nofun, nofun⟩ rfl isElem

/-! ## Signatures and type parameters -/

theorem paramEntry :
    Yields inside machine (Production.paramEntry (P := P))
      (Production.ParamEntry.TypePlain inside) := by
  refine skip ?_
  intro cursor
  refine choice (fun _ => skip fun name => done trivial) ?_
  intro _
  apply choice
  · intro _
    refine skip ?_
    intro name
    refine skip ?_
    intro ellipsis
    exact bind plain.type fun type isType => done isType
  · intro _
    exact skip fun ellipsis => bind plain.type fun type isType => done isType

/-- A parameter list is variadic only where it can be. -/
theorem params (variadic : Bool) :
    Yields inside machine (Production.params (P := P) variadic) fun list =>
      list.Plain inside
        ∧ (variadic = false -> ∀ entry ∈ list.entries, entry.isVariadicParam = false) := by
  apply inHeader
  refine skip fun lParen => bind (itemsUntil_of_each (withComma plain.paramEntry)) ?_
  intro entries typesPlain
  split
  · exact refuse _
  · next params resolved =>
      obtain ⟨all, agree, lastOnly, fixed⟩ :=
        Production.ParamEntry.of_resolve typesPlain resolved
      refine skip fun rParen => done ⟨.sheltered ?_ rfl rfl (.ofList all), ?_⟩
      · change Tree.NamesAgree (Tree.ofList params).toList
          ∧ ∀ entry ∈ (Tree.ofList params).toList.dropLast, entry.isVariadicParam = false
        rw [Tree.toList_ofList]
        exact ⟨agree, lastOnly⟩
      · simpa [Tree.entries] using fixed

theorem signature : Yields inside machine (Production.signature (P := P)) (Plain inside) := by
  refine bind (plain.params true) fun inputs ⟨isInputs, _⟩ => skip fun cursor => ?_
  apply choice
  · intro _
    refine bind (plain.params false) fun outputs ⟨isOutputs, fixed⟩ => done ?_
    have results : (Tree.resultParams outputs).Plain inside := .of (fixed rfl) rfl isOutputs
    exact .of trivial rfl ⟨isInputs, .present results⟩
  · intro _
    refine bind plain.type? fun output isOutput => done ?_
    refine .of trivial rfl ⟨isInputs, .ofOption ?_⟩
    intro result isResult
    obtain ⟨type, isType, rfl⟩ := Option.map_eq_some_iff.1 isResult
    exact .of trivial rfl (isOutput type isType)

theorem funcType : Yields inside machine (Production.funcType (P := P)) (Plain inside) := by
  refine skip ?_
  intro _
  exact bind plain.signature fun _ isShape => done (.of trivial rfl isShape)

theorem typeTerm : Yields inside machine (Production.typeTerm (P := P)) (Plain inside) := by
  refine skip fun tilde => bind plain.type fun type isType => ?_
  cases tilde with
  | some tilde => exact done (.of trivial rfl isType)
  | none => exact done (.of trivial rfl isType)

theorem typeElem : Yields inside machine (Production.typeElem (P := P)) (Plain inside) := by
  refine bind plain.typeTerm fun first isFirst => bind (many (behind plain.typeTerm)) ?_
  intro rest isRest
  have all := List.forall_mem_cons.2 ⟨isFirst, isRest⟩
  exact done (.of (List.cons_ne_nil first _) rfl (.ofList all))

theorem typeParam : Yields inside machine (Production.typeParam (P := P)) (Plain inside) := by
  refine bind identList ?_
  intro _ some
  exact bind plain.typeElem fun _ isBound => done (.of some rfl isBound)

theorem typeParams : Yields inside machine (Production.typeParams (P := P)) (Plain inside) := by
  apply inHeader
  refine skip fun lBrack => bind (itemsUntil_of_each (withComma plain.typeParam)) ?_
  intro entries isEntries
  refine choice (fun _ => refuse _) ?_
  intro some
  refine skip ?_
  intro rBrack
  refine done ?_
  apply Plain.sheltered
  · change (Tree.ofList entries).toList ≠ []
    rw [Tree.toList_ofList]
    simpa using some
  · rfl
  · rfl
  · exact Plain.ofList isEntries

/-! ## Structures and interfaces -/

theorem fieldDecl : Yields inside machine (Production.fieldDecl (P := P)) (Plain inside) := by
  refine skip fun cursor => choice (fun _ => ?_) fun _ => ?_
  · refine skip ?_
    intro star
    refine bind plain.typeName ?_
    intro name isName
    refine skip ?_
    intro tag
    refine done ?_
    exact .of trivial rfl isName
  · refine bind identList ?_
    intro names some
    refine bind plain.type ?_
    intro type isType
    refine skip ?_
    intro tag
    refine done ?_
    exact .of some rfl isType

theorem structType : Yields inside machine (Production.structType (P := P)) (Plain inside) := by
  refine skip fun keyword => skip fun lBrace => ?_
  refine bind (itemsUntil_of_each (withSemicolon plain.fieldDecl)) fun fields isFields => ?_
  exact skip fun rBrace => done (.of trivial rfl (.ofList isFields))

theorem interfaceElem : Yields inside machine (Production.interfaceElem (P := P)) (Plain inside) := by
  refine skip fun cursor => choice (fun _ => ?_) fun _ => ?_
  · refine skip fun name => bind plain.signature fun shape isShape => done ?_
    exact .of trivial rfl isShape
  · exact bind plain.typeElem fun elem isElem => done (.of trivial rfl isElem)

theorem interfaceType : Yields inside machine (Production.interfaceType (P := P)) (Plain inside) := by
  refine skip fun keyword => skip fun lBrace => ?_
  refine bind (itemsUntil_of_each (withSemicolon plain.interfaceElem)) fun elems isElems => ?_
  exact skip fun rBrace => done (.of trivial rfl (.ofList isElems))

/-! ## Types -/

theorem pointerType : Yields inside machine (Production.pointerType (P := P)) (Plain inside) := by
  refine skip ?_
  intro _
  exact bind plain.type fun _ isElem => done (.of trivial rfl isElem)

theorem parenType : Yields inside machine (Production.parenType (P := P)) (Plain inside) := by
  refine inHeader ?_
  refine skip ?_
  intro _
  refine bind plain.type ?_
  intro _ isInner
  exact skip fun _ => done (.sheltered trivial rfl rfl isInner)

theorem typeFrom
    (token : Token)
    (production : Production P (TypeExpr P))
    (found : Production.typeFrom token = some production) :
    Yields inside machine production (Plain inside) := by
  unfold Production.typeFrom at found
  split at found
  all_goals cases found
  · exact bind plain.typeName fun name isName => done (.of trivial rfl isName)
  · exact plain.pointerType
  · exact plain.parenType
  · exact bind plain.funcType fun type isType => done (.of trivial rfl isType)
  · exact plain.arrayOrSliceType
  · exact plain.mapType
  · exact plain.chanType
  · exact plain.chanType
  · exact plain.structType
  · exact plain.interfaceType

omit plain in
/-- Only behind a name stands a type that is one. -/
theorem typeFrom_unnamed
    {token : Token}
    {production : Production P (TypeExpr P)}
    (notIdent : token ≠ .ident)
    (found : Production.typeFrom token = some production) :
    Yields inside machine production fun type => type.isNamedType = false := by
  have channel : Yields inside machine (Production.chanType (P := P))
      fun type => type.isNamedType = false := by
    refine skip fun arrow => ?_
    cases arrow with
    | some arrow => exact skip fun _ => skip fun _ => done rfl
    | none => exact skip fun _ => skip fun _ => skip fun _ => done rfl
  unfold Production.typeFrom at found
  split at found
  all_goals cases found
  · exact absurd rfl notIdent
  · exact skip fun _ => skip fun _ => done rfl
  · refine inHeader ?_
    refine skip ?_
    intro _
    refine skip ?_
    intro _
    exact skip fun _ => done rfl
  · exact skip fun _ => done rfl
  · refine skip fun lBrack => skip fun rBrack => ?_
    cases rBrack with
    | some rBrack => exact skip fun _ => done rfl
    | none =>
        refine skip fun ellipsis => ?_
        cases ellipsis with
        | some ellipsis => exact skip fun _ => skip fun _ => done rfl
        | none => exact skip fun _ => skip fun _ => skip fun _ => done rfl
  · refine skip ?_
    intro _
    refine skip ?_
    intro _
    refine skip ?_
    intro _
    refine skip ?_
    intro _
    exact skip fun _ => done rfl
  · exact channel
  · exact channel
  · refine skip ?_
    intro _
    refine skip ?_
    intro _
    refine skip ?_
    intro _
    exact skip fun _ => done rfl
  · refine skip ?_
    intro _
    refine skip ?_
    intro _
    refine skip ?_
    intro _
    exact skip fun _ => done rfl

theorem typeRule :
    Yields inside machine (Production.typeRule (P := P))
      fun found => ∀ type ∈ found, type.Plain inside := by
  apply nested
  refine skip fun cursor => ?_
  split
  · next production found =>
      exact bind (plain.typeFrom _ production found) fun type isType => done_some isType
  · exact done_none

end YieldsPlain
end GoFront
