import GoFront.Proofs.Reading.Types
import GoFront.Proofs.Shape.Builds
import GoFront.Proofs.Shape.Graded

/-!
# Layers of types and signatures

Types, signatures and type parameters are graded, and their parts fit. Each level of nesting adds at most
eight layers.
-/

namespace GoFront

variable {P : Type}

open GoFront.Tree (Graded GradedExpr GradedOperand)

/-- What a nonterminal yields with a room is graded. -/
def Nonterminal.AllGraded (room : Nat) :
    (nonterminal : Nonterminal) -> nonterminal.Result P -> Prop
  | type => fun (found : Option (TypeExpr P)) => ∀ type ∈ found, type.Graded (8 * room + 3)
  | expr least => GradedExpr (8 * room + 2) least
  | unary => GradedOperand (8 * room + 2)
  | literalBody => fun body => body.elements.Graded (8 * room + 3)
  | block => Graded (8 * room + 3)
  | stmt => Graded (8 * room + 16)
  | ifStmt => Graded (8 * room + 11)

/-- A token cannot continue an expression whose operators bind at least as tightly as a level. -/
def Token.EndsExpr (least : Precedence) (token : Token) : Prop :=
  token.precedence = .none ∨ token.precedence.rank < least.rank

/-- All nonterminals yield graded phrases whose parts fit, and expressions are read as far as they go. -/
structure BuildsGraded (machine : Machine P) : Prop where
  builds : ∀ {room : Nat} (nonterminal : Nonterminal),
    Builds room machine (.call nonterminal) (nonterminal.AllGraded room)
  stops : ∀ {least : Precedence} {state final : ReadState P} {expr : Expr P},
    machine.run (.call (.expr least)) state = .done expr final -> final.cursor.token.EndsExpr least

/-! ## Parameter lists -/

namespace Production
namespace ParamEntry

variable {layers : Nat}

/-- The type of an entry is graded. -/
def TypeGraded (layers : Nat) : ParamEntry P -> Prop
  | bare _ => True
  | unnamed _ type | named _ _ type => type.Graded layers

theorem graded_unnamedParam
    {entry : ParamEntry P}
    (typeGraded : entry.TypeGraded (layers + 3)) :
    entry.unnamedParam.Graded (layers + 4) := by
  cases entry with
  | bare name => exact .node trivial rfl (Tree.graded_name none name)
  | unnamed ellipsis type => exact .node trivial rfl typeGraded
  | named name ellipsis type => exact .node trivial rfl typeGraded

theorem graded_of_namedParams?
    {pending : List (Ident P)}
    {entries : List (ParamEntry P)}
    {params : List (Tree P (.one .param))}
    (typesGraded : ∀ entry ∈ entries, entry.TypeGraded layers)
    (found : namedParams? pending entries = some params) :
    ∀ param ∈ params, param.Graded (layers + 1) := by
  induction pending, entries using namedParams?.induct generalizing params with
  | case1 =>
      obtain rfl : [] = params := Option.some.inj found
      simp
  | case2 => cases found
  | case3 pending name rest inductionHypothesis =>
      rw [namedParams?] at found
      exact inductionHypothesis (List.forall_mem_cons.1 typesGraded).2 found
  | case4 pending name ellipsis type rest inductionHypothesis =>
      obtain ⟨typeGraded, restGraded⟩ := List.forall_mem_cons.1 typesGraded
      rw [namedParams?] at found
      obtain ⟨more, isMore, rfl⟩ := Option.map_eq_some_iff.1 found
      refine List.forall_mem_cons.2 ⟨?_, inductionHypothesis restGraded isMore⟩
      exact .node trivial rfl typeGraded
  | case5 =>
      rw [namedParams?] at found
      cases found

theorem graded_of_resolve
    {variadic : Bool}
    {entries : List (ParamEntry P)}
    {params : List (Tree P (.one .param))}
    (typesGraded : ∀ entry ∈ entries, entry.TypeGraded (layers + 3))
    (resolved : resolve variadic entries = .ok params) :
    ∀ param ∈ params, param.Graded (layers + 4) := by
  obtain ⟨-, found | ⟨-, rfl⟩⟩ := of_resolve_ok resolved
  · exact graded_of_namedParams? typesGraded found
  · exact List.forall_mem_map.2 fun entry member => graded_unnamedParam (typesGraded entry member)

/-- Entries that declare no parameters are misplaced, but no phrase is put together of them. -/
theorem partsFit_of_resolve
    {variadic : Bool}
    {entries : List (ParamEntry P)}
    {cause : SyntaxCause}
    (refused : resolve variadic entries = .error cause) :
    cause.PartsFit := by
  unfold resolve at refused
  dsimp only at refused
  generalize (if variadic then entries.dropLast else entries) = fixed at refused
  split at refused
  · obtain rfl := Except.error.inj refused
    exact .of_other rfl
  · split at refused
    · split at refused
      · cases refused
      · obtain rfl := Except.error.inj refused
        exact .of_other rfl
    · cases refused

end ParamEntry
end Production

/-! ## Types -/

namespace BuildsGraded

open Builds

variable {room : Nat} {machine : Machine P} (graded : BuildsGraded machine)

include graded

theorem type? : Builds room machine (Production.type? (P := P)) fun found =>
    ∀ type ∈ found, type.Graded (8 * room + 3) :=
  graded.builds .type

theorem type : Builds room machine (Production.type (P := P)) (Graded (8 * room + 3)) := by
  refine bind graded.type? fun found isType => ?_
  cases found with
  | some type => exact done (isType type rfl)
  | none => exact skip look fun _ => refuse (.of_other rfl)

theorem expr : Builds room machine (Production.expr (P := P)) (GradedExpr (8 * room + 2) .or) :=
  graded.builds (.expr .or)

/-- An expression, whatever it can be read as. -/
theorem anyExpr : Builds room machine (Production.expr (P := P)) (Graded (8 * room + 8)) :=
  graded.expr.weaken fun _ isExpr => isExpr.graded

omit graded in
theorem identList : Builds room machine (Production.identList (P := P)) fun _ => True :=
  (commaSeparated ident).weaken fun _ _ => trivial

theorem typeList : Builds room machine (Production.typeList (P := P)) (Graded (8 * room + 4)) :=
  bind (commaSeparated graded.type) fun _ all => done (.node trivial rfl (.ofList all))

omit graded in
theorem stringLit : Builds room machine (Production.stringLit (P := P)) fun _ => True := by
  refine skip look fun cursor => ?_
  split
  · exact skip advance fun _ => done trivial
  · exact skip advance fun _ => done trivial
  · exact refuse (.of_other rfl)

theorem typeArgs : Builds room machine (Production.typeArgs (P := P)) (Graded (8 * room + 5)) := by
  refine inHeader (skip (mark _) fun lBrack => skip look fun cursor => ?_)
  refine choice (fun _ => refuse (.of_other rfl)) fun _ => ?_
  refine bind graded.type fun first isFirst => bind (commaTail graded.type) fun rest isRest => ?_
  refine skip (mark _) fun rBrack => done ?_
  exact Tree.graded_typeArgs (List.forall_mem_cons.2 ⟨isFirst, isRest⟩) lBrack rBrack

theorem typeName : Builds room machine (Production.typeName (P := P)) (Graded (8 * room + 6)) := by
  have behind (package : Option (Ident P)) (name : Ident P) :
      Builds room machine (Production.look.bind fun cursor =>
        if cursor.token = .lBrack then
          Production.typeArgs.bind fun args => .pure (Tree.typeName package name (.present args))
        else .pure (Tree.typeName package name .absent)) (Graded (8 * room + 6)) := by
    refine skip look fun cursor => choice (fun _ => ?_) fun _ => ?_
    · exact bind graded.typeArgs fun args isArgs => done (.node trivial rfl (.present isArgs))
    · exact done (.node trivial rfl .absent)
  refine skip ident fun first => skip (eat? _) fun dot => choice (fun _ => ?_) fun _ => ?_
  · exact skip ident fun name => pure_bind (behind _ _)
  · exact pure_bind (behind _ _)

theorem arrayOrSliceType :
    Builds room machine (Production.arrayOrSliceType (P := P)) (Graded (8 * room + 9)) := by
  refine skip (mark _) fun lBrack => skip (mark? _) fun rBrack => ?_
  cases rBrack with
  | some rBrack =>
      exact bind graded.type fun elem isElem => done (.node trivial rfl (isElem.mono (by omega)))
  | none =>
      refine skip (mark? _) fun ellipsis => ?_
      cases ellipsis with
      | some ellipsis =>
          refine skip (mark _) fun rBrack => bind graded.type fun elem isElem => done ?_
          exact .node trivial rfl (isElem.mono (by omega))
      | none =>
          refine bind (inHeader graded.anyExpr) fun length isLength => skip (mark _) fun rBrack => ?_
          refine bind graded.type fun elem isElem => done ?_
          exact .node trivial rfl ⟨isLength, isElem.mono (by omega)⟩

theorem mapType : Builds room machine (Production.mapType (P := P)) (Graded (8 * room + 4)) := by
  refine skip (mark _) fun keyword => skip (mark _) fun lBrack => ?_
  refine bind graded.type fun key isKey => skip (mark _) fun rBrack => ?_
  exact bind graded.type fun value isValue => done (.node trivial rfl ⟨isKey, isValue⟩)

theorem chanType : Builds room machine (Production.chanType (P := P)) (Graded (8 * room + 4)) := by
  refine skip (mark? _) fun arrow => ?_
  cases arrow with
  | some arrow =>
      refine skip (mark _) fun keyword => bind graded.type fun elem isElem => done ?_
      exact .node trivial rfl isElem
  | none =>
      refine skip (mark _) fun keyword => skip (mark? _) fun arrow => ?_
      exact bind graded.type fun elem isElem => done (.node trivial rfl isElem)

/-! ## Signatures and type parameters -/

theorem paramEntry :
    Builds room machine (Production.paramEntry (P := P))
      (Production.ParamEntry.TypeGraded (8 * room + 3)) := by
  refine skip look ?_
  intro cursor
  refine choice (fun _ => skip ident fun name => done trivial) ?_
  intro _
  refine choice (fun _ => ?_) fun _ => ?_
  · refine skip ident fun name => skip (mark? _) fun ellipsis => ?_
    exact bind graded.type fun type isType => done isType
  · exact skip (mark? _) fun ellipsis => bind graded.type fun type isType => done isType

theorem params (variadic : Bool) :
    Builds room machine (Production.params (P := P) variadic) (Graded (8 * room + 5)) := by
  refine inHeader (skip (mark _) fun lParen => ?_)
  refine bind (itemsUntil fun _ => withComma graded.paramEntry) fun entries isEntries => ?_
  split
  · next refused => exact refuse (Production.ParamEntry.partsFit_of_resolve refused)
  · next params resolved =>
      have all := Production.ParamEntry.graded_of_resolve isEntries resolved
      exact skip (mark _) fun rParen => done (.node trivial rfl (.ofList all))

theorem signature : Builds room machine (Production.signature (P := P)) (Graded (8 * room + 7)) := by
  refine bind (graded.params true) fun inputs isInputs => skip look fun cursor => ?_
  refine choice (fun _ => ?_) fun _ => ?_
  · refine bind (graded.params false) fun outputs isOutputs => done ?_
    have results : (Tree.resultParams outputs).Graded (8 * room + 6) := .node trivial rfl isOutputs
    exact .node trivial rfl ⟨isInputs.mono (by omega), .present results⟩
  · refine bind graded.type? fun output isOutput => done ?_
    refine .node trivial rfl ⟨isInputs.mono (by omega), .ofOption ?_⟩
    intro result isResult
    obtain ⟨type, isType, rfl⟩ := Option.map_eq_some_iff.1 isResult
    exact .node trivial rfl ((isOutput type isType).mono (by omega))

theorem funcType : Builds room machine (Production.funcType (P := P)) (Graded (8 * room + 8)) := by
  refine skip (mark _) ?_
  intro _
  exact bind graded.signature fun _ isShape => done (.node trivial rfl isShape)

theorem typeTerm : Builds room machine (Production.typeTerm (P := P)) (Graded (8 * room + 4)) := by
  refine skip (mark? _) fun tilde => bind graded.type fun type isType => ?_
  cases tilde with
  | some tilde => exact done (.node trivial rfl isType)
  | none => exact done (.node trivial rfl isType)

theorem typeElem : Builds room machine (Production.typeElem (P := P)) (Graded (8 * room + 5)) := by
  refine bind graded.typeTerm fun first isFirst => bind (many (behind graded.typeTerm)) ?_
  intro rest isRest
  exact done (.node trivial rfl (.ofList (List.forall_mem_cons.2 ⟨isFirst, isRest⟩)))

theorem typeParam : Builds room machine (Production.typeParam (P := P)) (Graded (8 * room + 6)) := by
  refine skip identList ?_
  intro _
  exact bind graded.typeElem fun _ isBound => done (.node trivial rfl isBound)

theorem typeParams : Builds room machine (Production.typeParams (P := P)) (Graded (8 * room + 7)) := by
  refine inHeader (skip (mark _) fun lBrack => ?_)
  refine bind (itemsUntil fun _ => withComma graded.typeParam) fun entries isEntries => ?_
  refine choice (fun _ => refuse (.of_other rfl)) ?_
  intro _
  refine skip (mark _) ?_
  intro rBrack
  refine done ?_
  exact .node trivial rfl (.ofList isEntries)

/-! ## Structures and interfaces -/

omit graded in
theorem tag? : Builds room machine (Production.tag? (P := P)) fun _ => True := by
  refine skip look ?_
  intro _
  refine choice (fun _ => skip stringLit fun _ => done trivial) ?_
  intro _
  exact done trivial

theorem fieldDecl : Builds room machine (Production.fieldDecl (P := P)) (Graded (8 * room + 7)) := by
  refine skip look fun cursor => choice (fun _ => ?_) fun _ => ?_
  · refine skip (mark? _) ?_
    intro star
    refine bind graded.typeName ?_
    intro name isName
    refine skip tag? ?_
    intro tag
    exact done (.node trivial rfl isName)
  · refine skip identList ?_
    intro names
    refine bind graded.type ?_
    intro type isType
    refine skip tag? ?_
    intro tag
    exact done (.node trivial rfl (isType.mono (by omega)))

theorem structType : Builds room machine (Production.structType (P := P)) (Graded (8 * room + 8)) := by
  refine skip (mark _) fun keyword => skip (mark _) fun lBrace => ?_
  refine bind (itemsUntil fun _ => withSemicolon graded.fieldDecl) fun fields isFields => ?_
  exact skip (mark _) fun rBrace => done (.node trivial rfl (.ofList isFields))

theorem interfaceElem :
    Builds room machine (Production.interfaceElem (P := P)) (Graded (8 * room + 8)) := by
  refine skip look fun cursor => choice (fun _ => ?_) fun _ => ?_
  · refine skip ident fun name => bind graded.signature fun shape isShape => done ?_
    exact .node trivial rfl isShape
  · exact bind graded.typeElem fun elem isElem => done (.node trivial rfl (isElem.mono (by omega)))

theorem interfaceType :
    Builds room machine (Production.interfaceType (P := P)) (Graded (8 * room + 9)) := by
  refine skip (mark _) fun keyword => skip (mark _) fun lBrace => ?_
  refine bind (itemsUntil fun _ => withSemicolon graded.interfaceElem) fun elems isElems => ?_
  exact skip (mark _) fun rBrace => done (.node trivial rfl (.ofList isElems))

/-! ## Types -/

theorem pointerType :
    Builds room machine (Production.pointerType (P := P)) (Graded (8 * room + 4)) := by
  refine skip (mark _) ?_
  intro _
  exact bind graded.type fun _ isElem => done (.node trivial rfl isElem)

theorem parenType : Builds room machine (Production.parenType (P := P)) (Graded (8 * room + 4)) := by
  refine inHeader ?_
  refine skip (mark _) ?_
  intro _
  refine bind graded.type ?_
  intro _ isInner
  exact skip (mark _) fun _ => done (.node trivial rfl isInner)

theorem typeFrom
    {token : Token}
    {production : Production P (TypeExpr P)}
    (found : Production.typeFrom token = some production) :
    Builds room machine production (Graded (8 * room + 9)) := by
  unfold Production.typeFrom at found
  split at found
  all_goals cases found
  · refine bind graded.typeName fun name isName => done ?_
    exact .node trivial rfl (isName.mono (by omega))
  · exact graded.pointerType.weaken fun _ isType => isType.mono (by omega)
  · exact graded.parenType.weaken fun _ isType => isType.mono (by omega)
  · exact bind graded.funcType fun type isType => done (.node trivial rfl isType)
  · exact graded.arrayOrSliceType
  · exact graded.mapType.weaken fun _ isType => isType.mono (by omega)
  · exact graded.chanType.weaken fun _ isType => isType.mono (by omega)
  · exact graded.chanType.weaken fun _ isType => isType.mono (by omega)
  · exact graded.structType.weaken fun _ isType => isType.mono (by omega)
  · exact graded.interfaceType

theorem typeRule :
    Builds room machine (Production.typeRule (P := P)) fun found =>
      ∀ type ∈ found, type.Graded (8 * room + 3) := by
  refine nested fun less isLess => skip look fun cursor => ?_
  split
  · next production found =>
      refine bind (graded.typeFrom found) fun type isType => done_some ?_
      exact isType.mono (by omega)
  · exact done_none

end BuildsGraded
end GoFront
