import GoFront.Proofs.Forms.WellFormed
import GoFront.Proofs.Reading.Outline
import Mathlib.Data.List.Nodup
import Mathlib.Data.List.Pairwise

/-!
# Brackets close one phrase each

The leaves of a tree hold the leaves of its parts one after the other, and behind them the bracket that
closes its list, if it has one. Where no two leaves stand at one place, a bracket closes one list only.
-/

namespace GoFront

variable {P : Type}

namespace Tree

/-- The bracket behind a list in which commas separate and the last one can be left out: arguments of a
call, elements, parameters or type parameters. -/
def listCloser? : {slot : Slot} -> Tree P slot -> Option (Mark P)
  | _, call _ _ _ _ rParen => some rParen
  | _, compositeLit _ _ _ rBrace => some rBrace
  | _, params _ _ rParen => some rParen
  | _, typeParams _ _ rBrack => some rBrack
  | _, _ => none

/-- The bracket behind a list in which commas separate, type arguments among them. -/
def closer? : {slot : Slot} -> Tree P slot -> Option (Mark P)
  | _, typeArgs _ _ rBrack => some rBrack
  | _, tree => tree.listCloser?

theorem closer?_of_listCloser?
    {slot : Slot}
    {tree : Tree P slot}
    {bracket : Mark P}
    (closes : tree.listCloser? = some bracket) :
    tree.closer? = some bracket := by
  cases tree with
  | typeArgs => cases closes
  | _ => exact closes

/-- Mentions tell of parts one after the other, and of a closing bracket, if there is one, behind them. -/
def Told
    (parts : List ((slot : Slot) × Tree P slot))
    (closer : Option (Mark P))
    (mentions : List (Mention P)) : Prop :=
  ((parts.flatMap fun part => part.2.leaves) ++ closer.toList.map Mark.lexeme).Sublist
    (Mention.leaves mentions)

namespace Told

variable {parts : List ((slot : Slot) × Tree P slot)} {closer : Option (Mark P)}
  {mentions before : List (Mention P)} {slot : Slot} {tree : Tree P slot}

theorem nothing : Told [] none mentions :=
  List.nil_sublist _

theorem closed {bracket : Mark P} : Told [] (some bracket) [bracket.mention] :=
  List.Sublist.refl _

theorem behind (told : Told parts closer mentions) : Told parts closer (before ++ mentions) := by
  rw [Told, Mention.leaves_append]
  exact told.trans (List.sublist_append_right _ _)

theorem leaf
    {mention : Mention P}
    (told : Told parts closer mentions) :
    Told parts closer (mention :: mentions) :=
  told.trans ((List.sublist_cons_self mention mentions).filterMap _)

theorem next (told : Told parts closer mentions) :
    Told (⟨slot, tree⟩ :: parts) closer (tree.outline ++ mentions) := by
  rw [Told, Mention.leaves_append, List.flatMap_cons, List.append_assoc]
  exact told.append_left _

theorem last : Told [⟨slot, tree⟩] none tree.outline := by
  rw [Told, List.flatMap_singleton]
  exact (List.append_nil tree.leaves).symm ▸ List.Sublist.refl _

/-- Each term of a union is told behind a bar, which is no leaf. -/
theorem terms : (terms : Tree P (.many .typeTerm)) -> Told [⟨_, terms⟩] none terms.outline.tail
  | nil => last
  | cons (exactTerm _) _ | cons (underlyingTerm _ _) _ => last

end Told

/-- Every tree tells of its parts in order. -/
theorem told {slot : Slot} (tree : Tree P slot) : Told tree.children tree.closer? tree.outline := by
  cases tree with
  | nil | absent | ident | basicLit | gotoStmt | breakStmt | continueStmt | fallthroughStmt | emptyStmt
  | boundNames | defaultCase | importSpec => exact .nothing
  | present | callExpr | typeOperand | exprList | elementList | namedType | functionType | typeList
  | constraint | resultParams | resultType | declStmt | blockStmt | conditional | simple | stmtList
  | exprStmt | whileTrue | boundExprs | specified | varSpecOf | typeSpecOf | groupSpecOf => exact .last
  | selector | typeQuery | elementKey | incDec | binding => exact .next .nothing
  | unary | pointerType | funcType | method | exactTerm | goStmt | deferStmt | returnStmt | elseIf
  | elseBlock | exprCase | typeCase | commCase | specDecl => exact .leaf .last
  | cons | funcLit | instantiation | element | signature | receive => exact .next .last
  | binary | assignment | send | rangeClause | caseClause => exact .next (.leaf .last)
  | group | parenType | block | groupSpec => exact .leaf (.next .nothing)
  | sliceType | underlyingTerm | labeled | aliasDecl => exact .leaf (.leaf .last)
  | structType | interfaceType | selectStmt => exact .leaf (.leaf (.next .nothing))
  | namedField | embeddedField => exact .behind (.next .nothing)
  | typeParam | guard => exact .behind .last
  | forStmt | typeDef => exact .leaf (.next .last)
  | exprSwitch | typeSwitch => exact .leaf (.next (.next (.leaf (.next .nothing))))
  | typeArgs | params | typeParams => exact .leaf (.next .closed)
  | compositeLit => exact .next (.leaf (.next .closed))
  | call => exact .next (.leaf (.next (.behind .closed)))
  | index => exact .next (.leaf (.next .nothing))
  | simpleSlice => exact .next (.leaf (.next (.leaf (.next .nothing))))
  | fullSlice => exact .next (.leaf (.next (.leaf (.next (.leaf (.next .nothing))))))
  | typeAssertion => exact .next (.leaf (.leaf (.next .nothing)))
  | arrayType => exact .leaf (.next (.leaf .last))
  | countedArrayType => exact .leaf (.leaf (.leaf .last))
  | mapType => exact .leaf (.leaf (.next (.leaf .last)))
  | chanType direction =>
      cases direction with
      | recv => exact .behind (.leaf .last)
      | send | both => exact .leaf (.behind .last)
  | typeName package =>
      cases package with
      | none => exact .leaf .last
      | some _ => exact .leaf (.leaf (.leaf .last))
  | typeElem members => exact .terms members
  | param => exact .behind (.behind .last)
  | shortVarDecl => exact .behind (.leaf .last)
  | ifStmt => exact .leaf (.next (.next (.next .last)))
  | forClause => exact .next (.next .last)
  | funcDecl => exact .leaf (.leaf (.next (.next .last)))
  | methodDecl => exact .leaf (.next (.leaf (.next .last)))
  | constSpec _ _ values | varSpec _ _ values =>
      cases values with
      | absent => exact .behind (.next .last)
      | present _ => exact .behind (.next (.leaf .last))

/-! ## Places of leaves -/

/-- Where the leaves of a tree stand. -/
def places {slot : Slot} (tree : Tree P slot) : List P :=
  tree.leaves.map Lexeme.pos

variable {inner middle outer : Slot} {tree : Tree P outer} {node : Tree P inner} {other : Tree P middle}
  {bracket otherBracket : Mark P}

theorem places_sublist (tree : Tree P outer) :
    ((tree.children.flatMap fun part => part.2.places) ++ tree.closer?.toList.map Mark.pos).Sublist
      tree.places := by
  have told : List.Sublist _ _ := tree.told.map Lexeme.pos
  rwa [List.map_append, List.map_flatMap, List.map_map] at told

/-- The leaves of a part are leaves of the whole. -/
theorem places_subset_of_occurs (occurs : Occurs node tree) : node.places ⊆ tree.places := by
  induction occurs with
  | refl => exact List.Subset.refl _
  | inside isChild _ inductionHypothesis =>
      intro place member
      refine (places_sublist _).subset (List.mem_append_left _ ?_)
      exact List.mem_flatMap_of_mem isChild (inductionHypothesis member)

theorem mem_places_of_closer (closes : node.closer? = some bracket) : bracket.pos ∈ node.places :=
  (places_sublist node).subset (List.mem_append_right _ (by simp [closes]))

/-- The bracket behind a list stands apart from everything in it. -/
theorem pos_ne_of_inside
    (nodup : tree.places.Nodup)
    (closes : tree.closer? = some bracket)
    (otherCloses : other.closer? = some otherBracket)
    {slot : Slot}
    {child : Tree P slot}
    (isChild : ⟨slot, child⟩ ∈ tree.children)
    (occurs : Occurs other child) :
    bracket.pos ≠ otherBracket.pos := by
  intro same
  have apart := List.disjoint_of_nodup_append (nodup.sublist (places_sublist tree))
  refine apart (?_ : otherBracket.pos ∈ _) (by simp [closes, same])
  exact List.mem_flatMap_of_mem isChild
    (places_subset_of_occurs occurs (mem_places_of_closer otherCloses))

/-- Trees that share the place of a leaf are the same, if no two leaves of several trees stand at one
place. -/
theorem eq_of_mem_places
    {trees : List ((slot : Slot) × Tree P slot)}
    {first second : (slot : Slot) × Tree P slot}
    {place : P}
    (nodup : (trees.flatMap fun tree => tree.2.places).Nodup)
    (isFirst : first ∈ trees)
    (isSecond : second ∈ trees)
    (inFirst : place ∈ first.2.places)
    (inSecond : place ∈ second.2.places) :
    first = second := by
  by_contra different
  have disjoint := (List.nodup_flatMap.1 nodup).2
  have : Std.Symm (Function.onFun List.Disjoint fun tree : (slot : Slot) × Tree P slot =>
    tree.2.places) := ⟨fun _ _ apart _ inSecond inFirst => apart inFirst inSecond⟩
  exact disjoint.forall isFirst isSecond different inFirst inSecond

/-- A bracket closes one list only. -/
theorem eq_of_closer
    (nodup : tree.places.Nodup)
    (occurs : Occurs node tree)
    (otherOccurs : Occurs other tree)
    (closes : node.closer? = some bracket)
    (otherCloses : other.closer? = some otherBracket)
    (same : bracket.pos = otherBracket.pos) :
    (⟨inner, node⟩ : (slot : Slot) × Tree P slot) = ⟨middle, other⟩ := by
  induction occurs with
  | refl =>
      cases otherOccurs with
      | refl => rfl
      | inside isChild otherOccurs =>
          exact absurd same (pos_ne_of_inside nodup closes otherCloses isChild otherOccurs)
  | inside isChild occurs inductionHypothesis =>
      cases otherOccurs with
      | refl =>
          exact absurd same.symm (pos_ne_of_inside nodup otherCloses closes isChild occurs)
      | inside otherIsChild otherOccurs =>
          have partsNodup := (nodup.sublist (places_sublist _)).of_append_left
          cases eq_of_mem_places partsNodup isChild otherIsChild
            (places_subset_of_occurs occurs (mem_places_of_closer closes))
            (places_subset_of_occurs otherOccurs (same ▸ mem_places_of_closer otherCloses))
          exact inductionHypothesis ((List.nodup_flatMap.1 partsNodup).1 _ isChild) otherOccurs closes

end Tree
end GoFront
