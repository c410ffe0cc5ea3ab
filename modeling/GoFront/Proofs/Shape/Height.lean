import GoFront.Proofs.Forms.WellFormed
import GoFront.Tree.Walk

/-!
# The height of a tree

A tree is as high as its longest way down from the root has nodes, and so deep every recursion over its
nodes goes. A phrase is one node higher than the highest of its parts; names and marks add little.
-/

namespace GoFront

variable {P : Type}

/-! ## Nodes -/

mutual

/-- The number of nodes on the longest way down from a node. -/
def Node.height : Node P -> Nat
  | .mk _ _ fields => Field.heightOfAll fields + 1

/-- The height of the highest child in a list of fields. -/
def Field.heightOfAll : List (Field P) -> Nat
  | [] => 0
  | field :: fields => max field.height (Field.heightOfAll fields)

/-- The height of the child in a field, if there is one. -/
def Field.height : Field P -> Nat
  | .child _ node => node.height
  | .leaf _ _ | .place _ _ | .absent _ | .emptyList _ => 0

end

theorem Node.height_within
    (category : String)
    (node : Node P) :
    (node.within category).height = node.height := by
  cases node
  rfl

/-! ## Fields -/

/-- All children in a list of fields are within a bound. -/
def Field.AllWithin (bound : Nat) (fields : List (Field P)) : Prop :=
  Field.heightOfAll fields ≤ bound

namespace Field.AllWithin

variable {bound : Nat} {fields : List (Field P)} {label : String} {inner : Node P}

theorem nil : AllWithin bound ([] : List (Field P)) :=
  Nat.zero_le bound

theorem child
    (low : inner.height ≤ bound)
    (rest : AllWithin bound fields) :
    AllWithin bound (.child label inner :: fields) :=
  Nat.max_le.2 ⟨low, rest⟩

theorem skip
    {field : Field P}
    (noChild : field.height = 0)
    (rest : AllWithin bound fields) :
    AllWithin bound (field :: fields) :=
  Nat.max_le.2 ⟨Nat.le_trans (Nat.le_of_eq noChild) (Nat.zero_le bound), rest⟩

theorem last (low : inner.height ≤ bound) : AllWithin bound [.child label inner] :=
  child low nil

theorem optional
    {inner : Option (Node P)}
    (low : ∀ node ∈ inner, node.height ≤ bound)
    (rest : AllWithin bound fields) :
    AllWithin bound (.optional label inner :: fields) := by
  cases inner with
  | none => exact skip rfl rest
  | some node => exact child (low node rfl) rest

theorem lastOptional
    {inner : Option (Node P)}
    (low : ∀ node ∈ inner, node.height ≤ bound) :
    AllWithin bound [.optional label inner] :=
  optional low nil

theorem several
    {nodes : List (Node P)}
    (low : ∀ node ∈ nodes, node.height ≤ bound)
    (rest : AllWithin bound fields) :
    AllWithin bound (Field.children label nodes ++ fields) := by
  have each (nodes : List (Node P)) (low : ∀ node ∈ nodes, node.height ≤ bound) :
      AllWithin bound (nodes.map (Field.child label) ++ fields) := by
    induction nodes with
    | nil => exact rest
    | cons node nodes inductionHypothesis =>
        obtain ⟨here, behind⟩ := List.forall_mem_cons.1 low
        exact child here (inductionHypothesis behind)
  cases nodes with
  | nil => exact skip rfl rest
  | cons node nodes => exact each (node :: nodes) low

theorem lastSeveral
    {nodes : List (Node P)}
    (low : ∀ node ∈ nodes, node.height ≤ bound) :
    AllWithin bound (Field.children label nodes) := by
  rw [← List.append_nil (Field.children label nodes)]
  exact several low nil

/-- A leaf is a node without children. -/
theorem leaf
    (isLeaf : inner.height = 1)
    (rest : AllWithin (bound + 1) fields) :
    AllWithin (bound + 1) (.child label inner :: fields) :=
  child (Nat.le_trans (Nat.le_of_eq isLeaf) (Nat.le_add_left 1 bound)) rest

theorem node (low : AllWithin bound inner.fields) : inner.height ≤ bound + 1 := by
  cases inner
  exact Nat.succ_le_succ low

end Field.AllWithin

/-! ## Leaves -/

theorem Ident.height_listNode_le
    (names : List (Ident P))
    (bound : Nat) :
    (listNode names).height ≤ bound + 2 := by
  apply Field.AllWithin.node
  apply Field.AllWithin.lastSeveral
  intro node member
  obtain ⟨name, -, rfl⟩ := List.mem_map.1 member
  exact Nat.le_add_left 1 bound

theorem ImportName.height_node (name : ImportName P) : name.node.height = 1 := by
  cases name <;> rfl

theorem GuardBinding.height_node_le
    (bound : Nat)
    (guarded : GuardBinding P) :
    guarded.node.height ≤ bound + 2 :=
  Nat.le_add_left 2 bound

/-- A leaf that may be missing. -/
theorem height_le_of_mem_map
    {α : Type}
    {node : α -> Node P}
    {bound : Nat}
    (isLow : ∀ value, (node value).height ≤ bound)
    (value : Option α) :
    ∀ found ∈ value.map node, found.height ≤ bound := by
  intro found member
  obtain ⟨value, -, rfl⟩ := Option.map_eq_some_iff.1 member
  exact isLow value

/-- A node without children that may be missing. -/
theorem height_le_of_mem_map_leaf
    {α : Type}
    {node : α -> Node P}
    {bound : Nat}
    (isLeaf : ∀ value, (node value).height = 1)
    (value : Option α) :
    ∀ found ∈ value.map node, found.height ≤ bound + 1 :=
  height_le_of_mem_map (fun value => Nat.le_trans (Nat.le_of_eq (isLeaf value))
    (Nat.le_add_left 1 bound)) value

/-! ## Trees -/

/-- What a slot of the tree looks like is within a bound. -/
def Slot.Within (bound : Nat) : (slot : Slot) -> slot.View P -> Prop
  | one _, node => Node.height node ≤ bound
  | many _, nodes => ∀ node ∈ (show List (Node P) from nodes), node.height ≤ bound
  | maybe _, node => ∀ found ∈ (show Option (Node P) from node), found.height ≤ bound

namespace Tree

open GoFront.Field (AllWithin)

/-- Every way down from a tree is within a bound. -/
def Within (bound : Nat) {slot : Slot} (tree : Tree P slot) : Prop :=
  slot.Within bound tree.view

theorem Within.mono
    {slot : Slot}
    {tree : Tree P slot}
    {bound larger : Nat}
    (within : tree.Within bound)
    (more : bound ≤ larger) :
    tree.Within larger := by
  unfold Within at within ⊢
  cases slot with
  | one phrase => exact Nat.le_trans within more
  | many phrase => exact fun node member => Nat.le_trans (within node member) more
  | maybe phrase => exact fun node member => Nat.le_trans (within node member) more


/-- Within a bound are both parts of a list, or the phrase that may be missing. -/
theorem within_cons
    {phrase : Phrase}
    {head : Tree P (.one phrase)}
    {tail : Tree P (.many phrase)}
    {bound : Nat}
    (headLow : head.Within bound)
    (tailLow : tail.Within bound) :
    (cons head tail).Within bound :=
  List.forall_mem_cons.2 ⟨headLow, tailLow⟩

theorem within_present
    {phrase : Phrase}
    {tree : Tree P (.one phrase)}
    {bound : Nat}
    (low : tree.Within bound) :
    (present tree).Within bound := by
  intro found isFound
  obtain rfl := Option.some.inj isFound
  exact low

/-- A phrase that is seen as another one in a category is as high as that one. -/
theorem within_category
    {phrase : Phrase}
    {tree : Tree P (.one phrase)}
    {bound : Nat}
    (category : String)
    (low : tree.Within bound) :
    (Node.within category tree.view).height ≤ bound + 1 := by
  apply Nat.le_succ_of_le
  exact Nat.le_trans (Nat.le_of_eq (Node.height_within category tree.view)) low

/-- A phrase is at most one node higher than its parts, but for names and marks. -/
theorem within_of_children {bound : Nat} : {slot : Slot} -> (tree : Tree P slot) ->
    (tree.children.Forall fun part => part.2.Within (bound + 2)) -> tree.Within (bound + 3)
  -- slots with many phrases, or possibly one
  | _, nil, _ => List.forall_mem_nil _
  | _, cons _ _, low =>
      within_cons (low.1.mono (Nat.le_succ _)) (low.2.mono (Nat.le_succ _))
  | _, absent, _ => nofun
  | _, present _, low => within_present (low.mono (Nat.le_succ _))
  -- expressions
  | _, ident _, _ => Nat.le_add_left 1 _
  | _, basicLit _, _ => Nat.le_add_left 1 _
  | _, compositeLit .., low =>
      AllWithin.node <| .optional low.1 <| .leaf rfl <| .child low.2 <| .leaf rfl .nil
  | _, funcLit .., low => AllWithin.node <| .child low.1 <| .last low.2
  | _, callExpr _, low => within_category _ low
  | _, index .., low =>
      AllWithin.node <| .child low.1 <| .leaf rfl <| .child low.2 <| .leaf rfl .nil
  | _, instantiation .., low => AllWithin.node <| .child low.1 <| .last low.2
  | _, simpleSlice .., low =>
      AllWithin.node <| .child low.1 <| .leaf rfl <| .optional low.2.1 <| .leaf rfl <|
        .optional low.2.2 <| .leaf rfl .nil
  | _, fullSlice .., low =>
      AllWithin.node <| .child low.1 <| .leaf rfl <| .optional low.2.1 <| .leaf rfl <|
        .child low.2.2.1 <| .leaf rfl <| .child low.2.2.2 <| .leaf rfl .nil
  | _, selector .., low => AllWithin.node <| .child low <| .leaf rfl <| .leaf rfl .nil
  | _, typeAssertion .., low =>
      AllWithin.node <| .child low.1 <| .leaf rfl <| .leaf rfl <| .child low.2 <| .leaf rfl .nil
  | _, typeQuery .., low =>
      AllWithin.node <| .child low <| .leaf rfl <| .leaf rfl <| .leaf rfl <| .leaf rfl .nil
  | _, group .., low => AllWithin.node <| .leaf rfl <| .child low <| .leaf rfl .nil
  | _, binary .., low => AllWithin.node <| .child low.1 <| .leaf rfl <| .last low.2
  | _, unary .., low => AllWithin.node <| .leaf rfl <| .last low
  | _, typeOperand _, low => within_category _ low
  | _, exprList _, low => AllWithin.node <| .lastSeveral low
  | _, call _ _ _ ellipsis _, low =>
      AllWithin.node <| .child low.1 <| .leaf rfl <| .child low.2 <|
        .optional (height_le_of_mem_map_leaf (fun _ => rfl) ellipsis) <| .leaf rfl .nil
  | _, element .., low => AllWithin.node <| .optional low.1 <| .last low.2
  | _, elementKey .., low => AllWithin.node <| .child low <| .leaf rfl .nil
  | _, elementList _, low => AllWithin.node <| .lastSeveral low
  -- types
  | _, namedType _, low => within_category _ low
  | _, arrayType .., low =>
      AllWithin.node <| .leaf rfl <| .child low.1 <| .leaf rfl <| .last low.2
  | _, countedArrayType .., low =>
      AllWithin.node <| .leaf rfl <| .leaf rfl <| .leaf rfl <| .last low
  | _, sliceType .., low => AllWithin.node <| .leaf rfl <| .leaf rfl <| .last low
  | _, mapType .., low =>
      AllWithin.node <| .leaf rfl <| .leaf rfl <| .child low.1 <| .leaf rfl <| .last low.2
  | _, chanType _ _ arrow _, low =>
      AllWithin.node <| .skip rfl <| .leaf rfl <|
        .optional (height_le_of_mem_map_leaf (fun _ => rfl) arrow) <| .last low
  | _, functionType _, low => within_category _ low
  | _, structType .., low =>
      AllWithin.node <| .leaf rfl <| .leaf rfl <| .several low <| .leaf rfl .nil
  | _, interfaceType .., low =>
      AllWithin.node <| .leaf rfl <| .leaf rfl <| .several low <| .leaf rfl .nil
  | _, pointerType .., low => AllWithin.node <| .leaf rfl <| .last low
  | _, parenType .., low => AllWithin.node <| .leaf rfl <| .child low <| .leaf rfl .nil
  | _, typeList _, low => AllWithin.node <| .lastSeveral low
  | _, typeName package _ _, low =>
      AllWithin.node <| .optional (height_le_of_mem_map_leaf (fun _ => rfl) package) <|
        .leaf rfl <| .lastOptional low
  | _, typeArgs .., low => AllWithin.node <| .leaf rfl <| .child low <| .leaf rfl .nil
  | _, funcType .., low => AllWithin.node <| .leaf rfl <| .last low
  | _, namedField names _ tag, low =>
      AllWithin.node <| .child (Ident.height_listNode_le names bound) <| .child low <|
        .lastOptional (height_le_of_mem_map_leaf (fun _ => rfl) tag)
  | _, embeddedField star _ tag, low =>
      AllWithin.node <| .optional (height_le_of_mem_map_leaf (fun _ => rfl) star) <| .child low <|
        .lastOptional (height_le_of_mem_map_leaf (fun _ => rfl) tag)
  | _, method .., low => AllWithin.node <| .leaf rfl <| .last low
  | _, constraint _, low => Nat.le_succ_of_le low
  | _, typeElem _, low => AllWithin.node <| .lastSeveral low
  | _, exactTerm _, low => Nat.le_succ_of_le low
  | _, underlyingTerm .., low => AllWithin.node <| .leaf rfl <| .last low
  -- signatures and type parameters
  | _, signature .., low => AllWithin.node <| .child low.1 <| .lastOptional low.2
  | _, resultParams _, low => Nat.le_succ_of_le low
  | _, resultType _, low => Nat.le_succ_of_le low
  | _, params .., low => AllWithin.node <| .leaf rfl <| .several low <| .leaf rfl .nil
  | _, param names ellipsis _, low =>
      AllWithin.node <|
        .optional (height_le_of_mem_map (Ident.height_listNode_le · bound) names) <|
        .optional (height_le_of_mem_map_leaf (fun _ => rfl) ellipsis) <| .last low
  | _, typeParams .., low => AllWithin.node <| .leaf rfl <| .several low <| .leaf rfl .nil
  | _, typeParam names _, low =>
      AllWithin.node <| .child (Ident.height_listNode_le names bound) <| .last low
  -- statements
  | _, declStmt _, low => within_category _ low
  | _, blockStmt _, low => within_category _ low
  | _, conditional _, low => within_category _ low
  | _, forStmt .., low => AllWithin.node <| .leaf rfl <| .optional low.1 <| .last low.2
  | _, exprSwitch .., low =>
      AllWithin.node <| .leaf rfl <| .optional low.1 <| .optional low.2.1 <| .leaf rfl <|
        .several low.2.2 <| .leaf rfl .nil
  | _, typeSwitch .., low =>
      AllWithin.node <| .leaf rfl <| .optional low.1 <| .child low.2.1 <| .leaf rfl <|
        .several low.2.2 <| .leaf rfl .nil
  | _, selectStmt .., low =>
      AllWithin.node <| .leaf rfl <| .leaf rfl <| .several low <| .leaf rfl .nil
  | _, labeled .., low => AllWithin.node <| .leaf rfl <| .leaf rfl <| .last low
  | _, goStmt .., low => AllWithin.node <| .leaf rfl <| .last low
  | _, deferStmt .., low => AllWithin.node <| .leaf rfl <| .last low
  | _, returnStmt .., low => AllWithin.node <| .leaf rfl <| .lastOptional low
  | _, gotoStmt .., _ => AllWithin.node <| .leaf rfl <| .leaf rfl .nil
  | _, breakStmt _ label, _ =>
      AllWithin.node <| .leaf rfl <|
        .lastOptional (height_le_of_mem_map_leaf (fun _ => rfl) label)
  | _, continueStmt _ label, _ =>
      AllWithin.node <| .leaf rfl <|
        .lastOptional (height_le_of_mem_map_leaf (fun _ => rfl) label)
  | _, fallthroughStmt _, _ => AllWithin.node <| .leaf rfl .nil
  | _, simple _, low => within_category _ low
  | _, stmtList _, low => AllWithin.node <| .lastSeveral low
  | _, assignment .., low => AllWithin.node <| .child low.1 <| .leaf rfl <| .last low.2
  | _, shortVarDecl names _ _, low =>
      AllWithin.node <| .child (Ident.height_listNode_le names bound) <| .leaf rfl <| .last low
  | _, incDec .., low => AllWithin.node <| .child low <| .leaf rfl .nil
  | _, send .., low => AllWithin.node <| .child low.1 <| .leaf rfl <| .last low.2
  | _, receive .., low => AllWithin.node <| .optional low.1 <| .last low.2
  | _, exprStmt _, low => AllWithin.node <| .last low
  | _, emptyStmt _, _ => AllWithin.node <| .skip rfl .nil
  | _, block .., low => AllWithin.node <| .leaf rfl <| .child low <| .leaf rfl .nil
  | _, ifStmt .., low =>
      AllWithin.node <| .leaf rfl <| .optional low.1 <| .child low.2.1 <| .child low.2.2.1 <|
        .lastOptional low.2.2.2
  | _, elseIf .., low => AllWithin.node <| .leaf rfl <| .last low
  | _, elseBlock .., low => AllWithin.node <| .leaf rfl <| .last low
  | _, whileTrue _, low => Nat.le_succ_of_le low
  | _, forClause .., low =>
      AllWithin.node <| .optional low.1 <| .optional low.2.1 <| .lastOptional low.2.2
  | _, rangeClause .., low => AllWithin.node <| .optional low.1 <| .leaf rfl <| .last low.2
  | _, boundNames names, _ => Nat.le_succ_of_le (Ident.height_listNode_le names bound)
  | _, boundExprs _, low => Nat.le_succ_of_le low
  | _, binding .., low => AllWithin.node <| .child low <| .leaf rfl .nil
  | _, guard bound? _, low =>
      AllWithin.node <|
        .optional (height_le_of_mem_map (GuardBinding.height_node_le bound) bound?) <| .last low
  | _, defaultCase _, _ => AllWithin.node <| .leaf rfl .nil
  | _, exprCase .., low => AllWithin.node <| .leaf rfl <| .last low
  | _, typeCase .., low => AllWithin.node <| .leaf rfl <| .last low
  | _, commCase .., low => AllWithin.node <| .leaf rfl <| .last low
  | _, caseClause .., low => AllWithin.node <| .child low.1 <| .leaf rfl <| .last low.2
  -- declarations
  | _, funcDecl .., low =>
      AllWithin.node <| .leaf rfl <| .leaf rfl <| .optional low.1 <| .child low.2.1 <|
        .lastOptional low.2.2
  | _, methodDecl .., low =>
      AllWithin.node <| .leaf rfl <| .child low.1 <| .leaf rfl <| .child low.2.1 <|
        .lastOptional low.2.2
  | _, specified .., low => within_category _ low
  | _, specDecl .., low => AllWithin.node <| .leaf rfl <| .last low
  | _, importSpec name _, _ =>
      AllWithin.node <| .optional (height_le_of_mem_map_leaf ImportName.height_node name) <|
        .leaf rfl .nil
  | _, constSpec names _ _, low =>
      AllWithin.node <| .child (Ident.height_listNode_le names bound) <| .optional low.1 <|
        .lastOptional low.2
  | _, varSpecOf _, low => within_category _ low
  | _, typeSpecOf _, low => within_category _ low
  | _, groupSpecOf _, low => within_category _ low
  | _, varSpec names _ _, low =>
      AllWithin.node <| .child (Ident.height_listNode_le names bound) <| .optional low.1 <|
        .lastOptional low.2
  | _, typeDef .., low => AllWithin.node <| .leaf rfl <| .optional low.1 <| .last low.2
  | _, aliasDecl .., low => AllWithin.node <| .leaf rfl <| .leaf rfl <| .last low
  | _, groupSpec .., low =>
      AllWithin.node <| .skip rfl <| .leaf rfl <| .several low <| .leaf rfl .nil

end Tree
end GoFront
