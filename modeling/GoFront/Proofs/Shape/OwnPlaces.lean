import GoFront.Tree.Walk

/-!
# The places of nodes

Names, marks, literals, comments and empty statements begin with their place. No other node of a tree
has a place among its fields, so that the only place of a node is its own.
-/

namespace GoFront

variable {P : Type}

/-! ## Nodes -/

/-- Whether a field is a place. -/
def Field.isPlace : Field P -> Bool
  | place _ _ => true
  | child _ _ | leaf _ _ | absent _ | emptyList _ => false

mutual

/-- No node has a place behind its own. -/
def Node.PlacedOnce : Node P -> Prop
  | .mk _ _ fields => Field.PlacedOnceAll true fields

/-- A list of fields has no place behind the first one. `first` tells whether the first place is still
to come. -/
def Field.PlacedOnceAll : (first : Bool) -> List (Field P) -> Prop
  | _, [] => True
  | first, field :: fields =>
      field.PlacedOnce ∧ (field.isPlace -> first)
        ∧ Field.PlacedOnceAll (first && !field.isPlace) fields

/-- No node in a field has a place behind its own. -/
def Field.PlacedOnce : Field P -> Prop
  | .child _ node => node.PlacedOnce
  | .leaf _ _ | .place _ _ | .absent _ | .emptyList _ => True

end

mutual

/-- What holds below a node holds below the nodes in it. -/
theorem Node.placedOnce_of_mem_preorder
    {inner : Node P} :
    (node : Node P) -> node.PlacedOnce -> inner ∈ node.preorder -> inner.PlacedOnce
  | .mk _ _ fields, placedOnce, member => by
      obtain rfl | below := List.mem_cons.1 member
      · exact placedOnce
      · exact Field.placedOnce_of_mem_preorderAll true fields placedOnce below

theorem Field.placedOnce_of_mem_preorderAll
    {inner : Node P} :
    (first : Bool) -> (fields : List (Field P)) -> Field.PlacedOnceAll first fields ->
      inner ∈ Field.preorderAll fields -> inner.PlacedOnce
  | first, field :: fields, ⟨here, _, behind⟩, member => by
      obtain inField | inFields := List.mem_append.1 member
      · exact Field.placedOnce_of_mem_preorder field here inField
      · exact Field.placedOnce_of_mem_preorderAll _ fields behind inFields

theorem Field.placedOnce_of_mem_preorder
    {inner : Node P} :
    (field : Field P) -> field.PlacedOnce -> inner ∈ field.preorder -> inner.PlacedOnce
  | .child _ node, placedOnce, member => Node.placedOnce_of_mem_preorder node placedOnce member

end

theorem Node.placedOnce_within
    {node : Node P}
    (category : String)
    (placedOnce : node.PlacedOnce) :
    (node.within category).PlacedOnce := by
  cases node
  exact placedOnce

@[simp] theorem Node.placedOnce_mk
    (category : Option String)
    (name : String)
    (fields : List (Field P)) :
    (mk category name fields).PlacedOnce ↔ Field.PlacedOnceAll true fields := .rfl

namespace Field

variable {first : Bool} {fields : List (Field P)} {label : String}

@[simp] theorem placedOnceAll_nil : PlacedOnceAll first ([] : List (Field P)) := trivial

@[simp] theorem placedOnceAll_place {pos : P} :
    PlacedOnceAll first (.place label pos :: fields) ↔ first ∧ PlacedOnceAll false fields := by
  simp [PlacedOnceAll, PlacedOnce, isPlace]

/-- A field that is no place changes nothing for those behind it. -/
theorem placedOnceAll_cons
    {field : Field P}
    (notPlace : field.isPlace = false) :
    PlacedOnceAll first (field :: fields) ↔ field.PlacedOnce ∧ PlacedOnceAll first fields := by
  simp [PlacedOnceAll, notPlace]

@[simp] theorem placedOnceAll_child {node : Node P} :
    PlacedOnceAll first (.child label node :: fields)
      ↔ node.PlacedOnce ∧ PlacedOnceAll first fields :=
  placedOnceAll_cons rfl

@[simp] theorem placedOnceAll_leaf {text : String} :
    PlacedOnceAll first (.leaf label text :: fields) ↔ PlacedOnceAll first fields :=
  (placedOnceAll_cons rfl).trans (and_iff_right trivial)

@[simp] theorem placedOnceAll_absent :
    PlacedOnceAll first (.absent label :: fields) ↔ PlacedOnceAll first fields :=
  (placedOnceAll_cons rfl).trans (and_iff_right trivial)

@[simp] theorem placedOnceAll_emptyList :
    PlacedOnceAll first (.emptyList label :: fields) ↔ PlacedOnceAll first fields :=
  (placedOnceAll_cons rfl).trans (and_iff_right trivial)

@[simp] theorem placedOnceAll_optional {node : Option (Node P)} :
    PlacedOnceAll first (.optional label node :: fields)
      ↔ (∀ found ∈ node, found.PlacedOnce) ∧ PlacedOnceAll first fields := by
  cases node <;> simp [optional]

@[simp] theorem placedOnceAll_children_append {nodes : List (Node P)} :
    PlacedOnceAll first (children label nodes ++ fields)
      ↔ (∀ node ∈ nodes, node.PlacedOnce) ∧ PlacedOnceAll first fields := by
  have each (nodes : List (Node P)) :
      PlacedOnceAll first (nodes.map (child label) ++ fields)
        ↔ (∀ node ∈ nodes, node.PlacedOnce) ∧ PlacedOnceAll first fields := by
    induction nodes with
    | nil => simp
    | cons node nodes inductionHypothesis => simp [inductionHypothesis, and_assoc]
  cases nodes with
  | nil => simp [children]
  | cons node nodes => exact each (node :: nodes)

@[simp] theorem placedOnceAll_children {nodes : List (Node P)} :
    PlacedOnceAll first (children label nodes) ↔ ∀ node ∈ nodes, node.PlacedOnce := by
  rw [← List.append_nil (children label nodes), placedOnceAll_children_append]
  exact and_iff_left placedOnceAll_nil

end Field

/-! ## Leaves -/

@[simp] theorem Ident.placedOnce_node (name : Ident P) : name.node.PlacedOnce := by
  simp [node, Node.plain]

@[simp] theorem Mark.placedOnce_node (name : String) (mark : Mark P) :
    (Node.plain name mark.fields).PlacedOnce := by
  simp [fields, Node.plain]

@[simp] theorem Mark.placedOnce_keywordNode (mark : Mark P) : mark.keywordNode.PlacedOnce :=
  mark.placedOnce_node _

@[simp] theorem Mark.placedOnce_operatorNode (mark : Mark P) : mark.operatorNode.PlacedOnce :=
  mark.placedOnce_node _

@[simp] theorem Mark.placedOnce_punctNode (mark : Mark P) : mark.punctNode.PlacedOnce :=
  mark.placedOnce_node _

@[simp] theorem BasicLit.placedOnce_node (literal : BasicLit P) : literal.node.PlacedOnce := by
  simp [node, Node.plain]

@[simp] theorem Comment.placedOnce_node (comment : Comment P) : comment.node.PlacedOnce := by
  simp [node, Node.plain]

@[simp] theorem Ident.placedOnce_listNode (names : List (Ident P)) :
    (listNode names).PlacedOnce := by
  simp [listNode, Node.plain]

@[simp] theorem ImportName.placedOnce_node (name : ImportName P) : name.node.PlacedOnce := by
  cases name <;> simp [node]

@[simp] theorem GuardBinding.placedOnce_node (binding : GuardBinding P) :
    binding.node.PlacedOnce := by
  simp [node, Node.plain]

/-! ## Trees -/

/-- No node that a slot of the tree looks like has a place behind its own. -/
def Slot.PlacedOnce : (slot : Slot) -> slot.View P -> Prop
  | one _, node => Node.PlacedOnce node
  | many _, nodes => ∀ node ∈ (show List (Node P) from nodes), node.PlacedOnce
  | maybe _, node => ∀ found ∈ (show Option (Node P) from node), found.PlacedOnce

namespace Tree

variable {phrase : Phrase} {first : Bool} {fields : List (Field P)} {label : String}

@[simp] theorem placedOnceAll_view (tree : Tree P (.one phrase)) :
    Field.PlacedOnceAll first (.child label tree.view :: fields)
      ↔ Slot.PlacedOnce _ tree.view ∧ Field.PlacedOnceAll first fields :=
  Field.placedOnceAll_child

@[simp] theorem placedOnceAll_optional_view (tree : Tree P (.maybe phrase)) :
    Field.PlacedOnceAll first (.optional label tree.view :: fields)
      ↔ Slot.PlacedOnce _ tree.view ∧ Field.PlacedOnceAll first fields :=
  Field.placedOnceAll_optional

@[simp] theorem placedOnceAll_children_view_append (tree : Tree P (.many phrase)) :
    Field.PlacedOnceAll first (Field.children label tree.view ++ fields)
      ↔ Slot.PlacedOnce _ tree.view ∧ Field.PlacedOnceAll first fields :=
  Field.placedOnceAll_children_append

@[simp] theorem placedOnceAll_children_view (tree : Tree P (.many phrase)) :
    Field.PlacedOnceAll first (Field.children label tree.view)
      ↔ Slot.PlacedOnce _ tree.view :=
  Field.placedOnceAll_children

theorem placedOnce {slot : Slot} (tree : Tree P slot) : slot.PlacedOnce tree.view := by
  induction tree with
  | nil => exact List.forall_mem_nil _
  | cons _ _ headPlaced tailPlaced => exact List.forall_mem_cons.2 ⟨headPlaced, tailPlaced⟩
  | absent => exact nofun
  | present _ placed =>
      intro found isFound
      obtain rfl := Option.some.inj isFound
      exact placed
  | callExpr _ placed | typeOperand _ placed | namedType _ placed | functionType _ placed
  | declStmt _ placed | blockStmt _ placed | conditional _ placed | simple _ placed
  | specified _ _ placed | varSpecOf _ placed | typeSpecOf _ placed | groupSpecOf _ placed =>
      exact Node.placedOnce_within _ placed
  | constraint _ placed | exactTerm _ placed | resultParams _ placed | resultType _ placed
  | whileTrue _ placed | boundExprs _ placed => exact placed
  | _ =>
      change Field.PlacedOnceAll true _
      simp [*]

end Tree

theorem PackageClause.placedOnce_node (clause : PackageClause P) : clause.node.PlacedOnce := by
  simp [node, Node.plain]

theorem File.placedOnce_node (file : File P) : file.node.PlacedOnce := by
  cases named : file.filename <;>
    simp [node, named, Node.plain, Tree.placedOnce, PackageClause.placedOnce_node]

end GoFront
