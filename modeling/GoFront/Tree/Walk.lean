import GoFront.Tree.Node

/-!
# Walking a tree

Three ways to visit the nodes of a tree in depth-first order with the fields of each node from left to
right: counting them, listing them, and reporting every field of the walk as an event.
-/

namespace GoFront

variable {P : Type}

/-! ## Counting -/

mutual

/-- The number of nodes of a tree, its root included. -/
def Node.count : Node P -> Nat
  | .mk _ _ fields => 1 + Field.countAll fields

/-- The number of nodes below a list of fields. -/
def Field.countAll : List (Field P) -> Nat
  | [] => 0
  | field :: fields => field.count + Field.countAll fields

/-- The number of nodes below a field. -/
def Field.count : Field P -> Nat
  | .child _ node => node.count
  | .leaf _ _ | .place _ _ | .absent _ | .emptyList _ => 0

end

/-! ## Listing -/

mutual

/-- The nodes of a tree, its root first. -/
def Node.preorder : Node P -> List (Node P)
  | .mk category name fields => .mk category name fields :: Field.preorderAll fields

/-- The nodes below a list of fields. -/
def Field.preorderAll : List (Field P) -> List (Node P)
  | [] => []
  | field :: fields => field.preorder ++ Field.preorderAll fields

/-- The nodes below a field. -/
def Field.preorder : Field P -> List (Node P)
  | .child _ node => node.preorder
  | .leaf _ _ | .place _ _ | .absent _ | .emptyList _ => []

end

/-! ## Events -/

/-- What a walk meets. A child is reported when it is entered and again when it has been left. -/
inductive WalkEvent (P : Type)
  | enter (label : String) (category : Option String) (name : String)
  | leave
  | leaf (label : String) (text : String)
  | place (label : String) (pos : P)
  | absent (label : String)
  deriving DecidableEq, Repr

mutual

/-- The walk through the fields of a node. The node itself is not reported. -/
def Node.walk : Node P -> List (WalkEvent P)
  | .mk _ _ fields => Field.walkAll fields

/-- The walk through a list of fields. -/
def Field.walkAll : List (Field P) -> List (WalkEvent P)
  | [] => []
  | field :: fields => field.walk ++ Field.walkAll fields

/-- The walk through a field. An empty list reports nothing. -/
def Field.walk : Field P -> List (WalkEvent P)
  | .child label node => .enter label node.category node.name :: node.walk ++ [.leave]
  | .leaf label text => [.leaf label text]
  | .place label pos => [.place label pos]
  | .absent label => [.absent label]
  | .emptyList _ => []

end

namespace WalkEvent

/-- An event on a line of its own. -/
def text : WalkEvent Position -> String
  | enter label category name =>
    let shown := category.getD "-"
    s!"node {label} {shown} {name}"
  | leave => "end"
  | leaf label text => s!"leaf {label} {text}"
  | place label pos => s!"pos {label} {pos.text}"
  | absent label => s!"absent {label}"

end WalkEvent
end GoFront
