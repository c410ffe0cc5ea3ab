import GoFront.Tree.Node

/-!
# Indented dumps

A dump shows a node by a header and its fields one level deeper, each on a line of its own. The first
place among the fields of a node is the place of the node itself and stands on its header. Texts are
shown as they are.
-/

namespace GoFront

/-- How a dump is laid out. -/
structure DumpOptions where
  indent : String := "  "
  positions : Bool := true
  filenames : Bool := false
  deriving DecidableEq, Repr

namespace DumpOptions

/-- The indentation at a depth. -/
def margin (options : DumpOptions) (depth : Nat) : String :=
  String.join (List.replicate depth options.indent)

/-- A place as the options show it. -/
def placeText (options : DumpOptions) (pos : Position) : String :=
  if options.filenames then pos.text else pos.place

end DumpOptions

/-- The first place among the fields of a node. -/
def Field.ownPlace? {P : Type} : List (Field P) -> Option P
  | [] => none
  | .place _ pos :: _ => some pos
  | _ :: fields => ownPlace? fields

/-- The header of a node. -/
def Node.header
    (options : DumpOptions)
    (label : Option String)
    (node : Node Position) : String :=
  let labelText := (label.map (· ++ ": ")).getD ""
  let categoryText := (node.category.map fun category => "[" ++ category ++ "] ").getD ""
  let placeText :=
    if options.positions then
      ((Field.ownPlace? node.fields).map fun pos => " " ++ options.placeText pos).getD ""
    else ""
  labelText ++ categoryText ++ node.name ++ placeText

mutual

/-- The lines of a node at a depth, under an optional label. -/
def Node.lines
    (options : DumpOptions)
    (label : Option String)
    (depth : Nat) : Node Position -> List String
  | .mk category name fields =>
      (options.margin depth ++ Node.header options label (.mk category name fields))
        :: Field.linesAll options (depth + 1) true fields

/-- The lines of a list of fields. `first` tells whether the first place is still to come. -/
def Field.linesAll
    (options : DumpOptions)
    (depth : Nat) : (first : Bool) -> List (Field Position) -> List String
  | _, [] => []
  | first, .place label pos :: fields =>
      (if first || !options.positions then []
        else [options.margin depth ++ label ++ ": " ++ options.placeText pos])
        ++ Field.linesAll options depth false fields
  | first, field :: fields =>
      field.lines options depth ++ Field.linesAll options depth first fields

/-- The lines of a field that is no place. -/
def Field.lines
    (options : DumpOptions)
    (depth : Nat) : Field Position -> List String
  | .child label node => node.lines options (some label) depth
  | .leaf label text => [options.margin depth ++ label ++ ": " ++ text]
  | .place _ _ => []
  | .absent label => [options.margin depth ++ label ++ ": -"]
  | .emptyList label => [options.margin depth ++ label ++ ": []"]

end

/-- The dump of a node as a root. -/
def Node.dump (options : DumpOptions) (node : Node Position) : String :=
  String.join ((node.lines options none 0).map (· ++ "\n"))

end GoFront
