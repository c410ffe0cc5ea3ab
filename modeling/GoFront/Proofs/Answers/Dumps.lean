import GoFront.Proofs.Shape.OwnPlaces
import GoFront.Tree.Dump

/-!
# Dumps, walks and counts

A dump is laid out from a listing in which no option has a part: what each line shows, how deep it
stands and which place it names. The nodes are listed as a walk enters them, as deep as it is then, and
as many as are counted. A walk reports all that is listed but for the empty lists.
-/

namespace GoFront

variable {P : Type}

/-! ## Listings -/

/-- What a line of a dump shows, but for the place that it names. -/
inductive DumpEntry
  | header (label category : Option String) (name : String)
  | leaf (label text : String)
  | place (label : String)
  | absent (label : String)
  | emptyList (label : String)
  deriving DecidableEq, Repr

namespace DumpEntry

/-- What a line shows, in words. -/
def text : DumpEntry -> String
  | header label category name =>
      (label.map (· ++ ": ")).getD ""
        ++ (category.map fun category => "[" ++ category ++ "] ").getD "" ++ name
  | leaf label text => label ++ ": " ++ text
  | place label => label ++ ":"
  | absent label => label ++ ": -"
  | emptyList label => label ++ ": []"

/-- Whether a line is the header of a node. -/
def isHeader : DumpEntry -> Bool
  | header .. => true
  | leaf .. | place _ | absent _ | emptyList _ => false

/-- Whether a line shows nothing but a place. -/
def isPlace : DumpEntry -> Bool
  | place _ => true
  | header .. | leaf .. | absent _ | emptyList _ => false

/-- Whether a line shows what a walk reports apart from places. -/
def isWalked : DumpEntry -> Bool
  | header .. | leaf .. | absent _ => true
  | place _ | emptyList _ => false

end DumpEntry

/-- A line of a dump: how deep it stands, what it shows, and the place that it names. -/
structure DumpLine (P : Type) where
  depth : Nat
  entry : DumpEntry
  pos? : Option P
  deriving DecidableEq, Repr

mutual

/-- The lines that a dump shows for a node at a depth, under an optional label. -/
def Node.listing
    (label : Option String)
    (depth : Nat) : Node P -> List (DumpLine P)
  | .mk category name fields =>
      ⟨depth, .header label category name, Field.ownPlace? fields⟩
        :: Field.listingAll (depth + 1) true fields

/-- The lines for a list of fields. `first` tells whether the first place is still to come. -/
def Field.listingAll (depth : Nat) : (first : Bool) -> List (Field P) -> List (DumpLine P)
  | _, [] => []
  | first, .place label pos :: fields =>
      (if first then [] else [⟨depth, .place label, some pos⟩])
        ++ Field.listingAll depth false fields
  | first, field :: fields => field.listing depth ++ Field.listingAll depth first fields

/-- The lines for a field that is no place. -/
def Field.listing (depth : Nat) : Field P -> List (DumpLine P)
  | .child label node => node.listing (some label) depth
  | .leaf label text => [⟨depth, .leaf label text, none⟩]
  | .place _ _ => []
  | .absent label => [⟨depth, .absent label, none⟩]
  | .emptyList label => [⟨depth, .emptyList label, none⟩]

end

/-! ## Layouts -/

/-- A place behind what a line shows, if places are shown. -/
def DumpOptions.placeSuffix
    (options : DumpOptions)
    (pos? : Option Position) : String :=
  if options.positions then (pos?.map fun pos => " " ++ options.placeText pos).getD "" else ""

namespace DumpLine

/-- A line as the options lay it out. They have a part in the margin and in the place alone. -/
def text
    (options : DumpOptions)
    (line : DumpLine Position) : String :=
  options.margin line.depth ++ (line.entry.text ++ options.placeSuffix line.pos?)

/-- Whether the options have a line shown. -/
def isShown
    (options : DumpOptions)
    (line : DumpLine P) : Bool :=
  options.positions || !line.entry.isPlace

/-- The lines that the options show, as they lay them out. -/
def layout
    (options : DumpOptions)
    (lines : List (DumpLine Position)) : List String :=
  (lines.filter (isShown options)).map (text options)

theorem layout_append
    (options : DumpOptions)
    (first second : List (DumpLine Position)) :
    layout options (first ++ second) = layout options first ++ layout options second := by
  rw [layout, List.filter_append, List.map_append]
  rfl

/-- A line that shows more than a place is laid out by any options. -/
theorem layout_cons
    {options : DumpOptions}
    {line : DumpLine Position}
    (notPlace : line.entry.isPlace = false)
    (lines : List (DumpLine Position)) :
    layout options (line :: lines) = text options line :: layout options lines := by
  have shown : isShown options line = true := by rw [isShown, notPlace, Bool.not_false, Bool.or_true]
  rw [layout, List.filter_cons_of_pos shown]
  rfl

/-- A line without a place. -/
theorem text_of_placeless
    (options : DumpOptions)
    (depth : Nat)
    (entry : DumpEntry) :
    text options ⟨depth, entry, none⟩ = options.margin depth ++ entry.text := by
  have noPlace : options.placeSuffix none = "" := ite_self _
  rw [text, noPlace, String.append_empty]

/-- A place on a line of its own is laid out where places are shown. -/
theorem layout_place
    (options : DumpOptions)
    (depth : Nat)
    (label : String)
    (pos : Position) :
    layout options [⟨depth, .place label, some pos⟩]
      = if options.positions then [options.margin depth ++ label ++ ": " ++ options.placeText pos]
        else [] := by
  cases shown : options.positions with
  | false => simp [layout, isShown, DumpEntry.isPlace, shown]
  | true =>
      have separated : ": " ++ options.placeText pos = ":" ++ (" " ++ options.placeText pos) :=
        (String.append_assoc : ":" ++ " " ++ options.placeText pos = _)
      simp [layout, isShown, text, DumpEntry.text, DumpOptions.placeSuffix, shown, separated,
        String.append_assoc]

end DumpLine

/-- The header of a node is the first of its lines. -/
theorem Node.margin_append_header
    (options : DumpOptions)
    (label : Option String)
    (depth : Nat)
    (node : Node Position) :
    options.margin depth ++ node.header options label
      = DumpLine.text options
          ⟨depth, .header label node.category node.name, Field.ownPlace? node.fields⟩ := rfl

namespace Field

theorem linesAll_cons
    {field : Field Position}
    (notPlace : field.isPlace = false)
    (options : DumpOptions)
    (depth : Nat)
    (first : Bool)
    (fields : List (Field Position)) :
    linesAll options depth first (field :: fields)
      = field.lines options depth ++ linesAll options depth first fields := by
  cases field with
  | place => cases notPlace
  | _ => rfl

theorem listingAll_cons
    {field : Field P}
    (notPlace : field.isPlace = false)
    (depth : Nat)
    (first : Bool)
    (fields : List (Field P)) :
    listingAll depth first (field :: fields)
      = field.listing depth ++ listingAll depth first fields := by
  cases field with
  | place => cases notPlace
  | _ => rfl

/-- A list of fields is laid out field by field. -/
theorem linesAll_eq_cons
    {options : DumpOptions}
    {depth : Nat}
    {first : Bool}
    {field : Field Position}
    {fields : List (Field Position)}
    (notPlace : field.isPlace = false)
    (here : field.lines options depth = DumpLine.layout options (field.listing depth))
    (behind : linesAll options depth first fields
      = DumpLine.layout options (listingAll depth first fields)) :
    linesAll options depth first (field :: fields)
      = DumpLine.layout options (listingAll depth first (field :: fields)) := by
  rw [linesAll_cons notPlace, listingAll_cons notPlace, DumpLine.layout_append, here, behind]

/-- A place is laid out on a line of its own, unless it is the first one. -/
theorem linesAll_eq_place
    {options : DumpOptions}
    {depth : Nat}
    {first : Bool}
    {label : String}
    {pos : Position}
    {fields : List (Field Position)}
    (behind : linesAll options depth false fields
      = DumpLine.layout options (listingAll depth false fields)) :
    linesAll options depth first (.place label pos :: fields)
      = DumpLine.layout options (listingAll depth first (.place label pos :: fields)) := by
  rw [linesAll, listingAll, DumpLine.layout_append, behind]
  cases first with
  | true => rfl
  | false =>
      rw [if_neg Bool.false_ne_true, DumpLine.layout_place]
      cases options.positions <;> rfl

end Field

mutual

/-- A dump of a node is laid out from its listing. -/
theorem Node.lines_eq
    (options : DumpOptions)
    (label : Option String)
    (depth : Nat) :
    (node : Node Position) ->
      node.lines options label depth = DumpLine.layout options (node.listing label depth)
  | .mk category name fields => by
      rw [Node.lines, Node.listing, DumpLine.layout_cons rfl,
        ← Field.linesAll_eq options (depth + 1) true fields, Node.margin_append_header]
      rfl

theorem Field.linesAll_eq
    (options : DumpOptions)
    (depth : Nat) :
    (first : Bool) -> (fields : List (Field Position)) ->
      Field.linesAll options depth first fields
        = DumpLine.layout options (Field.listingAll depth first fields)
  | _, [] => rfl
  | first, field :: fields => by
      cases isPlace : field.isPlace with
      | false =>
          exact Field.linesAll_eq_cons isPlace (Field.lines_eq options depth field)
            (Field.linesAll_eq options depth first fields)
      | true =>
          cases field with
          | place label pos =>
              exact Field.linesAll_eq_place (Field.linesAll_eq options depth false fields)
          | _ => cases isPlace

theorem Field.lines_eq
    (options : DumpOptions)
    (depth : Nat) :
    (field : Field Position) ->
      field.lines options depth = DumpLine.layout options (field.listing depth)
  | .child label node => Node.lines_eq options (some label) depth node
  | .leaf .. | .absent _ | .emptyList _ => by
      rw [Field.listing, DumpLine.layout_cons rfl, DumpLine.text_of_placeless, Field.lines]
      simp [DumpEntry.text, DumpLine.layout, String.append_assoc]
  | .place .. => rfl

end

/-! ## Walks -/

namespace WalkEvent

/-- Whether a node is entered. -/
def isEnter : WalkEvent P -> Bool
  | enter .. => true
  | leave | leaf .. | place .. | absent _ => false

/-- What a walk reports apart from places, each at the depth that the walk has there. -/
def entries : (depth : Nat) -> List (WalkEvent P) -> List (Nat × DumpEntry)
  | _, [] => []
  | depth, enter label category name :: events =>
      (depth, .header (some label) category name) :: entries (depth + 1) events
  | depth, leave :: events => entries (depth - 1) events
  | depth, leaf label text :: events => (depth, .leaf label text) :: entries depth events
  | depth, absent label :: events => (depth, .absent label) :: entries depth events
  | depth, place _ _ :: events => entries depth events

end WalkEvent

namespace DumpLine

/-- What a line shows that a walk reports, with the depth of the line. -/
def walked? (line : DumpLine P) : Option (Nat × DumpEntry) :=
  if line.entry.isWalked then some (line.depth, line.entry) else none

/-- The name and the category of the node whose header a line is. -/
def headed? (line : DumpLine P) : Option (Option String × String) :=
  match line.entry with
  | .header _ category name => some (category, name)
  | .leaf .. | .place _ | .absent _ | .emptyList _ => none

end DumpLine

/-- The listing of a node is its header in front of its fields. -/
theorem Node.listing_eq
    (label : Option String)
    (depth : Nat)
    (node : Node P) :
    node.listing label depth
      = ⟨depth, .header label node.category node.name, Field.ownPlace? node.fields⟩
        :: Field.listingAll (depth + 1) true node.fields := by
  cases node
  rfl

/-- For what passes over places it does not matter which place is the first. -/
theorem Field.exists_filterMap_listingAll_cons
    {α : Type}
    (shown? : DumpLine P -> Option α)
    (passesOver : ∀ depth label pos?, shown? ⟨depth, .place label, pos?⟩ = none)
    (depth : Nat)
    (first : Bool)
    (field : Field P)
    (fields : List (Field P)) :
    ∃ next, (listingAll depth first (field :: fields)).filterMap shown?
      = (field.listing depth).filterMap shown? ++ (listingAll depth next fields).filterMap shown? := by
  cases isPlace : field.isPlace with
  | false => exact ⟨first, by rw [listingAll_cons isPlace, List.filterMap_append]⟩
  | true =>
      cases field with
      | place label pos =>
          refine ⟨false, ?_⟩
          cases first with
          | true => rfl
          | false => exact List.filterMap_cons_none (passesOver depth label (some pos))
      | _ => cases isPlace

mutual

/-- A walk through a node reports what is listed below its header. -/
theorem Node.entries_walk_append
    (depth : Nat)
    (rest : List (WalkEvent P)) :
    (node : Node P) ->
      WalkEvent.entries depth (node.walk ++ rest)
        = (Field.listingAll depth true node.fields).filterMap DumpLine.walked?
          ++ WalkEvent.entries depth rest
  | .mk _ _ fields => Field.entries_walkAll_append depth rest true fields

theorem Field.entries_walkAll_append
    (depth : Nat)
    (rest : List (WalkEvent P)) :
    (first : Bool) -> (fields : List (Field P)) ->
      WalkEvent.entries depth (Field.walkAll fields ++ rest)
        = (Field.listingAll depth first fields).filterMap DumpLine.walked?
          ++ WalkEvent.entries depth rest
  | _, [] => rfl
  | first, field :: fields => by
      obtain ⟨next, listed⟩ := Field.exists_filterMap_listingAll_cons DumpLine.walked?
        (fun _ _ _ => rfl) depth first field fields
      rw [Field.walkAll, List.append_assoc, Field.entries_walk_append depth _ field,
        Field.entries_walkAll_append depth rest next fields, listed, List.append_assoc]

theorem Field.entries_walk_append
    (depth : Nat)
    (rest : List (WalkEvent P)) :
    (field : Field P) ->
      WalkEvent.entries depth (field.walk ++ rest)
        = (field.listing depth).filterMap DumpLine.walked? ++ WalkEvent.entries depth rest
  | .child label node => by
      rw [Field.walk, Field.listing, Node.listing_eq, List.cons_append,
        List.cons_append, List.append_assoc, WalkEvent.entries, Node.entries_walk_append (depth + 1) _ node]
      rfl
  | .leaf .. | .place .. | .absent _ | .emptyList _ => rfl

end

/-- What is listed and walked is the node itself and then what a walk reports, at its depth. -/
theorem Node.walked_listing (node : Node P) :
    (node.listing none 0).filterMap DumpLine.walked?
      = (0, .header none node.category node.name) :: WalkEvent.entries 1 node.walk := by
  have walked := node.entries_walk_append 1 []
  rw [List.append_nil] at walked
  rw [walked, listing_eq]
  exact congrArg (_ :: ·) (List.append_nil _).symm

/-! ## Counts -/

mutual

/-- The headers of a listing are those of the nodes in preorder. -/
theorem Node.headed_listing
    (label : Option String)
    (depth : Nat) :
    (node : Node P) ->
      (node.listing label depth).filterMap DumpLine.headed?
        = node.preorder.map fun inner => (inner.category, inner.name)
  | .mk _ _ fields => congrArg (_ :: ·) (Field.headed_listingAll (depth + 1) true fields)

theorem Field.headed_listingAll (depth : Nat) :
    (first : Bool) -> (fields : List (Field P)) ->
      (Field.listingAll depth first fields).filterMap DumpLine.headed?
        = (Field.preorderAll fields).map fun inner => (inner.category, inner.name)
  | _, [] => rfl
  | first, field :: fields => by
      obtain ⟨next, listed⟩ := Field.exists_filterMap_listingAll_cons DumpLine.headed?
        (fun _ _ _ => rfl) depth first field fields
      rw [listed, Field.headed_listing depth field, Field.headed_listingAll depth next fields,
        Field.preorderAll, List.map_append]

theorem Field.headed_listing (depth : Nat) :
    (field : Field P) ->
      (field.listing depth).filterMap DumpLine.headed?
        = field.preorder.map fun inner => (inner.category, inner.name)
  | .child label node => Node.headed_listing (some label) depth node
  | .leaf .. | .place .. | .absent _ | .emptyList _ => rfl

end

mutual

theorem Node.length_preorder : (node : Node P) -> node.preorder.length = node.count
  | .mk _ _ fields => by
      rw [Node.preorder, Node.count, List.length_cons, Field.length_preorderAll fields, Nat.add_comm]

theorem Field.length_preorderAll :
    (fields : List (Field P)) -> (Field.preorderAll fields).length = Field.countAll fields
  | [] => rfl
  | field :: fields => by
      rw [Field.preorderAll, Field.countAll, List.length_append, Field.length_preorder field,
        Field.length_preorderAll fields]

theorem Field.length_preorder : (field : Field P) -> field.preorder.length = field.count
  | .child _ node => Node.length_preorder node
  | .leaf .. | .place .. | .absent _ | .emptyList _ => rfl

end

mutual

/-- A node counts as one more than a walk through it enters. -/
theorem Node.count_eq_entered :
    (node : Node P) -> node.count = 1 + node.walk.countP WalkEvent.isEnter
  | .mk _ _ fields => congrArg (1 + ·) (Field.countAll_eq_entered fields)

theorem Field.countAll_eq_entered :
    (fields : List (Field P)) ->
      Field.countAll fields = (Field.walkAll fields).countP WalkEvent.isEnter
  | [] => rfl
  | field :: fields => by
      rw [Field.countAll, Field.walkAll, List.countP_append, Field.count_eq_entered field,
        Field.countAll_eq_entered fields]

theorem Field.count_eq_entered :
    (field : Field P) -> field.count = field.walk.countP WalkEvent.isEnter
  | .child label node => by
      rw [Field.count, Field.walk, List.cons_append, List.countP_cons_of_pos rfl, List.countP_append,
        Node.count_eq_entered node, Nat.add_comm]
      rfl
  | .leaf .. | .place .. | .absent _ | .emptyList _ => rfl

end

/-- A node counts as many as headers are listed for it. -/
theorem Node.count_eq_headers (node : Node P) :
    node.count = (node.listing none 0).countP fun line => line.entry.isHeader := by
  have isHeader_eq (line : DumpLine P) : line.entry.isHeader = (DumpLine.headed? line).isSome := by
    obtain ⟨depth, entry, pos?⟩ := line
    cases entry <;> rfl
  simp only [isHeader_eq]
  rw [← List.length_filterMap_eq_countP, headed_listing, List.length_map, length_preorder]

/-! ## Lines without a place of their own -/

/-- Where no place stands behind the first, fields are listed one by one. -/
theorem Field.listingAll_cons_of_placedOnce
    {first : Bool}
    {field : Field P}
    (isOwn : field.isPlace -> first)
    (depth : Nat)
    (fields : List (Field P)) :
    listingAll depth first (field :: fields)
      = field.listing depth ++ listingAll depth (first && !field.isPlace) fields := by
  cases field with
  | place label pos =>
      obtain rfl := isOwn rfl
      rfl
  | _ =>
      rw [listingAll_cons rfl]
      cases first <;> rfl

mutual

/-- If no node has a place behind its own, places stand on headers only. -/
theorem Node.isPlace_of_mem_listing
    {line : DumpLine P}
    (label : Option String)
    (depth : Nat) :
    (node : Node P) -> node.PlacedOnce -> line ∈ node.listing label depth ->
      line.entry.isPlace = false
  | .mk _ _ fields, placedOnce, member => by
      obtain rfl | below := List.mem_cons.1 member
      · rfl
      · exact Field.isPlace_of_mem_listingAll (depth + 1) true fields placedOnce below

theorem Field.isPlace_of_mem_listingAll
    {line : DumpLine P}
    (depth : Nat) :
    (first : Bool) -> (fields : List (Field P)) -> Field.PlacedOnceAll first fields ->
      line ∈ Field.listingAll depth first fields -> line.entry.isPlace = false
  | first, field :: fields, ⟨here, isOwn, behind⟩, member => by
      rw [Field.listingAll_cons_of_placedOnce isOwn] at member
      obtain inField | inFields := List.mem_append.1 member
      · exact Field.isPlace_of_mem_listing depth field here inField
      · exact Field.isPlace_of_mem_listingAll depth _ fields behind inFields

theorem Field.isPlace_of_mem_listing
    {line : DumpLine P}
    (depth : Nat) :
    (field : Field P) -> field.PlacedOnce -> line ∈ field.listing depth ->
      line.entry.isPlace = false
  | .child label node, placedOnce, member =>
      Node.isPlace_of_mem_listing (some label) depth node placedOnce member
  | .leaf .. , _, member | .absent _, _, member | .emptyList _, _, member => by
      obtain rfl := List.mem_singleton.1 member
      rfl

end

/-- A dump shows every line of the listing. -/
theorem Node.dump_eq
    {node : Node Position}
    (placedOnce : node.PlacedOnce)
    (options : DumpOptions) :
    node.dump options
      = String.join ((node.listing none 0).map fun line => line.text options ++ "\n") := by
  have allShown : (node.listing none 0).filter (DumpLine.isShown options) = node.listing none 0 := by
    refine List.filter_eq_self.2 fun line member => ?_
    rw [DumpLine.isShown, isPlace_of_mem_listing none 0 node placedOnce member, Bool.not_false,
      Bool.or_true]
  rw [dump, lines_eq, DumpLine.layout, allShown, List.map_map]
  rfl

/-! ## Agreement -/

/-- The consumers of trees agree about a node. -/
structure Node.Agreed (node : Node Position) : Prop where
  /-- The node counts as one more than a walk through it enters. -/
  entered : node.count = 1 + node.walk.countP WalkEvent.isEnter
  /-- It counts as many as a dump has headers. -/
  headed : node.count = (node.listing none 0).countP fun line => line.entry.isHeader
  /-- The headers are those of its nodes in preorder. -/
  preorder : (node.listing none 0).filterMap DumpLine.headed?
    = node.preorder.map fun inner => (inner.category, inner.name)
  /-- The lines stand in the order of the walk and as deep as the walk is there. -/
  walked : (node.listing none 0).filterMap DumpLine.walked?
    = (0, .header none node.category node.name) :: WalkEvent.entries 1 node.walk
  /-- With any options the lines are the same but for their margins and the places behind them. -/
  dumped : ∀ options : DumpOptions, node.dump options
    = String.join ((node.listing none 0).map fun line =>
        options.margin line.depth ++ (line.entry.text ++ options.placeSuffix line.pos?) ++ "\n")

theorem Node.agreed_of_placedOnce
    {node : Node Position}
    (placedOnce : node.PlacedOnce) :
    node.Agreed where
  entered := node.count_eq_entered
  headed := node.count_eq_headers
  preorder := node.headed_listing none 0
  walked := node.walked_listing
  dumped := dump_eq placedOnce

/-- Counts, walks and dumps agree about every node of every tree. -/
theorem tree_consumers_agree :
    (∀ file : File Position, ∀ node ∈ file.node.preorder, node.Agreed)
      ∧ ∀ (phrase : Phrase) (tree : Tree Position (.one phrase)),
        ∀ node ∈ Node.preorder tree.view, node.Agreed := by
  refine ⟨fun file node member => ?_, fun phrase tree node member => ?_⟩
  · exact Node.agreed_of_placedOnce
      (Node.placedOnce_of_mem_preorder _ file.placedOnce_node member)
  · exact Node.agreed_of_placedOnce (Node.placedOnce_of_mem_preorder _ tree.placedOnce member)

/-- The operand of a negation, and the negation itself. -/
theorem tree_consumers_agree_negation :
    Node.Agreed (Tree.unary ⟨.minus, ⟨0, 1, none⟩⟩ (.ident ⟨"x", ⟨1, 1, none⟩⟩)).view
      ∧ Node.Agreed (Tree.ident ⟨"x", ⟨1, 1, none⟩⟩).view := by
  have agreed := tree_consumers_agree.2 .expr
    (Tree.unary ⟨.minus, ⟨0, 1, none⟩⟩ (.ident ⟨"x", ⟨1, 1, none⟩⟩))
  exact ⟨agreed _ (.head _), agreed _ (.tail _ (.tail _ (.head _)))⟩

end GoFront
