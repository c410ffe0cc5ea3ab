import GoFront.Proofs.Forms.WellFormed

/-!
# Clear headers

Behind the header of a control statement stands its body, which begins with a brace. A brace behind a
named type could as well open a composite literal. The parts of a header that stand in the open, outside
of all brackets, are therefore searched for composite literals of named types: a header is clear if it
has none of them, so that no literal can have taken the place of the body.
-/

namespace GoFront
namespace Tree

variable {P : Type} {slot : Slot}

/-! ## Parts in the open -/

/-- The parts of a tree with no bracket between them and the tree: operands, the bases of suffixes, and
the expressions of simple statements. -/
def openParts : {slot : Slot} -> Tree P slot -> List ((slot : Slot) × Tree P slot)
  | _, cons head tail => [⟨_, head⟩, ⟨_, tail⟩]
  | _, present tree => [⟨_, tree⟩]
  -- expressions
  | _, callExpr invocation => [⟨_, invocation⟩]
  | _, call func .. => [⟨_, func⟩]
  | _, index base .. | _, instantiation base _ | _, simpleSlice base .. | _, fullSlice base ..
  | _, selector base .. | _, typeAssertion base .. | _, typeQuery base .. => [⟨_, base⟩]
  | _, binary left _ right => [⟨_, left⟩, ⟨_, right⟩]
  | _, unary _ operand => [⟨_, operand⟩]
  | _, exprList exprs => [⟨_, exprs⟩]
  -- simple statements and loop headers
  | _, assignment left _ right => [⟨_, left⟩, ⟨_, right⟩]
  | _, shortVarDecl _ _ values => [⟨_, values⟩]
  | _, incDec expr _ | _, exprStmt expr => [⟨_, expr⟩]
  | _, send channel _ value => [⟨_, channel⟩, ⟨_, value⟩]
  | _, receive bound expr => [⟨_, bound⟩, ⟨_, expr⟩]
  | _, whileTrue condition => [⟨_, condition⟩]
  | _, forClause init condition post => [⟨_, init⟩, ⟨_, condition⟩, ⟨_, post⟩]
  | _, rangeClause bound _ expr => [⟨_, bound⟩, ⟨_, expr⟩]
  | _, boundExprs exprs => [⟨_, exprs⟩]
  | _, binding list _ => [⟨_, list⟩]
  | _, guard _ expr => [⟨_, expr⟩]
  | _, _ => []

/-- A tree stands in the open in another one, or is that tree. -/
inductive InOpen : {inner outer : Slot} -> Tree P inner -> Tree P outer -> Prop
  | refl {slot : Slot} (tree : Tree P slot) : InOpen tree tree
  | inside {inner middle outer : Slot}
      {node : Tree P inner}
      {part : Tree P middle}
      {tree : Tree P outer}
      (isPart : ⟨middle, part⟩ ∈ tree.openParts)
      (inOpen : InOpen node part) : InOpen node tree

/-- Whether a tree is a composite literal of a named type. -/
def isNamedLiteral : {slot : Slot} -> Tree P slot -> Bool
  | _, compositeLit (present (namedType _)) .. => true
  | _, _ => false

/-- No composite literal of a named type stands in the open. -/
structure Clear (tree : Tree P slot) : Prop where
  not_named : ∀ {inner : Slot} {node : Tree P inner}, InOpen node tree -> node.isNamedLiteral = false

/-! ## Headers -/

/-- What stands between the keyword of a control statement and its body. -/
def headerParts : {slot : Slot} -> Tree P slot -> List ((slot : Slot) × Tree P slot)
  | _, ifStmt _ init condition .. => [⟨_, init⟩, ⟨_, condition⟩]
  | _, forStmt _ iteration _ => [⟨_, iteration⟩]
  | _, exprSwitch _ init tag .. => [⟨_, init⟩, ⟨_, tag⟩]
  | _, typeSwitch _ init subject .. => [⟨_, init⟩, ⟨_, subject⟩]
  | _, _ => []

/-- The headers of all control statements in a tree are clear. -/
structure HeadersClear (tree : Tree P slot) : Prop where
  clear_of_occurs : ∀ {inner : Slot} {node : Tree P inner}, Occurs node tree ->
    ∀ part ∈ node.headerParts, part.2.Clear

end Tree

/-- The headers of all control statements in a file are clear. -/
structure File.HeadersClear {P : Type} (file : File P) : Prop where
  imports : file.imports.HeadersClear
  decls : file.decls.HeadersClear

namespace Tree

variable {P : Type} {slot inner : Slot}

/-! ## Putting clear trees together -/

/-- What stands in the open is a part of the tree. -/
theorem openParts_subset_children (tree : Tree P slot) : tree.openParts ⊆ tree.children := by
  cases tree <;> first
    | exact List.nil_subset _
    | exact List.Subset.refl _
    | exact List.cons_subset_cons _ (List.nil_subset _)

namespace Clear

variable {tree : Tree P slot}

theorem of_parts
    (notNamed : tree.isNamedLiteral = false)
    (parts : tree.openParts.Forall fun part => part.2.Clear) :
    tree.Clear := by
  have each := List.forall_iff_forall_mem.1 parts
  constructor
  intro inner node inOpen
  cases inOpen with
  | refl => exact notNamed
  | inside isPart inOpen => exact (each _ isPart).not_named inOpen

theorem part
    {part : Tree P inner}
    (clear : tree.Clear)
    (isPart : ⟨inner, part⟩ ∈ tree.openParts) :
    part.Clear := by
  constructor
  intro slot node inOpen
  exact clear.not_named (.inside isPart inOpen)

end Clear

namespace HeadersClear

variable {tree : Tree P slot}

theorem of_parts
    (headers : tree.headerParts.Forall fun part => part.2.Clear)
    (parts : tree.children.Forall fun part => part.2.HeadersClear) :
    tree.HeadersClear := by
  have each := List.forall_iff_forall_mem.1 parts
  constructor
  intro inner node occurs
  cases occurs with
  | refl => exact List.forall_iff_forall_mem.1 headers
  | inside isChild occurs => exact (each _ isChild).clear_of_occurs occurs

theorem child
    {child : Tree P inner}
    (headersClear : tree.HeadersClear)
    (isChild : ⟨inner, child⟩ ∈ tree.children) :
    child.HeadersClear := by
  constructor
  intro slot node occurs
  exact headersClear.clear_of_occurs (.inside isChild occurs)

end HeadersClear

end Tree
end GoFront
