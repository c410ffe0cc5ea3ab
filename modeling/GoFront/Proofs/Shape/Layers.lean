import GoFront.Proofs.Shape.Height

/-!
# Layers and chains

Binary operators and suffixes continue an expression: `a + b + c` and `a.b[c](d)` are chains whose links
are built on top of each other, as long as the text likes. Every other part of a phrase lies one layer
further inside. A tree with few layers is only as high as its chains are long.
-/

namespace GoFront
namespace Tree

variable {P : Type} {slot : Slot}

/-! ## Chains -/

/-- The number of binary operators and suffixes in the chain that an expression ends. A list is as long a
chain as its longest one. -/
def chain : {slot : Slot} -> Tree P slot -> Nat
  | _, cons head tail => max head.chain tail.chain
  | _, present tree => tree.chain
  | _, callExpr invocation => invocation.chain
  | _, call func .. => func.chain + 1
  | _, index base .. => base.chain + 1
  | _, instantiation base _ => base.chain + 1
  | _, simpleSlice base .. => base.chain + 1
  | _, fullSlice base .. => base.chain + 1
  | _, selector base .. => base.chain + 1
  | _, typeAssertion base .. => base.chain + 1
  | _, typeQuery base .. => base.chain + 1
  | _, binary left .. => left.chain + 1
  | _, _ => 0

theorem chain_cons
    {phrase : Phrase}
    (head : Tree P (.one phrase))
    (tail : Tree P (.many phrase)) :
    (cons head tail).chain = max head.chain tail.chain := rfl

/-- The parts in the same layer as a tree: the items of a list, and what the last link of a chain is built
on. -/
def along : {slot : Slot} -> Tree P slot -> List ((slot : Slot) × Tree P slot)
  | _, cons head tail => [⟨_, head⟩, ⟨_, tail⟩]
  | _, present tree => [⟨_, tree⟩]
  | _, callExpr invocation => [⟨_, invocation⟩]
  | _, call func .. => [⟨_, func⟩]
  | _, index base .. => [⟨_, base⟩]
  | _, instantiation base _ => [⟨_, base⟩]
  | _, simpleSlice base .. => [⟨_, base⟩]
  | _, fullSlice base .. => [⟨_, base⟩]
  | _, selector base .. => [⟨_, base⟩]
  | _, typeAssertion base .. => [⟨_, base⟩]
  | _, typeQuery base .. => [⟨_, base⟩]
  | _, binary left .. => [⟨_, left⟩]
  | _, _ => []

/-- The parts one layer further inside. -/
def inside (tree : Tree P slot) : List ((slot : Slot) × Tree P slot) :=
  tree.children.drop tree.along.length

theorem children_eq (tree : Tree P slot) : tree.children = tree.along ++ tree.inside := by
  cases tree <;> rfl

/-- Whether a tree looks like its parts: a list, or a call that stands as an expression. -/
def isCover : {slot : Slot} -> Tree P slot -> Bool
  | _, cons .. | _, present _ | _, callExpr _ => true
  | _, _ => false

theorem chain_lt_of_along
    {tree : Tree P slot}
    (notCover : tree.isCover = false) :
    tree.along.Forall fun part => part.2.chain < tree.chain := by
  cases tree with
  | cons _ _ | present _ | callExpr _ => cases notCover
  | call _ _ _ _ _ | index _ _ _ _ | instantiation _ _ | simpleSlice _ _ _ _ _ _
  | fullSlice _ _ _ _ _ _ _ _ | selector _ _ _ | typeAssertion _ _ _ _ _ | typeQuery _ _ _ _ _
  | binary _ _ _ => exact Nat.lt_succ_self _
  | _ => trivial

/-! ## Layers -/

/-- A tree has at most a number of layers. -/
inductive Layered : Nat -> {slot : Slot} -> Tree P slot -> Prop
  | of_parts {layers : Nat} {slot : Slot} {tree : Tree P slot}
      (along : ∀ part ∈ tree.along, Layered (layers + 1) part.2)
      (inside : ∀ part ∈ tree.inside, Layered layers part.2) : Layered (layers + 1) tree

theorem Layered.mono
    {layers more : Nat}
    {tree : Tree P slot}
    (layered : tree.Layered layers)
    (enough : layers ≤ more) :
    tree.Layered more := by
  induction layered generalizing more with
  | of_parts along inside alongHypothesis insideHypothesis =>
      obtain ⟨less, rfl⟩ := Nat.exists_eq_succ_of_ne_zero (Nat.ne_zero_of_lt enough)
      exact .of_parts (fun part isPart => alongHypothesis part isPart enough)
        (fun part isPart => insideHypothesis part isPart (Nat.le_of_succ_le_succ enough))

/-- No chain in a tree is longer than told. -/
def ChainsWithin (longest : Nat) (tree : Tree P slot) : Prop :=
  ∀ {inner : Slot} (part : Tree P inner), Occurs part tree -> part.chain ≤ longest

theorem ChainsWithin.child
    {longest : Nat}
    {tree : Tree P slot}
    {part : (slot : Slot) × Tree P slot}
    (chains : tree.ChainsWithin longest)
    (isChild : part ∈ tree.children) :
    part.2.ChainsWithin longest :=
  fun inner occurs => chains inner (.inside isChild occurs)

/-- Whether no chain is longer than told, in a tree that has at most a number of levels. -/
def hasChainsWithin (longest : Nat) : (levels : Nat) -> {slot : Slot} -> Tree P slot -> Bool
  | 0, _, _ => false
  | levels + 1, _, tree =>
      tree.chain ≤ longest && tree.children.all fun part => hasChainsWithin longest levels part.2

theorem ChainsWithin.of_hasChainsWithin
    {longest levels : Nat}
    {tree : Tree P slot}
    (checked : tree.hasChainsWithin longest levels = true) :
    tree.ChainsWithin longest := by
  induction levels generalizing slot tree with
  | zero => cases checked
  | succ levels inductionHypothesis =>
      rw [hasChainsWithin, Bool.and_eq_true, List.all_eq_true, decide_eq_true_iff] at checked
      intro inner part occurs
      cases occurs with
      | refl => exact checked.1
      | inside isChild occurs => exact inductionHypothesis (checked.2 _ isChild) part occurs

/-- What looks like its parts is as high as they are. -/
theorem within_of_isCover
    {bound : Nat}
    {tree : Tree P slot}
    (cover : tree.isCover = true)
    (along : ∀ part ∈ tree.along, part.2.Within (part.2.chain + bound)) :
    tree.Within (tree.chain + bound) := by
  cases tree with
  | cons head tail =>
      have headWithin : head.Within (head.chain + bound) := along ⟨_, head⟩ (.head _)
      have tailWithin : tail.Within (tail.chain + bound) := along ⟨_, tail⟩ (.tail _ (.head _))
      rw [chain_cons]
      exact within_cons (headWithin.mono (by omega)) (tailWithin.mono (by omega))
  | present tree => exact within_present (along ⟨_, tree⟩ (.head _))
  | callExpr invocation =>
      have low := along ⟨_, invocation⟩ (.head _)
      exact Nat.le_trans (Nat.le_of_eq (Node.height_within _ _)) low
  | _ => cases cover

/-- A tree is as high as its chains are long, for each of its layers. -/
theorem Layered.within
    {layers longest : Nat}
    {tree : Tree P slot}
    (layered : tree.Layered layers)
    (chains : tree.ChainsWithin longest) :
    tree.Within (tree.chain + 2 + layers * (longest + 1)) := by
  induction layered with
  | @of_parts layers slot tree along inside alongHypothesis insideHypothesis =>
      rw [Nat.succ_mul]
      have alongWithin (part : (slot : Slot) × Tree P slot) (isPart : part ∈ tree.along) :
          part.2.Within (part.2.chain + 2 + (layers * (longest + 1) + (longest + 1))) := by
        rw [← Nat.succ_mul]
        apply alongHypothesis part isPart
        exact chains.child (by simp [children_eq, isPart])
      have insideWithin (part : (slot : Slot) × Tree P slot) (isPart : part ∈ tree.inside) :
          part.2.Within (longest + 2 + layers * (longest + 1)) := by
        have partChains : part.2.ChainsWithin longest :=
          chains.child (by simp [children_eq, isPart])
        have short := partChains part.2 (.refl part.2)
        exact (insideHypothesis part isPart partChains).mono (by omega)
      generalize layers * (longest + 1) = below at alongWithin insideWithin ⊢
      by_cases notCover : tree.isCover = false
      · have shorter := List.forall_iff_forall_mem.1 (chain_lt_of_along notCover)
        refine (@within_of_children _ (tree.chain + below + longest) _ tree ?_).mono (by omega)
        rw [List.forall_iff_forall_mem, children_eq]
        intro part isPart
        obtain isAlong | isInside := List.mem_append.1 isPart
        · have less := shorter part isAlong
          exact (alongWithin part isAlong).mono (by omega)
        · exact (insideWithin part isInside).mono (by omega)
      · have cover : tree.isCover = true := by simpa using notCover
        have low := within_of_isCover cover fun part isPart =>
          (alongWithin part isPart).mono (Nat.le_of_eq (Nat.add_assoc ..))
        exact low.mono (Nat.le_of_eq (Nat.add_assoc ..).symm)

end Tree
end GoFront
