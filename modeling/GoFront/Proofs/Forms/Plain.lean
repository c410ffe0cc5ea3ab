import GoFront.Proofs.Forms.Headers

/-!
# Trees that can stand anywhere

What reading a phrase comes to, as far as its form goes: a well-formed tree whose headers are clear, and
which is clear itself if it was read in a header. A plain tree can moreover stand anywhere. Trees are
plain if they are put together of plain ones; only control statements and composite literals need more.
-/

namespace GoFront
namespace Tree

variable {P : Type} {slot inner : Slot} {inside : Bool}

/-- A tree with the form that it has if it is read inside or outside of a header, as told. -/
structure Formed (inside : Bool) (tree : Tree P slot) : Prop where
  wellFormed : tree.WellFormed
  headersClear : tree.HeadersClear
  clear : inside = true -> tree.Clear

/-- A tree of this form that can stand anywhere. -/
structure Plain (inside : Bool) (tree : Tree P slot) : Prop where
  formed : tree.Formed inside
  free : tree.isRestricted = false

/-! ## Putting formed trees together -/

/-- What is formed in a header is formed outside of one. -/
theorem Formed.outside
    {tree : Tree P slot}
    (formed : tree.Formed inside) :
    tree.Formed false :=
  ⟨formed.wellFormed, formed.headersClear, nofun⟩

theorem Plain.outside
    {tree : Tree P slot}
    (plain : tree.Plain inside) :
    tree.Plain false :=
  ⟨plain.formed.outside, plain.free⟩

theorem Formed.of_parts
    {tree : Tree P slot}
    (fits : tree.Fits)
    (notNamed : inside = true -> tree.isNamedLiteral = false)
    (headers : tree.headerParts.Forall fun part => part.2.Plain true)
    (inOpen : tree.openParts.Forall fun part => part.2.Formed inside)
    (parts : tree.children.Forall fun part => tree.Admits part.2 ∧ part.2.Formed false) :
    tree.Formed inside where
  wellFormed := .of_parts fits (parts.imp fun _ holds => ⟨holds.1, holds.2.wellFormed⟩)
  headersClear := .of_parts (headers.imp fun _ plain => plain.formed.clear rfl)
    (parts.imp fun _ holds => holds.2.headersClear)
  clear isInside := .of_parts (notNamed isInside) (inOpen.imp fun _ formed => formed.clear isInside)

theorem Plain.of_parts
    {tree : Tree P slot}
    (fits : tree.Fits)
    (free : tree.isRestricted = false)
    (notNamed : inside = true -> tree.isNamedLiteral = false)
    (headers : tree.headerParts.Forall fun part => part.2.Plain true)
    (inOpen : tree.openParts.Forall fun part => part.2.Plain inside)
    (parts : tree.children.Forall fun part => part.2.Plain false) :
    tree.Plain inside := by
  refine ⟨.of_parts fits notNamed headers (inOpen.imp fun _ plain => plain.formed) ?_, free⟩
  exact parts.imp fun _ plain => ⟨tree.admits_of_unrestricted plain.free, plain.formed⟩

/-! ## Ordinary trees -/

/-- Whether a tree asks for more than plain parts: it can stand in some places only, it is a composite
literal, or it has a header. -/
def isDemanding : {slot : Slot} -> Tree P slot -> Bool
  | _, receive .. | _, exprList nil | _, compositeLit .. => true
  | _, ifStmt .. | _, forStmt .. | _, exprSwitch .. | _, typeSwitch .. => true
  | _, _ => false

theorem ordinary_of_not_demanding
    (tree : Tree P slot)
    (undemanding : tree.isDemanding = false) :
    tree.isRestricted = false ∧ tree.isNamedLiteral = false ∧ tree.headerParts = [] := by
  cases tree with
  | exprList exprs =>
      cases exprs with
      | nil => cases undemanding
      | cons _ _ => exact ⟨rfl, rfl, rfl⟩
  | receive _ _ | compositeLit _ _ _ _ | ifStmt _ _ _ _ _ | forStmt _ _ _ | exprSwitch _ _ _ _ _ _
  | typeSwitch _ _ _ _ _ _ => cases undemanding
  | _ => exact ⟨rfl, rfl, rfl⟩

/-- An ordinary tree is as plain as its parts: those in the open are read where it is read itself. -/
theorem Plain.of_open
    {tree : Tree P slot}
    (fits : tree.Fits)
    (undemanding : tree.isDemanding = false)
    (inOpen : tree.openParts.Forall fun part => part.2.Plain inside)
    (parts : tree.children.Forall fun part => part.2.Plain false) :
    tree.Plain inside := by
  obtain ⟨free, notNamed, noHeader⟩ := ordinary_of_not_demanding tree undemanding
  have headers : tree.headerParts.Forall fun part => part.2.Plain true := by
    rw [noHeader]
    trivial
  exact of_parts fits free (fun _ => notNamed) headers inOpen parts

/-- An ordinary tree with brackets around its parts. -/
theorem Plain.sheltered
    {tree : Tree P slot}
    (fits : tree.Fits)
    (undemanding : tree.isDemanding = false)
    (closed : tree.openParts = [])
    (parts : tree.children.Forall fun part => part.2.Plain false) :
    tree.Plain inside := by
  apply of_open fits undemanding _ parts
  rw [closed]
  trivial

/-- An ordinary tree whose parts are all read where it is read itself. -/
theorem Plain.of
    {tree : Tree P slot}
    (fits : tree.Fits)
    (undemanding : tree.isDemanding = false)
    (parts : tree.children.Forall fun part => part.2.Plain inside) :
    tree.Plain inside := by
  have each := List.forall_iff_forall_mem.1 parts
  apply of_open fits undemanding
  · exact List.forall_iff_forall_mem.2 fun part isPart =>
      each part (tree.openParts_subset_children isPart)
  · exact parts.imp fun _ plain => plain.outside

/-! ## Lists and options -/

section Several

variable {phrase : Phrase}

theorem Plain.ofList
    {trees : List (Tree P (.one phrase))}
    (all : ∀ tree ∈ trees, tree.Plain inside) :
    (Tree.ofList trees).Plain inside := by
  induction trees with
  | nil => exact .of trivial rfl trivial
  | cons head tail inductionHypothesis =>
      obtain ⟨headPlain, tailPlain⟩ := List.forall_mem_cons.1 all
      exact .of trivial rfl ⟨headPlain, inductionHypothesis tailPlain⟩

theorem Plain.present
    {tree : Tree P (.one phrase)}
    (plain : tree.Plain inside) :
    (Tree.present tree).Plain inside :=
  .of trivial rfl plain

theorem Plain.absent : (Tree.absent : Tree P (.maybe phrase)).Plain inside :=
  .of trivial rfl trivial

theorem Plain.ofOption
    {found : Option (Tree P (.one phrase))}
    (all : ∀ tree ∈ found, tree.Plain inside) :
    (Tree.ofOption found).Plain inside := by
  cases found with
  | none => exact .absent
  | some tree => exact .present (all tree rfl)

end Several

theorem Plain.ofTypes
    {types : List (TypeExpr P)}
    (some : types ≠ [])
    (all : ∀ type ∈ types, type.Plain inside) :
    (typeList (.ofList types)).Plain inside := by
  apply of
  · change (Tree.ofList types).toList ≠ []
    rw [toList_ofList]
    exact some
  · rfl
  · exact ofList all

/-! ## Taking formed trees apart -/

/-- Whether a tree can have parts that cannot stand anywhere. -/
def isSpecial (tree : Tree P slot) : Bool :=
  tree.isCommCase || tree.isElementPart || tree.isCall

theorem isRestricted_eq_false_of_admits
    {tree : Tree P slot}
    {part : Tree P inner}
    (ordinary : tree.isSpecial = false)
    (admits : tree.Admits part) :
    part.isRestricted = false := by
  simp only [isSpecial, Bool.or_eq_false_iff] at ordinary
  obtain ⟨⟨notCommCase, notElementPart⟩, notCall⟩ := ordinary
  cases part with
  | receive _ _ =>
      have isCommCase : tree.isCommCase = true := admits
      exact absurd isCommCase (by simp [notCommCase])
  | compositeLit type _ _ _ =>
      cases type with
      | absent =>
          have isElementPart : tree.isElementPart = true := admits
          exact absurd isElementPart (by simp [notElementPart])
      | present _ => rfl
  | exprList exprs =>
      cases exprs with
      | nil =>
          have isCall : tree.isCall = true := admits
          exact absurd isCall (by simp [notCall])
      | cons _ _ => rfl
  | _ => rfl

/-- What an ordinary tree is made of can stand anywhere outside of headers. -/
theorem Formed.plain_child
    {tree : Tree P slot}
    {child : Tree P inner}
    (formed : tree.Formed inside)
    (ordinary : tree.isSpecial = false)
    (isChild : ⟨inner, child⟩ ∈ tree.children) :
    child.Plain false := by
  have admits := formed.wellFormed.sound.admits ⟨inner, child⟩ isChild
  exact ⟨⟨formed.wellFormed.child isChild, formed.headersClear.child isChild, nofun⟩,
    isRestricted_eq_false_of_admits ordinary admits⟩

/-- What stands in the open in an ordinary tree can stand where the tree can. -/
theorem Formed.plain_part
    {tree : Tree P slot}
    {part : Tree P inner}
    (formed : tree.Formed inside)
    (ordinary : tree.isSpecial = false)
    (isPart : ⟨inner, part⟩ ∈ tree.openParts) :
    part.Plain inside := by
  have plain := formed.plain_child ordinary (tree.openParts_subset_children isPart)
  have partFormed := plain.formed
  exact ⟨⟨partFormed.wellFormed, partFormed.headersClear,
    fun isInside => (formed.clear isInside).part isPart⟩, plain.free⟩

theorem Formed.plain_of_mem_toList
    {phrase : Phrase}
    {list : Tree P (.many phrase)}
    {tree : Tree P (.one phrase)}
    (formed : list.Formed inside)
    (member : tree ∈ list.toList) :
    tree.Plain inside := by
  match list, formed, member with
  | .cons head tail, formed, member =>
      have tailPlain : tail.Plain inside := formed.plain_part rfl (.tail _ (.head _))
      rcases List.mem_cons.1 member with rfl | inTail
      · exact formed.plain_part rfl (.head _)
      · exact plain_of_mem_toList tailPlain.formed inTail

theorem Formed.plain_of_mem_exprs
    {list : ExprList P}
    {expr : Expr P}
    (formed : list.Formed inside)
    (member : expr ∈ list.exprs) :
    expr.Plain inside := by
  match list, formed, member with
  | .exprList exprs, formed, member =>
      have exprsPlain : exprs.Plain inside := formed.plain_part rfl (.head _)
      exact exprsPlain.formed.plain_of_mem_toList member

end Tree
end GoFront
