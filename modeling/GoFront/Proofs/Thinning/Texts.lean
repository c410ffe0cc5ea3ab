import GoFront.Proofs.Forms.WellFormed
import GoFront.Proofs.Reading.FirstTokens

/-!
# Thinned texts

A semicolon in front of a closing parenthesis or brace and a comma in front of a closing bracket can be left
out. A text without some of them is read step by step like the whole text: what is read of the whole text
from a cursor on is read of the thinned one from the same lexeme on, or from the closing bracket behind it
if the lexeme was left out.
-/

namespace GoFront

variable {P : Type}

/-! ## Properties of phrases -/

namespace Tree

/-- Whether a tree tells of more than its parts: a parameter list, a case of a select, type arguments or an
empty statement. -/
def isTelling : {slot : Slot} -> Tree P slot -> Bool
  | _, params .. | _, commCase .. | _, typeArgs .. | _, emptyStmt _ => true
  | _, _ => false

/-- Whether how a tree was read bears witness to it: that of a parameter list or a case of a select. -/
def isWitnessed : {slot : Slot} -> Tree P slot -> Bool
  | _, params .. | _, commCase .. => true
  | _, _ => false

end Tree

/-- A property that the phrases of a tree can have. Phrases that tell of no more than their parts have it. -/
structure PhraseProperty (P : Type) where
  holds : ⦃slot : Slot⦄ -> Tree P slot -> Prop
  ordinary : ∀ {slot : Slot} (tree : Tree P slot), tree.isTelling = false -> holds tree

namespace Tree

variable {slot inner : Slot} {property : PhraseProperty P} {tree : Tree P slot}

/-- Every phrase of a tree has a property. -/
structure Everywhere (property : PhraseProperty P) (tree : Tree P slot) : Prop where
  of_occurs : ∀ {inner : Slot} {node : Tree P inner}, Occurs node tree -> property.holds node

namespace Everywhere

theorem here (everywhere : tree.Everywhere property) : property.holds tree :=
  everywhere.of_occurs (.refl tree)

theorem parts (everywhere : tree.Everywhere property) :
    tree.children.Forall fun part => part.2.Everywhere property := by
  refine List.forall_iff_forall_mem.2 ?_
  intro _ isChild
  exact ⟨fun occurs => everywhere.of_occurs (.inside isChild occurs)⟩

theorem node
    (here : property.holds tree)
    (parts : tree.children.Forall fun part => part.2.Everywhere property) :
    tree.Everywhere property := by
  have each := List.forall_iff_forall_mem.1 parts
  constructor
  intro inner node occurs
  cases occurs with
  | refl => exact here
  | inside isChild occurs => exact (each _ isChild).of_occurs occurs

end Everywhere

/-- A tree that tells of no more than its parts has a property everywhere if its parts have it. -/
theorem everywhere_iff (ordinary : tree.isTelling = false) :
    tree.Everywhere property ↔ tree.children.Forall fun part => part.2.Everywhere property :=
  ⟨Everywhere.parts, .node (property.ordinary tree ordinary)⟩

@[simp] theorem everywhere_nil {phrase : Phrase} :
    (nil : Tree P (.many phrase)).Everywhere property :=
  .node (property.ordinary _ rfl) trivial

@[simp] theorem everywhere_absent {phrase : Phrase} :
    (absent : Tree P (.maybe phrase)).Everywhere property :=
  .node (property.ordinary _ rfl) trivial

@[simp] theorem everywhere_present {phrase : Phrase} {tree : Tree P (.one phrase)} :
    (present tree).Everywhere property ↔ tree.Everywhere property :=
  everywhere_iff rfl

@[simp] theorem everywhere_ofOption {phrase : Phrase} {found : Option (Tree P (.one phrase))} :
    (ofOption found).Everywhere property ↔ ∀ tree ∈ found, tree.Everywhere property := by
  cases found <;> simp [ofOption]

theorem everywhere_toList {phrase : Phrase} :
    (trees : Tree P (.many phrase)) ->
      (trees.Everywhere property ↔ ∀ tree ∈ trees.toList, tree.Everywhere property)
  | nil => by simp
  | cons head tail => by
      rw [toList_cons, List.forall_mem_cons, ← everywhere_toList tail]
      exact everywhere_iff rfl

@[simp] theorem everywhere_ofList {phrase : Phrase} {trees : List (Tree P (.one phrase))} :
    (ofList trees).Everywhere property ↔ ∀ tree ∈ trees, tree.Everywhere property := by
  rw [everywhere_toList, toList_ofList]

theorem everywhere_exprs (list : ExprList P) :
    list.Everywhere property ↔ ∀ expr ∈ list.exprs, expr.Everywhere property :=
  match list with
  | exprList exprs => (everywhere_iff rfl).trans (everywhere_toList exprs)

section

attribute [local simp] children

theorem everywhere_typeList {types : List (TypeExpr P)} :
    (typeList (ofList types)).Everywhere property ↔ ∀ type ∈ types, type.Everywhere property :=
  (everywhere_iff rfl).trans (by simp)

end

end Tree

/-- What it means for the trees in a value to have a property everywhere. -/
abbrev Holding (P α : Type) : Type :=
  PhraseProperty P -> α -> Prop

namespace Holding

variable {α β : Type}

/-- There are no trees in a value. -/
@[simp] def nothing : Holding P α := fun _ _ => True

@[simp] def tree {slot : Slot} : Holding P (Tree P slot) := fun property tree => tree.Everywhere property

@[simp] def option (holds : Holding P α) : Holding P (Option α) :=
  fun property found => ∀ value ∈ found, holds property value

@[simp] def list (holds : Holding P α) : Holding P (List α) :=
  fun property values => ∀ value ∈ values, holds property value

theorem list_nothing : list (nothing : Holding P α) = nothing := by
  funext property values
  simp

@[simp] def left (holds : Holding P α) : Holding P (α × β) :=
  fun property pair => holds property pair.1

@[simp] def both (first : Holding P α) (second : Holding P β) : Holding P (α × β) :=
  fun property pair => first property pair.1 ∧ second property pair.2

end Holding

/-! ## Optional tokens -/

/-- Whether a token can be left out in front of another one. -/
def Token.isOptionalBefore : (token closer : Token) -> Bool
  | .semi, .rParen | .semi, .rBrace => true
  | .comma, .rParen | .comma, .rBrack | .comma, .rBrace => true
  | _, _ => false

/-- Whether a token separates phrases. -/
def Token.isSeparator : Token -> Bool
  | .comma | .semi => true
  | _ => false

/-- Whether a token closes a bracket. -/
def Token.isCloser : Token -> Bool
  | .rParen | .rBrack | .rBrace => true
  | _ => false

namespace Token

variable {token closer : Token}

theorem isSeparator_of_isOptionalBefore (isOptional : token.isOptionalBefore closer = true) :
    token.isSeparator = true := by
  revert isOptional
  unfold isOptionalBefore
  split <;> simp [isSeparator]

theorem isCloser_of_isOptionalBefore (isOptional : token.isOptionalBefore closer = true) :
    closer.isCloser = true := by
  revert isOptional
  unfold isOptionalBefore
  split <;> simp [isCloser]

/-- A semicolon can be left out in front of what can close statements, specs or fields. -/
theorem eq_or_eq_of_semi (isOptional : Token.semi.isOptionalBefore closer = true) :
    closer = .rParen ∨ closer = .rBrace := by
  revert isOptional
  unfold isOptionalBefore
  split <;> simp_all

theorem eq_or_eq_of_isSeparator (isSeparator : token.isSeparator = true) :
    token = .comma ∨ token = .semi := by
  revert isSeparator
  unfold Token.isSeparator
  split <;> simp

theorem eq_or_eq_or_eq_of_isCloser (isCloser : token.isCloser = true) :
    token = .rParen ∨ token = .rBrack ∨ token = .rBrace := by
  revert isCloser
  unfold Token.isCloser
  split <;> simp

theorem ne_of_isSeparator
    (isSeparator : token.isSeparator = true)
    (notSeparator : closer.isSeparator = false) :
    token ≠ closer := by
  rintro rfl
  exact Bool.false_ne_true (notSeparator.symm.trans isSeparator)

theorem isPause_of_isSeparator (isSeparator : token.isSeparator = true) : token.isPause = true := by
  rcases eq_or_eq_of_isSeparator isSeparator with rfl | rfl <;> rfl

theorem isPause_of_isCloser (isCloser : token.isCloser = true) : token.isPause = true := by
  rcases eq_or_eq_or_eq_of_isCloser isCloser with rfl | rfl | rfl <;> rfl

theorem isSeparator_of_not_isPause (noPause : token.isPause = false) : token.isSeparator = false := by
  by_contra isSeparator
  have isPause := isPause_of_isSeparator (Bool.not_eq_false _ ▸ isSeparator)
  exact Bool.false_ne_true (noPause.symm.trans isPause)

theorem isSeparator_of_isCloser (isCloser : token.isCloser = true) : token.isSeparator = false := by
  rcases eq_or_eq_or_eq_of_isCloser isCloser with rfl | rfl | rfl <;> rfl

end Token

/-- A text of which some lexemes are left out. What is read of it without errors has a property that is
attested for its parameter lists and its cases of selects; every other phrase has it anyway. -/
structure Thinning (P : Type) where
  text : List (Lexeme P)
  kept : Lexeme P -> Bool
  limit : Nat
  attested : PhraseProperty P
  regular : ∀ lexeme ∈ text, lexeme.Regular
  isOptional : ∀ {lost : Lexeme P} {behind : List (Lexeme P)}, lost :: behind <:+ text ->
    kept lost = false ->
      ∃ closer rest, behind = closer :: rest ∧ lost.token.isOptionalBefore closer.token = true
  attests : ∀ {slot : Slot} (tree : Tree P slot), tree.isWitnessed = false -> attested.holds tree
  attests_params : ∀ {variadic : Bool} {state : ReadState P} {tree : Tree P (.one .params)}
    {final : Cursor P}, state.cursor.ahead <:+ text ->
      Production.Parses limit (Production.params variadic) state tree final -> attested.holds tree
  attests_commCase : ∀ {keyword : Mark P} {state : ReadState P} {stmt : SimpleStmt P} {final : Cursor P},
    state.cursor.ahead <:+ text ->
      Production.Parses limit Production.communication state stmt final ->
        attested.holds (.commCase keyword stmt)

namespace Thinning

variable {thinning : Thinning P} {state other : ReadState P}

/-- A phrase has lost nothing that makes a difference: no semicolon that is an empty statement and no comma
behind the last of several type arguments. -/
def Spares (thinning : Thinning P) : PhraseProperty P where
  holds
    | _, .emptyStmt pos => ∀ lexeme ∈ thinning.text, lexeme.token = .semi -> lexeme.pos = pos ->
        thinning.kept lexeme = true
    | _, .typeArgs _ _ rBrack => ∀ (lost closer : Lexeme P) (behind : List (Lexeme P)),
        lost :: closer :: behind <:+ thinning.text -> lost.token = .comma -> closer.token = .rBrack ->
          closer.pos = rBrack.pos -> thinning.kept lost = true
    | _, _ => True
  ordinary := by
    intro slot tree ordinary
    cases tree with
    | emptyStmt _ | typeArgs _ _ _ => cases ordinary
    | _ => trivial

/-- The lexemes ahead of a state are the rest of a text, and another state has those of them ahead that are
kept. -/
structure Thinner (thinning : Thinning P) (state other : ReadState P) : Prop where
  isSuffix : state.cursor.ahead <:+ thinning.text
  ahead : other.cursor.ahead = state.cursor.ahead.filter thinning.kept
  depth : other.depth = state.depth
  inHeader : other.inHeader = state.inHeader

/-- How the next lexemes of a text and of the thinned text are related. -/
inductive Next (thinning : Thinning P) (state other : ReadState P) : Prop
  | atEnd
      (nothing : state.cursor.ahead = [])
      (noOther : other.cursor.ahead = [])
  | kept
      (lexeme : Lexeme P)
      (rest : List (Lexeme P))
      (isKept : thinning.kept lexeme = true)
      (ahead : state.cursor.ahead = lexeme :: rest)
      (otherAhead : other.cursor.ahead = lexeme :: rest.filter thinning.kept)
  | lost
      (lexeme closer : Lexeme P)
      (rest : List (Lexeme P))
      (isLost : thinning.kept lexeme = false)
      (isOptional : lexeme.token.isOptionalBefore closer.token = true)
      (ahead : state.cursor.ahead = lexeme :: closer :: rest)
      (otherAhead : other.cursor.ahead = closer :: rest.filter thinning.kept)

/-- Only separators are left out. -/
theorem kept_of_not_isSeparator
    {lexeme : Lexeme P}
    {behind : List (Lexeme P)}
    (isSuffix : lexeme :: behind <:+ thinning.text)
    (notSeparator : lexeme.token.isSeparator = false) :
    thinning.kept lexeme = true := by
  by_contra isLost
  obtain ⟨_, _, -, isOptional⟩ := thinning.isOptional isSuffix (Bool.eq_false_iff.2 isLost)
  exact Bool.false_ne_true
    (notSeparator.symm.trans (Token.isSeparator_of_isOptionalBefore isOptional))

namespace Thinner

theorem next (thinner : thinning.Thinner state other) : thinning.Next state other := by
  obtain ⟨isSuffix, aheadEq, -, -⟩ := thinner
  cases ahead : state.cursor.ahead with
  | nil => exact .atEnd ahead (by rw [aheadEq, ahead]; rfl)
  | cons lexeme rest =>
      rw [ahead] at isSuffix aheadEq
      cases isKept : thinning.kept lexeme with
      | true => exact .kept lexeme rest isKept ahead (by rw [aheadEq, List.filter_cons_of_pos isKept])
      | false =>
          obtain ⟨closer, rest, rfl, isOptional⟩ := thinning.isOptional isSuffix isKept
          have closerKept : thinning.kept closer = true :=
            kept_of_not_isSeparator (.trans ⟨[lexeme], rfl⟩ isSuffix)
              (Token.isSeparator_of_isCloser (Token.isCloser_of_isOptionalBefore isOptional))
          refine .lost lexeme closer rest isKept isOptional ahead ?_
          rw [aheadEq, List.filter_cons_of_neg (Bool.eq_false_iff.1 isKept),
            List.filter_cons_of_pos closerKept]

theorem regular (thinner : thinning.Thinner state other) : state.Regular :=
  fun lexeme member => thinning.regular lexeme (thinner.isSuffix.subset member)

theorem other_regular (thinner : thinning.Thinner state other) : other.Regular := by
  intro lexeme member
  rw [thinner.ahead] at member
  exact thinner.regular lexeme (List.mem_of_mem_filter member)

/-- The next tokens are the same, or one that is left out and the one behind it. -/
theorem tokens (thinner : thinning.Thinner state other) :
    other.cursor.token = state.cursor.token
      ∨ state.cursor.token.isOptionalBefore other.cursor.token = true := by
  cases thinner.next with
  | atEnd nothing noOther =>
      simp only [Cursor.token, Cursor.peek, nothing, noOther]
      exact .inl rfl
  | kept lexeme rest _ ahead otherAhead =>
      exact .inl ((Cursor.token_of_ahead otherAhead).trans (Cursor.token_of_ahead ahead).symm)
  | lost lexeme closer rest _ isOptional ahead otherAhead =>
      exact .inr (by rw [Cursor.token_of_ahead ahead, Cursor.token_of_ahead otherAhead, isOptional])

/-- A token that is no pause comes next in both. -/
theorem token_eq_iff
    {token : Token}
    (thinner : thinning.Thinner state other)
    (noPause : token.isPause = false) :
    other.cursor.token = token ↔ state.cursor.token = token := by
  rcases thinner.tokens with isSame | isOptional
  · rw [isSame]
  · have isPause := Token.isPause_of_isSeparator (Token.isSeparator_of_isOptionalBefore isOptional)
    have otherPause := Token.isPause_of_isCloser (Token.isCloser_of_isOptionalBefore isOptional)
    constructor <;> rintro rfl
    · exact absurd (noPause.symm.trans otherPause) Bool.false_ne_true
    · exact absurd (noPause.symm.trans isPause) Bool.false_ne_true

/-- Whether one of several tokens comes next is the same for both if none of them is a pause. -/
theorem atAny_eq
    {tokens : List Token}
    (thinner : thinning.Thinner state other)
    (noPause : ∀ token ∈ tokens, token.isPause = false) :
    other.cursor.atAny tokens = state.cursor.atAny tokens := by
  rw [Bool.eq_iff_iff, Cursor.atAny, Cursor.atAny, List.contains_iff_mem, List.contains_iff_mem]
  constructor <;> intro member
  · rwa [(thinner.token_eq_iff (noPause _ member)).1 rfl]
  · rwa [(thinner.token_eq_iff (noPause _ member)).2 rfl]

/-- A token that is no separator comes next in both if it comes next in the text. -/
theorem token_eq
    (thinner : thinning.Thinner state other)
    (notSeparator : state.cursor.token.isSeparator = false) :
    other.cursor.token = state.cursor.token :=
  thinner.tokens.resolve_right fun isOptional => Bool.false_ne_true
    (notSeparator.symm.trans (Token.isSeparator_of_isOptionalBefore isOptional))

theorem deeper (thinner : thinning.Thinner state other) :
    thinning.Thinner { state with depth := state.depth + 1 } (other.deeper 1) :=
  ⟨thinner.isSuffix, thinner.ahead, congrArg (· + 1) thinner.depth, thinner.inHeader⟩

theorem place
    (thinner : thinning.Thinner state other)
    (inside : Bool) :
    thinning.Thinner { state with inHeader := inside } (other.place inside) :=
  ⟨thinner.isSuffix, thinner.ahead, thinner.depth, rfl⟩

/-- Behind some of the lexemes ahead. -/
theorem moveTo
    {cursor : Cursor P}
    {rest : List (Lexeme P)}
    (thinner : thinning.Thinner state other)
    (isSuffix : rest <:+ state.cursor.ahead)
    (middleAhead : cursor.ahead = rest)
    {otherCursor : Cursor P}
    (otherAhead : otherCursor.ahead = rest.filter thinning.kept) :
    thinning.Thinner { state with cursor := cursor } (other.moveTo otherCursor) :=
  ⟨middleAhead ▸ isSuffix.trans thinner.isSuffix, middleAhead ▸ otherAhead, thinner.depth,
    thinner.inHeader⟩

variable {lexeme : Lexeme P} {rest : List (Lexeme P)}

theorem ahead_of_kept
    (thinner : thinning.Thinner state other)
    (ahead : state.cursor.ahead = lexeme :: rest)
    (isKept : thinning.kept lexeme = true) :
    other.cursor.ahead = lexeme :: rest.filter thinning.kept := by
  rw [thinner.ahead, ahead, List.filter_cons_of_pos isKept]

/-- Behind a lexeme that is kept. -/
theorem behind_kept
    (thinner : thinning.Thinner state other)
    (ahead : state.cursor.ahead = lexeme :: rest)
    (isKept : thinning.kept lexeme = true) :
    thinning.Thinner (state.moveTo state.cursor.advance) (other.moveTo other.cursor.advance) := by
  refine thinner.moveTo ⟨[lexeme], ahead.symm⟩ ?_ ?_
  · rw [Cursor.ahead_advance, ahead, List.tail_cons]
  · rw [Cursor.ahead_advance, thinner.ahead_of_kept ahead isKept, List.tail_cons]

/-- Behind a lexeme that was left out. -/
theorem behind_lost
    (thinner : thinning.Thinner state other)
    (ahead : state.cursor.ahead = lexeme :: rest)
    (isLost : thinning.kept lexeme = false) :
    thinning.Thinner (state.moveTo state.cursor.advance) other := by
  refine thinner.moveTo ⟨[lexeme], ahead.symm⟩ ?_ ?_
  · rw [Cursor.ahead_advance, ahead, List.tail_cons]
  · rw [thinner.ahead, ahead, List.filter_cons_of_neg (Bool.eq_false_iff.1 isLost)]

/-- A lexeme that comes next and is no separator comes next in both. -/
theorem advance
    (thinner : thinning.Thinner state other)
    (notAtEnd : state.cursor.token ≠ .eof)
    (notSeparator : state.cursor.token.isSeparator = false) :
    other.cursor.peek = state.cursor.peek
      ∧ thinning.Thinner (state.moveTo state.cursor.advance) (other.moveTo other.cursor.advance) := by
  obtain ⟨lexeme, rest, ahead, isToken⟩ := Cursor.exists_of_token_ne_eof notAtEnd
  have isKept := kept_of_not_isSeparator (ahead ▸ thinner.isSuffix) (isToken ▸ notSeparator)
  refine ⟨?_, thinner.behind_kept ahead isKept⟩
  rw [Cursor.peek_of_ahead ahead, Cursor.peek_of_ahead (thinner.ahead_of_kept ahead isKept)]

end Thinner

/-- There is a thinned state for every state of a text. -/
theorem exists_thinner (isSuffix : state.cursor.ahead <:+ thinning.text) :
    ∃ other, thinning.Thinner state other :=
  ⟨state.moveTo ⟨0, state.cursor.ahead.filter thinning.kept, state.cursor.stop⟩, isSuffix, rfl, rfl, rfl⟩

end Thinning
end GoFront
