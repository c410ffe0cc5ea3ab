import GoFront.Proofs.Copies.Trees
import GoFront.Proofs.Places.Shifts

/-!
# Copies of texts

In a copy of a text the lexemes stand at other places, and some names are replaced by the keyword `type`.
Only names that stand alone in the parentheses of an assertion are replaced, and none of them in front of
the cases of a switch. From everywhere but the middle of such an assertion, what the grammar looks at
looks the same in the copy.
-/

namespace GoFront

variable {P Q : Type}

/-! ## Asserted names -/

/-- Whether a brace comes next that opens the cases of a switch. -/
def opensCases : List Token -> Bool
  | .lBrace :: .kwCase :: _ | .lBrace :: .kwDefault :: _ => true
  | _ => false

/-- A name stands alone in the parentheses of an assertion, behind which no cases are opened. -/
structure Asserted (front rest : List (Lexeme P)) (name : Lexeme P) : Prop where
  isName : name.token = .ident
  behindPoint : [.dot, .lParen] <:+ front.map Lexeme.token
  inParens : (rest.map Lexeme.token).head? = some .rParen
  noCases : opensCases (rest.map Lexeme.token).tail = false

instance (front rest : List (Lexeme P)) (name : Lexeme P) : Decidable (Asserted front rest name) :=
  decidable_of_iff
    (name.token = .ident ∧ [.dot, .lParen] <:+ front.map Lexeme.token
      ∧ (rest.map Lexeme.token).head? = some .rParen
      ∧ opensCases (rest.map Lexeme.token).tail = false)
    ⟨fun ⟨isName, behindPoint, inParens, noCases⟩ => ⟨isName, behindPoint, inParens, noCases⟩,
      fun asserted => ⟨asserted.isName, asserted.behindPoint, asserted.inParens, asserted.noCases⟩⟩

/-- Only names that are asserted are asked for. -/
def OnlyAsserted (asks : P -> Bool) (lexemes : List (Lexeme P)) : Prop :=
  ∀ number (inside : number < lexemes.length), asks lexemes[number].pos = true ->
    Asserted (lexemes.take number) (lexemes.drop (number + 1)) lexemes[number]

instance (asks : P -> Bool) (lexemes : List (Lexeme P)) : Decidable (OnlyAsserted asks lexemes) :=
  inferInstanceAs (Decidable (∀ number (_ : number < lexemes.length), _))

namespace OnlyAsserted

variable {asks : P -> Bool} {lexemes front rest : List (Lexeme P)} {first other name : Lexeme P}

theorem asserted
    (only : OnlyAsserted asks (front ++ name :: rest))
    (asked : asks name.pos = true) :
    Asserted front rest name := by
  have known := only front.length (by simp)
  simpa [asked] using known

theorem of_asserted
    (each : ∀ front name rest, lexemes = front ++ name :: rest -> asks name.pos = true ->
      Asserted front rest name) :
    OnlyAsserted asks lexemes := by
  intro number inside asked
  refine each _ _ _ ?_ asked
  rw [← List.drop_eq_getElem_cons inside, List.take_append_drop]

/-- Where nothing is asked for, every text will do. -/
theorem of_faithful
    (faithful : ∀ pos, asks pos = false)
    (lexemes : List (Lexeme P)) :
    OnlyAsserted asks lexemes := by
  intro number inside asked
  rw [faithful] at asked
  cases asked

/-- What is asked for of lexemes at other places is asked for of the lexemes. -/
theorem of_map
    {asks : Q -> Bool}
    (place : P -> Q)
    (only : OnlyAsserted asks (lexemes.map (Lexeme.map place))) :
    OnlyAsserted (asks ∘ place) lexemes := by
  refine of_asserted ?_
  rintro front name rest rfl asked
  rw [List.map_append, List.map_cons] at only
  have sameTokens (lexemes : List (Lexeme P)) :
      (lexemes.map (Lexeme.map place)).map Lexeme.token = lexemes.map Lexeme.token :=
    List.map_map
  have moved := only.asserted asked
  refine ⟨moved.isName, ?_, ?_, ?_⟩
  · rw [← sameTokens front]
    exact moved.behindPoint
  · rw [← sameTokens rest]
    exact moved.inParens
  · rw [← sameTokens rest]
    exact moved.noCases

/-- A text does not begin with a name that is asked for. -/
theorem head (only : OnlyAsserted asks (first :: rest)) : asks first.pos = false := by
  rw [← Bool.not_eq_true]
  intro asked
  have whole : Asserted [] rest first := asserted only asked
  have behind := whole.behindPoint.length_le
  simp at behind

/-- Nor is its second lexeme asked for. -/
theorem second (only : OnlyAsserted asks (first :: other :: rest)) : asks other.pos = false := by
  rw [← Bool.not_eq_true]
  intro asked
  have whole : Asserted [first] rest other := asserted only asked
  have behind := whole.behindPoint.length_le
  simp at behind

/-- Only behind the point of an assertion a text goes on in another way. -/
theorem exists_of_not_tail
    (only : OnlyAsserted asks (first :: rest))
    (notTail : ¬OnlyAsserted asks rest) :
    ∃ paren name close behind, rest = paren :: name :: close :: behind
      ∧ first.token = .dot ∧ paren.token = .lParen ∧ name.token = .ident ∧ close.token = .rParen
      ∧ asks name.pos = true ∧ opensCases (behind.map Lexeme.token) = false := by
  obtain ⟨front, name, behind, rfl, asked, notAsserted⟩ : ∃ front name behind,
      rest = front ++ name :: behind ∧ asks name.pos = true ∧ ¬Asserted front behind name := by
    by_contra none
    refine notTail (of_asserted fun front name behind split asked => ?_)
    by_contra notAsserted
    exact none ⟨front, name, behind, split, asked, notAsserted⟩
  have whole : Asserted (first :: front) behind name := asserted only asked
  rcases List.suffix_cons_iff.1 whole.behindPoint with same | shorter
  · obtain ⟨isPoint, isParen⟩ := List.cons.inj same
    obtain ⟨paren, rfl, atParen⟩ := List.map_eq_singleton_iff.1 isParen.symm
    cases behind with
    | nil => cases whole.inParens
    | cons close behind =>
        exact ⟨paren, name, close, behind, rfl, isPoint.symm, atParen, whole.isName,
          Option.some.inj whole.inParens, asked, whole.noCases⟩
  · exact absurd ⟨whole.isName, shorter, whole.inParens, whole.noCases⟩ notAsserted

/-- Behind its first lexeme a text goes on in the same way, unless that is the point of an assertion. -/
theorem tail
    (only : OnlyAsserted asks (first :: rest))
    (notInside : first.token = .dot -> (rest.head?.map Lexeme.token) ≠ some .lParen) :
    OnlyAsserted asks rest := by
  by_contra notTail
  obtain ⟨paren, _, _, _, rfl, atPoint, atParen, -⟩ := only.exists_of_not_tail notTail
  exact notInside atPoint (congrArg some atParen)

/-- A text goes on in the same way behind every lexeme that is not part of the opening of an
assertion. -/
theorem behind
    (only : OnlyAsserted asks (front ++ other :: rest))
    (notPoint : other.token ≠ .dot)
    (notParen : other.token ≠ .lParen) :
    OnlyAsserted asks rest := by
  refine of_asserted ?_
  rintro more name behind rfl asked
  have whole : Asserted (front ++ other :: more) behind name := asserted (by simpa using only) asked
  refine ⟨whole.isName, ?_, whole.inParens, whole.noCases⟩
  have behindOther : (other :: more).map Lexeme.token <:+ (front ++ other :: more).map Lexeme.token := by
    rw [List.map_append]
    exact List.suffix_append _ _
  rcases List.suffix_or_suffix_of_suffix whole.behindPoint behindOther with short | long
  · rcases List.suffix_cons_iff.1 short with same | shorter
    · exact absurd (List.cons.inj same).1.symm notPoint
    · exact shorter
  · rcases List.suffix_cons_iff.1 long with same | shorter
    · exact absurd (List.cons.inj same).1 notPoint
    · rcases List.suffix_cons_iff.1 shorter with same | none
      · exact absurd (List.cons.inj same).1 notParen
      · cases List.suffix_nil.1 none

/-- What is asked for is a name. -/
theorem isName
    (only : OnlyAsserted asks lexemes)
    (member : name ∈ lexemes)
    (asked : asks name.pos = true) :
    name.token = .ident := by
  obtain ⟨front, rest, rfl⟩ := List.append_of_mem member
  exact (only.asserted asked).isName

end OnlyAsserted

/-! ## Copying -/

/-- How a text is copied: where its lexemes stand then, and the names at which places become the keyword
`type`. -/
structure Copying (P Q : Type) extends Shift P Q where
  asks : P -> Bool

namespace Copying

variable (copying : Copying P Q)

/-- Nothing is asked for. -/
def Faithful : Prop :=
  ∀ pos, copying.asks pos = false

/-- The copy of a lexeme. -/
def lexeme (lexeme : Lexeme P) : Lexeme Q :=
  if copying.asks lexeme.pos then ⟨.kwType, copying.place lexeme.pos, none⟩
  else lexeme.map copying.place

/-- A cursor in the copy. -/
def cursor (cursor : Cursor P) : Cursor Q :=
  ⟨cursor.consumed + copying.passed, cursor.ahead.map copying.lexeme, copying.place cursor.stop⟩

/-- A state of a run on the copy. -/
def state (state : ReadState P) : ReadState Q :=
  ⟨copying.cursor state.cursor, state.depth, state.inHeader,
    state.errors.map (SyntaxError.map copying.place) ++ copying.errors⟩

/-- A copy of a tree. -/
abbrev tree {slot : Slot} : Tree P slot -> Tree Q slot :=
  Tree.copy copying.asks copying.place

theorem tree_of_not_asked
    (base : Expr P)
    (dot lParen rParen : Mark P)
    {type : TypeExpr P}
    (notAsked : type.askedAt? copying.asks = none) :
    copying.tree (.typeAssertion base dot lParen type rParen)
      = .typeAssertion (copying.tree base) (dot.map copying.place) (lParen.map copying.place)
        (copying.tree type) (rParen.map copying.place) := by
  change Tree.assertion _ _ _ _ ((type.askedAt? copying.asks).map _) _ = _
  rw [notAsked]
  rfl

theorem tree_of_asked
    (base : Expr P)
    (dot lParen rParen : Mark P)
    {type : TypeExpr P}
    {pos : P}
    (asked : type.askedAt? copying.asks = some pos) :
    copying.tree (.typeAssertion base dot lParen type rParen)
      = .typeQuery (copying.tree base) (dot.map copying.place) (lParen.map copying.place)
        ⟨.kwType, copying.place pos⟩ (rParen.map copying.place) := by
  change Tree.assertion _ _ _ _ ((type.askedAt? copying.asks).map _) _ = _
  rw [asked]
  rfl

variable {copying}

theorem lexeme_of_not_asked {lexeme : Lexeme P} (notAsked : copying.asks lexeme.pos = false) :
    copying.lexeme lexeme = lexeme.map copying.place := by
  simp [Copying.lexeme, notAsked]

theorem lexeme_of_asked {lexeme : Lexeme P} (asked : copying.asks lexeme.pos = true) :
    copying.lexeme lexeme = ⟨.kwType, copying.place lexeme.pos, none⟩ := by
  simp [Copying.lexeme, asked]

theorem Faithful.cursor_eq (faithful : copying.Faithful) (cursor : Cursor P) :
    copying.cursor cursor = copying.toShift.cursor cursor := by
  have same : copying.lexeme = Lexeme.map copying.place := by
    funext lexeme
    exact lexeme_of_not_asked (faithful lexeme.pos)
  rw [Copying.cursor, same]
  rfl

theorem Faithful.state_eq (faithful : copying.Faithful) (state : ReadState P) :
    copying.state state = copying.toShift.state state := by
  rw [Copying.state, faithful.cursor_eq]
  rfl

theorem Faithful.onlyAsserted (faithful : copying.Faithful) (lexemes : List (Lexeme P)) :
    OnlyAsserted copying.asks lexemes :=
  .of_faithful faithful lexemes

/-! ## Looking ahead -/

variable {cursor : Cursor P}

theorem peek_cursor (only : OnlyAsserted copying.asks cursor.ahead) :
    (copying.cursor cursor).peek = cursor.peek.map copying.place := by
  obtain ⟨consumed, ahead, stop⟩ := cursor
  cases ahead with
  | nil => rfl
  | cons first rest => exact lexeme_of_not_asked (OnlyAsserted.head only)

theorem token_cursor (only : OnlyAsserted copying.asks cursor.ahead) :
    (copying.cursor cursor).token = cursor.token := by
  rw [Cursor.token, peek_cursor only]
  rfl

theorem pos_cursor (only : OnlyAsserted copying.asks cursor.ahead) :
    (copying.cursor cursor).pos = copying.place cursor.pos := by
  rw [Cursor.pos, peek_cursor only]
  rfl

theorem atAny_cursor
    (only : OnlyAsserted copying.asks cursor.ahead)
    (tokens : List Token) :
    (copying.cursor cursor).atAny tokens = cursor.atAny tokens := by
  rw [Cursor.atAny, token_cursor only]
  rfl

/-- The second token is the same in the copy. -/
theorem tokenAfter_cursor (only : OnlyAsserted copying.asks cursor.ahead) :
    (copying.cursor cursor).tokenAfter 1 = cursor.tokenAfter 1 := by
  obtain ⟨consumed, ahead, stop⟩ := cursor
  match ahead with
  | [] => rfl
  | [_] => rfl
  | first :: second :: rest =>
      exact congrArg Lexeme.token (lexeme_of_not_asked (OnlyAsserted.second only))

/-- The third token is the same, too, unless a point comes first. -/
theorem tokenAfter_two_cursor
    (only : OnlyAsserted copying.asks cursor.ahead)
    (notPoint : cursor.token ≠ .dot) :
    (copying.cursor cursor).tokenAfter 2 = cursor.tokenAfter 2 := by
  obtain ⟨consumed, ahead, stop⟩ := cursor
  match ahead with
  | [] => rfl
  | [_] => rfl
  | [_, _] => rfl
  | first :: second :: third :: rest =>
      have behind := OnlyAsserted.tail only fun isPoint => absurd isPoint notPoint
      exact congrArg Lexeme.token (lexeme_of_not_asked (OnlyAsserted.second behind))

/-- Tokens that are neither names nor the keyword are found in the copy where they are in the text. -/
theorem occurIn_map
    {lexemes : List (Lexeme P)}
    {terminator : Token}
    {needles : List Token}
    (areNames : ∀ lexeme ∈ lexemes, copying.asks lexeme.pos = true -> lexeme.token = .ident)
    (plain : ∀ token ∈ terminator :: needles, token ≠ .ident ∧ token ≠ .kwType)
    (depth braces : Nat) :
    Cursor.occurIn terminator needles depth braces (lexemes.map copying.lexeme)
      = Cursor.occurIn terminator needles depth braces lexemes := by
  induction lexemes generalizing needles depth braces with
  | nil => cases needles <;> rfl
  | cons lexeme rest inductionHypothesis =>
      cases needles with
      | nil => rfl
      | cons needle needles =>
          have again {needles' : List Token} (fewer : needles' ⊆ needle :: needles) (depth braces : Nat) :=
            inductionHypothesis (fun lexeme member => areNames lexeme (.tail _ member))
              (fun token member => plain token (List.cons_subset_cons terminator fewer member))
              depth braces
          have whole := again (List.Subset.refl (needle :: needles))
          have shorter := again (List.subset_cons_self needle needles)
          rw [List.map_cons, Cursor.occurIn, Cursor.occurIn]
          cases asked : copying.asks lexeme.pos with
          | false =>
              rw [lexeme_of_not_asked asked]
              refine if_congr .rfl rfl ?_
              change Cursor.occurIn terminator (if lexeme.token = needle && braces = 0 then _ else _) _ _ _
                = _
              dsimp only
              split
              · exact shorter _ _
              · exact whole _ _
          | true =>
              -- neither a name nor the keyword is looked for, and neither is a bracket
              obtain ⟨terminatorName, terminatorType⟩ := plain terminator (.head _)
              obtain ⟨needleName, needleType⟩ := plain needle (.tail _ (.head _))
              have isName := areNames lexeme (.head _) asked
              simp only [Copying.lexeme, asked, if_true, isName, terminatorName.symm, terminatorType.symm,
                needleName.symm, needleType.symm, decide_false, Bool.false_and, Bool.false_eq_true,
                if_false]
              exact whole _ _

theorem occurBefore_cursor
    (only : OnlyAsserted copying.asks cursor.ahead)
    {terminator : Token}
    {needles : List Token}
    (plain : ∀ token ∈ terminator :: needles, token ≠ .ident ∧ token ≠ .kwType) :
    (copying.cursor cursor).occurBefore terminator needles = cursor.occurBefore terminator needles :=
  occurIn_map (fun _ member => only.isName member) plain 0 0

/-- What stands right behind the bracket that closes another is the same in the copy. -/
theorem closesBefore_map
    {lexemes : List (Lexeme P)}
    (areAsserted : ∀ front name rest, lexemes = front ++ name :: rest -> copying.asks name.pos = true ->
      name.token = .ident ∧ ∀ before ∈ front.getLast?, before.token = .lParen)
    (followers : List Token)
    (depth : Nat) :
    Cursor.closesBefore .lBrack .rBrack followers depth (lexemes.map copying.lexeme)
      = Cursor.closesBefore .lBrack .rBrack followers depth lexemes := by
  induction lexemes generalizing depth with
  | nil => rfl
  | cons lexeme rest inductionHypothesis =>
      have again := inductionHypothesis fun front name behind split asked => by
        obtain ⟨isName, behindParen⟩ := areAsserted (lexeme :: front) name behind (by simp [split]) asked
        refine ⟨isName, fun before isLast => behindParen before ?_⟩
        rw [List.getLast?_cons, Option.mem_def.1 isLast]
        rfl
      rw [List.map_cons, Cursor.closesBefore, Cursor.closesBefore]
      simp only [again]
      cases asked : copying.asks lexeme.pos with
      | true =>
          obtain ⟨isName, -⟩ := areAsserted [] lexeme rest rfl asked
          simp [Copying.lexeme, asked, isName]
      | false =>
          rw [lexeme_of_not_asked asked]
          refine if_congr .rfl rfl ?_
          by_cases closes : lexeme.token = .rBrack
          · cases rest with
            | nil => rfl
            | cons next rest =>
                have notAsked : copying.asks next.pos = false := by
                  rw [← Bool.not_eq_true]
                  intro asked
                  have isParen := (areAsserted [lexeme] next rest rfl asked).2 lexeme rfl
                  rw [closes] at isParen
                  cases isParen
                rw [List.map_cons, lexeme_of_not_asked notAsked]
                rfl
          · rw [if_neg closes]
            exact if_neg closes

theorem brackFollowedBy_cursor
    (only : OnlyAsserted copying.asks cursor.ahead)
    (followers : List Token) :
    (copying.cursor cursor).brackFollowedBy followers = cursor.brackFollowedBy followers := by
  refine closesBefore_map ?_ followers 0
  intro front name rest split asked
  have asserted := OnlyAsserted.asserted (split ▸ only) asked
  refine ⟨asserted.isName, fun before isLast => ?_⟩
  obtain ⟨more, isSuffix⟩ := asserted.behindPoint
  have last := congrArg List.getLast? isSuffix
  rw [List.getLast?_map, Option.mem_def.1 isLast, List.getLast?_append] at last
  exact (Option.some.inj last).symm

/-! ## Moving on -/

@[simp] theorem advance_cursor (cursor : Cursor P) :
    (copying.cursor cursor).advance = copying.cursor cursor.advance := by
  obtain ⟨consumed, ahead, stop⟩ := cursor
  cases ahead with
  | nil => rfl
  | cons lexeme rest =>
      simp only [Copying.cursor, Cursor.advance, List.map_cons]
      rw [Nat.add_right_comm]

/-- Behind the next token the text goes on in the same way, unless it is the point of an assertion. -/
theorem onlyAsserted_advance
    (only : OnlyAsserted copying.asks cursor.ahead)
    (notInside : cursor.token = .dot -> cursor.advance.token ≠ .lParen) :
    OnlyAsserted copying.asks cursor.advance.ahead := by
  obtain ⟨consumed, ahead, stop⟩ := cursor
  cases ahead with
  | nil => exact only
  | cons first rest =>
      refine OnlyAsserted.tail only fun isPoint => ?_
      cases rest with
      | nil => nofun
      | cons next rest => exact fun isParen => notInside isPoint (Option.some.inj isParen)

end Copying
end GoFront
