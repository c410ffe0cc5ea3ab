import GoFront.Proofs.Reading.Contexts
import GoFront.Proofs.Reading.Parameters

/-!
# Fields of structures

A line of a structure embeds a type or declares names of a type. A star and a point behind the first name
tell that a type is embedded, and so does the end of the line. Behind a name in front of brackets, what
follows the closing bracket decides: the end of the line if the brackets hold type arguments, and a type
if they belong to an array or a slice.
-/

namespace GoFront

variable {P : Type}

namespace Production

/-! ## Lines as they are written -/

/-- The name of a type as it is written: possibly qualified, and possibly with type arguments. What the
lexemes of the arguments are read as is kept with them. -/
structure WrittenName (P : Type) where
  first : Lexeme P
  member : Option (Lexeme P × Lexeme P)
  args : Option (List (Lexeme P) × Tree P (.one .typeArgs))

/-- The end of a name as it is written: a point and another name. -/
def memberLexemes (member : Option (Lexeme P × Lexeme P)) : List (Lexeme P) :=
  member.toList.flatMap fun (dot, name) => [dot, name]

/-- More names as they are written, each with the comma in front of it. -/
def moreNames (others : List (Lexeme P × Lexeme P)) : List (Lexeme P) :=
  others.flatMap fun (comma, name) => [comma, name]

namespace WrittenName

/-- The lexemes of the type arguments. -/
def argLexemes (written : WrittenName P) : List (Lexeme P) :=
  (written.args.map Prod.fst).getD []

def lexemes (written : WrittenName P) : List (Lexeme P) :=
  written.first :: (memberLexemes written.member ++ written.argLexemes)

/-- The package in front of the name. -/
def package (written : WrittenName P) : Option (Ident P) :=
  written.member.map fun _ => identOf written.first

/-- The name itself. -/
def name (written : WrittenName P) : Ident P :=
  identOf ((written.member.map Prod.snd).getD written.first)

/-- What a name is read as. -/
def tree (written : WrittenName P) : Tree P (.one .typeName) :=
  .typeName written.package written.name (.ofOption (written.args.map Prod.snd))

/-- Whether the parts of a name are what they should be. -/
def IsValid (limit depth : Nat) (inside : Bool) (written : WrittenName P) : Prop :=
  written.first.token = .ident
    ∧ (∀ member ∈ written.member, member.1.token = .dot ∧ member.2.token = .ident)
    ∧ ∀ args ∈ written.args, ReadsExactly limit depth inside typeArgs args.1 args.2

end WrittenName

/-- A line of a structure as it is written, possibly with a tag. What the lexemes of a type are read as is
kept with them. -/
inductive WrittenField (P : Type)
  | embedded (star : Option (Lexeme P)) (name : WrittenName P) (tag : Option (Lexeme P))
  | named (first : Lexeme P) (others : List (Lexeme P × Lexeme P)) (text : List (Lexeme P))
      (type : TypeExpr P) (tag : Option (Lexeme P))

/-- A string literal as the tree keeps it. -/
def stringOf (lexeme : Lexeme P) : BasicLit P :=
  ⟨if lexeme.token = .rawStringLit then .rawString else .string, lexeme.literal.getD "", lexeme.pos⟩

/-- Whether lexemes are string literals. -/
def AreStrings (tag : Option (Lexeme P)) : Prop :=
  ∀ lexeme ∈ tag, lexeme.token = .stringLit ∨ lexeme.token = .rawStringLit

namespace WrittenField

def lexemes : WrittenField P -> List (Lexeme P)
  | embedded star name tag => star.toList ++ (name.lexemes ++ tag.toList)
  | named first others text _ tag => first :: (moreNames others ++ (text ++ tag.toList))

/-- What a line is read as. -/
def tree : WrittenField P -> Tree P (.one .field)
  | embedded star name tag =>
      .embeddedField (star.map fun lexeme => ⟨.star, lexeme.pos⟩) name.tree (tag.map stringOf)
  | named first others _ type tag =>
      .namedField (identOf first :: others.map fun other => identOf other.2) type (tag.map stringOf)

/-- Whether the parts of a line are what they should be. -/
def IsValid (limit depth : Nat) (inside : Bool) : WrittenField P -> Prop
  | embedded star name tag => (∀ lexeme ∈ star, lexeme.token = .star)
      ∧ name.IsValid limit depth inside ∧ AreStrings tag
  | named first others text type tag => first.token = .ident
      ∧ (∀ other ∈ others, other.1.token = .comma ∧ other.2.token = .ident)
      ∧ ReadsExactly limit depth inside Production.type text type ∧ AreStrings tag

end WrittenField

section

variable {limit : Nat} {state : ReadState P} {text rest : List (Lexeme P)} {follower : Lexeme P}
  {tag : Option (Lexeme P)}

/-! ## Tags -/

/-- Behind its type a line ends, or a tag comes. -/
theorem exists_fieldEnd
    (rest : List (Lexeme P))
    (areStrings : AreStrings tag)
    (ends : follower.token = .semi ∨ follower.token = .rBrace) :
    ∃ head behind, tag.toList ++ follower :: rest = head :: behind ∧ head.token ∈ fieldEnds := by
  cases tag with
  | none =>
      refine ⟨follower, rest, rfl, ?_⟩
      rcases ends with isEnd | isEnd <;> simp [fieldEnds, isEnd]
  | some lexeme =>
      refine ⟨lexeme, follower :: rest, rfl, ?_⟩
      rcases areStrings lexeme rfl with isString | isString <;> simp [fieldEnds, isString]

theorem parses_tag?
    (areStrings : AreStrings tag)
    (ends : follower.token = .semi ∨ follower.token = .rBrace)
    (aheadEq : state.cursor.ahead = tag.toList ++ follower :: rest) :
    Parses limit tag? state (tag.map stringOf)
      (state.moved tag.toList.length (follower :: rest)).cursor := by
  refine parses_bind_look.2 ?_
  cases tag with
  | none =>
      have stays : state.moved 0 (follower :: rest) = state := ReadState.moved_zero aheadEq
      have noString : state.cursor.atAny [.stringLit, .rawStringLit] = false := by
        rw [Cursor.atAny, Cursor.token_of_ahead aheadEq]
        rcases ends with isEnd | isEnd <;> simp [isEnd]
      rw [noString]
      exact parses_pure.2 ⟨rfl, congrArg ReadState.cursor stays⟩
  | some lexeme =>
      have aheadEq : state.cursor.ahead = lexeme :: follower :: rest := aheadEq
      have atToken : state.cursor.token = lexeme.token := Cursor.token_of_ahead aheadEq
      have advanceEq : state.cursor.advance = (state.moved 1 (follower :: rest)).cursor :=
        congrArg ReadState.cursor (ReadState.advance_eq_moved aheadEq)
      have peekEq : state.cursor.peek = lexeme := Cursor.peek_of_ahead aheadEq
      rcases areStrings lexeme rfl with isString | isString <;>
        simp [Cursor.atAny, atToken, isString, stringLit, advanceEq, peekEq, stringOf]

/-! ## Names -/

/-- The name of a type is read in front of anything but a point. -/
theorem names_of_written
    {first : Lexeme P}
    {member : Option (Lexeme P × Lexeme P)}
    (isName : first.token = .ident)
    (areMember : ∀ each ∈ member, each.1.token = .dot ∧ each.2.token = .ident)
    (aheadEq : state.cursor.ahead = first :: (memberLexemes member ++ follower :: rest))
    (noDot : follower.token ≠ .dot) :
    Names state.cursor (member.map fun _ => identOf first)
      (identOf ((member.map Prod.snd).getD first))
      (state.moved ((memberLexemes member).length + 1) (follower :: rest)).cursor := by
  obtain ⟨⟨consumed, ahead, stop⟩, depth, inside, errors⟩ := state
  subst aheadEq
  cases member with
  | none => exact .plain isName noDot
  | some each =>
      obtain ⟨isDot, isMember⟩ := areMember each rfl
      exact .qualified isName isDot isMember

theorem mem_phraseEnds_of_fieldEnds
    {token : Token}
    (ends : token ∈ fieldEnds) :
    token ∈ phraseEnds := by
  revert token
  decide

theorem ne_of_fieldEnds
    {token : Token}
    (ends : token ∈ fieldEnds) :
    token ≠ .dot ∧ token ≠ .lBrack := by
  revert token
  decide

/-- Type arguments are read in front of the end of a line, and begin with a bracket. -/
theorem parses_args
    {args : Tree P (.one .typeArgs)}
    (isArgs : ReadsExactly limit state.depth state.inHeader typeArgs text args)
    (regular : state.Regular)
    (aheadEq : state.cursor.ahead = text ++ follower :: rest)
    (ends : follower.token ∈ fieldEnds) :
    Parses limit typeArgs state args (state.moved text.length (follower :: rest)).cursor
      ∧ ∃ lBrack others, text = lBrack :: others ∧ lBrack.token = .lBrack := by
  have parses := isArgs.parses
    (fun allowance => (readsNonterminals limit allowance).typeArgs_delimited.detaches) regular aheadEq
    (mem_phraseEnds_of_fieldEnds ends)
  have opens := (parses_typeArgs.1 parses).1
  refine ⟨parses, ?_⟩
  cases text with
  | nil => exact absurd ((Cursor.token_of_ahead aheadEq).symm.trans opens) (ne_of_fieldEnds ends).2
  | cons lBrack others => exact ⟨lBrack, others, rfl, (Cursor.token_of_ahead aheadEq).symm.trans opens⟩

/-- Behind a name, the next token decides, or what follows the brackets. -/
theorem atEmbeddedField_of_name
    {cursor : Cursor P}
    (atName : cursor.token = .ident) :
    atEmbeddedField cursor = (cursor.tokenAfter 1 = .dot
      || if cursor.tokenAfter 1 = .lBrack then cursor.brackFollowedBy fieldEnds
        else fieldEnds.contains (cursor.tokenAfter 1)) := by
  rw [atEmbeddedField, atName]
  dsimp only
  split <;> simp_all

namespace WrittenName

/-- In front of the end of its line, the name of a type is read with its arguments. -/
theorem parses
    {written : WrittenName P}
    (isValid : written.IsValid limit state.depth state.inHeader)
    (regular : state.Regular)
    (aheadEq : state.cursor.ahead = written.lexemes ++ follower :: rest)
    (ends : follower.token ∈ fieldEnds) :
    Parses limit Production.typeName state written.tree
      (state.moved written.lexemes.length (follower :: rest)).cursor := by
  obtain ⟨first, member, args⟩ := written
  obtain ⟨isName, areMember, areArgs⟩ := isValid
  cases args with
  | none =>
      have aheadEq : state.cursor.ahead = first :: (memberLexemes member ++ follower :: rest) := by
        simpa [lexemes, argLexemes] using aheadEq
      have names := names_of_written isName areMember aheadEq (ne_of_fieldEnds ends).1
      refine (parses_typeName_of_names names).2 ?_
      rw [if_neg (by exact (ne_of_fieldEnds ends).2)]
      exact ⟨rfl, by simp [lexemes, argLexemes]⟩
  | some args =>
      have aheadEq : state.cursor.ahead
          = first :: (memberLexemes member ++ (args.1 ++ follower :: rest)) := by
        simpa [lexemes, argLexemes] using aheadEq
      let named := state.moved ((memberLexemes member).length + 1) (args.1 ++ follower :: rest)
      have namedRegular : named.Regular :=
        regular_of_suffix regular ⟨first :: memberLexemes member, aheadEq.symm⟩
      have isArgs : ReadsExactly limit named.depth named.inHeader typeArgs args.1 args.2 :=
        areArgs _ rfl
      obtain ⟨argsParse, lBrack, others, textEq, opens⟩ := parses_args isArgs namedRegular rfl ends
      have bracketEq : state.cursor.ahead
          = first :: (memberLexemes member ++ lBrack :: (others ++ follower :: rest)) := by
        rw [aheadEq, textEq]
        rfl
      have names := names_of_written isName areMember bracketEq (by simp [opens])
      refine (parses_typeName_of_names names).2 ?_
      rw [if_pos (by exact opens)]
      refine ⟨args.2, ?_, rfl⟩
      have lengthEq : (lexemes ⟨first, member, some args⟩).length
          = (memberLexemes member).length + 1 + args.1.length := by
        simp [lexemes, argLexemes]
        omega
      rw [ReadState.moved_moved, ← lengthEq] at argsParse
      have sameState : state.moveTo (state.moved ((memberLexemes member).length + 1)
          (lBrack :: (others ++ follower :: rest))).cursor = named := by
        simp only [named, textEq]
        rfl
      exact sameState ▸ argsParse

/-- In front of the end of its line, the name of a type is seen to be embedded. -/
theorem atEmbeddedField
    {written : WrittenName P}
    (isValid : written.IsValid limit state.depth state.inHeader)
    (regular : state.Regular)
    (aheadEq : state.cursor.ahead = written.lexemes ++ follower :: rest)
    (ends : follower.token ∈ fieldEnds) :
    Production.atEmbeddedField state.cursor = true := by
  obtain ⟨first, member, args⟩ := written
  obtain ⟨isName, areMember, areArgs⟩ := isValid
  have atName : state.cursor.token = .ident := (Cursor.token_of_ahead aheadEq).trans isName
  rw [atEmbeddedField_of_name atName]
  cases member with
  | some each =>
      have aheadEq : state.cursor.ahead = first :: each.1 :: each.2 ::
          (argLexemes ⟨first, some each, args⟩ ++ follower :: rest) := by
        simpa [lexemes, memberLexemes] using aheadEq
      simp [tokenAfter_one aheadEq, (areMember each rfl).1]
  | none =>
      cases args with
      | none =>
          have others := ne_of_fieldEnds ends
          simp [tokenAfter_one aheadEq, others, ends]
      | some args =>
          have aheadEq : state.cursor.ahead = first :: (args.1 ++ follower :: rest) := aheadEq
          have advanceEq : state.moveTo state.cursor.advance
              = state.moved 1 (args.1 ++ follower :: rest) := ReadState.advance_eq_moved aheadEq
          have namedRegular : (state.moved 1 (args.1 ++ follower :: rest)).Regular :=
            regular_of_suffix regular ⟨[first], aheadEq.symm⟩
          have isArgs : ReadsExactly limit (state.moved 1 (args.1 ++ follower :: rest)).depth
              (state.moved 1 (args.1 ++ follower :: rest)).inHeader typeArgs args.1 args.2 :=
            areArgs _ rfl
          obtain ⟨argsParse, lBrack, others, textEq, opens⟩ := parses_args isArgs namedRegular rfl ends
          rw [← advanceEq] at argsParse
          have argsParse : Parses limit typeArgs ((state.moveTo state.cursor.advance).deeper 0) args.2 _ :=
            argsParse
          have follows := brackFollowedBy_of_typeArgs regular atName argsParse fieldEnds
          have isEnd : fieldEnds.contains follower.token = true := List.contains_iff_mem.2 ends
          rw [tokenAfter_one (aheadEq.trans (by rw [textEq]; rfl)), opens, if_pos rfl]
          exact Bool.or_eq_true_iff.2 (.inr (follows.trans isEnd))

end WrittenName

/-! ## Lines -/

/-- More names are read up to what comes behind them. -/
theorem collects_moreNames
    {others : List (Lexeme P × Lexeme P)}
    (areNames : ∀ other ∈ others, other.1.token = .comma ∧ other.2.token = .ident)
    (aheadEq : state.cursor.ahead = moreNames others ++ follower :: rest)
    (noComma : follower.token ≠ .comma) :
    Collects limit (behindComma ident) (others.map fun other => identOf other.2) state
      (state.moved (moreNames others).length (follower :: rest)).cursor := by
  induction others generalizing state with
  | nil =>
      obtain ⟨⟨consumed, ahead, stop⟩, depth, inside, errors⟩ := state
      subst aheadEq
      exact collects_behindComma_nil.2 ⟨noComma, rfl⟩
  | cons other others inductionHypothesis =>
      obtain ⟨⟨isComma, isName⟩, areNames⟩ := List.forall_mem_cons.1 areNames
      obtain ⟨⟨consumed, ahead, stop⟩, depth, inside, errors⟩ := state
      subst aheadEq
      refine collects_behindComma_cons.2 ⟨isComma, _, parses_ident.2 ⟨isName, rfl, rfl⟩, ?_⟩
      have collects := @inductionHypothesis
        ⟨⟨consumed + 2, moreNames others ++ follower :: rest, stop⟩, depth, inside, errors⟩ areNames rfl
      have lengthEq : consumed + (moreNames (other :: others)).length
          = consumed + 2 + (moreNames others).length := by
        simp [moreNames]
        omega
      rw [ReadState.moved, lengthEq]
      exact collects

theorem parses_names
    {first : Lexeme P}
    {others : List (Lexeme P × Lexeme P)}
    (isName : first.token = .ident)
    (areNames : ∀ other ∈ others, other.1.token = .comma ∧ other.2.token = .ident)
    (aheadEq : state.cursor.ahead = first :: (moreNames others ++ follower :: rest))
    (noComma : follower.token ≠ .comma) :
    Parses limit identList state (identOf first :: others.map fun other => identOf other.2)
      (state.moved ((moreNames others).length + 1) (follower :: rest)).cursor := by
  have advanceEq : state.moveTo state.cursor.advance = state.moved 1 (moreNames others ++ follower :: rest) :=
    ReadState.advance_eq_moved aheadEq
  refine parses_commaSeparated.2 ⟨state.cursor.advance, parses_ident.2 ⟨?_, ?_, rfl⟩, ?_⟩
  · exact (Cursor.token_of_ahead aheadEq).trans isName
  · rw [Cursor.peek_of_ahead aheadEq]
  · have collects : Collects limit (behindComma ident) (others.map fun other => identOf other.2)
        (state.moved 1 (moreNames others ++ follower :: rest)) _ :=
      collects_moreNames areNames rfl noComma
    rw [ReadState.moved_moved, Nat.add_comm] at collects
    rw [advanceEq]
    exact collects

/-- A name in front of a type is seen not to be embedded. -/
theorem not_atEmbeddedField_of_type
    {type : TypeExpr P}
    {final : Cursor P}
    (regular : state.Regular)
    (atName : state.cursor.token = .ident)
    (parses : Parses limit Production.type (state.moveTo state.cursor.advance) type final) :
    atEmbeddedField state.cursor = false := by
  have leads : state.cursor.advance.token = type.leadToken :=
    token_of_parses_type? (parses_type.1 parses)
  have notEnd (type : TypeExpr P) : type.leadToken ∉ fieldEnds := by
    cases type with
    | chanType dir => cases dir <;> simp [Tree.leadToken, fieldEnds]
    | _ => simp [Tree.leadToken, fieldEnds]
  have notDot : type.leadToken ≠ .dot := by
    intro isDot
    refine absurd ?_ type.leadToken_ne
    simp [isDot]
  rw [atEmbeddedField_of_name atName, tokenAfter_one_eq, leads]
  by_cases opens : type.leadToken = .lBrack
  · obtain ⟨elem, follows⟩ := exists_lead_of_brackets regular atName (leads.trans opens) parses
    simpa [opens, follows] using notEnd elem
  · simpa [opens, notDot] using notEnd type

/-- Names in front of a type are seen not to be embedded. -/
theorem not_atEmbeddedField
    {first : Lexeme P}
    {others : List (Lexeme P × Lexeme P)}
    {type : TypeExpr P}
    {final : Cursor P}
    (regular : state.Regular)
    (isName : first.token = .ident)
    (areNames : ∀ other ∈ others, other.1.token = .comma ∧ other.2.token = .ident)
    (aheadEq : state.cursor.ahead = first :: (moreNames others ++ rest))
    (parses : Parses limit Production.type (state.moved ((moreNames others).length + 1) rest) type final) :
    atEmbeddedField state.cursor = false := by
  have atName : state.cursor.token = .ident := (Cursor.token_of_ahead aheadEq).trans isName
  cases others with
  | cons other others =>
      have aheadEq : state.cursor.ahead = first :: other.1 :: other.2 :: (moreNames others ++ rest) :=
        aheadEq
      rw [atEmbeddedField_of_name atName]
      simp [tokenAfter_one aheadEq, (areNames other List.mem_cons_self).1, fieldEnds]
  | nil =>
      have advanceEq : state.moveTo state.cursor.advance = state.moved 1 rest :=
        ReadState.advance_eq_moved aheadEq
      have parses : Parses limit Production.type (state.moveTo state.cursor.advance) type final :=
        advanceEq ▸ parses
      exact not_atEmbeddedField_of_type regular atName parses

/-- An embedded type is read with its tag. -/
theorem parses_embedded
    {written : WrittenName P}
    (star : Option (Mark P))
    (isValid : written.IsValid limit state.depth state.inHeader)
    (areStrings : AreStrings tag)
    (regular : state.Regular)
    (aheadEq : state.cursor.ahead = written.lexemes ++ (tag.toList ++ follower :: rest))
    (ends : follower.token = .semi ∨ follower.token = .rBrace) :
    Parses limit (.bind Production.typeName fun name => .bind tag? fun tag =>
        .pure (Tree.embeddedField star name tag)) state
      (.embeddedField star written.tree (tag.map stringOf))
      (state.moved (written.lexemes ++ tag.toList).length (follower :: rest)).cursor := by
  obtain ⟨head, behind, behindEq, isEnd⟩ := exists_fieldEnd rest areStrings ends
  rw [behindEq] at aheadEq
  refine parses_bind.2 ⟨_, _, written.parses isValid regular aheadEq isEnd, ?_⟩
  have tagParses : Parses limit tag? (state.moved written.lexemes.length (head :: behind)) _ _ :=
    parses_tag? areStrings ends behindEq.symm
  rw [ReadState.moved_moved, ← List.length_append] at tagParses
  exact parses_bind.2 ⟨_, _, tagParses, parses_pure.2 ⟨rfl, rfl⟩⟩

/-- An embedded type is read as a line. -/
theorem parses_fieldDecl_embedded
    {star : Option (Lexeme P)}
    {name : WrittenName P}
    (isValid : (WrittenField.embedded star name tag).IsValid limit state.depth state.inHeader)
    (regular : state.Regular)
    (aheadEq : state.cursor.ahead
      = (WrittenField.embedded star name tag).lexemes ++ follower :: rest)
    (ends : follower.token = .semi ∨ follower.token = .rBrace) :
    Parses limit fieldDecl state (WrittenField.embedded star name tag).tree
      (state.moved (WrittenField.embedded star name tag).lexemes.length (follower :: rest)).cursor := by
  obtain ⟨areStars, isName, areStrings⟩ := isValid
  have aheadEq : state.cursor.ahead
      = star.toList ++ (name.lexemes ++ (tag.toList ++ follower :: rest)) := by
    simpa [WrittenField.lexemes] using aheadEq
  refine parses_bind_look.2 ?_
  cases star with
  | none =>
      have atName : state.cursor.token = .ident := (Cursor.token_of_ahead aheadEq).trans isName.1
      obtain ⟨head, behind, behindEq, isEnd⟩ := exists_fieldEnd rest areStrings ends
      rw [if_pos (name.atEmbeddedField isName regular (by rw [aheadEq, behindEq]; rfl) isEnd)]
      refine parses_bind.2 ⟨none, state.cursor, parses_mark?.2 (by simp [atName]), ?_⟩
      exact parses_embedded none isName areStrings regular aheadEq ends
  | some star =>
      have aheadEq : state.cursor.ahead
          = star :: (name.lexemes ++ (tag.toList ++ follower :: rest)) := aheadEq
      have atStar : state.cursor.token = .star :=
        (Cursor.token_of_ahead aheadEq).trans (areStars star rfl)
      have posEq : state.cursor.pos = star.pos := congrArg Lexeme.pos (Cursor.peek_of_ahead aheadEq)
      have behindStar : (state.moved 1 (name.lexemes ++ (tag.toList ++ follower :: rest))).Regular :=
        regular_of_suffix regular ⟨[star], aheadEq.symm⟩
      rw [if_pos (by simp [atEmbeddedField, atStar])]
      refine parses_bind.2 ⟨some ⟨.star, star.pos⟩, state.cursor.advance,
        parses_mark?.2 (by simp [atStar, posEq]), ?_⟩
      rw [show state.moveTo state.cursor.advance = state.moved 1 _ from
        ReadState.advance_eq_moved aheadEq]
      have isName : name.IsValid limit
          (state.moved 1 (name.lexemes ++ (tag.toList ++ follower :: rest))).depth
          (state.moved 1 (name.lexemes ++ (tag.toList ++ follower :: rest))).inHeader := isName
      have parses := parses_embedded (some ⟨.star, star.pos⟩) isName areStrings behindStar rfl ends
      rw [ReadState.moved_moved, Nat.add_comm] at parses
      exact parses

/-- Names in front of a type are read as a line. -/
theorem parses_fieldDecl_named
    {first : Lexeme P}
    {others : List (Lexeme P × Lexeme P)}
    {text : List (Lexeme P)}
    {type : TypeExpr P}
    (isValid : (WrittenField.named first others text type tag).IsValid limit state.depth
      state.inHeader)
    (regular : state.Regular)
    (aheadEq : state.cursor.ahead
      = (WrittenField.named first others text type tag).lexemes ++ follower :: rest)
    (ends : follower.token = .semi ∨ follower.token = .rBrace) :
    Parses limit fieldDecl state (WrittenField.named first others text type tag).tree
      (state.moved (WrittenField.named first others text type tag).lexemes.length
        (follower :: rest)).cursor := by
  obtain ⟨isName, areNames, isType, areStrings⟩ := isValid
  obtain ⟨head, behind, behindEq, isEnd⟩ := exists_fieldEnd rest areStrings ends
  have aheadEq : state.cursor.ahead = first :: (moreNames others ++ (text ++ head :: behind)) := by
    simpa [WrittenField.lexemes, behindEq] using aheadEq
  let named := state.moved ((moreNames others).length + 1) (text ++ head :: behind)
  have namedRegular : named.Regular :=
    regular_of_suffix regular ⟨first :: moreNames others, aheadEq.symm⟩
  have isType : ReadsExactly limit named.depth named.inHeader Production.type text type := isType
  have typeParses : Parses limit Production.type named type
      (named.moved text.length (head :: behind)).cursor :=
    isType.parses (fun allowance => (detachesNonterminals limit allowance).type
      (readsNonterminals limit allowance)) namedRegular rfl (mem_phraseEnds_of_fieldEnds isEnd)
  obtain ⟨lead, more, leadEq, leads⟩ := exists_of_type typeParses
  have leadEq : text ++ head :: behind = lead :: more := leadEq
  have noComma : lead.token ≠ .comma := by
    rw [leads]
    exact fun isComma => type.leadToken_ne (by simp [isComma])
  have namesParse : Parses limit identList state
      (identOf first :: others.map fun other => identOf other.2) named.cursor := by
    rw [leadEq] at aheadEq
    simp only [named, leadEq]
    exact parses_names isName areNames aheadEq noComma
  have notEmbedded : atEmbeddedField state.cursor = false :=
    not_atEmbeddedField regular isName areNames aheadEq typeParses
  have tagParses : Parses limit tag? (named.moved text.length (head :: behind)) _ _ :=
    parses_tag? areStrings ends behindEq.symm
  have finalEq : (named.moved text.length (head :: behind)).moved tag.toList.length (follower :: rest)
      = state.moved (WrittenField.named first others text type tag).lexemes.length
          (follower :: rest) := by
    rw [ReadState.moved_moved, ReadState.moved_moved]
    congr 1
    simp [WrittenField.lexemes]
    omega
  rw [finalEq] at tagParses
  refine parses_bind_look.2 ?_
  rw [notEmbedded]
  refine parses_bind.2 ⟨_, _, namesParse, parses_bind.2 ⟨_, _, typeParses, ?_⟩⟩
  exact parses_bind.2 ⟨_, _, tagParses, parses_pure.2 ⟨rfl, rfl⟩⟩

/-- A line is read as what it is written as, in front of a semicolon or a closing brace. -/
theorem parses_fieldDecl
    {written : WrittenField P}
    (isValid : written.IsValid limit state.depth state.inHeader)
    (regular : state.Regular)
    (aheadEq : state.cursor.ahead = written.lexemes ++ follower :: rest)
    (ends : follower.token = .semi ∨ follower.token = .rBrace) :
    Parses limit fieldDecl state written.tree
      (state.moved written.lexemes.length (follower :: rest)).cursor := by
  cases written with
  | embedded star name tag => exact parses_fieldDecl_embedded isValid regular aheadEq ends
  | named first others text type tag => exact parses_fieldDecl_named isValid regular aheadEq ends

end

/-! ## Structures -/

/-- Stretches of lexemes with semicolons between them. There may be a semicolon behind the last one. -/
inductive Lines : List (List (Lexeme P)) -> List (Lexeme P) -> Prop
  | none : Lines [] []
  | last (text : List (Lexeme P)) : Lines [text] text
  | more
      (text : List (Lexeme P))
      {semi : Lexeme P}
      {texts : List (List (Lexeme P))}
      {lexemes : List (Lexeme P)}
      (isSemi : semi.token = .semi)
      (rest : Lines texts lexemes) :
      Lines (text :: texts) (text ++ semi :: lexemes)

section

variable {limit : Nat} {state : ReadState P} {lexemes rest : List (Lexeme P)} {follower last : Lexeme P}

/-- A line begins with a star or a name. -/
theorem WrittenField.exists_lead
    {depth : Nat}
    {inside : Bool}
    {written : WrittenField P}
    (isValid : written.IsValid limit depth inside) :
    ∃ lead more, written.lexemes = lead :: more ∧ (lead.token = .star ∨ lead.token = .ident) := by
  cases written with
  | named first others text type tag => exact ⟨first, _, rfl, .inr isValid.1⟩
  | embedded star name tag =>
      cases star with
      | none => exact ⟨name.first, _, rfl, .inr isValid.2.1.1⟩
      | some star => exact ⟨star, _, rfl, .inl (isValid.1 star rfl)⟩

/-- Where a line comes next, the structure does not end. -/
theorem goesOn_of_field
    {depth : Nat}
    {inside : Bool}
    {written : WrittenField P}
    (isValid : written.IsValid limit depth inside)
    (aheadEq : state.cursor.ahead = written.lexemes ++ rest) :
    state.cursor.atAny [.rBrace, .eof] = false := by
  obtain ⟨lead, more, lexemesEq, leads⟩ := written.exists_lead isValid
  rw [lexemesEq] at aheadEq
  rw [Cursor.atAny, Cursor.token_of_ahead aheadEq]
  rcases leads with isLead | isLead <;> simp [isLead]

/-- The semicolon behind a line is read with it. -/
theorem parses_fieldLine_semi
    {written : WrittenField P}
    (isValid : written.IsValid limit state.depth state.inHeader)
    (regular : state.Regular)
    (aheadEq : state.cursor.ahead = written.lexemes ++ follower :: rest)
    (isSemi : follower.token = .semi) :
    Parses limit (withSemicolon fieldDecl) state (written.tree, true)
      (state.moved (written.lexemes.length + 1) rest).cursor := by
  refine parses_bind.2 ⟨_, _, parses_fieldDecl isValid regular aheadEq (.inl isSemi), ?_⟩
  have atSemi : (state.moved written.lexemes.length (follower :: rest)).cursor.token = .semi := isSemi
  refine parses_bind.2 ⟨(), _, parses_semicolon.2 ?_, parses_pure.2 ⟨rfl, rfl⟩⟩
  rw [if_neg (by simp [Cursor.atAny, atSemi])]
  exact ⟨atSemi, rfl⟩

/-- In front of the closing brace no semicolon is needed. -/
theorem parses_fieldLine_last
    {written : WrittenField P}
    (isValid : written.IsValid limit state.depth state.inHeader)
    (regular : state.Regular)
    (aheadEq : state.cursor.ahead = written.lexemes ++ follower :: rest)
    (closes : follower.token = .rBrace) :
    Parses limit (withSemicolon fieldDecl) state (written.tree, true)
      (state.moved written.lexemes.length (follower :: rest)).cursor := by
  refine parses_bind.2 ⟨_, _, parses_fieldDecl isValid regular aheadEq (.inr closes), ?_⟩
  have atClose : (state.moved written.lexemes.length (follower :: rest)).cursor.token = .rBrace := closes
  refine parses_bind.2 ⟨(), _, parses_semicolon.2 ?_, parses_pure.2 ⟨rfl, rfl⟩⟩
  rw [if_pos (by simp [Cursor.atAny, atClose])]
  rfl

/-- In front of the closing brace there are no more lines. -/
theorem itemizes_fields_nil
    (first : Bool)
    (atClose : state.cursor.token = .rBrace) :
    Itemizes limit .rBrace (fun _ => withSemicolon fieldDecl) first true state [] state.cursor :=
  .stop (by simp [Cursor.atAny, atClose])

/-- Lines are read one after another, up to the closing brace. -/
theorem itemizes_fields
    {fields : List (WrittenField P)}
    (first : Bool)
    (areValid : ∀ each ∈ fields, each.IsValid limit state.depth state.inHeader)
    (lines : Lines (fields.map WrittenField.lexemes) lexemes)
    (regular : state.Regular)
    (aheadEq : state.cursor.ahead = lexemes ++ last :: rest)
    (closes : last.token = .rBrace) :
    Itemizes limit .rBrace (fun _ => withSemicolon fieldDecl) first true state
      (fields.map WrittenField.tree) (state.moved lexemes.length (last :: rest)).cursor := by
  generalize textsEq : fields.map WrittenField.lexemes = texts at lines
  induction lines generalizing fields state first with
  | none =>
      obtain rfl := List.map_eq_nil_iff.1 textsEq
      have stays : state.moved 0 (last :: rest) = state := ReadState.moved_zero aheadEq
      rw [List.length_nil, stays]
      exact itemizes_fields_nil first ((Cursor.token_of_ahead aheadEq).trans closes)
  | last text =>
      obtain ⟨field, others, rfl, rfl, othersEq⟩ := List.map_eq_cons_iff.1 textsEq
      obtain rfl := List.map_eq_nil_iff.1 othersEq
      have isValid := List.forall_mem_singleton.1 areValid
      exact .next (goesOn_of_field isValid aheadEq) (parses_fieldLine_last isValid regular aheadEq closes)
        (itemizes_fields_nil false closes)
  | @more _ semi _ lexemes isSemi _ inductionHypothesis =>
      obtain ⟨field, others, rfl, rfl, othersEq⟩ := List.map_eq_cons_iff.1 textsEq
      obtain ⟨isValid, areValid⟩ := List.forall_mem_cons.1 areValid
      have aheadEq : state.cursor.ahead = field.lexemes ++ semi :: (lexemes ++ last :: rest) := by
        rw [aheadEq, List.append_assoc]
        rfl
      have behindSemi : (state.moved (field.lexemes.length + 1) (lexemes ++ last :: rest)).Regular :=
        regular_of_suffix regular ⟨field.lexemes ++ [semi], by simp [aheadEq]⟩
      have itemizes := @inductionHypothesis (state.moved (field.lexemes.length + 1) _) others false
        areValid behindSemi rfl othersEq
      have lengthEq : (field.lexemes ++ semi :: lexemes).length
          = field.lexemes.length + 1 + lexemes.length := by
        rw [List.length_append, List.length_cons]
        omega
      rw [ReadState.moved_moved, ← lengthEq] at itemizes
      exact .next (goesOn_of_field isValid aheadEq)
        (parses_fieldLine_semi isValid regular aheadEq isSemi) itemizes

/-- A structure comes next: its keyword, and some lexemes between braces. The allowance is enough to read
it. -/
structure AtStruct
    (allowance : Nat)
    (state : ReadState P)
    (keyword lBrace rBrace : Lexeme P)
    (lexemes behind : List (Lexeme P)) : Prop where
  isKeyword : keyword.token = .kwStruct
  opens : lBrace.token = .lBrace
  closes : rBrace.token = .rBrace
  regular : state.Regular
  enough : Production.allowance state.cursor.ahead.length ≤ allowance
  aheadEq : state.cursor.ahead = keyword :: lBrace :: (lexemes ++ rBrace :: behind)

theorem parses_structType
    {allowance : Nat}
    {keyword lBrace rBrace : Lexeme P}
    {behind : List (Lexeme P)}
    {fields : List (WrittenField P)}
    (atStruct : AtStruct allowance state keyword lBrace rBrace lexemes behind)
    (areValid : ∀ each ∈ fields, each.IsValid limit state.depth state.inHeader)
    (lines : Lines (fields.map WrittenField.lexemes) lexemes) :
    Parses limit structType state
      (.structType ⟨.kwStruct, keyword.pos⟩ ⟨.lBrace, lBrace.pos⟩
        (.ofList (fields.map WrittenField.tree)) ⟨.rBrace, rBrace.pos⟩)
      (state.moved (lexemes.length + 3) behind).cursor := by
  obtain ⟨isKeyword, opens, closes, regular, -, aheadEq⟩ := atStruct
  have fieldsRegular : (state.moved 2 (lexemes ++ rBrace :: behind)).Regular :=
    regular_of_suffix regular ⟨[keyword, lBrace], aheadEq.symm⟩
  have fieldsParse : Parses limit (itemsUntil .rBrace fun _ => withSemicolon fieldDecl)
      (state.moved 2 (lexemes ++ rBrace :: behind)) (fields.map WrittenField.tree)
      ((state.moved 2 _).moved lexemes.length (rBrace :: behind)).cursor :=
    parses_itemsUntil_iff.2 (itemizes_fields true areValid lines fieldsRegular rfl closes)
  obtain ⟨⟨consumed, ahead, stop⟩, depth, inside, errors⟩ := state
  subst aheadEq
  refine parses_bind.2 ⟨_, _, parses_mark.2 ⟨isKeyword, rfl, rfl⟩, ?_⟩
  refine parses_bind.2 ⟨_, _, parses_mark.2 ⟨opens, rfl, rfl⟩, ?_⟩
  refine parses_bind.2 ⟨_, _, fieldsParse, ?_⟩
  refine parses_bind.2 ⟨_, _, parses_mark.2 ⟨closes, rfl, rfl⟩, parses_pure.2 ⟨rfl, ?_⟩⟩
  simp only [ReadState.moved, Cursor.advance, ReadState.moveTo]
  congr 1
  omega

/-- A structure declares the fields of its lines: the lines that are written as embedded types, with a
star or a package or type arguments or none of them, are read as such, and the lines that are written as
names in front of a type are read as names of that type. -/
theorem structFields_exact
    {allowance : Nat}
    {keyword lBrace rBrace : Lexeme P}
    {behind : List (Lexeme P)}
    {fields : List (WrittenField P)}
    (atStruct : AtStruct allowance state keyword lBrace rBrace lexemes behind)
    (room : state.depth < limit)
    (areValid : ∀ each ∈ fields, each.IsValid limit (state.depth + 1) state.inHeader)
    (lines : Lines (fields.map WrittenField.lexemes) lexemes) :
    (ruleMachine limit allowance).run Production.type state
      = .done (.structType ⟨.kwStruct, keyword.pos⟩ ⟨.lBrace, lBrace.pos⟩
          (.ofList (fields.map WrittenField.tree)) ⟨.rBrace, rBrace.pos⟩)
        (state.moved (lexemes.length + 3) behind) := by
  have deeper : AtStruct allowance (state.deeper 1) keyword lBrace rBrace lexemes behind :=
    ⟨atStruct.isKeyword, atStruct.opens, atStruct.closes, atStruct.regular, atStruct.enough,
      atStruct.aheadEq⟩
  have atKeyword : state.cursor.token = .kwStruct :=
    (Cursor.token_of_ahead atStruct.aheadEq).trans atStruct.isKeyword
  have isStruct : typeFrom (P := P) state.cursor.token = some structType := by rw [atKeyword]; rfl
  have parses := parses_type.2 (parses_type?.2
    ⟨room, structType, isStruct, parses_structType deeper areValid lines⟩)
  refine parses.run_of_ends Tree.map_id Mirrors.type ?_
  have isTree : ReadsTree (ruleMachine (P := P) limit allowance) Anywhere 2 Production.type :=
    (readsNonterminals limit allowance).type
  refine (isTree ⟨none, none, none⟩ 2 trivial (Nat.le_refl 2)).finishes state atStruct.regular (by simp) ?_
  have enough := atStruct.enough
  unfold Production.allowance at enough
  change 8 * _ + 2 ≤ allowance
  omega

end

/-- The lexemes between the braces of `struct { x []y; *t[u]; }`, each at its number. -/
def mixedFields : List (Lexeme Nat) :=
  [⟨.ident, 2, some "x"⟩, ⟨.lBrack, 3, none⟩, ⟨.rBrack, 4, none⟩, ⟨.ident, 5, some "y"⟩,
    ⟨.semi, 6, none⟩, ⟨.star, 7, none⟩, ⟨.ident, 8, some "t"⟩, ⟨.lBrack, 9, none⟩,
    ⟨.ident, 10, some "u"⟩, ⟨.rBrack, 11, none⟩, ⟨.semi, 12, none⟩]

/-- The lexemes of `struct { x []y; *t[u]; }`. -/
def mixedStruct : List (Lexeme Nat) :=
  ⟨.kwStruct, 0, none⟩ :: ⟨.lBrace, 1, none⟩ :: (mixedFields ++ [⟨.rBrace, 13, none⟩])

/-- A bracket behind a name belongs to the type of a field, and one behind an embedded name to its
arguments. -/
theorem structFields_exact_mixed :
    (ruleMachine 9 128).run Production.type (.start mixedStruct 14)
      = .done (.structType ⟨.kwStruct, 0⟩ ⟨.lBrace, 1⟩
          (.ofList [
            .namedField [⟨"x", 2⟩]
              (.sliceType ⟨.lBrack, 3⟩ ⟨.rBrack, 4⟩ (.namedType (.typeName none ⟨"y", 5⟩ .absent)))
              none,
            .embeddedField (some ⟨.star, 7⟩)
              (.typeName none ⟨"t", 8⟩ (.present (.typeArgs ⟨.lBrack, 9⟩
                (.typeList (.ofList [.namedType (.typeName none ⟨"u", 10⟩ .absent)])) ⟨.rBrack, 11⟩)))
              none])
          ⟨.rBrace, 13⟩)
        ⟨⟨14, [], 14⟩, 0, false, []⟩ := by
  let slice : WrittenField Nat := .named ⟨.ident, 2, some "x"⟩ []
    [⟨.lBrack, 3, none⟩, ⟨.rBrack, 4, none⟩, ⟨.ident, 5, some "y"⟩]
    (.sliceType ⟨.lBrack, 3⟩ ⟨.rBrack, 4⟩ (.namedType (.typeName none ⟨"y", 5⟩ .absent))) none
  let pointer : WrittenField Nat := .embedded (some ⟨.star, 7, none⟩)
    ⟨⟨.ident, 8, some "t"⟩, none,
      some ([⟨.lBrack, 9, none⟩, ⟨.ident, 10, some "u"⟩, ⟨.rBrack, 11, none⟩],
        .typeArgs ⟨.lBrack, 9⟩ (.typeList (.ofList [.namedType (.typeName none ⟨"u", 10⟩ .absent)]))
          ⟨.rBrack, 11⟩)⟩ none
  have atStruct : AtStruct 128 (.start mixedStruct 14) ⟨.kwStruct, 0, none⟩ ⟨.lBrace, 1, none⟩
      ⟨.rBrace, 13, none⟩ mixedFields [] := by
    refine ⟨rfl, rfl, rfl, ?_, by decide, rfl⟩
    change ∀ lexeme ∈ mixedStruct,
      lexeme.token ≠ .eof ∧ lexeme.literal.isSome = lexeme.token.isLiteral
    decide
  have semiRegular : (⟨.semi, 6, none⟩ : Lexeme Nat).Regular := ⟨by decide, rfl⟩
  have sliceValid : slice.IsValid 9 1 false := by
    refine ⟨rfl, List.forall_mem_nil _, ⟨⟨.semi, 6, none⟩, semiRegular, by decide, 14, 8, rfl⟩, ?_⟩
    rintro _ ⟨⟩
  have pointerValid : pointer.IsValid 9 1 false := by
    refine ⟨?_, ⟨rfl, ?_, ?_⟩, ?_⟩
    · rintro _ ⟨⟩
      rfl
    · rintro _ ⟨⟩
    · rintro _ ⟨⟩
      exact ⟨⟨.semi, 6, none⟩, semiRegular, by decide, 14, 8, rfl⟩
    · rintro _ ⟨⟩
  have lines : Lines ([slice, pointer].map WrittenField.lexemes) mixedFields :=
    @Lines.more _ slice.lexemes ⟨.semi, 6, none⟩ _ _ rfl
      (@Lines.more _ pointer.lexemes ⟨.semi, 12, none⟩ _ _ rfl .none)
  have areValid : ∀ each ∈ [slice, pointer], each.IsValid 9 1 false :=
    List.forall_mem_cons.2 ⟨sliceValid, List.forall_mem_singleton.2 pointerValid⟩
  exact structFields_exact atStruct (by decide) areValid lines

end Production
end GoFront
