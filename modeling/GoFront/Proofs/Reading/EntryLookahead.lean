import GoFront.Proofs.Reading.Fields

/-!
# What entries and fields are told by

An entry of a parameter list and a field of a structure are told apart by two tokens and by what follows
the brackets behind a name. Whatever is read as a named entry or field is told to be one, and brackets that
belong to the name of a type are followed by what comes behind that type.
-/

namespace GoFront

variable {P : Type}

namespace Production

variable {limit : Nat} {state : ReadState P} {type : TypeExpr P} {final : Cursor P}

/-! ## Brackets behind names -/

/-- The brackets behind a name that is read as a type are those of its type arguments. -/
theorem brackFollowedBy_of_typeName
    {levels : Nat}
    {typeName : Tree P (.one .typeName)}
    (regular : state.Regular)
    (atName : state.cursor.token = .ident)
    (opens : state.cursor.advance.token = .lBrack)
    (parses : Parses limit Production.typeName (state.deeper levels) typeName final)
    (followers : List Token) :
    state.cursor.brackFollowedBy followers = followers.contains final.token := by
  have names : Names (state.deeper levels).cursor none (identOf state.cursor.peek) state.cursor.advance :=
    .plain atName (opens.trans_ne nofun)
  rw [parses_typeName_of_names names, if_pos opens] at parses
  obtain ⟨args, argsParses, -⟩ := parses
  exact brackFollowedBy_of_typeArgs regular atName argsParses followers

theorem brackFollowedBy_of_type
    (regular : state.Regular)
    (atName : state.cursor.token = .ident)
    (opens : state.cursor.advance.token = .lBrack)
    (parses : Parses limit Production.type state type final)
    (followers : List Token) :
    state.cursor.brackFollowedBy followers = followers.contains final.token := by
  obtain ⟨-, production, found, parses⟩ := parses_type?.1 (parses_type.1 parses)
  rw [atName] at found
  obtain rfl := Option.some.inj found
  obtain ⟨_, _, parses, rest⟩ := parses_bind.1 parses
  obtain ⟨-, rfl⟩ := parses_pure.1 rest
  exact brackFollowedBy_of_typeName regular atName opens parses followers

/-! ## Entries of parameter lists -/

/-- Reads a lone name as an entry. -/
def bareEntry : Production P (ParamEntry P) :=
  ident.bind fun name => .pure (.bare name)

/-- Reads a name in front of a type as an entry. -/
def namedEntry : Production P (ParamEntry P) :=
  ident.bind fun name => (mark? .ellipsis).bind fun ellipsis => Production.type.bind fun type =>
    .pure (.named name ellipsis type)

/-- Reads a type as an entry. -/
def unnamedEntry : Production P (ParamEntry P) :=
  (mark? .ellipsis).bind fun ellipsis => Production.type.bind fun type => .pure (.unnamed ellipsis type)

theorem end_of_bareEntry
    {entry : ParamEntry P}
    (parses : Parses limit bareEntry state entry final) :
    final = state.cursor.advance := by
  obtain ⟨_, _, parses, done⟩ := parses_bind.1 parses
  obtain ⟨-, rfl⟩ := parses_pure.1 done
  exact (parses_ident.1 parses).2.2

/-- What is read as a name in front of a type is told to be that. -/
theorem atParam_of_namedEntry
    {entry : ParamEntry P}
    (regular : state.Regular)
    (parses : Parses limit namedEntry state entry final) :
    atBareParam state.cursor = false ∧ atNamedParam state.cursor = true := by
  obtain ⟨_, _, nameParses, parses⟩ := parses_bind.1 parses
  obtain ⟨atName, -, rfl⟩ := parses_ident.1 nameParses
  obtain ⟨ellipsis, middle, dots, parses⟩ := parses_bind.1 parses
  obtain ⟨type, _, parses, -⟩ := parses_bind.1 parses
  rw [atBareParam, atNamedParam, tokenAfter_one_eq]
  rw [parses_mark?] at dots
  split at dots
  · next atDots =>
    have atDots : state.cursor.advance.token = .ellipsis := atDots
    simp [atName, atDots]
  · obtain ⟨-, rfl⟩ := dots
    have leads : state.cursor.advance.token = type.leadToken :=
      token_of_parses_type? (parses_type.1 parses)
    have notSpecial := type.leadToken_ne
    rw [← leads] at notSpecial
    simp only [List.mem_cons, List.not_mem_nil, or_false, not_or] at notSpecial
    by_cases opens : state.cursor.advance.token = .lBrack
    · obtain ⟨elem, follows⟩ := exists_lead_of_brackets regular atName opens parses
      have notEnd := elem.leadToken_ne
      simp only [List.mem_cons, List.not_mem_nil, or_false, not_or] at notEnd
      simp [atName, opens, follows, notEnd]
    · simp [atName, opens, notSpecial]

theorem brackFollowedBy_of_unnamedEntry
    {entry : ParamEntry P}
    (regular : state.Regular)
    (atName : state.cursor.token = .ident)
    (opens : state.cursor.advance.token = .lBrack)
    (parses : Parses limit unnamedEntry state entry final)
    (followers : List Token) :
    state.cursor.brackFollowedBy followers = followers.contains final.token := by
  obtain ⟨ellipsis, middle, dots, parses⟩ := parses_bind.1 parses
  rw [parses_mark?, atName, if_neg (by decide)] at dots
  obtain ⟨rfl, rfl⟩ := dots
  obtain ⟨type, _, parses, done⟩ := parses_bind.1 parses
  obtain ⟨-, rfl⟩ := parses_pure.1 done
  exact brackFollowedBy_of_type regular atName opens parses followers

/-- Where a name comes next that is told to stand in front of no type, the name of a type goes on. -/
theorem goesOn_of_not_atParam
    {cursor : Cursor P}
    (notNamed : ¬ atNamedParam cursor = true)
    (atName : cursor.token = .ident) :
    cursor.advance.token = .dot
      ∨ cursor.advance.token = .lBrack ∧ cursor.brackFollowedBy [.comma, .rParen] = true := by
  rw [atNamedParam, tokenAfter_one_eq, atName] at notNamed
  by_cases dot : cursor.advance.token = .dot
  · exact .inl dot
  · exact .inr (by simpa [dot] using notNamed)

/-- What is read as a type behind which an entry ends is told to be that if more than a name of it lies
ahead. -/
theorem not_atParam_of_unnamedEntry
    {entry : ParamEntry P}
    (regular : state.Regular)
    (parses : Parses limit unnamedEntry state entry final)
    (goesOn : state.cursor.token = .ident -> state.cursor.advance.token = .dot
      ∨ state.cursor.advance.token = .lBrack ∧ (final.token = .comma ∨ final.token = .rParen)) :
    ¬ atBareParam state.cursor = true ∧ ¬ atNamedParam state.cursor = true := by
  rw [atBareParam, atNamedParam, tokenAfter_one_eq]
  by_cases atName : state.cursor.token = .ident
  · rcases goesOn atName with dot | ⟨opens, ends⟩
    · simp [dot]
    · have follows := brackFollowedBy_of_unnamedEntry regular atName opens parses
      rcases ends with isEnd | isEnd <;> simp [opens, follows, isEnd]
  · simp [atName]

/-! ## Fields -/

/-- Names in front of a type are told not to be embedded. -/
theorem not_atEmbeddedField_of_names
    {names : List (Ident P)}
    {middle : Cursor P}
    (regular : state.Regular)
    (namesParse : Parses limit identList state names middle)
    (parses : Parses limit Production.type (state.moveTo middle) type final) :
    atEmbeddedField state.cursor = false := by
  cases names with
  | nil =>
      obtain ⟨_, _, -, namesParse⟩ := parses_bind.1 namesParse
      obtain ⟨_, _, -, namesParse⟩ := parses_bind.1 namesParse
      exact nomatch (parses_pure.1 namesParse).1
  | cons name names =>
      obtain ⟨_, nameParses, collects⟩ := parses_commaSeparated.1 namesParse
      obtain ⟨atName, -, rfl⟩ := parses_ident.1 nameParses
      cases names with
      | nil =>
          obtain ⟨-, rfl⟩ := collects_behindComma_nil.1 collects
          exact not_atEmbeddedField_of_type regular atName parses
      | cons _ _ =>
          have atComma : state.cursor.advance.token = .comma := (collects_behindComma_cons.1 collects).1
          rw [atEmbeddedField_of_name atName, tokenAfter_one_eq, atComma]
          rfl

/-- Reads an embedded type as a field. -/
def embeddedField : Production P (Tree P (.one .field)) :=
  (mark? .star).bind fun star => Production.typeName.bind fun name => tag?.bind fun tag =>
    .pure (.embeddedField star name tag)

/-- Reads names in front of a type as a field. -/
def namedField : Production P (Tree P (.one .field)) :=
  identList.bind fun names => Production.type.bind fun type => tag?.bind fun tag =>
    .pure (.namedField names type tag)

theorem fieldDecl_eq :
    (fieldDecl : Production P (Tree P (.one .field))) = .bind .look fun cursor =>
      if atEmbeddedField cursor then embeddedField else namedField := rfl

/-- A tag can follow an embedded type, or the line ends behind it. -/
theorem cases_of_tag?
    {tag : Option (BasicLit P)}
    (parses : Parses limit tag? state tag final) :
    tag = none ∧ final = state.cursor
      ∨ tag.isSome = true ∧ fieldEnds.contains state.cursor.token = true := by
  have parses := parses_bind_look.1 parses
  split at parses
  · next isString =>
    obtain ⟨_, _, -, done⟩ := parses_bind.1 parses
    obtain ⟨rfl, -⟩ := parses_pure.1 done
    have inStrings := List.contains_iff_mem.1 isString
    refine .inr ⟨rfl, List.contains_iff_mem.2 ?_⟩
    revert inStrings
    generalize state.cursor.token = token
    revert token
    decide
  · exact .inl (parses_pure.1 parses)

/-- An embedded field begins with a star or a name. -/
theorem star_of_atEmbeddedField
    {cursor : Cursor P}
    (isEmbedded : atEmbeddedField cursor = true)
    (notName : cursor.token ≠ .ident) :
    cursor.token = .star := by
  unfold atEmbeddedField at isEmbedded
  split at isEmbedded
  · assumption
  · next atName => exact absurd atName notName
  · cases isEmbedded

theorem atEmbeddedField_of_star
    {cursor : Cursor P}
    (atStar : cursor.token = .star) :
    atEmbeddedField cursor = true := by
  rw [atEmbeddedField, atStar]

/-- What is read as names in front of a type is told not to be embedded. -/
theorem not_atEmbeddedField_of_namedField
    {field : Tree P (.one .field)}
    (regular : state.Regular)
    (parses : Parses limit namedField state field final) :
    atEmbeddedField state.cursor = false := by
  obtain ⟨names, _, namesParse, parses⟩ := parses_bind.1 parses
  obtain ⟨type, _, parses, -⟩ := parses_bind.1 parses
  exact not_atEmbeddedField_of_names regular namesParse parses

/-- An embedded type that begins with a name is told by what follows the name or the whole type. -/
theorem exists_of_embeddedField
    {field : Tree P (.one .field)}
    (regular : state.Regular)
    (atName : state.cursor.token = .ident)
    (parses : Parses limit embeddedField state field final) :
    ∃ star name tag middle, field = .embeddedField star name tag
      ∧ Parses limit tag? (state.moveTo middle) tag final
      ∧ atEmbeddedField state.cursor
          = (state.cursor.advance.token = .dot || fieldEnds.contains middle.token) := by
  obtain ⟨star, _, starParses, parses⟩ := parses_bind.1 parses
  rw [parses_mark?, atName, if_neg (by decide)] at starParses
  obtain ⟨rfl, rfl⟩ := starParses
  obtain ⟨name, middle, nameParses, parses⟩ := parses_bind.1 parses
  obtain ⟨tag, _, tagParses, done⟩ := parses_bind.1 parses
  obtain ⟨rfl, rfl⟩ := parses_pure.1 done
  refine ⟨none, name, tag, middle, rfl, tagParses, ?_⟩
  rw [atEmbeddedField_of_name atName, tokenAfter_one_eq]
  by_cases dot : state.cursor.advance.token = .dot
  · simp [dot]
  by_cases opens : state.cursor.advance.token = .lBrack
  · have nameParses : Parses limit Production.typeName (state.deeper 0) name middle := nameParses
    rw [if_pos opens, brackFollowedBy_of_typeName regular atName opens nameParses]
  · have names : Names state.cursor none (identOf state.cursor.peek) state.cursor.advance :=
      .plain atName dot
    rw [ReadState.moveTo_cursor, parses_typeName_of_names names, if_neg opens] at nameParses
    rw [if_neg opens, nameParses.2]

/-! ## Type parameters -/

theorem tokenAfter_two_eq (cursor : Cursor P) :
    cursor.tokenAfter 2 = cursor.advance.advance.token := by
  obtain ⟨consumed, ahead, stop⟩ := cursor
  match ahead with
  | [] | [_] | [_, _] | _ :: _ :: _ :: _ => rfl

/-- Behind a comma in a list of names another name comes next. -/
theorem ident_of_identList
    {names : List (Ident P)}
    (parses : Parses limit identList state names final)
    (atComma : state.cursor.advance.token = .comma) :
    state.cursor.advance.advance.token = .ident := by
  cases names with
  | nil =>
      obtain ⟨_, _, -, parses⟩ := parses_bind.1 parses
      obtain ⟨_, _, -, parses⟩ := parses_bind.1 parses
      exact nomatch (parses_pure.1 parses).1
  | cons first rest =>
      obtain ⟨middle, first, collects⟩ := parses_commaSeparated.1 parses
      obtain ⟨-, -, rfl⟩ := parses_ident.1 first
      match rest, collects with
      | [], collects => exact absurd atComma (collects_behindComma_nil.1 collects).1
      | _ :: _, collects =>
          obtain ⟨-, _, second, -⟩ := collects_behindComma_cons.1 collects
          exact (parses_ident.1 second).1

/-- Behind a comma among the first names of type parameters another name comes next. -/
theorem ident_of_typeParams
    {generics : Tree P (.one .typeParams)}
    (parses : Parses limit typeParams state generics final)
    (atName : state.cursor.advance.token = .ident)
    (atComma : state.cursor.advance.advance.token = .comma) :
    state.cursor.advance.advance.advance.token = .ident := by
  obtain ⟨_, _, opens, parses⟩ := parses_bind.1 (parses_inHeader.1 parses)
  obtain ⟨-, -, rfl⟩ := parses_mark.1 opens
  obtain ⟨entries, _, items, -⟩ := parses_bind.1 parses
  cases parses_itemsUntil_iff.1 items with
  | stop stops => simp [Cursor.atAny, atName] at stops
  | next _ parses _ =>
      obtain ⟨_, _, paramParses, -⟩ := parses_bind.1 parses
      obtain ⟨_, _, namesParses, -⟩ := parses_bind.1 paramParses
      exact ident_of_identList namesParses atComma

end Production
end GoFront
