import GoFront.Proofs.Reading.Contexts
import GoFront.Proofs.Reading.Locality
import GoFront.Proofs.Reading.ParsedExprs
import GoFront.Proofs.Shape.Depth

/-!
# Arrays with computed lengths

A bracket behind the name of a type opens type parameters or the length of an array. Two tokens behind the
bracket decide, however long the length is. A length that can stand as the value of a variable is read as
one, unless its second token could start a constraint.
-/

namespace GoFront

variable {P α : Type} {limit : Nat}

namespace Tree

/-- The declaration of another name for a type. -/
def aliasOf
    (keyword : Mark P)
    (name : Ident P)
    (assign : Mark P)
    (type : TypeExpr P) : Decl P :=
  .specified .types (.specDecl .types keyword (.typeSpecOf (.aliasDecl name assign type)))

/-- The declaration of a type without type parameters that is an array with a length. -/
def arrayDef
    (keyword : Mark P)
    (name : Ident P)
    (lBrack : Mark P)
    (length : Expr P)
    (rBrack : Mark P)
    (elem : TypeExpr P) : Decl P :=
  .specified .types (.specDecl .types keyword
    (.typeSpecOf (.typeDef name .absent (.arrayType lBrack length rBrack elem))))

end Tree

namespace Production

variable {production : Production P α} {state other : ReadState P} {final : Cursor P} {value : α}
  {taken behind : List (Lexeme P)}

/-- An expression at the end of a line is read again in front of a closing bracket. -/
theorem Parses.expr_again
    {length : Expr P}
    {lexeme : Lexeme P}
    {rest : List (Lexeme P)}
    (parses : Parses limit expr state length final)
    (regular : state.Regular)
    (aheadEq : state.cursor.ahead = taken ++ final.ahead)
    (ends : final.token ∈ phraseEnds)
    (lexemeEnds : lexeme.token ∈ phraseEnds)
    (otherAhead : other.cursor.ahead = taken ++ lexeme :: rest)
    (sameDepth : other.depth = state.depth)
    (sameHeader : other.inHeader = state.inHeader) :
    Parses limit expr other length (other.moved taken.length (lexeme :: rest)).cursor :=
  parses.again regular aheadEq
    (fun allowance cleanRun => (detachesNonterminals limit allowance).exprOf .or cleanRun ends lexeme
      rest lexemeEnds)
    otherAhead sameDepth sameHeader

/-- A type is read again in front of the same lexemes. -/
theorem Parses.type_again
    {elem : Option (TypeExpr P)}
    {lexeme : Lexeme P}
    {rest : List (Lexeme P)}
    (parses : Parses limit type? state elem final)
    (regular : state.Regular)
    (aheadEq : state.cursor.ahead = taken ++ final.ahead)
    (finalAhead : final.ahead = lexeme :: rest)
    (otherAhead : other.cursor.ahead = taken ++ lexeme :: rest)
    (sameDepth : other.depth = state.depth)
    (sameHeader : other.inHeader = state.inHeader) :
    Parses limit type? other elem (other.moved taken.length (lexeme :: rest)).cursor :=
  parses.again regular aheadEq
    (fun allowance cleanRun => (readsNonterminals limit allowance).type?.repeats trivial cleanRun lexeme
      rest rest finalAhead)
    otherAhead sameDepth sameHeader

/-! ## Specs -/

theorem specDecl?_eq_ok_iff
    {kind : SpecKind}
    {pos : P}
    {spec : Spec P}
    {decl : SpecDecl P kind} :
    Tree.specDecl? kind ⟨kind.keyword, pos⟩ spec = .ok decl
      ↔ spec.specKind = kind ∧ decl = .specDecl kind ⟨kind.keyword, pos⟩ spec := by
  by_cases sameKind : spec.specKind = kind <;> simp [Tree.specDecl?, sameKind, eq_comm]

/-- A declaration with a single spec. -/
theorem parses_specifiedDecl
    {kind : SpecKind}
    {decl : Decl P}
    (isKeyword : state.cursor.token = kind.keyword)
    (noGroup : state.cursor.advance.token ≠ .lParen) :
    Parses limit (specifiedDecl kind) state decl final ↔
      ∃ spec middle, Parses limit (singleSpec kind true) (state.moveTo state.cursor.advance) spec middle
        ∧ spec.specKind = kind ∧ Parses limit semicolon (state.moveTo middle) () final
        ∧ decl = .specified kind (.specDecl kind ⟨kind.keyword, state.cursor.pos⟩ spec) := by
  simp [specifiedDecl, specDecl, Production.spec, isKeyword, noGroup, parses_build, specDecl?_eq_ok_iff,
    and_assoc, Unique.exists_iff]

/-- The value of a variable without a type is read behind the equals sign. -/
theorem parses_of_valueSpec
    {name : Ident P}
    {length : Expr P}
    (isName : state.cursor.token = .ident)
    (isAssign : state.cursor.advance.token = .assign)
    (parses : Parses limit varSpec state (.varSpecOf (.valueSpec name length)) final) :
    Parses limit expr (state.moveTo state.cursor.advance.advance) length final := by
  -- the tokens tell how the name and the missing type are read, and nothing is read in two ways
  obtain ⟨names, middle, namesParse, parses⟩ := parses_bind.1 parses
  have oneName : Parses limit identList state [identOf state.cursor.peek] state.cursor.advance :=
    parses_commaSeparated_single (parses_ident.2 ⟨isName, rfl, rfl⟩) (by simp [isAssign])
  obtain ⟨rfl, rfl⟩ := namesParse.unique oneName
  obtain ⟨type, middle, typeParses, parses⟩ := parses_bind.1 parses
  have room : state.depth < limit := (parses_nested.1 (parses_call.1 typeParses)).1
  have noType : Parses limit type? (state.moveTo state.cursor.advance) none state.cursor.advance :=
    parses_type?_none room (by simp [isAssign, typeFrom])
  obtain ⟨rfl, rfl⟩ := typeParses.unique noType
  obtain ⟨values, last, valuesParse, built⟩ : ∃ values last,
      Parses limit exprList (state.moveTo state.cursor.advance.advance) values last
        ∧ Parses limit
          (build (Tree.varSpec? [identOf state.cursor.peek] (.ofOption none) (.present values)))
          (state.moveTo last) (.valueSpec name length) final := by
    simpa [isAssign] using parses
  obtain ⟨isSpec, rfl⟩ := parses_build.1 built
  have sameValues : values = .exprList (.ofList [length]) := by
    have specs := Except.ok.inj isSpec
    simp [Tree.valueSpec] at specs
    exact specs.2
  have isSingle : values.exprs = [length] := by
    rw [sameValues]
    exact Tree.toList_ofList [length]
  exact parses_of_exprList valuesParse isSingle

theorem parses_typeSpec_alias
    {spec : Spec P}
    (isName : state.cursor.token = .ident)
    (isAssign : state.cursor.advance.token = .assign) :
    Parses limit typeSpec state spec final ↔
      ∃ type, Parses limit type? (state.moveTo state.cursor.advance.advance) (some type) final
        ∧ spec = .typeSpecOf (.aliasDecl (identOf state.cursor.peek)
          ⟨.assign, state.cursor.advance.pos⟩ type) := by
  simp [typeSpec, isName, isAssign, parses_type]

/-- Where no type parameters come next, brackets behind a name hold the length of an array. -/
theorem parses_typeSpec_array
    {length : Expr P}
    {elem : TypeExpr P}
    {middle : Cursor P}
    (room : state.depth < limit)
    (isName : state.cursor.token = .ident)
    (isBrack : state.cursor.advance.token = .lBrack)
    (noParams : atTypeParams state.cursor.advance = false)
    (isLength : state.cursor.advance.advance.token = .ident)
    (lengthParses : Parses limit expr
      (((state.moveTo state.cursor.advance.advance).deeper 1).place false) length middle)
    (closes : middle.token = .rBrack)
    (elemParses : Parses limit type? ((state.moveTo middle.advance).deeper 1) (some elem) final) :
    Parses limit typeSpec state
      (.typeSpecOf (.typeDef (identOf state.cursor.peek) .absent
        (.arrayType ⟨.lBrack, state.cursor.advance.pos⟩ length ⟨.rBrack, middle.pos⟩ elem))) final := by
  have isType : Parses limit type? (state.moveTo state.cursor.advance)
      (some (.arrayType ⟨.lBrack, state.cursor.advance.pos⟩ length ⟨.rBrack, middle.pos⟩ elem))
      final := by
    refine parses_type?.2 ⟨room, arrayOrSliceType, by simp [isBrack, typeFrom], ?_⟩
    simpa [arrayOrSliceType, isBrack, isLength, parses_type] using
      ⟨middle, lengthParses, closes, elemParses, rfl⟩
  simpa [typeSpec, isName, isBrack, noParams, parses_type] using isType

/-! ## Lengths that begin with a name -/

/-- The tokens that can both continue a length behind its first name and start a constraint. -/
def lengthContinuations : List Token :=
  [.star, .lBrack, .lParen]

/-- A name that neither a suffix nor an operator follows is an expression by itself. -/
theorem cursor_of_parses_expr
    {length : Expr P}
    (parses : Parses limit expr state length final)
    (atName : state.cursor.token = .ident)
    (noSuffix : state.cursor.advance.token ∉ [.lBrack, .lParen, .lBrace, .dot])
    (noOperator : state.cursor.advance.token.precedence = .none) :
    final = state.cursor.advance := by
  obtain ⟨_, _, unary, -⟩ := parses_bind.1 (parses_call.1 parses)
  have room : state.depth < limit := (parses_nested.1 (parses_call.1 unary)).1
  simp only [List.mem_cons, List.not_mem_nil, or_false, not_or] at noSuffix
  have stops : Parses limit (suffix? (.ident (identOf state.cursor.peek)))
      ((state.moveTo state.cursor.advance).deeper 1) none state.cursor.advance := by
    simp [suffix?, noSuffix]
  exact (parses.unique (parses_expr_of_name room atName (.stop stops) noOperator)).2

/-- A length that goes on behind its first name does so in one of three ways, or with a token that starts
no constraint. -/
theorem not_mem_typeParamFollowers
    {length : Expr P}
    (parses : Parses limit expr state length final)
    (atName : state.cursor.token = .ident)
    (goesOn : final ≠ state.cursor.advance)
    (otherwise : state.cursor.advance.token ∉ lengthContinuations) :
    state.cursor.advance.token ∉ typeParamFollowers := by
  have others : ∀ token ∈ typeParamFollowers, token ∉ lengthContinuations ->
      token ∉ [.lBrack, .lParen, .lBrace, .dot] ∧ token.precedence = .none := by decide
  intro follows
  obtain ⟨noSuffix, noOperator⟩ := others _ follows otherwise
  exact goesOn (cursor_of_parses_expr parses atName noSuffix noOperator)

/-! ## Declarations alone -/

/-- Lexemes in front of others are read as a value, outside of all other phrases. -/
def ReadsLexemes
    (limit : Nat)
    (production : Production P α)
    (lexemes behind : List (Lexeme P))
    (value : α) : Prop :=
  ∀ state : ReadState P, state.cursor.ahead = lexemes ++ behind -> state.depth = 0 ->
    state.inHeader = false ->
      Parses limit production state value (state.moved lexemes.length behind).cursor

section

variable {kind : SpecKind} {decl : Decl P} {length : Expr P} {elem : TypeExpr P}

theorem parses_declAt (isKeyword : state.cursor.token = kind.keyword) :
    Parses limit (declAt state.cursor) state decl final ↔
      Parses limit (specifiedDecl kind) state decl final := by
  cases kind <;> simp [declAt, Production.decl, isKeyword, SpecKind.keyword]

/-- A declaration that is all there is consists of a spec and a semicolon. -/
theorem exists_singleSpec_of_declAt
    (regular : state.Regular)
    (isKeyword : state.cursor.token = kind.keyword)
    (noGroup : state.cursor.advance.token ≠ .lParen)
    (parses : Parses limit (declAt state.cursor) state decl final)
    (atEnd : final.token = .eof) :
    ∃ spec middle semi,
      Parses limit (singleSpec kind true) (state.moveTo state.cursor.advance) spec middle
        ∧ middle.ahead = [semi] ∧ semi.token = .semi
        ∧ decl = .specified kind (.specDecl kind ⟨kind.keyword, state.cursor.pos⟩ spec) := by
  have declParses := (parses_declAt isKeyword).1 parses
  obtain ⟨spec, middle, specParses, -, ends, isDecl⟩ :=
    (parses_specifiedDecl isKeyword noGroup).1 declParses
  obtain ⟨allowance, run⟩ := declParses
  obtain ⟨_, reaches⟩ := Machine.reaches_of_done run
  have finalRegular : ∀ lexeme ∈ final.ahead, lexeme.Regular := reaches.regular regular
  have endsInSemi : middle.token = .semi ∧ final = middle.advance := by
    have cases := parses_semicolon.1 ends
    split at cases
    · next closes =>
        subst cases
        simp [Cursor.atAny, atEnd] at closes
    · exact cases
  obtain ⟨isSemi, rfl⟩ := endsInSemi
  have notEnd : middle.token ≠ .eof := by simp [isSemi]
  obtain ⟨semi, rest, middleAhead, semiToken⟩ := Cursor.exists_of_token_ne_eof notEnd
  rw [Cursor.ahead_advance, middleAhead, List.tail_cons] at finalRegular
  cases rest with
  | nil => exact ⟨spec, middle, semi, specParses, middleAhead, semiToken.trans isSemi, isDecl⟩
  | cons lexeme rest =>
      have isNext : middle.advance.token = lexeme.token :=
        Cursor.token_of_ahead (by rw [Cursor.ahead_advance, middleAhead, List.tail_cons])
      exact absurd (isNext.symm.trans atEnd) (finalRegular lexeme List.mem_cons_self).1

/-- Lexemes are read as the length of an array in front of its closing bracket, and do not begin like type
parameters. -/
structure ReadsLength
    (limit : Nat)
    (words : List (Lexeme P))
    (length : Expr P) : Prop where
  notEmpty : words ≠ []
  reads : ∀ closer rest, closer.token = .rBrack ->
    ReadsLexemes limit expr words (closer :: rest) length
  notParams : ∀ first second more, words = first :: second :: more -> first.token = .ident ->
    second.token ∉ lengthContinuations -> second.token ∉ typeParamFollowers

theorem readsLength_of_parses
    {semi : Lexeme P}
    (parses : Parses limit expr state length final)
    (regular : state.Regular)
    (atTop : state.depth = 0)
    (notInHeader : state.inHeader = false)
    (aheadEq : state.cursor.ahead = taken ++ [semi])
    (finalAhead : final.ahead = [semi])
    (isSemi : semi.token = .semi) :
    ReadsLength limit taken length where
  notEmpty := by
    obtain ⟨allowance, run⟩ := parses
    obtain ⟨read, reaches⟩ := Machine.reaches_of_done run
    obtain rfl : read = taken := by
      have readEq := reaches.ahead
      rw [ReadState.cursor_moveTo, finalAhead, aheadEq] at readEq
      exact (List.append_cancel_right readEq).symm
    have closes : Closes (ruleMachine limit allowance) (expr (P := P)) :=
      .of_anywhere (readsNonterminals limit allowance).expr
    obtain ⟨_, isLast, -⟩ := closes ⟨regular, run, reaches, rfl⟩
    rintro rfl
    cases isLast
  reads closer rest isCloser other otherAhead sameDepth sameHeader := by
    have ends : final.token ∈ phraseEnds := by
      rw [Cursor.token_of_ahead finalAhead, isSemi]
      decide
    refine parses.expr_again regular (finalAhead ▸ aheadEq) ends ?_ otherAhead
      (sameDepth.trans atTop.symm) (sameHeader.trans notInHeader.symm)
    rw [isCloser]
    decide
  notParams first second more isWords atName otherwise := by
    subst isWords
    have behindName : state.cursor.advance.ahead = second :: (more ++ [semi]) := by
      rw [Cursor.ahead_advance, aheadEq]
      rfl
    rw [← Cursor.token_of_ahead behindName] at otherwise ⊢
    refine not_mem_typeParamFollowers parses (by rw [Cursor.token_of_ahead aheadEq, atName])
      (fun stays => ?_) otherwise
    rw [stays, behindName] at finalAhead
    simp at finalAhead

/-- What a variable is given as its value is read again as the length of an array. -/
theorem exists_readsLength_of_declAt
    {mark : Mark P}
    {name : Ident P}
    (regular : state.Regular)
    (atTop : state.depth = 0)
    (notInHeader : state.inHeader = false)
    (isVar : state.cursor.token = .kwVar)
    (isName : state.cursor.advance.token = .ident)
    (isAssign : state.cursor.advance.advance.token = .assign)
    (parses : Parses limit (declAt state.cursor) state (.valueDecl mark name length) final)
    (atEnd : final.token = .eof) :
    ∃ words semi, state.cursor.advance.advance.advance.ahead = words ++ [semi] ∧ semi.token = .semi
      ∧ ReadsLength limit words length := by
  have isKeyword : state.cursor.token = SpecKind.vars.keyword := isVar
  obtain ⟨spec, middle, semi, specParses, middleAhead, isSemi, isDecl⟩ :=
    exists_singleSpec_of_declAt regular isKeyword (by simp [isName]) parses atEnd
  obtain rfl : Tree.varSpecOf (.valueSpec name length) = spec := by
    simp [Tree.valueDecl] at isDecl
    exact isDecl.2
  have valueParses := parses_of_valueSpec isName isAssign specParses
  obtain ⟨words, aheadEq⟩ := valueParses.exists_taken
  have valueRegular := regular.moveTo_advance.moveTo_advance.moveTo_advance
  rw [middleAhead] at aheadEq
  exact ⟨words, semi, aheadEq, isSemi, readsLength_of_parses valueParses valueRegular atTop notInHeader
    aheadEq middleAhead isSemi⟩

/-- What an alias stands for is read again as the type of elements. -/
theorem exists_readsLexemes_of_declAt
    {mark assign : Mark P}
    {name : Ident P}
    (regular : state.Regular)
    (atTop : state.depth = 0)
    (notInHeader : state.inHeader = false)
    (isType : state.cursor.token = .kwType)
    (isName : state.cursor.advance.token = .ident)
    (isAssign : state.cursor.advance.advance.token = .assign)
    (parses : Parses limit (declAt state.cursor) state (.aliasOf mark name assign elem) final)
    (atEnd : final.token = .eof) :
    ∃ words semi, state.cursor.advance.advance.advance.ahead = words ++ [semi] ∧ semi.token = .semi
      ∧ ReadsLexemes limit type? words [semi] (some elem) := by
  have isKeyword : state.cursor.token = SpecKind.types.keyword := isType
  obtain ⟨spec, middle, semi, specParses, middleAhead, isSemi, isDecl⟩ :=
    exists_singleSpec_of_declAt regular isKeyword (by simp [isName]) parses atEnd
  obtain rfl : Tree.typeSpecOf (.aliasDecl name assign elem) = spec := by
    simp [Tree.aliasOf] at isDecl
    exact isDecl.2
  obtain ⟨type, typeParses, isSpec⟩ := (parses_typeSpec_alias isName isAssign).1 specParses
  obtain rfl : elem = type := by
    simp at isSpec
    exact isSpec.2.2
  obtain ⟨words, aheadEq⟩ := typeParses.exists_taken
  have typeRegular := regular.moveTo_advance.moveTo_advance.moveTo_advance
  rw [middleAhead] at aheadEq
  refine ⟨words, semi, aheadEq, isSemi, fun other otherAhead sameDepth sameHeader => ?_⟩
  exact typeParses.type_again typeRegular (middleAhead ▸ aheadEq) middleAhead otherAhead
    (sameDepth.trans atTop.symm) (sameHeader.trans notInHeader.symm)

/-- In front of a length no type parameters come next. -/
theorem atTypeParams_of_readsLength
    {cursor : Cursor P}
    {first lBrack rBrack : Lexeme P}
    {more rest : List (Lexeme P)}
    (aheadEq : cursor.ahead = lBrack :: (first :: more ++ rBrack :: rest))
    (closes : rBrack.token = .rBrack)
    (readsLength : ReadsLength limit (first :: more) length)
    (atName : first.token = .ident)
    (otherwise : ∀ second ∈ more.head?, second.token ∉ lengthContinuations) :
    atTypeParams cursor = false := by
  have follower : cursor.tokenAfter 2 ∉ typeParamFollowers := by
    cases more with
    | nil =>
        have isCloser : cursor.tokenAfter 2 = .rBrack := by
          simp [Cursor.tokenAfter, aheadEq, closes]
        rw [isCloser]
        decide
    | cons second more =>
        have isSecond : cursor.tokenAfter 2 = second.token := by
          simp [Cursor.tokenAfter, aheadEq]
        rw [isSecond]
        exact readsLength.notParams first second more rfl atName (otherwise second rfl)
  simp [atTypeParams, follower]

/-- Where a length and a type are read, they are read one level deeper as those of an array. -/
theorem exists_parses_arraySpec
    {more elems : List (Lexeme P)}
    {name lBrack first rBrack semi : Lexeme P}
    (atTop : state.depth = 0)
    (notInHeader : state.inHeader = false)
    (nameAhead : state.cursor.ahead = name :: lBrack :: (first :: more ++ rBrack :: (elems ++ [semi])))
    (isName : name.token = .ident)
    (isBrack : lBrack.token = .lBrack)
    (closes : rBrack.token = .rBrack)
    (readsLength : ReadsLength limit (first :: more) length)
    (readsElem : ReadsLexemes limit type? elems [semi] (some elem))
    (atName : first.token = .ident)
    (otherwise : ∀ second ∈ more.head?, second.token ∉ lengthContinuations) :
    ∃ last, last.ahead = [semi]
      ∧ Parses (limit + 1) typeSpec state (.typeSpecOf (.typeDef (identOf name) .absent
        (.arrayType ⟨.lBrack, lBrack.pos⟩ length ⟨.rBrack, rBrack.pos⟩ elem))) last := by
  have brackAhead : state.cursor.advance.ahead
      = lBrack :: (first :: more ++ rBrack :: (elems ++ [semi])) := by
    rw [Cursor.ahead_advance, nameAhead, List.tail_cons]
  have lengthAhead : state.cursor.advance.advance.ahead
      = first :: more ++ rBrack :: (elems ++ [semi]) := by
    rw [Cursor.ahead_advance, brackAhead, List.tail_cons]
  let before := state.moveTo state.cursor.advance.advance
  let middle := (before.moved (first :: more).length (rBrack :: (elems ++ [semi]))).cursor
  have lengthParses : Parses (limit + 1) expr ((before.deeper 1).place false) length middle := by
    have notInside : (before.deeper 1).place false = before.deeper 1 := by
      rw [← notInHeader]
      rfl
    rw [notInside]
    exact (readsLength.reads rBrack _ closes before lengthAhead atTop notInHeader).deeper 1
      (Nat.le_refl _)
  let behind := state.moveTo middle.advance
  let last := (behind.moved elems.length [semi]).cursor
  have elemParses : Parses (limit + 1) type? (behind.deeper 1) (some elem) last :=
    (readsElem behind (Cursor.ahead_advance middle) atTop notInHeader).deeper 1 (Nat.le_refl _)
  have specParses := @parses_typeSpec_array _ (limit + 1) state last length elem middle
    (by simp [atTop]) (by simp [Cursor.token_of_ahead nameAhead, isName])
    (by simp [Cursor.token_of_ahead brackAhead, isBrack])
    (atTypeParams_of_readsLength brackAhead closes readsLength atName otherwise)
    (by simp [Cursor.token_of_ahead lengthAhead, atName])
    lengthParses closes elemParses
  rw [Cursor.peek_of_ahead nameAhead, Cursor.pos, Cursor.peek_of_ahead brackAhead] at specParses
  exact ⟨last, rfl, specParses⟩

/-- An array is declared where its length and the type of its elements are read. -/
theorem exists_parses_arrayDef
    {lexemes more elems : List (Lexeme P)}
    {keyword name lBrack first rBrack semi : Lexeme P}
    (stop : P)
    (lexemesEq : lexemes
      = keyword :: name :: lBrack :: (first :: more ++ rBrack :: (elems ++ [semi])))
    (isType : keyword.token = .kwType)
    (isName : name.token = .ident)
    (isBrack : lBrack.token = .lBrack)
    (closes : rBrack.token = .rBrack)
    (isSemi : semi.token = .semi)
    (readsLength : ReadsLength limit (first :: more) length)
    (readsElem : ReadsLexemes limit type? elems [semi] (some elem))
    (atName : first.token = .ident)
    (otherwise : ∀ second ∈ more.head?, second.token ∉ lengthContinuations) :
    ∃ final, Parses (limit + 1) (declAt (ReadState.start lexemes stop).cursor) (.start lexemes stop)
        (.arrayDef ⟨.kwType, keyword.pos⟩ (identOf name) ⟨.lBrack, lBrack.pos⟩ length
          ⟨.rBrack, rBrack.pos⟩ elem) final
      ∧ final.token = .eof := by
  let state : ReadState P := .start lexemes stop
  have aheadEq : state.cursor.ahead
      = keyword :: name :: lBrack :: (first :: more ++ rBrack :: (elems ++ [semi])) := lexemesEq
  have nameAhead : state.cursor.advance.ahead
      = name :: lBrack :: (first :: more ++ rBrack :: (elems ++ [semi])) := by
    rw [Cursor.ahead_advance, aheadEq, List.tail_cons]
  obtain ⟨last, lastAhead, specParses⟩ := @exists_parses_arraySpec _ limit
    (state.moveTo state.cursor.advance) _ _ _ _ _ _ _ _ _ rfl rfl nameAhead isName isBrack closes
    readsLength readsElem atName otherwise
  have atSemi : last.token = .semi := (Cursor.token_of_ahead lastAhead).trans isSemi
  have ends : Parses (limit + 1) semicolon (state.moveTo last) () last.advance :=
    parses_semicolon.2 (by simp [Cursor.atAny, atSemi])
  have atEnd : last.advance.token = .eof := by
    have nothing : last.advance.ahead = [] := by rw [Cursor.ahead_advance, lastAhead, List.tail_cons]
    simp [Cursor.token, Cursor.peek, nothing, Cursor.finalLexeme]
  have isKeyword : state.cursor.token = SpecKind.types.keyword :=
    (Cursor.token_of_ahead aheadEq).trans isType
  have noGroup : state.cursor.advance.token ≠ .lParen := by
    simp [Cursor.token_of_ahead nameAhead, isName]
  refine ⟨last.advance, (parses_declAt isKeyword).2 ?_, atEnd⟩
  refine (parses_specifiedDecl isKeyword noGroup).2 ⟨_, last, specParses, rfl, ends, ?_⟩
  rw [Cursor.pos, Cursor.peek_of_ahead aheadEq]
  rfl

end

end Production

end GoFront
