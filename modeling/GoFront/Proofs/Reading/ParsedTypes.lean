import GoFront.Proofs.Forms.Yields
import GoFront.Proofs.Reading.Parses

/-!
# How types were read

What is known about the lexemes from which a type was read without errors: its first token tells its
kind, and its parts were read behind one another.
-/

namespace GoFront

variable {P : Type}

/-- The token with which a type begins. -/
def Tree.leadToken : TypeExpr P -> Token
  | namedType _ => .ident
  | pointerType .. => .star
  | parenType .. => .lParen
  | functionType _ => .kwFunc
  | arrayType .. | countedArrayType .. | sliceType .. => .lBrack
  | mapType .. => .kwMap
  | chanType .recv .. => .arrow
  | chanType .. => .kwChan
  | structType .. => .kwStruct
  | interfaceType .. => .kwInterface

namespace Production

variable {limit : Nat} {state : ReadState P} {final : Cursor P}

/-! ## First tokens -/

theorem parses_type? {type : TypeExpr P} :
    Parses limit type? state (some type) final ↔
      state.depth < limit ∧ ∃ production, typeFrom state.cursor.token = some production
        ∧ Parses limit production (state.deeper 1) type final := by
  have rule : Parses limit type? state (some type) final ↔
      Parses limit typeRule state (some type) final := parses_call
  rw [rule, typeRule]
  simp only [parses_nested, bind_eq, parses_bind, parses_look]
  cases startsType : typeFrom state.cursor.token with
  | none => simp [startsType]
  | some production => simp [startsType]

/-- What is read at a token is a type that begins with it. Channels are left out: they are all read by
one production, whatever their first token. -/
theorem yields_leadToken
    {inside : Bool}
    {machine : Machine P}
    {token : Token}
    {production : Production P (TypeExpr P)}
    (found : typeFrom token = some production)
    (notChan : token ≠ .kwChan ∧ token ≠ .arrow) :
    Yields inside machine production fun type => type.leadToken = token := by
  cases token
  all_goals simp only [typeFrom, Option.some.injEq, reduceCtorEq] at found
  all_goals subst found
  case ident => exact .skip fun _ => .done rfl
  case star => exact .skip fun _ => .skip fun _ => .done rfl
  case lParen =>
    refine .inHeader (.skip fun lParen => ?_)
    refine .skip fun inner => ?_
    exact .skip fun rParen => .done rfl
  case kwFunc => exact .skip fun _ => .done rfl
  case kwMap =>
    refine .skip fun keyword => ?_
    refine .skip fun lBrack => ?_
    refine .skip fun key => ?_
    refine .skip fun rBrack => ?_
    exact .skip fun value => .done rfl
  case kwStruct | kwInterface =>
    refine .skip fun keyword => ?_
    refine .skip fun lBrace => ?_
    refine .skip fun items => ?_
    exact .skip fun rBrace => .done rfl
  case lBrack =>
    refine .skip fun _ => .skip fun rBrack => ?_
    cases rBrack with
    | some _ => exact .skip fun _ => .done rfl
    | none =>
        refine .skip fun ellipsis => ?_
        cases ellipsis with
        | some _ =>
            refine .skip fun rBrack => ?_
            exact .skip fun elem => .done rfl
        | none =>
            refine .skip fun length => ?_
            refine .skip fun rBrack => ?_
            exact .skip fun elem => .done rfl
  case kwChan => exact absurd rfl notChan.1
  case arrow => exact absurd rfl notChan.2

theorem token_of_chanType
    {type : TypeExpr P}
    (parses : Parses limit chanType state type final) :
    state.cursor.token = type.leadToken := by
  obtain ⟨_, _, arrowParses, parses⟩ := parses_bind.1 parses
  rw [parses_mark?] at arrowParses
  split at arrowParses
  · next atArrow =>
      obtain ⟨rfl, rfl⟩ := arrowParses
      obtain ⟨_, _, -, parses⟩ := parses_bind.1 parses
      obtain ⟨_, _, -, parses⟩ := parses_bind.1 parses
      obtain ⟨rfl, -⟩ := parses_pure.1 parses
      exact atArrow
  · obtain ⟨rfl, rfl⟩ := arrowParses
    obtain ⟨_, _, chanParses, parses⟩ := parses_bind.1 parses
    obtain ⟨arrow, _, -, parses⟩ := parses_bind.1 parses
    obtain ⟨_, _, -, parses⟩ := parses_bind.1 parses
    obtain ⟨rfl, -⟩ := parses_pure.1 parses
    obtain ⟨atChan, -⟩ := parses_mark.1 chanParses
    cases arrow <;> exact atChan

/-- A type begins with its own token. -/
theorem token_of_parses_type?
    {type : TypeExpr P}
    (parses : Parses limit type? state (some type) final) :
    state.cursor.token = type.leadToken := by
  obtain ⟨-, production, found, parses⟩ := parses_type?.1 parses
  by_cases isChan : state.cursor.token = .kwChan ∨ state.cursor.token = .arrow
  · obtain atToken | atToken := isChan
    all_goals
      rw [atToken] at found
      obtain rfl := Option.some.inj found
      have deeper := token_of_chanType parses
      exact deeper
  · obtain ⟨allowance, run⟩ := parses
    exact ((yields_leadToken found (not_or.1 isChan)).of_run rfl run).symm

/-- A type is read as its first token says. -/
theorem parses_of_type?
    {type : TypeExpr P}
    {production : Production P (TypeExpr P)}
    (parses : Parses limit type? state (some type) final)
    (leads : typeFrom type.leadToken = some production) :
    state.depth < limit ∧ state.cursor.token = type.leadToken
      ∧ Parses limit production (state.deeper 1) type final := by
  have atToken := token_of_parses_type? parses
  obtain ⟨room, _, found, parses⟩ := parses_type?.1 parses
  obtain rfl := Option.some.inj (found.symm.trans (atToken ▸ leads))
  exact ⟨room, atToken, parses⟩

theorem parses_type {type : TypeExpr P} :
    Parses limit Production.type state type final ↔ Parses limit type? state (some type) final := by
  simp only [Production.type, bind_eq, parses_bind]
  constructor
  · rintro ⟨read, middle, parses, rest⟩
    cases read with
    | none => simp at rest
    | some read =>
        obtain ⟨rfl, rfl⟩ := parses_pure.1 rest
        exact parses
  · exact fun parses => ⟨some type, final, parses, parses_pure.2 ⟨rfl, rfl⟩⟩

/-! ## Pointers, parentheses and type arguments -/

theorem parses_pointerType {type : TypeExpr P} :
    Parses limit pointerType state type final ↔
      state.cursor.token = .star
        ∧ ∃ elem, Parses limit type? (state.moveTo state.cursor.advance) (some elem) final
          ∧ type = .pointerType ⟨.star, state.cursor.pos⟩ elem := by
  simp [pointerType, parses_type, and_assoc]

theorem parses_parenType {type : TypeExpr P} :
    Parses limit parenType state type final ↔
      state.cursor.token = .lParen
        ∧ ∃ inner middle,
          Parses limit type? ((state.moveTo state.cursor.advance).place false) (some inner) middle
            ∧ middle.token = .rParen
            ∧ type = .parenType ⟨.lParen, state.cursor.pos⟩ inner ⟨.rParen, middle.pos⟩
            ∧ final = middle.advance := by
  simp [parenType, parses_type, and_assoc]

theorem parses_typeArgs {args : Tree P (.one .typeArgs)} :
    Parses limit typeArgs state args final ↔
      state.cursor.token = .lBrack ∧ state.cursor.advance.token ≠ .rBrack
        ∧ ∃ first front,
          Parses limit type? ((state.moveTo state.cursor.advance).place false) (some first) front
            ∧ ∃ rest middle,
              Parses limit (commaTail .rBrack Production.type) ((state.moveTo front).place false) rest
                middle
                ∧ middle.token = .rBrack
                ∧ args = .typeArgs ⟨.lBrack, state.cursor.pos⟩ (.typeList (.ofList (first :: rest)))
                    ⟨.rBrack, middle.pos⟩
                ∧ final = middle.advance := by
  by_cases empty : state.cursor.advance.token = .rBrack <;>
    simp [typeArgs, parses_type, empty, and_assoc]

/-! ## Names -/

/-- A name, possibly qualified by a package, lies in front of another cursor. -/
inductive Names (cursor : Cursor P) : Option (Ident P) -> Ident P -> (behind : Cursor P) -> Prop
  | plain
      (atName : cursor.token = .ident)
      (noDot : cursor.advance.token ≠ .dot) :
      Names cursor none (identOf cursor.peek) cursor.advance
  | qualified
      (atName : cursor.token = .ident)
      (dot : cursor.advance.token = .dot)
      (atMember : cursor.advance.advance.token = .ident) :
      Names cursor (some (identOf cursor.peek)) (identOf cursor.advance.advance.peek)
        cursor.advance.advance.advance

/-- What follows the name of a type. -/
theorem exists_of_nameEnd
    {package : Option (Ident P)}
    {name : Ident P}
    {typeName : Tree P (.one .typeName)}
    (parses : Parses limit (.bind .look fun cursor =>
      if cursor.token = .lBrack then
        typeArgs.bind fun args => .pure (.typeName package name (.present args))
      else .pure (.typeName package name .absent)) state typeName final) :
    (typeName = .typeName package name .absent ∧ final = state.cursor)
      ∨ ∃ args, Parses limit typeArgs state args final
        ∧ typeName = .typeName package name (.present args) := by
  rw [parses_bind_look] at parses
  split at parses
  · obtain ⟨args, _, argsParses, rest⟩ := parses_bind.1 parses
    obtain ⟨rfl, rfl⟩ := parses_pure.1 rest
    exact .inr ⟨args, argsParses, rfl⟩
  · exact .inl (parses_pure.1 parses)

theorem exists_of_typeName
    {typeName : Tree P (.one .typeName)}
    (parses : Parses limit Production.typeName state typeName final) :
    ∃ package name behind, Names state.cursor package name behind
      ∧ ((typeName = .typeName package name .absent ∧ final = behind)
        ∨ ∃ args, Parses limit typeArgs (state.moveTo behind) args final
          ∧ typeName = .typeName package name (.present args)) := by
  simp only [Production.typeName, bind_eq, parses_bind, parses_ident] at parses
  obtain ⟨_, _, ⟨atName, rfl, rfl⟩, dot, _, dotParses, parses⟩ := parses
  rw [parses_eat?] at dotParses
  split at dotParses
  · next atDot =>
      obtain ⟨rfl, rfl⟩ := dotParses
      rw [Option.isSome_some, if_pos rfl] at parses
      obtain ⟨_, _, nameParses, parses⟩ := parses_bind.1 parses
      obtain ⟨atMember, rfl, rfl⟩ := parses_ident.1 nameParses
      obtain ⟨_, _, pairParses, parses⟩ := parses_bind.1 parses
      obtain ⟨rfl, rfl⟩ := parses_pure.1 pairParses
      exact ⟨_, _, _, .qualified atName atDot atMember, exists_of_nameEnd parses⟩
  · next noDot =>
      obtain ⟨rfl, rfl⟩ := dotParses
      rw [Option.isSome_none, if_neg Bool.false_ne_true] at parses
      obtain ⟨_, _, pairParses, parses⟩ := parses_bind.1 parses
      obtain ⟨rfl, rfl⟩ := parses_pure.1 pairParses
      exact ⟨_, _, _, .plain atName noDot, exists_of_nameEnd parses⟩

/-- How a type that is a name was read. -/
theorem exists_of_namedType
    {typeName : Tree P (.one .typeName)}
    (parses : Parses limit type? state (some (Tree.namedType typeName)) final) :
    state.depth < limit ∧ ∃ package name behind, Names state.cursor package name behind
      ∧ ((typeName = .typeName package name .absent ∧ final = behind)
        ∨ ∃ args, Parses limit typeArgs ((state.moveTo behind).deeper 1) args final
          ∧ typeName = .typeName package name (.present args)) := by
  obtain ⟨room, -, parses⟩ := parses_of_type? parses rfl
  obtain ⟨_, _, parses, rest⟩ := parses_bind.1 parses
  obtain ⟨same, rfl⟩ := parses_pure.1 rest
  obtain rfl := Tree.namedType.inj same
  exact ⟨room, exists_of_typeName parses⟩

/-- A lone name is read as the type of that name. -/
theorem eq_of_plainName
    {state : ReadState P}
    {type : TypeExpr P}
    {final : Cursor P}
    (parses : Parses limit Production.type state type final)
    (atName : state.cursor.token = .ident)
    (isPlain : state.cursor.advance.token ≠ .dot ∧ state.cursor.advance.token ≠ .lBrack) :
    type = .namedType (.typeName none (identOf state.cursor.peek) .absent)
      ∧ final = state.cursor.advance := by
  replace parses := parses_type.1 parses
  have leads := (token_of_parses_type? parses).symm.trans atName
  cases type with
  | namedType typeName =>
      obtain ⟨-, _, _, _, names, ends⟩ := exists_of_namedType parses
      cases names with
      | qualified _ atDot => exact absurd atDot isPlain.1
      | plain =>
          obtain ⟨rfl, rfl⟩ | ⟨_, argsParses, -⟩ := ends
          · exact ⟨rfl, rfl⟩
          · exact absurd (parses_typeArgs.1 argsParses).1 isPlain.2
  | chanType dir => cases dir <;> cases leads
  | _ => cases leads

end Production
end GoFront
