import GoFront.Proofs.Places.Mirrors
import GoFront.Proofs.Reading.ParsedTypes
import GoFront.Proofs.Reading.Terminators

/-!
# Parameter lists

What stands in a parameter list is told apart by two tokens of each entry and by the end of its
brackets: lone names, types, and names in front of types. Lone names are types in a list in which no
entry has both, and otherwise share the type of a later entry.
-/

namespace GoFront

variable {P : Type}

/-- No type begins with a token that ends an entry or comes in front of its type. -/
theorem Tree.leadToken_ne (type : TypeExpr P) :
    type.leadToken ∉ [.comma, .rParen, .dot, .ellipsis, .eof] := by
  cases type with
  | chanType dir => cases dir <;> simp [leadToken]
  | _ => simp [leadToken]

namespace Production

/-! ## Entries as they are written -/

/-- Lexemes are read as a type, up to their end, in front of a comma and in front of a closing
parenthesis. -/
def ReadsType
    (limit depth : Nat)
    (text : List (Lexeme P))
    (type : TypeExpr P) : Prop :=
  ∀ follower : Lexeme P, follower.token = .comma ∨ follower.token = .rParen -> ∀ stop,
    Parses limit Production.type ⟨⟨0, text ++ [follower], stop⟩, depth, false, []⟩ type
      ⟨text.length, [follower], stop⟩

section

variable {limit : Nat} {state : ReadState P} {text rest : List (Lexeme P)} {type : TypeExpr P}
  {follower : Lexeme P}

/-- What is read as a type in front of a token is read wherever the token follows it. -/
theorem ReadsType.parses
    (isType : ReadsType limit state.depth text type)
    (regular : state.Regular)
    (outside : state.inHeader = false)
    (aheadEq : state.cursor.ahead = text ++ follower :: rest)
    (ends : follower.token = .comma ∨ follower.token = .rParen) :
    Parses limit Production.type state type (state.moved text.length (follower :: rest)).cursor := by
  obtain ⟨allowance, run⟩ := isType follower ends state.cursor.stop
  have clean : CleanRun (ruleMachine limit allowance) Production.type
      ⟨⟨0, text ++ [follower], state.cursor.stop⟩, state.depth, false, []⟩ type
      ⟨⟨text.length, [follower], state.cursor.stop⟩, state.depth, false, []⟩ text := by
    refine ⟨fun lexeme member => regular lexeme ?_, run,
      ⟨rfl, (Nat.zero_add _).symm, rfl, rfl, rfl, List.suffix_rfl⟩, rfl⟩
    rw [aheadEq, List.append_cons]
    exact List.mem_append_left rest member
  exact ⟨allowance, (readsNonterminals limit allowance).type.repeats trivial clean follower [] rest rfl
    state aheadEq rfl outside⟩

/-- The lexemes of a type begin with its first token. -/
theorem ReadsType.exists_cons
    (isType : ReadsType limit state.depth text type)
    (regular : state.Regular)
    (outside : state.inHeader = false)
    (aheadEq : state.cursor.ahead = text ++ follower :: rest)
    (ends : follower.token = .comma ∨ follower.token = .rParen) :
    ∃ first others, text = first :: others ∧ first.token = type.leadToken := by
  have parses := parses_type.1 (isType.parses regular outside aheadEq ends)
  have leads := token_of_parses_type? parses
  cases text with
  | cons first others =>
      refine ⟨first, others, rfl, ?_⟩
      rw [← leads, Cursor.token_of_ahead aheadEq]
  | nil =>
      refine absurd ?_ type.leadToken_ne
      rw [← leads, Cursor.token_of_ahead aheadEq]
      rcases ends with atComma | atParen
      · simp [atComma]
      · simp [atParen]

end

/-! ## Brackets behind a name -/

/-- The brackets of what is read without errors are closed in it. -/
theorem Parses.exists_nested
    {α : Type}
    {limit credit : Nat}
    {production : Production P α}
    {state : ReadState P}
    {value : α}
    {final : Cursor P}
    (parses : Parses limit production state value final)
    (regular : state.Regular)
    (reads : ∀ allowance, Reads (ruleMachine limit allowance) ⟨none, none, none⟩ production ⟨[], credit⟩
      fun _ after _ => after.due = []) :
    ∃ taken, state.cursor.ahead = taken ++ final.ahead ∧ Brackets.scan [] taken = some [] := by
  obtain ⟨allowance, run⟩ := parses
  obtain ⟨⟨due, _⟩, _, taken, isClosed, completes⟩ := (reads allowance).completes state value
    (state.moveTo final) regular (fun _ member => nomatch member) run
  obtain rfl : due = [] := isClosed
  exact ⟨taken, completes.ahead, completes.nested rfl⟩

theorem Parses.exists_nested_of_phrase
    {α : Type}
    {limit need : Nat}
    {production : Production P α}
    {state : ReadState P}
    {value : α}
    {final : Cursor P}
    {result : α -> Nat -> Nat -> List (Mention P) -> Prop}
    (parses : Parses limit production state value final)
    (regular : state.Regular)
    (isPhrase : ∀ allowance,
      ReadsPhrase (ruleMachine limit allowance) Anywhere need production result) :
    ∃ taken, state.cursor.ahead = taken ++ final.ahead ∧ Brackets.scan [] taken = some [] := by
  refine parses.exists_nested regular fun allowance =>
    (isPhrase allowance ⟨none, none, none⟩ need trivial (Nat.le_refl need)).weaken ?_
  rintro value _ mentions ⟨reached, rfl, -⟩
  exact ⟨mentions, .refl _, rfl⟩

/-- Where a token comes next, it is the token of the next lexeme. -/
theorem exists_of_atToken
    {cursor : Cursor P}
    {token : Token}
    (atToken : cursor.token = token)
    (notEnd : token ≠ .eof) :
    ∃ lexeme, cursor.ahead = lexeme :: cursor.advance.ahead ∧ lexeme.token = token := by
  subst atToken
  obtain ⟨lexeme, rest, aheadEq, isToken⟩ := Cursor.exists_of_token_ne_eof notEnd
  exact ⟨lexeme, by rw [Cursor.ahead_advance, aheadEq, List.tail_cons], isToken⟩

/-- What is ahead of a later cursor is regular. -/
theorem regular_of_suffix
    {state other : ReadState P}
    (regular : state.Regular)
    (isSuffix : other.cursor.ahead <:+ state.cursor.ahead) :
    other.Regular :=
  fun lexeme member => regular lexeme (isSuffix.subset member)

/-- A search for the end of open brackets passes over a stretch that closes all but one of them. -/
theorem closesBefore_of_nested
    {due followers : List Token}
    {taken behind : List (Lexeme P)}
    (nested : Brackets.scan due taken = some []) :
    Cursor.closesBefore .lBrack .rBrack followers (due.count .rBrack + 1) (taken ++ behind)
      = Cursor.closesBefore .lBrack .rBrack followers 1 behind := by
  induction taken generalizing due with
  | nil =>
      obtain rfl : due = [] := Option.some.inj nested
      rfl
  | cons head taken inductionHypothesis =>
      obtain ⟨after, stepEq, restNested⟩ := Option.bind_eq_some_iff.1 nested
      rw [← inductionHypothesis restNested, List.cons_append, Cursor.closesBefore]
      rw [Brackets.step_eq_some_iff] at stepEq
      rcases stepEq with ⟨closer, opens, rfl⟩ | ⟨notOpener, bracket, rfl⟩ | ⟨plain, rfl⟩
      · by_cases isBrack : head.token = .lBrack
        · obtain rfl : .rBrack = closer := by simpa [isBrack, Brackets.closer?] using opens
          rw [if_pos isBrack, List.count_cons_self]
        · have notCloser : head.token ≠ .rBrack := by
            intro isCloser
            simp [isCloser, Brackets.closer?] at opens
          have other : closer ≠ .rBrack := by
            rintro rfl
            revert opens isBrack
            cases head.token <;> simp [Brackets.closer?]
          rw [if_neg isBrack, if_neg notCloser, List.count_cons_of_ne other]
      · have notBrack : head.token ≠ .lBrack := by
          intro isBrack
          simp [isBrack, Brackets.closer?] at notOpener
        by_cases isCloser : head.token = .rBrack
        · rw [if_neg notBrack, if_pos isCloser, isCloser, List.count_cons_self, if_neg (by omega)]
          rfl
        · rw [if_neg notBrack, if_neg isCloser, List.count_cons_of_ne isCloser]
      · have notBracket : head.token ≠ .lBrack ∧ head.token ≠ .rBrack := by
          constructor <;> rintro isBracket <;> simp [isBracket, Brackets.isBracket] at plain
        rw [if_neg notBracket.1, if_neg notBracket.2]

/-- Behind a name, brackets are followed by what stands behind the bracket that closes them. -/
theorem brackFollowedBy_of_nested
    {cursor : Cursor P}
    {followers : List Token}
    {name lBrack rBrack : Lexeme P}
    {inner behind : List (Lexeme P)}
    (aheadEq : cursor.ahead = name :: lBrack :: (inner ++ rBrack :: behind))
    (isName : name.token = .ident)
    (opens : lBrack.token = .lBrack)
    (nested : Brackets.scan [] inner = some [])
    (closes : rBrack.token = .rBrack) :
    cursor.brackFollowedBy followers
      = followers.contains ((behind.head?.map Lexeme.token).getD .eof) := by
  have passes : Cursor.closesBefore .lBrack .rBrack followers 1 (inner ++ rBrack :: behind)
      = Cursor.closesBefore .lBrack .rBrack followers 1 (rBrack :: behind) :=
    closesBefore_of_nested nested
  rw [Cursor.brackFollowedBy, aheadEq]
  simp only [Cursor.closesBefore, isName, opens]
  refine passes.trans ?_
  simp [Cursor.closesBefore, closes]

section

variable {limit : Nat} {state : ReadState P} {type : TypeExpr P} {final : Cursor P}

/-- The brackets of type arguments contain a stretch that closes its own brackets. -/
theorem exists_of_typeArgs_brackets
    {args : Tree P (.one .typeArgs)}
    (regular : state.Regular)
    (parses : Parses limit typeArgs state args final) :
    ∃ lBrack inner rBrack, state.cursor.ahead = lBrack :: (inner ++ rBrack :: final.ahead)
      ∧ lBrack.token = .lBrack
      ∧ Brackets.scan [] inner = some []
      ∧ rBrack.token = .rBrack := by
  obtain ⟨opens, -, first, front, firstParses, rest, middle, restParses, closes, -, rfl⟩ :=
    parses_typeArgs.1 parses
  obtain ⟨lBrack, openEq, isOpener⟩ := exists_of_atToken opens (by decide)
  obtain ⟨rBrack, closeEq, isCloser⟩ := exists_of_atToken closes (by decide)
  have behindOpener : state.cursor.advance.ahead <:+ state.cursor.ahead :=
    ⟨[lBrack], openEq.symm⟩
  obtain ⟨firstTaken, firstEq, firstNested⟩ := (parses_type.2 firstParses).exists_nested_of_phrase
    (regular_of_suffix regular behindOpener) fun allowance => (readsNonterminals limit allowance).type
  have behindFirst : front.ahead <:+ state.cursor.ahead :=
    .trans ⟨firstTaken, firstEq.symm⟩ behindOpener
  have readsRest (allowance : Nat) : Reads (ruleMachine (P := P) limit allowance) ⟨none, none, none⟩
      (commaTail .rBrack Production.type) ⟨[], 2⟩ fun _ after _ => after.due = [] := by
    refine (Reads.commaTail (readsNonterminals (P := P) limit allowance).type trivial (by decide)
      (by decide)).weaken ?_
    rintro types _ mentions ⟨rfl, -⟩
    exact ⟨mentions, .refl _, rfl⟩
  obtain ⟨restTaken, restEq, restNested⟩ := restParses.exists_nested
    (regular_of_suffix regular behindFirst) readsRest
  refine ⟨lBrack, firstTaken ++ restTaken, rBrack, ?_, isOpener, ?_, isCloser⟩
  · have firstEq : state.cursor.advance.ahead = firstTaken ++ front.ahead := firstEq
    have restEq : front.ahead = restTaken ++ middle.ahead := restEq
    rw [openEq, firstEq, restEq, closeEq, List.append_assoc]
  · rw [Brackets.scan_append, firstNested]
    exact restNested

/-- Where a type comes next, a lexeme comes next that does not end an entry. -/
theorem exists_of_type
    (parses : Parses limit Production.type state type final) :
    ∃ first behind, state.cursor.ahead = first :: behind ∧ first.token = type.leadToken := by
  have leads := token_of_parses_type? (parses_type.1 parses)
  have notEnd : state.cursor.token ≠ .eof := by
    intro atEnd
    refine absurd ?_ type.leadToken_ne
    simp [← leads, atEnd]
  obtain ⟨first, behind, aheadEq, isToken⟩ := Cursor.exists_of_token_ne_eof notEnd
  exact ⟨first, behind, aheadEq, isToken.trans leads⟩

/-- The brackets of an array or slice hold nothing that is left open, and a type comes behind them. -/
theorem exists_inner_of_arrayOrSlice
    (regular : state.Regular)
    (parses : Parses limit arrayOrSliceType state type final) :
    ∃ (inner : List (Lexeme P)) (middle : Cursor P) (elem : TypeExpr P),
      state.cursor.token = .lBrack
        ∧ state.cursor.advance.ahead = inner ++ middle.ahead
        ∧ Brackets.scan [] inner = some []
        ∧ middle.token = .rBrack
        ∧ Parses limit Production.type (state.moveTo middle.advance) elem final := by
  obtain ⟨_, _, opens, parses⟩ := parses_bind.1 parses
  obtain ⟨atOpener, -, rfl⟩ := parses_mark.1 opens
  obtain ⟨lBrack, openEq, -⟩ := exists_of_atToken atOpener (by decide)
  obtain ⟨rBrack, _, closes, parses⟩ := parses_bind.1 parses
  rw [parses_mark?] at closes
  split at closes
  · next atCloser =>
    obtain ⟨rfl, rfl⟩ := closes
    obtain ⟨elem, _, elemParses, rest⟩ := parses_bind.1 parses
    obtain ⟨-, rfl⟩ := parses_pure.1 rest
    exact ⟨[], _, elem, atOpener, (List.nil_append _).symm, rfl, atCloser, elemParses⟩
  · obtain ⟨rfl, rfl⟩ := closes
    obtain ⟨ellipsis, _, dots, parses⟩ := parses_bind.1 parses
    rw [parses_mark?] at dots
    split at dots
    · next atDots =>
      obtain ⟨rfl, rfl⟩ := dots
      obtain ⟨ellipsis, dotsEq, isDots⟩ := exists_of_atToken atDots (by decide)
      obtain ⟨_, _, closes, parses⟩ := parses_bind.1 parses
      obtain ⟨atCloser, -, rfl⟩ := parses_mark.1 closes
      obtain ⟨elem, _, elemParses, rest⟩ := parses_bind.1 parses
      obtain ⟨-, rfl⟩ := parses_pure.1 rest
      have nested : Brackets.scan [] [ellipsis] = some [] := by
        simp [Brackets.scan, isDots, Brackets.step]
      exact ⟨[ellipsis], _, elem, atOpener, dotsEq, nested, atCloser, elemParses⟩
    · obtain ⟨rfl, rfl⟩ := dots
      obtain ⟨length, middle, lengthParses, parses⟩ := parses_bind.1 parses
      obtain ⟨inner, innerEq, nested⟩ := (parses_inHeader.1 lengthParses).exists_nested_of_phrase
        (regular_of_suffix regular ⟨[lBrack], openEq.symm⟩)
        fun allowance => (readsNonterminals limit allowance).expr
      obtain ⟨_, _, closes, parses⟩ := parses_bind.1 parses
      obtain ⟨atCloser, -, rfl⟩ := parses_mark.1 closes
      obtain ⟨elem, _, elemParses, rest⟩ := parses_bind.1 parses
      obtain ⟨-, rfl⟩ := parses_pure.1 rest
      exact ⟨inner, middle, elem, atOpener, innerEq, nested, atCloser, elemParses⟩

/-- Behind a name, the brackets of type arguments are followed by what comes behind them. -/
theorem brackFollowedBy_of_typeArgs
    {levels : Nat}
    {args : Tree P (.one .typeArgs)}
    (regular : state.Regular)
    (isName : state.cursor.token = .ident)
    (parses : Parses limit typeArgs ((state.moveTo state.cursor.advance).deeper levels) args final)
    (followers : List Token) :
    state.cursor.brackFollowedBy followers = followers.contains final.token := by
  obtain ⟨name, nameEq, nameToken⟩ := exists_of_atToken isName (by decide)
  have behindName : ((state.moveTo state.cursor.advance).deeper levels).Regular :=
    regular_of_suffix regular ⟨[name], nameEq.symm⟩
  obtain ⟨lBrack, inner, rBrack, bracketsEq, opens, nested, closes⟩ :=
    exists_of_typeArgs_brackets behindName parses
  have bracketsEq : state.cursor.advance.ahead = lBrack :: (inner ++ rBrack :: final.ahead) :=
    bracketsEq
  rw [bracketsEq] at nameEq
  rw [brackFollowedBy_of_nested nameEq nameToken opens nested closes, Cursor.token, Cursor.peek]
  cases final.ahead <;> rfl

/-- Behind a name, the brackets of an array or slice are followed by the first token of a type. -/
theorem exists_lead_of_brackets
    (regular : state.Regular)
    (isName : state.cursor.token = .ident)
    (opens : state.cursor.advance.token = .lBrack)
    (parses : Parses limit Production.type (state.moveTo state.cursor.advance) type final) :
    ∃ elem : TypeExpr P, ∀ followers,
      state.cursor.brackFollowedBy followers = followers.contains elem.leadToken := by
  have parses := parses_type.1 parses
  have leads : type.leadToken = .lBrack := (token_of_parses_type? parses).symm.trans opens
  obtain ⟨-, -, parses⟩ := parses_of_type? parses (congrArg typeFrom leads)
  obtain ⟨name, nameEq, nameToken⟩ := exists_of_atToken isName (by decide)
  have behindName : ((state.moveTo state.cursor.advance).deeper 1).Regular :=
    regular_of_suffix regular ⟨[name], nameEq.symm⟩
  obtain ⟨inner, middle, elem, atOpener, innerEq, nested, atCloser, elemParses⟩ :=
    exists_inner_of_arrayOrSlice behindName parses
  obtain ⟨lBrack, openEq, isOpener⟩ := exists_of_atToken atOpener (by decide)
  obtain ⟨rBrack, closeEq, isCloser⟩ := exists_of_atToken atCloser (by decide)
  obtain ⟨first, behind, elemEq, elemLeads⟩ := exists_of_type elemParses
  have elemEq : middle.advance.ahead = first :: behind := elemEq
  have bracketsEq : state.cursor.advance.ahead = lBrack :: (inner ++ rBrack :: first :: behind) :=
    openEq.trans (by rw [innerEq, closeEq, elemEq])
  rw [bracketsEq] at nameEq
  refine ⟨elem, fun followers => ?_⟩
  rw [brackFollowedBy_of_nested nameEq nameToken isOpener nested isCloser, ← elemLeads]
  rfl

end

/-! ## Entries -/

/-- An entry of a parameter list as it is written: a lone name, a type, or a name in front of a type,
with an ellipsis in front of the type or without. What the lexemes of a type are read as is kept with
them. -/
inductive WrittenParam (P : Type)
  | bare (name : Lexeme P)
  | unnamed (dots : Option (Lexeme P)) (text : List (Lexeme P)) (type : TypeExpr P)
  | named (name : Lexeme P) (dots : Option (Lexeme P)) (text : List (Lexeme P)) (type : TypeExpr P)

/-- An ellipsis as the tree keeps it. -/
def dotsMark (dots : Option (Lexeme P)) : Option (Mark P) :=
  dots.map fun lexeme => ⟨.ellipsis, lexeme.pos⟩

/-- Whether lexemes are nothing but a name. -/
def IsName (text : List (Lexeme P)) : Prop :=
  ∃ name, text = [name] ∧ name.token = .ident

namespace WrittenParam

/-- The lexemes of an entry. -/
def lexemes : WrittenParam P -> List (Lexeme P)
  | bare name => [name]
  | unnamed dots text _ => dots.toList ++ text
  | named name dots text _ => name :: (dots.toList ++ text)

/-- What an entry is read as. -/
def entry : WrittenParam P -> ParamEntry P
  | bare name => .bare (identOf name)
  | unnamed dots _ type => .unnamed (dotsMark dots) type
  | named name dots _ type => .named (identOf name) (dotsMark dots) type

/-- Whether the parts of an entry are what they should be. A type alone is no lone name. -/
def IsValid (limit depth : Nat) : WrittenParam P -> Prop
  | bare name => name.token = .ident
  | unnamed dots text type => (∀ lexeme ∈ dots, lexeme.token = .ellipsis)
      ∧ ReadsType limit depth text type ∧ (dots = none -> ¬IsName text)
  | named name dots text type => name.token = .ident
      ∧ (∀ lexeme ∈ dots, lexeme.token = .ellipsis) ∧ ReadsType limit depth text type

end WrittenParam

section

variable {limit : Nat} {state : ReadState P} {rest : List (Lexeme P)} {follower : Lexeme P}

/-- A type is read behind an ellipsis or where there is none. -/
theorem parses_dots_type
    {β : Type}
    {text : List (Lexeme P)}
    {type : TypeExpr P}
    {dots : Option (Lexeme P)}
    (result : Option (Mark P) -> TypeExpr P -> β)
    (areDots : ∀ lexeme ∈ dots, lexeme.token = .ellipsis)
    (isType : ReadsType limit state.depth text type)
    (regular : state.Regular)
    (outside : state.inHeader = false)
    (aheadEq : state.cursor.ahead = dots.toList ++ text ++ follower :: rest)
    (ends : follower.token = .comma ∨ follower.token = .rParen) :
    Parses limit (.bind (mark? .ellipsis) fun ellipsis => .bind Production.type fun type =>
        .pure (result ellipsis type)) state (result (dotsMark dots) type)
      (state.moved (dots.toList ++ text).length (follower :: rest)).cursor := by
  cases dots with
  | none =>
      have noDots : state.cursor.token ≠ .ellipsis := by
        obtain ⟨first, others, rfl, leads⟩ := isType.exists_cons regular outside aheadEq ends
        rw [Cursor.token_of_ahead aheadEq, leads]
        intro isDots
        refine absurd ?_ type.leadToken_ne
        simp [isDots]
      refine parses_bind.2 ⟨none, state.cursor, parses_mark?.2 (by simp [noDots]), ?_⟩
      exact parses_bind.2 ⟨type, _, isType.parses regular outside aheadEq ends,
        parses_pure.2 ⟨rfl, rfl⟩⟩
  | some dot =>
      have aheadEq : state.cursor.ahead = dot :: (text ++ follower :: rest) := aheadEq
      have atDots : state.cursor.token = .ellipsis :=
        (Cursor.token_of_ahead aheadEq).trans (areDots dot rfl)
      have advanceEq : state.moveTo state.cursor.advance = state.moved 1 (text ++ follower :: rest) :=
        ReadState.advance_eq_moved aheadEq
      have posEq : state.cursor.pos = dot.pos := congrArg Lexeme.pos (Cursor.peek_of_ahead aheadEq)
      refine parses_bind.2 ⟨some ⟨.ellipsis, dot.pos⟩, state.cursor.advance,
        parses_mark?.2 (by simp [atDots, posEq]), ?_⟩
      have behindDots : (state.moved 1 (text ++ follower :: rest)).Regular :=
        regular_of_suffix regular ⟨[dot], aheadEq.symm⟩
      have isType : ReadsType limit (state.moved 1 (text ++ follower :: rest)).depth text type := isType
      rw [advanceEq]
      refine parses_bind.2 ⟨type, _, isType.parses behindDots outside rfl ends, parses_pure.2 ⟨rfl, ?_⟩⟩
      rw [ReadState.cursor_moveTo, ReadState.moved_moved, List.length_append]
      rfl

theorem tokenAfter_one_eq (cursor : Cursor P) : cursor.tokenAfter 1 = cursor.advance.token := by
  obtain ⟨consumed, ahead, stop⟩ := cursor
  match ahead with
  | [] | [_] | _ :: _ :: _ => rfl

theorem tokenAfter_one
    {cursor : Cursor P}
    {first second : Lexeme P}
    (aheadEq : cursor.ahead = first :: second :: rest) :
    cursor.tokenAfter 1 = second.token := by
  rw [Cursor.tokenAfter, aheadEq]
  rfl

/-- A type that begins with a name is named. -/
theorem exists_typeName_of_leadToken
    {type : TypeExpr P}
    (leads : type.leadToken = .ident) :
    ∃ typeName, type = .namedType typeName := by
  cases type with
  | namedType typeName => exact ⟨typeName, rfl⟩
  | chanType dir => cases dir <;> cases leads
  | _ => cases leads

/-- A lone name is read as the type of that name. -/
theorem ReadsType.eq_of_name
    {depth : Nat}
    {name : Lexeme P}
    {type : TypeExpr P}
    (isType : ReadsType limit depth [name] type)
    (isName : name.token = .ident) :
    type = .namedType (.typeName none (identOf name) .absent) := by
  have parses := parses_type.1 (isType ⟨.comma, name.pos, none⟩ (.inl rfl) name.pos)
  have leads : type.leadToken = .ident := (token_of_parses_type? parses).symm.trans isName
  obtain ⟨typeName, rfl⟩ := exists_typeName_of_leadToken leads
  obtain ⟨-, package, lastName, behind, names, isPlain | ⟨args, argsParses, -⟩⟩ :=
    exists_of_namedType parses
  · cases names with
    | plain _ _ => rw [isPlain.1]; rfl
    | qualified _ dot _ => cases dot
  · cases names with
    | plain _ _ => cases (parses_typeArgs.1 argsParses).1
    | qualified _ dot _ => cases dot

/-- A type that begins with a name and goes on is qualified or has type arguments up to its end. -/
theorem goesOn_of_name
    {name second : Lexeme P}
    {text : List (Lexeme P)}
    {type : TypeExpr P}
    (isType : ReadsType limit state.depth (name :: second :: text) type)
    (regular : state.Regular)
    (outside : state.inHeader = false)
    (aheadEq : state.cursor.ahead = name :: second :: text ++ follower :: rest)
    (ends : follower.token = .comma ∨ follower.token = .rParen)
    (isName : name.token = .ident) :
    second.token = .dot
      ∨ second.token = .lBrack ∧ state.cursor.brackFollowedBy [.comma, .rParen] = true := by
  have parses := parses_type.1 (isType.parses regular outside aheadEq ends)
  have leads : type.leadToken = .ident := by
    rw [← token_of_parses_type? parses, Cursor.token_of_ahead aheadEq, isName]
  obtain ⟨typeName, rfl⟩ := exists_typeName_of_leadToken leads
  have advanceEq : state.cursor.advance.ahead = second :: (text ++ follower :: rest) := by
    rw [Cursor.ahead_advance, aheadEq]
    rfl
  obtain ⟨-, package, lastName, behind, names, isPlain | ⟨args, argsParses, -⟩⟩ :=
    exists_of_namedType parses
  · cases names with
    | plain _ _ =>
        -- nothing but the name would have been read
        have sameAhead := congrArg (fun cursor => cursor.ahead.length) isPlain.2
        simp only [ReadState.ahead_moved, advanceEq, List.length_cons, List.length_append] at sameAhead
        omega
    | qualified _ dot _ => exact .inl (Cursor.token_of_ahead advanceEq ▸ dot)
  · cases names with
    | qualified _ dot _ => exact .inl (Cursor.token_of_ahead advanceEq ▸ dot)
    | plain _ _ =>
        have atName : state.cursor.token = .ident := (Cursor.token_of_ahead aheadEq).trans isName
        have opens : state.cursor.advance.token = .lBrack := (parses_typeArgs.1 argsParses).1
        refine .inr ⟨Cursor.token_of_ahead advanceEq ▸ opens,
          (brackFollowedBy_of_typeArgs regular atName argsParses _).trans ?_⟩
        rw [Cursor.token_of_ahead (ReadState.ahead_moved _ _ _)]
        rcases ends with isEnd | isEnd <;> simp [isEnd]

/-- In front of a type, a bracket behind a name is the bracket of an array or slice. -/
theorem not_follows_of_type
    {name first : Lexeme P}
    {text : List (Lexeme P)}
    {type : TypeExpr P}
    (isType : ReadsType limit state.depth (first :: text) type)
    (regular : state.Regular)
    (outside : state.inHeader = false)
    (aheadEq : state.cursor.ahead = name :: first :: text ++ follower :: rest)
    (ends : follower.token = .comma ∨ follower.token = .rParen)
    (isName : name.token = .ident)
    (opens : first.token = .lBrack) :
    state.cursor.brackFollowedBy [.comma, .rParen] = false := by
  have advanceEq : state.cursor.advance.ahead = first :: text ++ follower :: rest := by
    rw [Cursor.ahead_advance, aheadEq]
    rfl
  have behindName : (state.moveTo state.cursor.advance).Regular :=
    regular_of_suffix regular ⟨[name], by simp [advanceEq, aheadEq]⟩
  have isType : ReadsType limit (state.moveTo state.cursor.advance).depth (first :: text) type := isType
  have atName : state.cursor.token = .ident := (Cursor.token_of_ahead aheadEq).trans isName
  have atBrack : state.cursor.advance.token = .lBrack := (Cursor.token_of_ahead advanceEq).trans opens
  obtain ⟨elem, follows⟩ := exists_lead_of_brackets regular atName atBrack
    (isType.parses behindName outside advanceEq ends)
  have notSpecial := elem.leadToken_ne
  simp only [List.mem_cons, List.not_mem_nil, or_false, not_or] at notSpecial
  simp [follows, notSpecial]

/-- Whether a lone name comes next. -/
def atBareParam (cursor : Cursor P) : Bool :=
  cursor.token = .ident && [Token.comma, .rParen].contains (cursor.tokenAfter 1)

/-- Whether a name in front of a type comes next, if no lone name does. -/
def atNamedParam (cursor : Cursor P) : Bool :=
  cursor.token = .ident && cursor.tokenAfter 1 ≠ .dot
    && !(cursor.tokenAfter 1 = .lBrack && cursor.brackFollowedBy [.comma, .rParen])

theorem paramEntry_eq :
    (paramEntry : Production P (ParamEntry P)) = .bind .look fun cursor =>
      if atBareParam cursor then ident.bind fun name => .pure (.bare name)
      else if atNamedParam cursor then
        ident.bind fun name => (mark? .ellipsis).bind fun ellipsis => Production.type.bind fun type =>
          .pure (.named name ellipsis type)
      else (mark? .ellipsis).bind fun ellipsis => Production.type.bind fun type =>
        .pure (.unnamed ellipsis type) := rfl

/-- A type that is no lone name is seen to have no name in front of it. -/
theorem not_atParam_of_unnamed
    {dots : Option (Lexeme P)}
    {text : List (Lexeme P)}
    {type : TypeExpr P}
    (isValid : (WrittenParam.unnamed dots text type).IsValid limit state.depth)
    (regular : state.Regular)
    (outside : state.inHeader = false)
    (aheadEq : state.cursor.ahead = dots.toList ++ text ++ follower :: rest)
    (ends : follower.token = .comma ∨ follower.token = .rParen) :
    atBareParam state.cursor = false ∧ atNamedParam state.cursor = false := by
  obtain ⟨areDots, isType, notName⟩ := isValid
  cases dots with
  | some dot =>
      have atDots : state.cursor.token = .ellipsis :=
        (Cursor.token_of_ahead aheadEq).trans (areDots dot rfl)
      simp [atBareParam, atNamedParam, atDots]
  | none =>
      obtain ⟨first, others, rfl, -⟩ := isType.exists_cons regular outside aheadEq ends
      have atFirst : state.cursor.token = first.token := Cursor.token_of_ahead aheadEq
      by_cases isName : first.token = .ident
      · cases others with
        | nil => exact absurd ⟨first, rfl, isName⟩ (notName rfl)
        | cons second others =>
            have secondEq : state.cursor.tokenAfter 1 = second.token := tokenAfter_one aheadEq
            rcases goesOn_of_name isType regular outside aheadEq ends isName
              with isDot | ⟨opens, follows⟩
            · simp [atBareParam, atNamedParam, secondEq, isDot]
            · simp [atBareParam, atNamedParam, secondEq, opens, follows]
      · simp [atBareParam, atNamedParam, atFirst, isName]

/-- A name in front of a type is seen to be one. -/
theorem atParam_of_named
    {name : Lexeme P}
    {dots : Option (Lexeme P)}
    {text : List (Lexeme P)}
    {type : TypeExpr P}
    (isValid : (WrittenParam.named name dots text type).IsValid limit state.depth)
    (regular : state.Regular)
    (outside : state.inHeader = false)
    (aheadEq : state.cursor.ahead = name :: (dots.toList ++ text ++ follower :: rest))
    (ends : follower.token = .comma ∨ follower.token = .rParen) :
    atBareParam state.cursor = false ∧ atNamedParam state.cursor = true := by
  obtain ⟨isName, areDots, isType⟩ := isValid
  have atName : state.cursor.token = .ident := (Cursor.token_of_ahead aheadEq).trans isName
  cases dots with
  | some dot =>
      have isDots : state.cursor.tokenAfter 1 = .ellipsis :=
        (tokenAfter_one aheadEq).trans (areDots dot rfl)
      simp [atBareParam, atNamedParam, atName, isDots]
  | none =>
      have behindName : (state.moved 1 (text ++ follower :: rest)).Regular :=
        regular_of_suffix regular ⟨[name], aheadEq.symm⟩
      have isType' : ReadsType limit (state.moved 1 (text ++ follower :: rest)).depth text type :=
        isType
      obtain ⟨first, others, rfl, leads⟩ := isType'.exists_cons behindName outside rfl ends
      have secondEq : state.cursor.tokenAfter 1 = type.leadToken := (tokenAfter_one aheadEq).trans leads
      have notSpecial := type.leadToken_ne
      rw [← secondEq] at notSpecial
      simp only [List.mem_cons, List.not_mem_nil, or_false, not_or] at notSpecial
      have notFollows (opens : state.cursor.tokenAfter 1 = .lBrack) :
          state.cursor.brackFollowedBy [.comma, .rParen] = false :=
        not_follows_of_type isType regular outside aheadEq ends isName
          (leads.trans (secondEq.symm.trans opens))
      by_cases opens : state.cursor.tokenAfter 1 = .lBrack
      · simp [atBareParam, atNamedParam, atName, opens, notFollows opens]
      · simp [atBareParam, atNamedParam, atName, opens, notSpecial]

/-- An entry is read as what it is written as, in front of a comma or a closing parenthesis. -/
theorem parses_paramEntry
    {written : WrittenParam P}
    (isValid : written.IsValid limit state.depth)
    (regular : state.Regular)
    (outside : state.inHeader = false)
    (aheadEq : state.cursor.ahead = written.lexemes ++ follower :: rest)
    (ends : follower.token = .comma ∨ follower.token = .rParen) :
    Parses limit paramEntry state written.entry
      (state.moved written.lexemes.length (follower :: rest)).cursor := by
  have readsName
      {name : Lexeme P}
      {behind : List (Lexeme P)}
      (isName : name.token = .ident)
      (aheadEq : state.cursor.ahead = name :: behind) :
      Parses limit ident state (identOf name) (state.moved 1 behind).cursor := by
    refine parses_ident.2 ⟨(Cursor.token_of_ahead aheadEq).trans isName, ?_, ?_⟩
    · rw [Cursor.peek_of_ahead aheadEq]
    · rw [← ReadState.advance_eq_moved aheadEq]
  rw [paramEntry_eq, parses_bind_look]
  cases written with
  | bare name =>
      have aheadEq : state.cursor.ahead = name :: follower :: rest := aheadEq
      have isBare : atBareParam state.cursor = true := by
        have atName : state.cursor.token = .ident := (Cursor.token_of_ahead aheadEq).trans isValid
        rcases ends with isEnd | isEnd <;> simp [atBareParam, atName, tokenAfter_one aheadEq, isEnd]
      rw [if_pos isBare]
      exact parses_bind.2 ⟨_, _, readsName isValid aheadEq, parses_pure.2 ⟨rfl, rfl⟩⟩
  | unnamed dots text type =>
      obtain ⟨notBare, notNamed⟩ := not_atParam_of_unnamed isValid regular outside aheadEq ends
      rw [if_neg (Bool.eq_false_iff.1 notBare), if_neg (Bool.eq_false_iff.1 notNamed)]
      exact parses_dots_type ParamEntry.unnamed isValid.1 isValid.2.1 regular outside aheadEq ends
  | named name dots text type =>
      have aheadEq : state.cursor.ahead = name :: (dots.toList ++ text ++ follower :: rest) := aheadEq
      obtain ⟨notBare, isNamed⟩ := atParam_of_named isValid regular outside aheadEq ends
      obtain ⟨isName, areDots, isType⟩ := isValid
      have behindName : (state.moved 1 (dots.toList ++ text ++ follower :: rest)).Regular :=
        regular_of_suffix regular ⟨[name], aheadEq.symm⟩
      have isType : ReadsType limit (state.moved 1 (dots.toList ++ text ++ follower :: rest)).depth text
        type := isType
      rw [if_neg (Bool.eq_false_iff.1 notBare), if_pos isNamed]
      refine parses_bind.2 ⟨_, _, readsName isName aheadEq, ?_⟩
      have typeParses := parses_dots_type (ParamEntry.named (identOf name)) areDots isType behindName
        outside rfl ends
      rw [ReadState.moved_moved, Nat.add_comm] at typeParses
      exact typeParses

end

/-! ## Lists -/

/-- Stretches of lexemes with commas between them. -/
inductive Separated : List (List (Lexeme P)) -> List (Lexeme P) -> Prop
  | none : Separated [] []
  | last (text : List (Lexeme P)) : Separated [text] text
  | more
      (text : List (Lexeme P))
      {comma : Lexeme P}
      {next : List (Lexeme P)}
      {texts : List (List (Lexeme P))}
      {lexemes : List (Lexeme P)}
      (isComma : comma.token = .comma)
      (rest : Separated (next :: texts) lexemes) :
      Separated (text :: next :: texts) (text ++ comma :: lexemes)

section

variable {α : Type} {limit depth : Nat} {closer : Token} {item : Production P α} {inside : Bool}

/-- Lexemes are read as an item in front of a comma and in front of a closing token, and do not begin
with the closing token. -/
def ReadsItemAs
    (limit depth : Nat)
    (inside : Bool)
    (closer : Token)
    (item : Production P α)
    (text : List (Lexeme P))
    (value : α) : Prop :=
  ∀ (state : ReadState P) (follower : Lexeme P) (rest : List (Lexeme P)), state.Regular ->
    state.depth = depth -> state.inHeader = inside -> state.cursor.ahead = text ++ follower :: rest ->
    follower.token = .comma ∨ follower.token = closer ->
    state.cursor.token ≠ closer
      ∧ Parses limit item state value (state.moved text.length (follower :: rest)).cursor

/-- One step of reading items up to a closing token. -/
def itemsStep
    (closer : Token)
    (item : Production P α) : List α × Bool -> Production P (Option (List α × Bool)) :=
  fun (items, more) => .bind .look fun cursor =>
    if more && !cursor.atAny [closer, .eof] then
      (withComma item).bind fun (next, more) => .pure (some (next :: items, more))
    else .pure none

theorem parses_itemsUntil
    {state : ReadState P}
    {final : Cursor P}
    {items : List α} :
    Parses limit (itemsUntil closer fun _ => withComma item) state items final
      ↔ ∃ more, Repeats limit (itemsStep closer item) state ([], true) (items.reverse, more) final := by
  change Parses limit (.bind (.iterate (itemsStep closer item) ([], true)) fun collected =>
    .pure collected.1.reverse) state items final ↔ _
  simp only [parses_bind, parses_iterate, parses_pure]
  constructor
  · rintro ⟨⟨collected, more⟩, _, repeats, rfl, rfl⟩
    exact ⟨more, by rw [List.reverse_reverse]; exact repeats⟩
  · rintro ⟨more, repeats⟩
    exact ⟨_, final, repeats, (List.reverse_reverse items).symm, rfl⟩

/-- Behind the last item, and where the closing token comes first, no more items are read. -/
theorem parses_itemsStep_none
    {state : ReadState P}
    (collected : List α)
    (more : Bool)
    (stops : more = false ∨ state.cursor.token = closer) :
    Parses limit (itemsStep closer item (collected, more)) state none state.cursor := by
  refine parses_bind_look.2 ?_
  have stopped : ¬(more && !state.cursor.atAny [closer, .eof]) = true := by
    rcases stops with isLast | atCloser
    · simp [isLast]
    · simp [Cursor.atAny, atCloser]
  rw [if_neg stopped]
  exact parses_pure.2 ⟨rfl, rfl⟩

/-- What is read in front of a comma takes the comma in, and another item may follow. -/
theorem parses_withComma_comma
    {state : ReadState P}
    {text rest : List (Lexeme P)}
    {comma : Lexeme P}
    {value : α}
    (itemParses : Parses limit item state value (state.moved text.length (comma :: rest)).cursor)
    (isComma : comma.token = .comma) :
    Parses limit (withComma item) state (value, true) (state.moved (text.length + 1) rest).cursor := by
  have atComma : (state.moved text.length (comma :: rest)).cursor.token = .comma :=
    (Cursor.token_of_ahead rfl).trans isComma
  refine parses_bind.2 ⟨value, _, itemParses, ?_⟩
  refine parses_bind.2 ⟨some comma, (state.moved (text.length + 1) rest).cursor, ?_,
    parses_pure.2 ⟨rfl, rfl⟩⟩
  refine parses_eat?.2 ?_
  rw [ReadState.cursor_moveTo, if_pos atComma]
  exact ⟨rfl, rfl⟩

theorem parses_withComma_other
    {state : ReadState P}
    {middle : Cursor P}
    {value : α}
    (itemParses : Parses limit item state value middle)
    (noComma : middle.token ≠ .comma) :
    Parses limit (withComma item) state (value, false) middle := by
  refine parses_bind.2 ⟨value, middle, itemParses, ?_⟩
  refine parses_bind.2 ⟨none, middle, parses_eat?.2 ?_, parses_pure.2 ⟨rfl, rfl⟩⟩
  rw [ReadState.cursor_moveTo, if_neg noComma]
  exact ⟨rfl, rfl⟩

/-- Where neither the closing token nor the end comes first, an item is read. -/
theorem parses_itemsStep_some
    {state : ReadState P}
    {final : Cursor P}
    {value : α}
    {more : Bool}
    (collected : List α)
    (goesOn : state.cursor.token ≠ closer ∧ state.cursor.token ≠ .eof)
    (itemParses : Parses limit (withComma item) state (value, more) final) :
    Parses limit (itemsStep closer item (collected, true)) state (some (value :: collected, more))
      final := by
  have isItem : (true && !state.cursor.atAny [closer, .eof]) = true := by
    simp [Cursor.atAny, goesOn]
  refine parses_bind_look.2 ?_
  rw [if_pos isItem]
  exact parses_bind.2 ⟨(value, more), final, itemParses, parses_pure.2 ⟨rfl, rfl⟩⟩

/-- No lexeme ahead of a regular state is the end. -/
theorem token_ne_eof
    {state : ReadState P}
    {text rest : List (Lexeme P)}
    {follower : Lexeme P}
    (regular : state.Regular)
    (aheadEq : state.cursor.ahead = text ++ follower :: rest) :
    state.cursor.token ≠ .eof := by
  have notEmpty : text ++ follower :: rest ≠ [] :=
    List.append_ne_nil_of_right_ne_nil text (List.cons_ne_nil follower rest)
  obtain ⟨first, others, consEq⟩ := List.exists_cons_of_ne_nil notEmpty
  rw [consEq] at aheadEq
  rw [Cursor.token_of_ahead aheadEq]
  exact (regular first (aheadEq ▸ List.mem_cons_self)).1

/-- Items pile up in reverse on what was collected before them. -/
theorem repeats_itemsStep
    {items : List (List (Lexeme P) × α)}
    {lexemes rest : List (Lexeme P)}
    {last : Lexeme P}
    (notComma : closer ≠ .comma)
    (each : ∀ each ∈ items, ReadsItemAs limit depth inside closer item each.1 each.2)
    (separated : Separated (items.map Prod.fst) lexemes)
    (closes : last.token = closer)
    (state : ReadState P)
    (collected : List α)
    (regular : state.Regular)
    (depthEq : state.depth = depth)
    (insideEq : state.inHeader = inside)
    (aheadEq : state.cursor.ahead = lexemes ++ last :: rest) :
    ∃ more, Repeats limit (itemsStep closer item) state (collected, true)
      ((items.map Prod.snd).reverse ++ collected, more)
      (state.moved lexemes.length (last :: rest)).cursor := by
  generalize textsEq : items.map Prod.fst = texts at separated
  induction separated generalizing items state collected with
  | none =>
      obtain rfl := List.map_eq_nil_iff.1 textsEq
      have atLast : state.cursor.token = closer := (Cursor.token_of_ahead aheadEq).trans closes
      have sameState : state.moved 0 (last :: rest) = state := by
        rw [← (show state.cursor.ahead = last :: rest from aheadEq)]
        rfl
      refine ⟨true, ?_⟩
      change Repeats limit _ _ _ _ (state.moved 0 (last :: rest)).cursor
      rw [sameState]
      exact .stop (parses_itemsStep_none collected true (.inr atLast))
  | last =>
      obtain ⟨first, others, rfl, rfl, othersEq⟩ := List.map_eq_cons_iff.1 textsEq
      obtain rfl := List.map_eq_nil_iff.1 othersEq
      obtain ⟨notCloser, itemParses⟩ := List.forall_mem_singleton.1 each state last rest regular
        depthEq insideEq aheadEq (.inr closes)
      have atLast : (state.moved first.1.length (last :: rest)).cursor.token = closer :=
        (Cursor.token_of_ahead rfl).trans closes
      refine ⟨false, .more (parses_itemsStep_some collected ⟨notCloser, token_ne_eof regular aheadEq⟩
        (parses_withComma_other itemParses (atLast.trans_ne notComma))) (.stop ?_)⟩
      exact parses_itemsStep_none _ false (.inl rfl)
  | @more _ comma _ _ lexemes isComma _ inductionHypothesis =>
      obtain ⟨first, others, rfl, rfl, othersEq⟩ := List.map_eq_cons_iff.1 textsEq
      obtain ⟨isItem, areItems⟩ := List.forall_mem_cons.1 each
      have aheadEq : state.cursor.ahead = first.1 ++ comma :: (lexemes ++ last :: rest) := by
        rw [aheadEq, List.append_assoc]
        rfl
      obtain ⟨notCloser, itemParses⟩ := isItem state comma _ regular depthEq insideEq aheadEq
        (.inl isComma)
      have behindComma : (state.moved (first.1.length + 1) (lexemes ++ last :: rest)).Regular :=
        regular_of_suffix regular ⟨first.1 ++ [comma], by simp [aheadEq]⟩
      obtain ⟨more, repeats⟩ := inductionHypothesis areItems
        (state.moved (first.1.length + 1) (lexemes ++ last :: rest)) (first.2 :: collected) behindComma
        depthEq insideEq rfl othersEq
      refine ⟨more, .more (parses_itemsStep_some collected ⟨notCloser, token_ne_eof regular aheadEq⟩
        (parses_withComma_comma itemParses isComma)) ?_⟩
      have lengthEq : (first.1 ++ comma :: lexemes).length = first.1.length + 1 + lexemes.length := by
        rw [List.length_append, List.length_cons]
        omega
      rw [ReadState.moved_moved, ← lengthEq] at repeats
      rw [List.map_cons, List.reverse_cons, List.append_assoc]
      exact repeats

/-- Items between commas are read one after the other, up to the closing token. -/
theorem parses_itemsUntil_of_separated
    {state : ReadState P}
    {items : List (List (Lexeme P) × α)}
    {lexemes rest : List (Lexeme P)}
    {last : Lexeme P}
    (notComma : closer ≠ .comma)
    (each : ∀ each ∈ items, ReadsItemAs limit state.depth state.inHeader closer item each.1 each.2)
    (separated : Separated (items.map Prod.fst) lexemes)
    (regular : state.Regular)
    (aheadEq : state.cursor.ahead = lexemes ++ last :: rest)
    (closes : last.token = closer) :
    Parses limit (itemsUntil closer fun _ => withComma item) state (items.map Prod.snd)
      (state.moved lexemes.length (last :: rest)).cursor := by
  obtain ⟨more, repeats⟩ := repeats_itemsStep notComma each separated closes state [] regular rfl rfl
    aheadEq
  rw [List.append_nil] at repeats
  exact parses_itemsUntil.2 ⟨more, repeats⟩

end

/-! ## Parameter lists -/

namespace WrittenParam

/-- The ellipsis of an entry. -/
def dots : WrittenParam P -> Option (Lexeme P)
  | bare _ => none
  | unnamed dots _ _ | named _ dots _ _ => dots

variable {limit depth : Nat} {written : WrittenParam P}

/-- An entry does not begin with the end of the list. -/
theorem readsItemAs (isValid : written.IsValid limit depth) :
    ReadsItemAs limit depth false .rParen paramEntry written.lexemes written.entry := by
  intro state follower rest regular depthEq outside aheadEq ends
  subst depthEq
  refine ⟨?_, parses_paramEntry isValid regular outside aheadEq ends⟩
  have notDots {lexeme : Lexeme P} {behind : List (Lexeme P)} {token : Token}
      (aheadEq : state.cursor.ahead = lexeme :: behind)
      (isToken : lexeme.token = token)
      (other : token ≠ .rParen) : state.cursor.token ≠ .rParen := by
    rwa [Cursor.token_of_ahead aheadEq, isToken]
  cases written with
  | bare name => exact notDots aheadEq isValid (by decide)
  | named name dots text type => exact notDots aheadEq isValid.1 (by decide)
  | unnamed dots text type =>
      obtain ⟨areDots, isType, -⟩ := isValid
      cases dots with
      | some dot => exact notDots aheadEq (areDots dot rfl) (by decide)
      | none =>
          obtain ⟨first, others, rfl, leads⟩ := isType.exists_cons regular outside aheadEq ends
          refine notDots aheadEq leads fun isParen => absurd ?_ type.leadToken_ne
          simp [isParen]

end WrittenParam

/-- A parameter list comes next: some lexemes between parentheses. The allowance is enough to read
it. -/
structure AtParams
    (allowance : Nat)
    (state : ReadState P)
    (lParen rParen : Lexeme P)
    (lexemes behind : List (Lexeme P)) : Prop where
  opens : lParen.token = .lParen
  closes : rParen.token = .rParen
  regular : state.Regular
  enough : Production.allowance state.cursor.ahead.length ≤ allowance
  aheadEq : state.cursor.ahead = lParen :: (lexemes ++ rParen :: behind)

/-- How a parameter list ends whose entries are read: refused in front of the closing parenthesis, or
read up to its end. -/
def paramsOutcome
    (state : ReadState P)
    (lParen rParen : Lexeme P)
    (lexemes behind : List (Lexeme P)) :
    Except SyntaxCause (List (Tree P (.one .param))) -> Outcome P (Tree P (.one .params))
  | .error cause => .gaveUp ((state.moved (lexemes.length + 1) (rParen :: behind)).record cause)
  | .ok params => .done (.params ⟨.lParen, lParen.pos⟩ (.ofList params) ⟨.rParen, rParen.pos⟩)
      (state.moved (lexemes.length + 2) behind)

/-- What is left to read of a parameter list when its entries are resolved. -/
def paramsEnd
    (lParen : Mark P) :
    Except SyntaxCause (List (Tree P (.one .param))) -> Production P (Tree P (.one .params))
  | .error cause => .refuse cause
  | .ok params => (mark .rParen).bind fun rParen => .pure (.params lParen (.ofList params) rParen)

theorem params_eq (variadic : Bool) :
    (params variadic : Production P _) = .inHeader false ((mark .lParen).bind fun lParen =>
      (itemsUntil .rParen fun _ => withComma paramEntry).bind fun entries =>
        paramsEnd lParen (ParamEntry.resolve variadic entries)) := rfl

section

variable {limit allowance : Nat} {variadic : Bool} {state : ReadState P} {lParen rParen : Lexeme P}
  {lexemes behind : List (Lexeme P)} {written : List (WrittenParam P)}

/-- Behind its entries a list ends as their resolution tells. -/
theorem run_params_of_entries
    {entries : List (ParamEntry P)}
    (opens : lParen.token = .lParen)
    (closes : rParen.token = .rParen)
    (aheadEq : state.cursor.ahead = lParen :: (lexemes ++ rParen :: behind))
    (entriesRun : (ruleMachine limit allowance).run (itemsUntil .rParen fun _ => withComma paramEntry)
        ((state.place false).moved 1 (lexemes ++ rParen :: behind))
      = .done entries ((state.place false).moved (lexemes.length + 1) (rParen :: behind))) :
    (ruleMachine limit allowance).run (params variadic) state
      = paramsOutcome state lParen rParen lexemes behind (ParamEntry.resolve variadic entries) := by
  let start := (state.place false).moved 1 (lexemes ++ rParen :: behind)
  let last := (state.place false).moved (lexemes.length + 1) (rParen :: behind)
  have placedEq : (state.place false).cursor.ahead = lParen :: (lexemes ++ rParen :: behind) := aheadEq
  have opened : (ruleMachine limit allowance).run (mark .lParen) (state.place false)
      = .done ⟨.lParen, lParen.pos⟩ start := by
    rw [Machine.run_mark, ReadState.cursor_place, Cursor.token_of_ahead aheadEq, if_pos opens,
      Cursor.pos, Cursor.peek_of_ahead aheadEq]
    exact congrArg (Outcome.done _) (ReadState.advance_eq_moved placedEq)
  rw [params_eq]
  change (((ruleMachine limit allowance).run (mark .lParen) (state.place false)).bind _).mapState _ = _
  rw [opened]
  change (((ruleMachine limit allowance).run (itemsUntil .rParen fun _ => withComma paramEntry)
    start).bind _).mapState _ = _
  rw [entriesRun]
  change ((ruleMachine limit allowance).run (paramsEnd _ (ParamEntry.resolve variadic _)) last).mapState _
    = _
  cases ParamEntry.resolve variadic entries with
  | error cause => rfl
  | ok params =>
      have closed : (ruleMachine limit allowance).run (mark .rParen) last
          = .done ⟨.rParen, rParen.pos⟩ (last.moved 1 behind) := by
        rw [Machine.run_mark, Cursor.token_of_ahead rfl, if_pos closes, Cursor.pos,
          Cursor.peek_of_ahead rfl]
        rfl
      change (((ruleMachine limit allowance).run (mark .rParen) last).bind _).mapState _ = _
      rw [closed]
      rfl

/-- What the entries of a list resolve to decides how the list ends. -/
theorem run_params
    (atParams : AtParams allowance state lParen rParen lexemes behind)
    (areValid : ∀ each ∈ written, each.IsValid limit state.depth)
    (separated : Separated (written.map WrittenParam.lexemes) lexemes) :
    (ruleMachine limit allowance).run (params variadic) state
      = paramsOutcome state lParen rParen lexemes behind
          (ParamEntry.resolve variadic (written.map WrittenParam.entry)) := by
  let start := (state.place false).moved 1 (lexemes ++ rParen :: behind)
  have startRegular : start.Regular := regular_of_suffix atParams.regular ⟨[lParen], atParams.aheadEq.symm⟩
  let items := written.map fun each => (each.lexemes, each.entry)
  have readItems : ∀ each ∈ items,
      ReadsItemAs limit state.depth false .rParen paramEntry each.1 each.2 := by
    intro each member
    obtain ⟨source, isSource, rfl⟩ := List.mem_map.1 member
    exact WrittenParam.readsItemAs (areValid source isSource)
  have separated : Separated (items.map Prod.fst) lexemes := by
    rwa [List.map_map]
  have entriesParse : Parses limit (itemsUntil .rParen fun _ => withComma paramEntry) start
      (items.map Prod.snd) (start.moved lexemes.length (rParen :: behind)).cursor :=
    parses_itemsUntil_of_separated (by decide) readItems separated startRegular rfl atParams.closes
  have entriesEq : items.map Prod.snd = written.map WrittenParam.entry := List.map_map
  rw [entriesEq, ReadState.moved_moved, Nat.add_comm] at entriesParse
  obtain ⟨other, entriesRun⟩ := entriesParse
  have run := @run_params_of_entries _ _ _ variadic _ _ _ _ _ _ atParams.opens atParams.closes
    atParams.aheadEq entriesRun
  refine run_eq_of_ends Tree.map_id (Mirrors.params variadic) run ?_ ?_
  · cases ParamEntry.resolve variadic (written.map WrittenParam.entry) <;> simp [paramsOutcome]
  · have isTree : ReadsTree (ruleMachine (P := P) limit allowance) Anywhere 0 (params variadic) :=
      (readsNonterminals limit allowance).params variadic
    refine (isTree ⟨none, none, none⟩ 0 trivial (Nat.le_refl 0)).finishes state atParams.regular
      (by simp) ?_
    exact Nat.le_trans (Nat.add_le_add_left (Nat.zero_le _) _) atParams.enough

end

/-! ## What entries resolve to -/

/-- Whether there is no ellipsis but in the last entry, and none at all in a list that is not
variadic. -/
def DotsAtEnd (variadic : Bool) (dots : List (Option (Lexeme P))) : Prop :=
  (∀ each ∈ dots.dropLast, each = none) ∧ (variadic = false -> ∀ each ∈ dots, each = none)

namespace WrittenParam

/-- Whether an entry is a type without a name. -/
def IsUnnamed : WrittenParam P -> Prop
  | unnamed .. => True
  | bare _ | named .. => False

/-- Whether an entry is a name in front of a type. -/
def IsNamed : WrittenParam P -> Prop
  | named .. => True
  | bare _ | unnamed .. => False

theorem isNamed_entry {written : WrittenParam P} (isNamed : written.IsNamed) :
    written.entry.isNamed = true := by
  cases written with
  | named name dots text type => rfl
  | bare _ => exact isNamed.elim
  | unnamed _ _ _ => exact isNamed.elim

theorem hasEllipsis_entry (written : WrittenParam P) :
    written.entry.hasEllipsis = written.dots.isSome := by
  cases written with
  | bare name => rfl
  | unnamed dots text type => exact Option.isSome_map
  | named name dots text type => exact Option.isSome_map

end WrittenParam

theorem any_hasEllipsis_iff (written : List (WrittenParam P)) :
    (written.map WrittenParam.entry).any ParamEntry.hasEllipsis = false
      ↔ ∀ each ∈ written.map WrittenParam.dots, each = none := by
  simp [WrittenParam.hasEllipsis_entry]

/-- An ellipsis at another place than the end is noticed first. -/
theorem any_fixed_iff (variadic : Bool) (written : List (WrittenParam P)) :
    (if variadic then (written.map WrittenParam.entry).dropLast
        else written.map WrittenParam.entry).any ParamEntry.hasEllipsis = false
      ↔ DotsAtEnd variadic (written.map WrittenParam.dots) := by
  have inFront : (written.map WrittenParam.entry).dropLast.any ParamEntry.hasEllipsis = false
      ↔ ∀ each ∈ (written.map WrittenParam.dots).dropLast, each = none := by
    rw [← List.map_dropLast, any_hasEllipsis_iff, List.map_dropLast]
  cases variadic with
  | true => simp [DotsAtEnd, inFront]
  | false =>
      refine (any_hasEllipsis_iff written).trans ⟨fun noDots => ⟨?_, fun _ => noDots⟩, ?_⟩
      · exact fun each member => noDots each (List.dropLast_subset _ member)
      · exact fun dots => dots.2 rfl

theorem resolve_of_not_dotsAtEnd
    {variadic : Bool}
    {written : List (WrittenParam P)}
    (misplaced : ¬DotsAtEnd variadic (written.map WrittenParam.dots)) :
    ParamEntry.resolve variadic (written.map WrittenParam.entry) = .error .misplacedEllipsis := by
  rw [← any_fixed_iff, Bool.not_eq_false] at misplaced
  rw [ParamEntry.resolve, misplaced, if_pos rfl]

theorem resolve_of_dotsAtEnd
    {variadic : Bool}
    {written : List (WrittenParam P)}
    (dots : DotsAtEnd variadic (written.map WrittenParam.dots)) :
    ParamEntry.resolve variadic (written.map WrittenParam.entry)
      = if (written.map WrittenParam.entry).any ParamEntry.isNamed then
          match ParamEntry.namedParams? [] (written.map WrittenParam.entry) with
          | some params => .ok params
          | none => .error .mixedParams
        else .ok ((written.map WrittenParam.entry).map ParamEntry.unnamedParam) := by
  rw [← any_fixed_iff] at dots
  rw [ParamEntry.resolve, dots]
  exact if_neg Bool.false_ne_true

/-! ## Types without names -/

/-- A type as it is written, with an ellipsis in front of it or without, and what its lexemes are read
as. -/
structure WrittenType (P : Type) where
  dots : Option (Lexeme P)
  text : List (Lexeme P)
  type : TypeExpr P

namespace WrittenType

def lexemes (written : WrittenType P) : List (Lexeme P) :=
  written.dots.toList ++ written.text

/-- The parameter that a type declares where it stands alone. -/
def param (written : WrittenType P) : Tree P (.one .param) :=
  .param none (dotsMark written.dots) written.type

def IsValid (limit depth : Nat) (written : WrittenType P) : Prop :=
  (∀ lexeme ∈ written.dots, lexeme.token = .ellipsis) ∧ ReadsType limit depth written.text written.type

/-- The entry of a parameter list that a type is. -/
def alone : WrittenType P -> WrittenParam P
  | ⟨none, [name], type⟩ => if name.token = .ident then .bare name else .unnamed none [name] type
  | ⟨dots, text, type⟩ => .unnamed dots text type

/-- A type alone is a lone name or no name. -/
theorem alone_cases (written : WrittenType P) :
    (∃ name, written.dots = none ∧ written.text = [name] ∧ name.token = .ident
      ∧ written.alone = .bare name)
    ∨ (written.dots = none -> ¬IsName written.text)
      ∧ written.alone = .unnamed written.dots written.text written.type := by
  obtain ⟨dots, text, type⟩ := written
  by_cases isName : dots = none ∧ IsName text
  · obtain ⟨rfl, name, rfl, isIdent⟩ := isName
    exact .inl ⟨name, rfl, rfl, isIdent, if_pos isIdent⟩
  · refine .inr ⟨not_and.1 isName, ?_⟩
    unfold alone
    split
    · next name _ same =>
      cases same
      exact if_neg fun isIdent => isName ⟨rfl, name, rfl, isIdent⟩
    · next same =>
      cases same
      rfl

variable {limit depth : Nat} {written : WrittenType P}

@[simp] theorem lexemes_alone (written : WrittenType P) : written.alone.lexemes = written.lexemes := by
  rcases written.alone_cases with ⟨name, noDots, isText, -, isBare⟩ | ⟨-, isUnnamed⟩
  · rw [isBare, lexemes, noDots, isText]
    rfl
  · rw [isUnnamed]
    rfl

@[simp] theorem dots_alone (written : WrittenType P) : written.alone.dots = written.dots := by
  rcases written.alone_cases with ⟨name, noDots, -, -, isBare⟩ | ⟨-, isUnnamed⟩
  · rw [isBare, noDots]
    rfl
  · rw [isUnnamed]
    rfl

@[simp] theorem isNamed_alone (written : WrittenType P) : written.alone.entry.isNamed = false := by
  rcases written.alone_cases with ⟨name, -, -, -, isBare⟩ | ⟨-, isUnnamed⟩
  · rw [isBare]
    rfl
  · rw [isUnnamed]
    rfl

theorem isValid_alone (isValid : written.IsValid limit depth) : written.alone.IsValid limit depth := by
  rcases written.alone_cases with ⟨name, -, -, isName, isBare⟩ | ⟨notName, isUnnamed⟩
  · rw [isBare]
    exact isName
  · rw [isUnnamed]
    exact ⟨isValid.1, isValid.2, notName⟩

theorem unnamedParam_alone
    (isValid : written.IsValid limit depth) :
    written.alone.entry.unnamedParam = written.param := by
  rcases written.alone_cases with ⟨name, noDots, isText, isName, isBare⟩ | ⟨-, isUnnamed⟩
  · have isType : ReadsType limit depth [name] written.type := isText ▸ isValid.2
    rw [isBare, param, noDots, isType.eq_of_name isName]
    rfl
  · rw [isUnnamed]
    rfl

end WrittenType

/-- A list of types declares a parameter without a name for each of them. -/
theorem resolve_types
    {limit depth : Nat}
    {variadic : Bool}
    {types : List (WrittenType P)}
    (areValid : ∀ each ∈ types, each.IsValid limit depth)
    (dots : DotsAtEnd variadic (types.map WrittenType.dots)) :
    ParamEntry.resolve variadic ((types.map WrittenType.alone).map WrittenParam.entry)
      = .ok (types.map WrittenType.param) := by
  have dots : DotsAtEnd variadic ((types.map WrittenType.alone).map WrittenParam.dots) := by
    simpa [Function.comp_def] using dots
  have noneNamed : ((types.map WrittenType.alone).map WrittenParam.entry).any ParamEntry.isNamed
      = false := by
    simp
  rw [resolve_of_dotsAtEnd dots, noneNamed, if_neg Bool.false_ne_true, List.map_map, List.map_map]
  congr 1
  exact List.map_congr_left fun each member => WrittenType.unnamedParam_alone (areValid each member)

/-! ## Groups of names -/

/-- Names that share a type, as they are written. -/
structure WrittenGroup (P : Type) extends WrittenType P where
  shared : List (Lexeme P)
  name : Lexeme P

namespace WrittenGroup

/-- The entries of a parameter list that a group is: all names but the last one stand alone. -/
def entries (group : WrittenGroup P) : List (WrittenParam P) :=
  group.shared.map WrittenParam.bare ++ [.named group.name group.dots group.text group.type]

/-- The parameter that a group declares. -/
def groupParam (group : WrittenGroup P) : Tree P (.one .param) :=
  .param (some ((group.shared ++ [group.name]).map identOf)) (dotsMark group.dots) group.type

/-- Whether names of a group are names and its type is one. -/
def IsValidGroup (limit depth : Nat) (group : WrittenGroup P) : Prop :=
  (∀ name ∈ group.shared ++ [group.name], name.token = .ident) ∧ group.toWrittenType.IsValid limit depth

theorem isValid_of_mem
    {limit depth : Nat}
    {group : WrittenGroup P}
    {entry : WrittenParam P}
    (isValid : group.IsValidGroup limit depth)
    (member : entry ∈ group.entries) :
    entry.IsValid limit depth := by
  obtain ⟨areNames, areDots, isType⟩ := isValid
  rcases List.mem_append.1 member with isShared | isLast
  · obtain ⟨name, isName, rfl⟩ := List.mem_map.1 isShared
    exact areNames name (List.mem_append_left _ isName)
  · obtain rfl := List.mem_singleton.1 isLast
    exact ⟨areNames _ (List.mem_append_right _ (List.mem_singleton_self _)), areDots, isType⟩

end WrittenGroup

/-- Names wait for the type that they share. -/
theorem namedParams?_bare
    (pending : List (Ident P))
    (shared : List (Lexeme P))
    (rest : List (ParamEntry P)) :
    ParamEntry.namedParams? pending (shared.map (fun name => .bare (identOf name)) ++ rest)
      = ParamEntry.namedParams? (pending ++ shared.map identOf) rest := by
  induction shared generalizing pending with
  | nil => simp
  | cons name shared inductionHypothesis =>
      rw [List.map_cons, List.cons_append, ParamEntry.namedParams?.eq_3, inductionHypothesis]
      rw [List.map_cons, List.append_assoc]
      rfl

theorem namedParams?_groups (groups : List (WrittenGroup P)) :
    ParamEntry.namedParams? [] ((groups.flatMap WrittenGroup.entries).map WrittenParam.entry)
      = some (groups.map WrittenGroup.groupParam) := by
  induction groups with
  | nil => rfl
  | cons group groups inductionHypothesis =>
      rw [List.flatMap_cons, List.map_append, WrittenGroup.entries, List.map_append, List.map_map,
        List.append_assoc]
      refine (namedParams?_bare [] group.shared _).trans ?_
      rw [List.map_singleton, List.singleton_append, List.nil_append]
      rw [WrittenParam.entry, ParamEntry.namedParams?.eq_4, inductionHypothesis]
      rw [Option.map_some, List.map_cons, WrittenGroup.groupParam, List.map_append]
      rfl

/-- In front of the last entry of a list of groups there is no ellipsis but those in front of the last
group. -/
theorem dotsAtEnd_groups
    {variadic : Bool}
    {groups : List (WrittenGroup P)}
    (dots : DotsAtEnd variadic (groups.map fun group => group.dots)) :
    DotsAtEnd variadic ((groups.flatMap WrittenGroup.entries).map WrittenParam.dots) := by
  have noDots
      {groups : List (WrittenGroup P)}
      (none : ∀ group ∈ groups, group.dots = none) :
      ∀ each ∈ (groups.flatMap WrittenGroup.entries).map WrittenParam.dots, each = Option.none := by
    intro each member
    obtain ⟨entry, isEntry, rfl⟩ := List.mem_map.1 member
    obtain ⟨group, isGroup, isEntry⟩ := List.mem_flatMap.1 isEntry
    rcases List.mem_append.1 isEntry with isShared | isLast
    · obtain ⟨name, -, rfl⟩ := List.mem_map.1 isShared
      rfl
    · obtain rfl := List.mem_singleton.1 isLast
      exact none group isGroup
  refine ⟨?_, fun fixed => noDots fun group member => dots.2 fixed _ (List.mem_map_of_mem member)⟩
  rcases List.eq_nil_or_concat groups with rfl | ⟨front, last, rfl⟩
  · exact nofun
  · have frontDots : ∀ group ∈ front, group.dots = none := by
      intro group member
      refine dots.1 _ ?_
      rw [List.concat_eq_append, List.map_append, List.map_singleton, List.dropLast_concat]
      exact List.mem_map_of_mem member
    rw [List.concat_eq_append, List.flatMap_append, List.flatMap_singleton, WrittenGroup.entries,
      List.map_append, List.map_append, List.map_singleton, ← List.append_assoc, List.dropLast_concat]
    intro each member
    rcases List.mem_append.1 member with inFront | isShared
    · exact noDots frontDots each inFront
    · rw [List.map_map] at isShared
      obtain ⟨name, -, rfl⟩ := List.mem_map.1 isShared
      rfl

/-- A list of groups declares a parameter for each of them. -/
theorem resolve_groups
    {variadic : Bool}
    {groups : List (WrittenGroup P)}
    (dots : DotsAtEnd variadic (groups.map fun group => group.dots)) :
    ParamEntry.resolve variadic ((groups.flatMap WrittenGroup.entries).map WrittenParam.entry)
      = .ok (groups.map WrittenGroup.groupParam) := by
  rw [resolve_of_dotsAtEnd (dotsAtEnd_groups dots)]
  cases groups with
  | nil => rfl
  | cons group groups =>
      have isNamed : (((group :: groups).flatMap WrittenGroup.entries).map WrittenParam.entry).any
          ParamEntry.isNamed = true := by
        refine List.any_eq_true.2
          ⟨.named (identOf group.name) (dotsMark group.dots) group.type, ?_, rfl⟩
        refine List.mem_map.2 ⟨.named group.name group.dots group.text group.type, ?_, rfl⟩
        simp [WrittenGroup.entries]
      rw [if_pos isNamed, namedParams?_groups]

/-! ## Mixtures -/

/-- Names and types without names do not go together, and neither does a name for which no type is
left. -/
theorem namedParams?_eq_none
    {written : List (WrittenParam P)}
    (mixed : (∃ each ∈ written, each.IsUnnamed) ∨ ∃ name, written.getLast? = some (.bare name))
    (pending : List (Ident P)) :
    ParamEntry.namedParams? pending (written.map WrittenParam.entry) = none := by
  induction written generalizing pending with
  | nil => simp at mixed
  | cons entry written inductionHypothesis =>
      cases entry with
      | unnamed dots text type => cases pending <;> rfl
      | bare name =>
          cases written with
          | nil => cases pending <;> rfl
          | cons next written =>
              rw [List.map_cons, WrittenParam.entry, ParamEntry.namedParams?.eq_3]
              refine inductionHypothesis ?_ _
              simpa [WrittenParam.IsUnnamed] using mixed
      | named name dots text type =>
          rw [List.map_cons, WrittenParam.entry, ParamEntry.namedParams?.eq_4]
          cases written with
          | nil => simp [WrittenParam.IsUnnamed] at mixed
          | cons next written =>
              rw [inductionHypothesis (by simpa [WrittenParam.IsUnnamed] using mixed), Option.map_none]

theorem resolve_mixed
    {variadic : Bool}
    {written : List (WrittenParam P)}
    (hasNamed : ∃ each ∈ written, each.IsNamed)
    (mixed : (∃ each ∈ written, each.IsUnnamed) ∨ ∃ name, written.getLast? = some (.bare name))
    (dots : DotsAtEnd variadic (written.map WrittenParam.dots)) :
    ParamEntry.resolve variadic (written.map WrittenParam.entry) = .error .mixedParams := by
  have isNamed : (written.map WrittenParam.entry).any ParamEntry.isNamed = true := by
    obtain ⟨named, member, isNamed⟩ := hasNamed
    exact List.any_eq_true.2 ⟨_, List.mem_map_of_mem member, WrittenParam.isNamed_entry isNamed⟩
  rw [resolve_of_dotsAtEnd dots, if_pos isNamed, namedParams?_eq_none mixed]

/-! ## Readings of lists -/

/-- Types between commas are parameters without names; names in front of the types that they share are
parameters with those names. A list with a name in front of a type is refused if it has a type without
a name or ends in a lone name, and so is a list with an ellipsis in front of another type than that of
its last entry, or with any in a list that is not variadic. -/
theorem parameterLists_exact
    {limit allowance : Nat}
    {variadic : Bool}
    {state : ReadState P}
    {lParen rParen : Lexeme P}
    {lexemes behind : List (Lexeme P)}
    (atParams : AtParams allowance state lParen rParen lexemes behind) :
    (∀ types : List (WrittenType P), (∀ each ∈ types, each.IsValid limit state.depth) ->
      DotsAtEnd variadic (types.map WrittenType.dots) ->
      Separated (types.map WrittenType.lexemes) lexemes ->
      (ruleMachine limit allowance).run (params variadic) state
        = .done (.params ⟨.lParen, lParen.pos⟩ (.ofList (types.map WrittenType.param))
            ⟨.rParen, rParen.pos⟩) (state.moved (lexemes.length + 2) behind))
      ∧ (∀ groups : List (WrittenGroup P), (∀ each ∈ groups, each.IsValidGroup limit state.depth) ->
        DotsAtEnd variadic (groups.map fun group => group.dots) ->
        Separated ((groups.flatMap WrittenGroup.entries).map WrittenParam.lexemes) lexemes ->
        (ruleMachine limit allowance).run (params variadic) state
          = .done (.params ⟨.lParen, lParen.pos⟩ (.ofList (groups.map WrittenGroup.groupParam))
              ⟨.rParen, rParen.pos⟩) (state.moved (lexemes.length + 2) behind))
      ∧ ∀ written : List (WrittenParam P), (∀ each ∈ written, each.IsValid limit state.depth) ->
        Separated (written.map WrittenParam.lexemes) lexemes ->
        ((∃ each ∈ written, each.IsNamed) ->
          ((∃ each ∈ written, each.IsUnnamed) ∨ ∃ name, written.getLast? = some (.bare name)) ->
          ∃ cause ∈ [SyntaxCause.mixedParams, .misplacedEllipsis],
            (ruleMachine limit allowance).run (params variadic) state
              = .gaveUp ((state.moved (lexemes.length + 1) (rParen :: behind)).record cause))
        ∧ (¬DotsAtEnd variadic (written.map WrittenParam.dots) ->
          (ruleMachine limit allowance).run (params variadic) state
            = .gaveUp ((state.moved (lexemes.length + 1) (rParen :: behind)).record
              .misplacedEllipsis)) := by
  refine ⟨fun types areValid dots separated => ?_, fun groups areValid dots separated => ?_,
    fun written areValid separated => ⟨fun hasNamed mixed => ?_, fun misplaced => ?_⟩⟩
  · have aloneValid : ∀ each ∈ types.map WrittenType.alone, each.IsValid limit state.depth := by
      intro each member
      obtain ⟨type, isType, rfl⟩ := List.mem_map.1 member
      exact WrittenType.isValid_alone (areValid type isType)
    have separated : Separated ((types.map WrittenType.alone).map WrittenParam.lexemes) lexemes := by
      simpa [Function.comp_def] using separated
    rw [run_params atParams aloneValid separated, resolve_types areValid dots]
    rfl
  · have entriesValid : ∀ each ∈ groups.flatMap WrittenGroup.entries,
        each.IsValid limit state.depth := by
      intro each member
      obtain ⟨group, isGroup, isEntry⟩ := List.mem_flatMap.1 member
      exact WrittenGroup.isValid_of_mem (areValid group isGroup) isEntry
    rw [run_params atParams entriesValid separated, resolve_groups dots]
    rfl
  · rw [run_params atParams areValid separated]
    by_cases dots : DotsAtEnd variadic (written.map WrittenParam.dots)
    · rw [resolve_mixed hasNamed mixed dots]
      exact ⟨.mixedParams, by simp, rfl⟩
    · rw [resolve_of_not_dotsAtEnd dots]
      exact ⟨.misplacedEllipsis, by simp, rfl⟩
  · rw [run_params atParams areValid separated, resolve_of_not_dotsAtEnd misplaced]
    rfl

/-- The lexemes of `(a, b ...c)`, each at its number. -/
def sharedVariadic : List (Lexeme Nat) :=
  [⟨.lParen, 0, none⟩, ⟨.ident, 1, some "a"⟩, ⟨.comma, 2, none⟩, ⟨.ident, 3, some "b"⟩,
    ⟨.ellipsis, 4, none⟩, ⟨.ident, 5, some "c"⟩, ⟨.rParen, 6, none⟩]

/-- Two names share a type with an ellipsis, which is refused where the list is not variadic. -/
theorem parameterLists_exact_shared :
    (ruleMachine 9 64).run (params true) (.start sharedVariadic 7)
        = .done (.params ⟨.lParen, 0⟩
            (.ofList [.param (some [⟨"a", 1⟩, ⟨"b", 3⟩]) (some ⟨.ellipsis, 4⟩)
              (.namedType (.typeName none ⟨"c", 5⟩ .absent))]) ⟨.rParen, 6⟩)
            ⟨⟨7, [], 7⟩, 0, false, []⟩
      ∧ (ruleMachine 9 64).run (params false) (.start sharedVariadic 7)
        = .gaveUp ⟨⟨6, [⟨.rParen, 6, none⟩], 7⟩, 0, false, [⟨.misplacedEllipsis, 6⟩]⟩ := by
  have atParams : AtParams 64 (.start sharedVariadic 7) ⟨.lParen, 0, none⟩ ⟨.rParen, 6, none⟩
      [⟨.ident, 1, some "a"⟩, ⟨.comma, 2, none⟩, ⟨.ident, 3, some "b"⟩, ⟨.ellipsis, 4, none⟩,
        ⟨.ident, 5, some "c"⟩] [] := by
    refine ⟨rfl, rfl, ?_, by decide, rfl⟩
    change ∀ lexeme ∈ sharedVariadic,
      lexeme.token ≠ .eof ∧ lexeme.literal.isSome = lexeme.token.isLiteral
    decide
  have isType : ReadsType 9 0 [(⟨.ident, 5, some "c"⟩ : Lexeme Nat)]
      (.namedType (.typeName none ⟨"c", 5⟩ .absent)) := by
    rintro ⟨token, pos, literal⟩ ends stop
    refine ⟨8, ?_⟩
    rcases ends with atEnd | atEnd
    · obtain rfl : token = .comma := atEnd
      rfl
    · obtain rfl : token = .rParen := atEnd
      rfl
  let group : WrittenGroup Nat := ⟨⟨some ⟨.ellipsis, 4, none⟩, [⟨.ident, 5, some "c"⟩],
    .namedType (.typeName none ⟨"c", 5⟩ .absent)⟩, [⟨.ident, 1, some "a"⟩], ⟨.ident, 3, some "b"⟩⟩
  have isValid : group.IsValidGroup 9 0 := by
    refine ⟨by decide, ?_, isType⟩
    rintro _ ⟨⟩
    rfl
  have separated : Separated (group.entries.map WrittenParam.lexemes)
      [⟨.ident, 1, some "a"⟩, ⟨.comma, 2, none⟩, ⟨.ident, 3, some "b"⟩, ⟨.ellipsis, 4, none⟩,
        ⟨.ident, 5, some "c"⟩] :=
    .more [⟨.ident, 1, some "a"⟩] rfl (.last _)
  refine ⟨?_, ?_⟩
  · refine (parameterLists_exact atParams).2.1 [group] (List.forall_mem_singleton.2 isValid) ?_ ?_
    · exact ⟨nofun, nofun⟩
    · exact separated
  · refine ((parameterLists_exact atParams).2.2 group.entries ?_ separated).2 ?_
    · exact fun each member => WrittenGroup.isValid_of_mem isValid member
    · intro dots
      exact nomatch dots.2 rfl (some ⟨.ellipsis, 4, none⟩) (.tail _ (.head _))

end Production
end GoFront
