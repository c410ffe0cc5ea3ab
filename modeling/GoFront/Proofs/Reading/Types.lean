import GoFront.Proofs.Reading.Lookahead
import GoFront.Proofs.Reading.Loops

/-!
# Reading types and signatures

How types, field lists, parameter lists and type parameters are read, if nonterminals are read as they
should. A parameter list mentions its entries whether or not they turn out to be named.
-/

namespace GoFront

variable {P : Type}

/-! ## Nonterminals -/

/-- What reading a type that may be missing yields. -/
def Possibly
    (value : Option (TypeExpr P))
    (credit reached : Nat)
    (mentions : List (Mention P)) : Prop :=
  (value = none ∧ credit = reached ∧ mentions = [])
    ∨ ∃ type, value = some type ∧ credit + 8 ≤ reached ∧ mentions = type.outline

/-- What the braces of a literal and the elements between them mention. -/
def LiteralBody.outline (body : LiteralBody P) : List (Mention P) :=
  body.lBrace.mention :: (body.elements.outline ++ [body.rBrace.mention])

/-- What an entry of a parameter list mentions. -/
def Production.ParamEntry.outline : Production.ParamEntry P -> List (Mention P)
  | bare name => [name.mention]
  | unnamed ellipsis type => (ellipsis.map Mark.mention).toList ++ type.outline
  | named name ellipsis type =>
      name.mention :: ((ellipsis.map Mark.mention).toList ++ type.outline)

/-- Entries that declare parameters all have names, or none of them has one. Only the last entry can be
variadic, where the list allows it. -/
theorem Production.ParamEntry.of_resolve_ok
    {variadic : Bool}
    {entries : List (ParamEntry P)}
    {params : List (Tree P (.one .param))}
    (resolved : resolve variadic entries = .ok params) :
    (∀ entry ∈ if variadic then entries.dropLast else entries, entry.hasEllipsis = false)
      ∧ (namedParams? [] entries = some params
        ∨ (∀ entry ∈ entries, entry.isNamed = false) ∧ params = entries.map unnamedParam) := by
  unfold resolve at resolved
  dsimp only at resolved
  generalize (if variadic then entries.dropLast else entries) = fixed at resolved ⊢
  split at resolved
  · cases resolved
  · next noneMisplaced =>
      refine ⟨by simpa using noneMisplaced, ?_⟩
      split at resolved
      · split at resolved
        · next found =>
            obtain rfl := Except.ok.inj resolved
            exact .inl found
        · cases resolved
      · next noneNamed => exact .inr ⟨by simpa using noneNamed, (Except.ok.inj resolved).symm⟩

/-- A production reads trees as phrases. -/
def ReadsTree
    {phrase : Phrase}
    (machine : Machine P)
    (inside : Option (List Token) -> Prop)
    (need : Nat)
    (production : Production P (Tree P (.one phrase))) : Prop :=
  ReadsPhrase machine inside need production (Consumed Tree.outline fun _ => True)

/-- All nonterminals are read as phrases. A type that is a name takes the brackets behind it, and a block
begins with a brace. -/
structure ReadsNonterminals (machine : Machine P) : Prop where
  type? : ReadsPhrase machine Anywhere 2 Production.type? Possibly
  exprOf : ∀ least, ReadsPhrase machine Anywhere 4 (.call (.expr least))
    (Consumed Tree.outline Tree.PointsMarked)
  unary : ReadsPhrase machine Anywhere 3 (.call .unary) (Consumed Tree.outline Tree.PointsMarked)
  literalBody : ReadsPhrase machine Anywhere 2 (.call .literalBody)
    (Consumed LiteralBody.outline fun _ => True)
  block : ReadsTree machine Anywhere 2 Production.block
  stmt : ReadsTree machine InBrackets 5 (.call .stmt)
  ifStmt : ReadsTree machine InBrackets 2 (.call .ifStmt)
  typeTakesArgs : ∀ (state final : ReadState P) (value : Option (TypeExpr P)), state.Regular ->
    machine.run Production.type? state = .done value final -> state.cursor.token = .ident ->
    final.cursor.token = .lBrack -> state.cursor.consumed + 2 ≤ final.cursor.consumed
  blockBrace : ∀ (state final : ReadState P) (value : Block P),
    machine.run Production.block state = .done value final -> state.cursor.token = .lBrace

namespace ReadsNonterminals

open Reads

variable {machine : Machine P} (nonterminals : ReadsNonterminals machine)

/-! ## Names and literals -/

theorem identList :
    ReadsPhrase machine Anywhere 0 Production.identList
      (Consumed (List.map Ident.mention) fun names => names ≠ []) := by
  intro frame credit _ enough
  refine last (commaSeparated readsIdent) trivial enough ?_
  rintro names reached _ ⟨gains, rfl, nonempty, -⟩
  exact ⟨_, rfl, gains, List.map_eq_flatMap.symm, nonempty⟩

theorem stringLit :
    ReadsPhrase machine Anywhere 0 Production.stringLit
      (Consumed (fun literal => [literal.mention]) fun _ => True) := by
  intro frame credit _ _
  refine look (fun first second same _ => ?_) fun cursor _ => ?_
  · rw [same]
  · split
    · next found =>
        refine literal .string (congrArg some found) fun lexeme => ?_
        exact Reads.pure ⟨_, rfl, Nat.le_refl _, rfl, trivial⟩
    · next found =>
        refine literal .rawString (congrArg some found) fun lexeme => ?_
        exact Reads.pure ⟨_, rfl, Nat.le_refl _, rfl, trivial⟩
    · exact refuse

include nonterminals

/-! ## Types and expressions -/

theorem type : ReadsTree machine Anywhere 2 Production.type := by
  intro frame credit _ enough
  refine phrase nonterminals.type? trivial enough ?_
  rintro _ reached _ (⟨rfl, rfl, rfl⟩ | ⟨type, rfl, gains, rfl⟩)
  · exact look (fun first second same _ => by rw [same]) fun cursor _ => refuse
  · exact Reads.pure ⟨_, rfl, gains, List.append_nil _, trivial⟩

theorem expr :
    ReadsPhrase machine Anywhere 4 Production.expr (Consumed Tree.outline Tree.PointsMarked) :=
  nonterminals.exprOf .or

theorem typeList : ReadsTree machine Anywhere 2 Production.typeList := by
  intro frame credit _ enough
  refine map (last (commaSeparated nonterminals.type) trivial enough ?_)
  rintro types reached _ ⟨gains, rfl, -⟩
  exact ⟨_, rfl, gains, (Tree.outline_ofList types).symm, trivial⟩

/-! ## Named types -/

theorem typeArgs : ReadsTree machine Anywhere 0 Production.typeArgs := by
  intro frame credit _ enough
  refine inHeader (mark rfl rfl fun lBrack _ => look (fun first second same _ => ?_)
    fun cursor _ => ?_)
  · rw [same]
  · split
    · exact refuse
    · refine phrase nonterminals.type trivial (by omega) ?_
      rintro first reached _ ⟨gains, rfl, -⟩
      refine Reads.bind (commaTail nonterminals.type trivial (by omega) (by omega)) ?_
      rintro rest _ _ ⟨rfl, rfl, -⟩
      refine mark rfl rfl fun rBrack _ => Reads.pure ⟨_, rfl, by omega, ?_, trivial⟩
      rw [← Tree.outline_ofList]
      exact congrArg (lBrack.mention :: ·) (List.append_assoc _ _ _).symm

/-- The rest of a name: type arguments if a bracket comes next. -/
theorem nameArgs
    (frame : Frame)
    (credit : Nat)
    (package : Option (Ident P))
    (name : Ident P) :
    Reads machine frame (Production.look.bind fun cursor =>
        if cursor.token = .lBrack then
          Production.typeArgs.bind fun args => .pure (Tree.typeName package name (.present args))
        else .pure (Tree.typeName package name .absent)) ⟨[], credit⟩
      fun value after mentions => ∃ reached args, after = ⟨[], reached⟩ ∧ credit ≤ reached
        ∧ value = Tree.typeName package name args ∧ mentions = args.outline := by
  refine look (fun first second same _ => ?_) fun cursor _ => ?_
  · rw [same]
  · split
    · refine map (last nonterminals.typeArgs trivial (Nat.zero_le _) ?_)
      rintro args reached _ ⟨gains, rfl, -⟩
      exact ⟨_, .present args, rfl, by omega, rfl, rfl⟩
    · exact Reads.pure ⟨_, .absent, rfl, Nat.le_refl _, rfl, rfl⟩

theorem typeName : ReadsTree machine Anywhere 0 Production.typeName := by
  intro frame credit _ _
  refine ident fun first => implied? rfl rfl (fun dot => ?_) ?_
  · refine ident fun name => pure_bind (weaken (nonterminals.nameArgs _ _ (some first) name) ?_)
    rintro _ _ _ ⟨reached, args, rfl, more, rfl, rfl⟩
    exact ⟨_, .refl _, _, rfl, by omega, rfl, trivial⟩
  · refine pure_bind (weaken (nonterminals.nameArgs _ _ none first) ?_)
    rintro _ _ _ ⟨reached, args, rfl, more, rfl, rfl⟩
    exact ⟨_, .refl _, _, rfl, by omega, rfl, trivial⟩

/-- A name takes the brackets behind it. -/
theorem consumed_of_nameArgs
    {state final : ReadState P}
    {value : Tree P (.one .typeName)}
    {package : Option (Ident P)}
    {name : Ident P}
    (regular : state.Regular)
    (run : machine.run (Production.look.bind fun cursor =>
        if cursor.token = .lBrack then
          Production.typeArgs.bind fun args => .pure (Tree.typeName package name (.present args))
        else .pure (Tree.typeName package name .absent)) state = .done value final)
    (bracket : final.cursor.token = .lBrack) :
    state.cursor.consumed < final.cursor.consumed := by
  change machine.run (if state.cursor.token = .lBrack then _ else _) state = _ at run
  split at run
  · obtain ⟨args, middle, argsRun, restRun⟩ := run_bind_done run
    obtain ⟨rfl, rfl⟩ := Outcome.done.inj restRun
    exact consumed_lt nonterminals.typeArgs trivial regular argsRun
  · next noBracket =>
      obtain ⟨rfl, rfl⟩ := Outcome.done.inj run
      exact absurd bracket noBracket

theorem typeName_takesArgs
    {state final : ReadState P}
    {value : Tree P (.one .typeName)}
    (regular : state.Regular)
    (run : machine.run Production.typeName state = .done value final)
    (bracket : final.cursor.token = .lBrack) :
    state.cursor.consumed + 2 ≤ final.cursor.consumed := by
  obtain ⟨first, second, identRun, run⟩ := run_bind_done run
  obtain ⟨dot, third, dotRun, run⟩ := run_bind_done run
  have identTakes := consumed_lt readsIdent trivial regular identRun
  obtain ⟨_, identReaches⟩ := machine.reaches_of_done identRun
  obtain ⟨_, dotReaches⟩ := machine.reaches_of_done dotRun
  have dotTakes := consumed_le dotRun
  have thirdRegular := dotReaches.regular (identReaches.regular regular)
  cases dot with
  | none =>
      have argsTake := nonterminals.consumed_of_nameArgs thirdRegular run bracket
      omega
  | some lexeme =>
      obtain ⟨name, fourth, nameRun, run⟩ := run_bind_done run
      have nameTakes :=
        consumed_lt readsIdent trivial thirdRegular nameRun
      have restTakes := consumed_le run
      omega

/-! ## Arrays, maps and channels -/

theorem arrayOrSliceType : ReadsTree machine Anywhere 0 Production.arrayOrSliceType := by
  intro frame credit _ _
  refine mark rfl rfl fun lBrack _ => mark? rfl rfl (fun rBrack _ => ?_) ?_
  · refine map (last nonterminals.type trivial (by omega) ?_)
    rintro elem reached _ ⟨gains, rfl, -⟩
    exact ⟨_, rfl, by omega, rfl, trivial⟩
  · refine mark? rfl rfl (fun ellipsis _ => mark rfl rfl fun rBrack _ => ?_) ?_
    · refine map (last nonterminals.type trivial (by omega) ?_)
      rintro elem reached _ ⟨gains, rfl, -⟩
      exact ⟨_, rfl, by omega, rfl, trivial⟩
    · refine phrase (readsInHeader nonterminals.expr) trivial (by omega) ?_
      rintro length reached _ ⟨gains, rfl, -⟩
      refine mark rfl rfl fun rBrack _ => map (last nonterminals.type trivial (by omega) ?_)
      rintro elem _ _ ⟨more, rfl, -⟩
      exact ⟨_, rfl, by omega, rfl, trivial⟩

theorem mapType : ReadsTree machine Anywhere 0 Production.mapType := by
  intro frame credit _ _
  refine mark rfl rfl fun keyword _ => mark rfl rfl fun lBrack _ => ?_
  refine phrase nonterminals.type trivial (by omega) ?_
  rintro key reached _ ⟨gains, rfl, -⟩
  refine mark rfl rfl fun rBrack _ => map (last nonterminals.type trivial (by omega) ?_)
  rintro value _ _ ⟨more, rfl, -⟩
  exact ⟨_, rfl, by omega, rfl, trivial⟩

theorem chanType : ReadsTree machine Anywhere 0 Production.chanType := by
  intro frame credit _ _
  refine mark? rfl rfl (fun arrow _ => mark rfl rfl fun keyword _ => ?_) ?_
  · refine map (last nonterminals.type trivial (by omega) ?_)
    rintro elem reached _ ⟨gains, rfl, -⟩
    exact ⟨_, rfl, by omega, rfl, trivial⟩
  · refine mark rfl rfl fun keyword _ => mark? rfl rfl (fun arrow _ => ?_) ?_
    · refine map (last nonterminals.type trivial (by omega) ?_)
      rintro elem reached _ ⟨gains, rfl, -⟩
      exact ⟨_, rfl, by omega, rfl, trivial⟩
    · refine map (last nonterminals.type trivial (by omega) ?_)
      rintro elem reached _ ⟨gains, rfl, -⟩
      exact ⟨_, rfl, by omega, rfl, trivial⟩

/-! ## Parameter lists -/

omit nonterminals in
/-- The parameters of a list with names mention the pending names and the entries. -/
theorem namedParams_outline
    (pending : List (Ident P))
    (entries : List (Production.ParamEntry P))
    (declared : List (Tree P (.one .param)))
    (found : Production.ParamEntry.namedParams? pending entries = some declared) :
    declared.flatMap Tree.outline
      = pending.map Ident.mention ++ entries.flatMap Production.ParamEntry.outline := by
  induction entries generalizing pending declared with
  | nil =>
      cases pending with
      | nil =>
          obtain rfl := Option.some.inj found
          rfl
      | cons name pending => cases found
  | cons entry entries inductionHypothesis =>
      cases entry with
      | bare name =>
          rw [Production.ParamEntry.namedParams?] at found
          rw [inductionHypothesis _ _ found, List.map_append, List.append_assoc]
          rfl
      | unnamed ellipsis type => cases pending <;> cases found
      | named name ellipsis type =>
          rw [Production.ParamEntry.namedParams?] at found
          obtain ⟨rest, restFound, rfl⟩ := Option.map_eq_some_iff.1 found
          rw [List.flatMap_cons, inductionHypothesis _ _ restFound]
          change ((pending ++ [name]).map Ident.mention
            ++ ((ellipsis.map Mark.mention).toList ++ type.outline)) ++ _ = _
          rw [List.map_append, List.append_assoc, List.append_assoc]
          rfl

omit nonterminals in
/-- A list mentions its entries, whether they are named or not. -/
theorem resolve_outline
    {variadic : Bool}
    {entries : List (Production.ParamEntry P)}
    {declared : List (Tree P (.one .param))}
    (resolved : Production.ParamEntry.resolve variadic entries = .ok declared) :
    entries.flatMap Production.ParamEntry.outline = declared.flatMap Tree.outline := by
  obtain ⟨-, found | ⟨noneNamed, rfl⟩⟩ := Production.ParamEntry.of_resolve_ok resolved
  · rw [namedParams_outline [] entries _ found]
    rfl
  · rw [List.flatMap_map]
    refine List.flatMap_congr fun entry member => ?_
    cases entry with
    | bare name => rfl
    | unnamed ellipsis type => rfl
    | named name ellipsis type => cases noneNamed _ member

theorem type_takesArgs
    {state final : ReadState P}
    {value : TypeExpr P}
    (regular : state.Regular)
    (run : machine.run Production.type state = .done value final)
    (startsName : state.cursor.token = .ident)
    (bracket : final.cursor.token = .lBrack) :
    state.cursor.consumed + 2 ≤ final.cursor.consumed := by
  obtain ⟨type, middle, typeRun, run⟩ := run_bind_done run
  cases type with
  | none => cases run
  | some type =>
      obtain ⟨rfl, rfl⟩ := Outcome.done.inj run
      exact nonterminals.typeTakesArgs state middle _ regular typeRun startsName bracket

/-- An entry that is a type takes the brackets behind its name. -/
theorem consumed_of_unnamed
    {state final : ReadState P}
    {entry : Production.ParamEntry P}
    (regular : state.Regular)
    (run : machine.run ((Production.mark? .ellipsis).bind fun ellipsis =>
        Production.type.bind fun type => .pure (.unnamed ellipsis type)) state = .done entry final)
    (startsName : state.cursor.token = .ident)
    (bracket : final.cursor.token = .lBrack) :
    state.cursor.consumed + 2 ≤ final.cursor.consumed := by
  rw [run_mark?_missing (by rw [startsName]; decide)] at run
  obtain ⟨type, middle, typeRun, run⟩ := run_bind_done run
  obtain ⟨rfl, rfl⟩ := Outcome.done.inj run
  exact nonterminals.type_takesArgs regular typeRun startsName bracket

/-- What an entry mentions. A name followed by a type takes two lexemes at least. -/
def EntryRead
    (credit : Nat)
    (cursor : Cursor P)
    (entry : Production.ParamEntry P)
    (after : Progress)
    (mentions : List (Mention P)) : Prop :=
  ∃ reached, after = ⟨[], reached⟩
    ∧ Consumed Production.ParamEntry.outline (fun _ => True) entry credit reached mentions
    ∧ (cursor.tokenAfter 1 = .lBrack -> cursor.token = .ident ->
      cursor.brackFollowedBy [.comma, .rParen] = false -> credit + 16 ≤ reached)

theorem paramEntry :
    ReadsPhrase machine Anywhere 2 Production.paramEntry
      (Consumed Production.ParamEntry.outline fun _ => True) := by
  intro frame credit _ enough
  refine look_further (EntryRead credit) (fun cursor _ => ?_) ?_ ?_
  · dsimp only
    split
    · next isBare =>
        refine ident fun name => Reads.pure ⟨_, rfl, ⟨by omega, rfl, trivial⟩, fun bracket _ _ => ?_⟩
        rw [bracket] at isBare
        simp at isBare
    · split
      · refine ident fun name => maybeMark rfl rfl fun ellipsis => ?_
        refine map (last nonterminals.type trivial (by omega) ?_)
        rintro type reached _ ⟨gains, rfl, -⟩
        exact ⟨_, rfl, ⟨by omega, rfl, trivial⟩, fun _ _ _ => by omega⟩
      · next notNamed =>
          refine maybeMark rfl rfl fun ellipsis => map (last nonterminals.type trivial enough ?_)
          rintro type reached _ ⟨gains, rfl, -⟩
          refine ⟨_, rfl, ⟨gains, rfl, trivial⟩, fun bracket startsName continues => ?_⟩
          simp [bracket, startsName, continues] at notNamed
  · rintro cursor entry _ mentions ⟨reached, rfl, consumed, -⟩
    exact ⟨reached, rfl, consumed⟩
  · rintro state final value _ mentions taken lexeme behind behind' other regular
      ⟨reached, rfl, ⟨gains, -, -⟩, named⟩ run credited nested stateAhead finalAhead _ otherAhead
    change reached ≤ credit + 8 * taken.length at credited
    have sameToken := Cursor.token_congr stateAhead otherAhead
    have sameAfter : other.tokenAfter 1 = state.cursor.tokenAfter 1 :=
      Cursor.tokenAfter_congr stateAhead otherAhead (by omega)
    by_cases bracket : state.cursor.token = .ident ∧ state.cursor.tokenAfter 1 = .lBrack
    · have long : 2 ≤ taken.length := by
        cases closes : state.cursor.brackFollowedBy [.comma, .rParen] with
        | false =>
            have consumed := named bracket.2 bracket.1 closes
            omega
        | true =>
            -- the name is a type, which takes the brackets
            rw [if_neg (by simp [bracket.2]), if_neg (by simp [bracket.2, closes])] at run
            exact two_le_length_of_takes run stateAhead finalAhead (by omega) bracket.2
              (nonterminals.consumed_of_unnamed regular run bracket.1)
      rw [sameToken, sameAfter, Cursor.brackFollowedBy_eq stateAhead otherAhead nested bracket.1
        bracket.2 long]
    · simp only [sameToken, sameAfter]
      by_cases startsName : state.cursor.token = .ident
      · have noBracket : state.cursor.tokenAfter 1 ≠ .lBrack := fun follows =>
          bracket ⟨startsName, follows⟩
        simp only [noBracket, decide_false, Bool.false_and]
      · simp only [startsName, decide_false, Bool.false_and]

theorem params (variadic : Bool) : ReadsTree machine Anywhere 0 (Production.params variadic) := by
  intro frame credit _ _
  refine inHeader (mark rfl rfl fun lParen _ => ?_)
  refine Reads.bind (itemsUntil (fun _ => withComma nonterminals.paramEntry) trivial (by omega)
    (by omega)) ?_
  rintro entries _ _ ⟨rfl, rfl, -⟩
  split
  · exact refuse
  · next resolved =>
      refine mark rfl rfl fun rParen _ => Reads.pure ⟨_, rfl, by omega, ?_, trivial⟩
      rw [resolve_outline resolved, ← Tree.outline_ofList]
      rfl

theorem signature : ReadsTree machine Anywhere 0 Production.signature := by
  intro frame credit _ _
  refine phrase (nonterminals.params true) trivial (Nat.zero_le _) ?_
  rintro inputs reached _ ⟨gains, rfl, -⟩
  refine look (fun first second same _ => ?_) fun cursor _ => ?_
  · rw [same]
  · split
    · refine map (last (nonterminals.params false) trivial (Nat.zero_le _) ?_)
      rintro outputs _ _ ⟨more, rfl, -⟩
      exact ⟨_, rfl, by omega, rfl, trivial⟩
    · refine map (last nonterminals.type? trivial (by omega) ?_)
      rintro _ _ _ (⟨rfl, rfl, rfl⟩ | ⟨type, rfl, more, rfl⟩)
      · exact ⟨_, rfl, by omega, rfl, trivial⟩
      · exact ⟨_, rfl, by omega, rfl, trivial⟩

theorem funcType : ReadsTree machine Anywhere 0 Production.funcType := by
  intro frame credit _ _
  refine mark rfl rfl fun keyword _ => ?_
  refine map (last nonterminals.signature trivial (Nat.zero_le _) ?_)
  rintro shape reached _ ⟨gains, rfl, -⟩
  exact ⟨_, rfl, by omega, rfl, trivial⟩

/-! ## Type parameters -/

theorem typeTerm :
    ReadsPhrase machine Anywhere 2 Production.typeTerm
      (Consumed (fun term => term.outline.tail) fun term => term.outline.head? = some (.implied .pipe))
    := by
  intro frame credit _ enough
  refine mark? rfl rfl (fun tilde _ => ?_) ?_
  · refine phrase nonterminals.type trivial (by omega) ?_
    rintro type reached _ ⟨gains, rfl, -⟩
    refine Reads.pure ⟨_, rfl, by omega, ?_, rfl⟩
    rw [List.append_nil]
    rfl
  · refine phrase nonterminals.type trivial enough ?_
    rintro type reached _ ⟨gains, rfl, -⟩
    exact Reads.pure ⟨_, rfl, gains, List.append_nil _, rfl⟩

theorem typeElem : ReadsTree machine Anywhere 2 Production.typeElem := by
  intro frame credit _ enough
  refine phrase nonterminals.typeTerm trivial enough ?_
  rintro first reached _ ⟨gains, rfl, starts⟩
  refine map (weaken (many Tree.outline (fun _ => True) (by omega) ?_) ?_)
  · refine implied? rfl rfl (fun bar => ?_) (Reads.pure (.inr ⟨rfl, rfl, rfl⟩))
    refine map (last nonterminals.typeTerm trivial (by omega) ?_)
    rintro next _ _ ⟨more, rfl, starts⟩
    obtain ⟨mentions, nextOutline⟩ := List.head?_eq_some_iff.1 starts
    refine .inl ⟨next, _, rfl, rfl, by omega, ?_, trivial⟩
    change .implied .pipe :: next.outline.tail = next.outline
    rw [nextOutline]
    rfl
  · rintro rest _ _ ⟨rfl, rfl, -⟩
    refine ⟨_, .refl _, _, rfl, gains, ?_, trivial⟩
    obtain ⟨mentions, firstOutline⟩ := List.head?_eq_some_iff.1 starts
    change first.outline.tail ++ _ = (first.outline ++ (Tree.ofList rest).outline).tail
    rw [firstOutline, Tree.outline_ofList]
    rfl

theorem typeParam : ReadsTree machine Anywhere 0 Production.typeParam := by
  intro frame credit _ _
  refine phrase identList trivial (Nat.zero_le _) ?_
  rintro names reached _ ⟨gains, rfl, -⟩
  refine map (last nonterminals.typeElem trivial (by omega) ?_)
  rintro bound _ _ ⟨more, rfl, -⟩
  exact ⟨_, rfl, by omega, rfl, trivial⟩

theorem typeParams : ReadsTree machine Anywhere 0 Production.typeParams := by
  intro frame credit _ _
  refine inHeader (mark rfl rfl fun lBrack _ => ?_)
  refine Reads.bind (itemsUntil (fun _ => withComma nonterminals.typeParam) trivial (by omega)
    (by omega)) ?_
  rintro entries _ _ ⟨rfl, rfl, -⟩
  split
  · exact refuse
  · refine mark rfl rfl fun rBrack _ => Reads.pure ⟨_, rfl, by omega, ?_, trivial⟩
    rw [← Tree.outline_ofList]
    rfl

/-! ## Structures and interfaces -/

omit nonterminals in
theorem tag? :
    ReadsPhrase machine Anywhere 0 Production.tag? fun tag credit reached mentions =>
      credit ≤ reached ∧ mentions = (tag.map BasicLit.mention).toList := by
  intro frame credit _ _
  refine look (fun first second same _ => ?_) fun cursor _ => ?_
  · rw [Cursor.atAny_congr _ same]
  · split
    · refine map (last stringLit trivial (Nat.zero_le _) ?_)
      rintro tag reached _ ⟨gains, rfl, -⟩
      exact ⟨_, rfl, by omega, rfl⟩
    · exact Reads.pure ⟨_, rfl, Nat.le_refl _, rfl⟩

omit nonterminals in
theorem atEmbeddedField_congr
    {cursor other : Cursor P}
    (sameToken : other.token = cursor.token)
    (sameAfter : other.tokenAfter 1 = cursor.tokenAfter 1)
    (sameBrackets : cursor.token = .ident -> cursor.tokenAfter 1 = .lBrack ->
      other.brackFollowedBy Production.fieldEnds = cursor.brackFollowedBy Production.fieldEnds) :
    Production.atEmbeddedField other = Production.atEmbeddedField cursor := by
  rw [Production.atEmbeddedField, Production.atEmbeddedField, sameToken, sameAfter]
  split
  · rfl
  · split
    · rfl
    · exact sameBrackets ‹_› ‹_›
    · rfl
  · rfl

/-- What a field mentions. Names followed by a type take two lexemes at least. -/
def FieldRead
    (credit : Nat)
    (cursor : Cursor P)
    (field : Tree P (.one .field))
    (after : Progress)
    (mentions : List (Mention P)) : Prop :=
  ∃ reached, after = ⟨[], reached⟩
    ∧ Consumed Tree.outline (fun _ => True) field credit reached mentions
    ∧ (Production.atEmbeddedField cursor = false -> credit + 16 ≤ reached)

theorem consumed_of_embedded
    {state final : ReadState P}
    {field : Tree P (.one .field)}
    (regular : state.Regular)
    (run : machine.run ((Production.mark? .star).bind fun star =>
        Production.typeName.bind fun name => Production.tag?.bind fun tag =>
          .pure (Tree.embeddedField star name tag)) state = .done field final)
    (startsName : state.cursor.token = .ident)
    (bracket : final.cursor.token = .lBrack) :
    state.cursor.consumed + 2 ≤ final.cursor.consumed := by
  rw [run_mark?_missing (by rw [startsName]; decide)] at run
  obtain ⟨name, middle, nameRun, run⟩ := run_bind_done run
  have nameTakes := consumed_lt nonterminals.typeName trivial regular nameRun
  have tagTakes := consumed_le run
  obtain ⟨passed, reaches⟩ := machine.reaches_of_done run
  cases passed with
  | nil =>
      have sameToken : middle.cursor.token = final.cursor.token := by
        rw [Cursor.token, Cursor.token, Cursor.peek, Cursor.peek, reaches.ahead]
        rw [Cursor.finalLexeme, Cursor.finalLexeme, reaches.stop]
        rfl
      have argsTake := nonterminals.typeName_takesArgs regular nameRun (sameToken.trans bracket)
      omega
  | cons lexeme passed =>
      have total := reaches.consumed
      rw [List.length_cons] at total
      omega

theorem fieldDecl : ReadsTree machine Anywhere 0 Production.fieldDecl := by
  intro frame credit _ _
  refine look_further (FieldRead credit) (fun cursor _ => ?_) ?_ ?_
  · split
    · next isEmbedded =>
        refine maybeMark rfl rfl fun star => ?_
        refine phrase nonterminals.typeName trivial (Nat.zero_le _) ?_
        rintro name reached _ ⟨gains, rfl, -⟩
        refine map (last tag? trivial (Nat.zero_le _) ?_)
        rintro tag _ _ ⟨more, rfl⟩
        refine ⟨_, rfl, ⟨by omega, rfl, trivial⟩, fun notEmbedded => ?_⟩
        rw [isEmbedded] at notEmbedded
        cases notEmbedded
    · refine phrase identList trivial (Nat.zero_le _) ?_
      rintro names reached _ ⟨gains, rfl, -⟩
      refine phrase nonterminals.type trivial (by omega) ?_
      rintro type _ _ ⟨typeGains, rfl, -⟩
      refine map (last tag? trivial (Nat.zero_le _) ?_)
      rintro tag _ _ ⟨more, rfl⟩
      exact ⟨_, rfl, ⟨by omega, rfl, trivial⟩, fun _ => by omega⟩
  · rintro cursor field _ mentions ⟨reached, rfl, consumed, -⟩
    exact ⟨reached, rfl, consumed⟩
  · rintro state final value _ mentions taken lexeme behind behind' other regular
      ⟨reached, rfl, ⟨gains, -, -⟩, named⟩ run credited nested stateAhead finalAhead _ otherAhead
    change reached ≤ credit + 8 * taken.length at credited
    have sameToken := Cursor.token_congr stateAhead otherAhead
    have sameAfter : other.tokenAfter 1 = state.cursor.tokenAfter 1 :=
      Cursor.tokenAfter_congr stateAhead otherAhead (by omega)
    have sameDecision := atEmbeddedField_congr sameToken sameAfter fun startsName bracket => by
      refine Cursor.brackFollowedBy_eq stateAhead otherAhead nested startsName bracket ?_
      cases embedded : Production.atEmbeddedField state.cursor with
      | false =>
          have consumed := named embedded
          omega
      | true =>
          -- the name of the type takes the brackets
          rw [if_pos embedded] at run
          exact two_le_length_of_takes run stateAhead finalAhead (by omega) bracket
            (nonterminals.consumed_of_embedded regular run startsName)
    simp only [sameDecision]

theorem structType : ReadsTree machine Anywhere 0 Production.structType := by
  intro frame credit _ _
  refine mark rfl rfl fun keyword _ => mark rfl rfl fun lBrace _ => ?_
  refine Reads.bind (itemsUntil (fun _ => withSemicolon nonterminals.fieldDecl)
    ⟨trivial, inBrackets_of_due _ _ _⟩ (by omega) (by omega)) ?_
  rintro fields _ _ ⟨rfl, rfl, -⟩
  refine mark rfl rfl fun rBrace _ => Reads.pure ⟨_, rfl, by omega, ?_, trivial⟩
  rw [← Tree.outline_ofList]
  rfl

theorem interfaceElem : ReadsTree machine Anywhere 2 Production.interfaceElem := by
  intro frame credit _ enough
  refine look_further (fun _ value after mentions => ∃ reached, after = ⟨[], reached⟩
    ∧ Consumed Tree.outline (fun _ => True) value credit reached mentions) (fun cursor _ => ?_)
    (fun _ _ _ _ holds => holds) ?_
  · split
    · refine ident fun name => map (last nonterminals.signature trivial (Nat.zero_le _) ?_)
      rintro shape reached _ ⟨gains, rfl, -⟩
      exact ⟨_, rfl, by omega, rfl, trivial⟩
    · refine map (last nonterminals.typeElem trivial enough ?_)
      rintro elem reached _ ⟨gains, rfl, -⟩
      exact ⟨_, rfl, gains, rfl, trivial⟩
  · rintro state final value _ mentions taken lexeme behind behind' other _
      ⟨reached, rfl, gains, -, -⟩ _ credited _ stateAhead _ _ otherAhead
    change reached ≤ credit + 8 * taken.length at credited
    have sameAfter : other.tokenAfter 1 = state.cursor.tokenAfter 1 :=
      Cursor.tokenAfter_congr stateAhead otherAhead (by omega)
    rw [Cursor.token_congr stateAhead otherAhead, sameAfter]

theorem interfaceType : ReadsTree machine Anywhere 0 Production.interfaceType := by
  intro frame credit _ _
  refine mark rfl rfl fun keyword _ => mark rfl rfl fun lBrace _ => ?_
  refine Reads.bind (itemsUntil (fun _ => withSemicolon nonterminals.interfaceElem)
    ⟨trivial, inBrackets_of_due _ _ _⟩ (by omega) (by omega)) ?_
  rintro elems _ _ ⟨rfl, rfl, -⟩
  refine mark rfl rfl fun rBrace _ => Reads.pure ⟨_, rfl, by omega, ?_, trivial⟩
  rw [← Tree.outline_ofList]
  rfl

/-! ## Types -/

theorem pointerType : ReadsTree machine Anywhere 0 Production.pointerType := by
  intro frame credit _ _
  refine mark rfl rfl fun star _ => map (last nonterminals.type trivial (by omega) ?_)
  rintro elem reached _ ⟨gains, rfl, -⟩
  exact ⟨_, rfl, by omega, rfl, trivial⟩

theorem parenType : ReadsTree machine Anywhere 0 Production.parenType := by
  intro frame credit _ _
  refine inHeader (mark rfl rfl fun lParen _ => ?_)
  refine phrase nonterminals.type trivial (by omega) ?_
  rintro inner reached _ ⟨gains, rfl, -⟩
  refine mark rfl rfl fun rParen _ => ?_
  exact Reads.pure ⟨_, rfl, by omega, rfl, trivial⟩

theorem typeFrom
    (token : Token)
    (production : Production P (TypeExpr P))
    (found : Production.typeFrom token = some production) :
    ReadsTree machine Anywhere 0 production := by
  unfold Production.typeFrom at found
  split at found
  all_goals cases found
  · intro frame credit _ _
    refine map (last nonterminals.typeName trivial (Nat.zero_le _) ?_)
    rintro name reached _ ⟨gains, rfl, -⟩
    exact ⟨_, rfl, gains, rfl, trivial⟩
  · exact nonterminals.pointerType
  · exact nonterminals.parenType
  · intro frame credit _ _
    refine map (last nonterminals.funcType trivial (Nat.zero_le _) ?_)
    rintro type reached _ ⟨gains, rfl, -⟩
    exact ⟨_, rfl, gains, rfl, trivial⟩
  · exact nonterminals.arrayOrSliceType
  · exact nonterminals.mapType
  · exact nonterminals.chanType
  · exact nonterminals.chanType
  · exact nonterminals.structType
  · exact nonterminals.interfaceType

theorem typeRule : ReadsPhrase machine Anywhere 1 Production.typeRule Possibly := by
  refine readsNested fun frame credit _ _ => ?_
  refine look (fun first second same _ => ?_) fun cursor _ => ?_
  · rw [same]
  · split
    · next production found =>
        refine map (last (nonterminals.typeFrom _ production found) trivial (Nat.zero_le _) ?_)
        rintro type reached _ ⟨gains, rfl, -⟩
        exact ⟨_, rfl, .inr ⟨type, rfl, gains, rfl⟩⟩
    · exact Reads.pure ⟨_, rfl, .inl ⟨rfl, rfl, rfl⟩⟩

end ReadsNonterminals
end GoFront
