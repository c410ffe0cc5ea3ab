import GoFront.Proofs.Thinning.Texts

/-!
# Readings of thinned texts

What a production reads without errors of a text, it reads of the thinned text, too, if the trees that it
yields spare what was left out. The rules of this module take that along the steps of a production. The
trees of earlier steps are remembered until they become parts of another one.
-/

namespace GoFront

open Production (Parses)

variable {P : Type} {α β : Type}

/-! ## Runs without errors -/

namespace CleanRun

variable {machine : Machine P} {limit allowance : Nat} {production : Production P α}
  {state final : ReadState P} {value : α} {token : Token} {taken text : List (Lexeme P)}

/-- What a run reads without errors is read. -/
theorem parses
    (cleanRun : CleanRun (ruleMachine limit allowance) production state value final taken) :
    Parses limit production state value final.cursor :=
  .of_run cleanRun.run cleanRun.clean

theorem isSuffix
    (cleanRun : CleanRun machine production state value final taken)
    (isSuffix : state.cursor.ahead <:+ text) :
    final.cursor.ahead <:+ text :=
  .trans ⟨taken, cleanRun.reaches.ahead.symm⟩ isSuffix

/-- Behind a mark that is read, its token comes next. -/
theorem token_of_mark
    {next : Mark P -> Production P α}
    (cleanRun : CleanRun (ruleMachine limit allowance) ((Production.mark token).bind next) state value
      final taken) :
    state.cursor.token = token := by
  obtain ⟨_, _, parses, -⟩ := Production.parses_bind.1 cleanRun.parses
  exact (Production.parses_mark.1 parses).1

end CleanRun

/-! ## Contracts -/

/-- What is claimed of a production: of which trees its value is made, where its runs should end, and how
what it reads of the thinned text agrees with its value. -/
structure Contract (P α : Type) where
  holds : Holding P α
  ends : α -> Cursor P -> Prop
  agrees : (value other : α) -> Cursor P -> Prop

namespace Contract

/-- The same is read of the thinned text if a run ends where it should. -/
def upTo (holds : Holding P α) (ends : α -> Cursor P -> Prop) : Contract P α :=
  ⟨holds, ends, fun value other _ => other = value⟩

/-- A run may end anywhere. -/
def Anywhere (_ : α) (_ : Cursor P) : Prop := True

/-- The same is read of the thinned text, wherever a run ends. -/
abbrev of (holds : Holding P α) : Contract P α := .upTo holds Anywhere

/-- Items end in front of a closing token. An item behind which another one may follow can be the last one
of the thinned text. -/
def item (closer : Token) (holds : Holding P α) : Contract P (α × Bool) where
  holds := .left holds
  ends _ cursor := cursor.token.isPause = true -> cursor.token = closer
  agrees value other cursor :=
    other.1 = value.1 ∧ (other.2 = value.2 ∨ value.2 = true ∧ other.2 = false ∧ cursor.token = closer)

end Contract

/-- There are no trees that a value is made of. -/
@[simp] def NoParts (_ : PhraseProperty P) : Prop := True

/-- A production reads a text from a state on without errors. What it yields is attested if the given parts
are. If it spares what was left out, so do the parts, and another production reads what agrees with it of
the thinned text, as long as the run ends where it should. -/
structure ThinsFrom
    (thinning : Thinning P)
    (allowance : Nat)
    (parts : PhraseProperty P -> Prop)
    (production other : Production P α)
    (contract : Contract P α)
    (state : ReadState P) : Prop where
  of_run : ∀ {value : α} {final : ReadState P} {taken : List (Lexeme P)},
    state.cursor.ahead <:+ thinning.text ->
    CleanRun (ruleMachine thinning.limit allowance) production state value final taken ->
    parts thinning.attested ->
      contract.holds thinning.attested value
        ∧ (contract.holds thinning.Spares value -> contract.ends value final.cursor ->
          parts thinning.Spares
            ∧ ∀ thinned, thinning.Thinner state thinned ->
              ∃ result last, Parses thinning.limit other thinned result last
                ∧ contract.agrees value result final.cursor
                ∧ thinning.Thinner final (thinned.moveTo last))

/-- A production reads the thinned text as it reads the text, from any state on. -/
def Thins
    (thinning : Thinning P)
    (allowance : Nat)
    (parts : PhraseProperty P -> Prop)
    (production : Production P α)
    (contract : Contract P α) : Prop :=
  ∀ state, ThinsFrom thinning allowance parts production production contract state

variable {thinning : Thinning P} {allowance : Nat} {parts firstParts restParts : PhraseProperty P -> Prop}
  {production other : Production P α} {holds : Holding P α} {contract : Contract P α}
  {following : Contract P β} {ends : α -> Cursor P -> Prop} {state : ReadState P} {token : Token}

/-! ## Steps -/

namespace ThinsFrom

theorem of_thins (thins : Thins thinning allowance parts production contract) :
    ThinsFrom thinning allowance parts production production contract state :=
  thins state

/-- A value is yielded that is made of the parts. -/
theorem done
    {value : α}
    (attests : parts thinning.attested -> holds thinning.attested value)
    (spares : holds thinning.Spares value -> ends value state.cursor -> parts thinning.Spares) :
    ThinsFrom thinning allowance parts (.pure value) (.pure value) (.upTo holds ends) state := by
  constructor
  intro result final taken isSuffix cleanRun attested
  obtain ⟨rfl, rfl⟩ := Outcome.done.inj cleanRun.run
  exact ⟨attests attested, fun spared isEnd => ⟨spares spared isEnd, fun thinned thinner =>
    ⟨_, thinned.cursor, Production.parses_pure.2 ⟨rfl, rfl⟩, rfl, thinner⟩⟩⟩

theorem pure
    {value : α}
    (same : ∀ property, holds property value ↔ parts property) :
    ThinsFrom thinning allowance parts (.pure value) (.pure value) (.upTo holds ends) state :=
  .done (same _).2 fun spared _ => (same _).1 spared

/-- A tree is yielded whose parts are the parts. -/
theorem node
    {slot : Slot}
    {tree : Tree P slot}
    {ends : Tree P slot -> Cursor P -> Prop}
    (ordinary : tree.isTelling = false)
    (same : ∀ property, (tree.children.Forall fun part => part.2.Everywhere property)
      ↔ parts property) :
    ThinsFrom thinning allowance parts (.pure tree) (.pure tree) (.upTo .tree ends) state :=
  .pure fun property => (Tree.everywhere_iff ordinary).trans (same property)

theorem refuse {cause : SyntaxCause} :
    ThinsFrom thinning allowance parts (.refuse cause) other contract state := by
  constructor
  intro _ _ _ _ cleanRun
  cases cleanRun.run

/-- A run does not end where a value is yielded. -/
theorem of_not_ends
    {value : α}
    {instead : Production P α}
    (attests : parts thinning.attested -> holds thinning.attested value)
    (fails : ¬ ends value state.cursor) :
    ThinsFrom thinning allowance parts (.pure value) instead (.upTo holds ends) state := by
  constructor
  intro result final taken _ cleanRun attested
  obtain ⟨rfl, rfl⟩ := Outcome.done.inj cleanRun.run
  exact ⟨attests attested, fun _ isEnd => absurd isEnd fails⟩

/-- A production that cannot be read without errors needs no attention. -/
theorem of_not_parses
    (fails : state.cursor.ahead <:+ thinning.text ->
      ∀ value final, ¬ Parses thinning.limit production state value final) :
    ThinsFrom thinning allowance parts production other contract state :=
  ⟨fun isSuffix cleanRun => absurd cleanRun.parses (fails isSuffix _ _)⟩

/-- Whatever is read of the thinned text if what is yielded spares nothing that was left out. -/
theorem of_not_spared
    {instead : Production P α}
    (thins : ThinsFrom thinning allowance parts production other contract state)
    (unspared : state.cursor.ahead <:+ thinning.text -> ∀ {value final taken},
      CleanRun (ruleMachine thinning.limit allowance) production state value final taken ->
        contract.ends value final.cursor -> ¬ contract.holds thinning.Spares value) :
    ThinsFrom thinning allowance parts production instead contract state := by
  constructor
  intro value final taken isSuffix cleanRun attested
  refine ⟨(thins.of_run isSuffix cleanRun attested).1, fun spared isEnd => ?_⟩
  exact absurd spared (unspared isSuffix cleanRun isEnd)

/-- The parts can be told in another way. -/
theorem of_parts
    (same : ∀ property, parts property ↔ firstParts property)
    (thins : ThinsFrom thinning allowance firstParts production other contract state) :
    ThinsFrom thinning allowance parts production other contract state := by
  constructor
  intro value final taken isSuffix cleanRun attested
  obtain ⟨attested, reads⟩ := thins.of_run isSuffix cleanRun ((same _).1 attested)
  refine ⟨attested, fun spared isEnd => ?_⟩
  exact ⟨(same _).2 (reads spared isEnd).1, (reads spared isEnd).2⟩

theorem anywhere
    (thins : ThinsFrom thinning allowance parts production other (.of holds) state) :
    ThinsFrom thinning allowance parts production other (.upTo holds ends) state := by
  constructor
  intro value final taken isSuffix cleanRun attested
  obtain ⟨attested, reads⟩ := thins.of_run isSuffix cleanRun attested
  exact ⟨attested, fun spared _ => reads spared trivial⟩

/-- One phrase is read behind another one, which ends where it should because of what is read behind it.
Some of the parts are those of the first phrase. -/
theorem bind_parts
    {next next' : α -> Production P β}
    (first : ThinsFrom thinning allowance firstParts production other (.upTo holds ends) state)
    (fits : ∀ {value middle result final taken}, middle.cursor.ahead <:+ thinning.text ->
      CleanRun (ruleMachine thinning.limit allowance) (next value) middle result final taken ->
        following.holds thinning.Spares result -> following.ends result final.cursor ->
          ends value middle.cursor)
    (rest : ∀ value middle, ThinsFrom thinning allowance
      (fun property => restParts property ∧ holds property value) (next value) (next' value) following
        middle) :
    ThinsFrom thinning allowance (fun property => restParts property ∧ firstParts property)
      (production.bind next) (other.bind next') following state := by
  constructor
  intro result final taken isSuffix cleanRun attested
  obtain ⟨value, middle, _, _, rfl, firstRun, restRun⟩ := cleanRun.exists_of_bind
  have middleSuffix := firstRun.isSuffix isSuffix
  obtain ⟨firstAttested, firstReads⟩ := first.of_run isSuffix firstRun attested.2
  obtain ⟨restAttested, restReads⟩ :=
    (rest value middle).of_run middleSuffix restRun ⟨attested.1, firstAttested⟩
  refine ⟨restAttested, fun spared isEnd => ?_⟩
  obtain ⟨⟨restSpared, valueSpared⟩, restReads⟩ := restReads spared isEnd
  obtain ⟨firstSpared, firstReads⟩ :=
    firstReads valueSpared (fits middleSuffix restRun spared isEnd)
  refine ⟨⟨restSpared, firstSpared⟩, fun thinned thinner => ?_⟩
  obtain ⟨_, between, firstParses, rfl, middleThinner⟩ := firstReads thinned thinner
  obtain ⟨result', last, restParses, agrees, finalThinner⟩ := restReads _ middleThinner
  exact ⟨result', last, Production.parses_bind.2 ⟨_, between, firstParses, restParses⟩, agrees,
    finalThinner⟩

/-- The first phrase ends where it should because of what is read behind it. -/
theorem bind_to
    {next next' : α -> Production P β}
    (first : ThinsFrom thinning allowance NoParts production other (.upTo holds ends) state)
    (fits : ∀ {value middle result final taken}, middle.cursor.ahead <:+ thinning.text ->
      CleanRun (ruleMachine thinning.limit allowance) (next value) middle result final taken ->
        following.holds thinning.Spares result -> following.ends result final.cursor ->
          ends value middle.cursor)
    (rest : ∀ value middle, ThinsFrom thinning allowance
      (fun property => parts property ∧ holds property value) (next value) (next' value) following
        middle) :
    ThinsFrom thinning allowance parts (production.bind next) (other.bind next') following state :=
  .of_parts (fun _ => (and_iff_left trivial).symm) (first.bind_parts fits rest)

theorem bind
    {next next' : α -> Production P β}
    (first : ThinsFrom thinning allowance NoParts production other (.of holds) state)
    (rest : ∀ value middle, ThinsFrom thinning allowance
      (fun property => parts property ∧ holds property value) (next value) (next' value) following
        middle) :
    ThinsFrom thinning allowance parts (production.bind next) (other.bind next') following state :=
  first.bind_to (fun _ _ _ _ => trivial) rest

/-- All parts are those of the first phrase. -/
theorem bind_all_to
    {next next' : α -> Production P β}
    (first : ThinsFrom thinning allowance parts production other (.upTo holds ends) state)
    (fits : ∀ {value middle result final taken}, middle.cursor.ahead <:+ thinning.text ->
      CleanRun (ruleMachine thinning.limit allowance) (next value) middle result final taken ->
        following.holds thinning.Spares result -> following.ends result final.cursor ->
          ends value middle.cursor)
    (rest : ∀ value middle, ThinsFrom thinning allowance (fun property => holds property value)
      (next value) (next' value) following middle) :
    ThinsFrom thinning allowance parts (production.bind next) (other.bind next') following state := by
  refine .of_parts (fun _ => (and_iff_right trivial).symm)
    (first.bind_parts fits fun value middle => ?_)
  exact .of_parts (fun _ => and_iff_right trivial) (rest value middle)

theorem bind_all
    {next next' : α -> Production P β}
    (first : ThinsFrom thinning allowance parts production other (.of holds) state)
    (rest : ∀ value middle, ThinsFrom thinning allowance (fun property => holds property value)
      (next value) (next' value) following middle) :
    ThinsFrom thinning allowance parts (production.bind next) (other.bind next') following state :=
  first.bind_all_to (fun _ _ _ _ => trivial) rest

/-- A first step that yields no trees. -/
theorem skip
    {next next' : α -> Production P β}
    (first : ThinsFrom thinning allowance NoParts production other (.of .nothing) state)
    (rest : ∀ value middle,
      ThinsFrom thinning allowance parts (next value) (next' value) following middle) :
    ThinsFrom thinning allowance parts (production.bind next) (other.bind next') following state := by
  refine first.bind ?_
  intro value middle
  exact .of_parts (fun _ => and_iff_left trivial) (rest value middle)

/-- A value that was yielded before is used. -/
theorem pure_bind
    {value : α}
    {next next' : α -> Production P β}
    (rest : ThinsFrom thinning allowance parts (next value) (next' value) following state) :
    ThinsFrom thinning allowance parts ((Production.pure value).bind next)
      ((Production.pure value).bind next') following state := by
  constructor
  intro result final taken isSuffix cleanRun attested
  obtain ⟨attested, reads⟩ := rest.of_run isSuffix
    ⟨cleanRun.regular, cleanRun.run, cleanRun.reaches, cleanRun.clean⟩ attested
  refine ⟨attested, fun spared isEnd => ⟨(reads spared isEnd).1, fun thinned thinner => ?_⟩⟩
  obtain ⟨result', last, parses, agrees, finalThinner⟩ := (reads spared isEnd).2 thinned thinner
  exact ⟨result', last, Production.parses_bind.2
    ⟨value, _, Production.parses_pure.2 ⟨rfl, rfl⟩, parses⟩, agrees, finalThinner⟩

theorem look
    {next next' : Cursor P -> Production P β}
    (rest : ∀ thinned, thinning.Thinner state thinned ->
      ThinsFrom thinning allowance parts (next state.cursor) (next' thinned.cursor) following state) :
    ThinsFrom thinning allowance parts (Production.look.bind next) (Production.look.bind next') following
      state := by
  constructor
  intro result final taken isSuffix cleanRun attested
  have restRun : CleanRun (ruleMachine thinning.limit allowance) (next state.cursor) state result final
      taken := ⟨cleanRun.regular, cleanRun.run, cleanRun.reaches, cleanRun.clean⟩
  have reads (thinned : ReadState P) (thinner : thinning.Thinner state thinned) :=
    (rest thinned thinner).of_run isSuffix restRun attested
  obtain ⟨some, someThinner⟩ := thinning.exists_thinner isSuffix
  obtain ⟨attested, someReads⟩ := reads some someThinner
  refine ⟨attested, fun spared isEnd => ⟨(someReads spared isEnd).1, fun thinned thinner => ?_⟩⟩
  obtain ⟨result', last, parses, found⟩ := ((reads thinned thinner).2 spared isEnd).2 thinned thinner
  exact ⟨result', last, Production.parses_bind_look.2 parses, found⟩

/-- What is read after a look ahead is read from the same state. -/
theorem of_look
    {next : Cursor P -> Production P α}
    (rest : ThinsFrom thinning allowance parts (next state.cursor) other contract state) :
    ThinsFrom thinning allowance parts (Production.look.bind next) other contract state :=
  ⟨fun isSuffix cleanRun => rest.of_run isSuffix
    ⟨cleanRun.regular, cleanRun.run, cleanRun.reaches, cleanRun.clean⟩⟩

theorem choice
    {condition condition' : Prop}
    [Decidable condition]
    [Decidable condition']
    {yes yes' no no' : Production P α}
    (same : condition' ↔ condition)
    (whenTrue : condition -> ThinsFrom thinning allowance parts yes yes' contract state)
    (whenFalse : ¬condition -> ThinsFrom thinning allowance parts no no' contract state) :
    ThinsFrom thinning allowance parts (if condition then yes else no) (if condition' then yes' else no')
      contract state := by
  by_cases isTrue : condition
  · rw [if_pos isTrue, if_pos (same.2 isTrue)]
    exact whenTrue isTrue
  · rw [if_neg isTrue, if_neg (isTrue ∘ same.1)]
    exact whenFalse isTrue

/-- Whether a token comes next that is no pause. -/
theorem look_token
    {yes yes' no no' : Cursor P -> Production P β}
    (noPause : token.isPause = false)
    (whenTrue : ∀ thinned, thinning.Thinner state thinned -> state.cursor.token = token ->
      ThinsFrom thinning allowance parts (yes state.cursor) (yes' thinned.cursor) following state)
    (whenFalse : ∀ thinned, thinning.Thinner state thinned -> state.cursor.token ≠ token ->
      ThinsFrom thinning allowance parts (no state.cursor) (no' thinned.cursor) following state) :
    ThinsFrom thinning allowance parts
      (Production.look.bind fun cursor => if cursor.token = token then yes cursor else no cursor)
      (Production.look.bind fun cursor => if cursor.token = token then yes' cursor else no' cursor)
      following state :=
  look fun thinned thinner => choice (thinner.token_eq_iff noPause) (whenTrue thinned thinner)
    (whenFalse thinned thinner)

theorem header
    {next next' : Bool -> Production P β}
    (rest : ∀ inside,
      ThinsFrom thinning allowance parts (next inside) (next' inside) following state) :
    ThinsFrom thinning allowance parts (Production.header.bind next) (Production.header.bind next')
      following state := by
  constructor
  intro result final taken isSuffix cleanRun attested
  obtain ⟨attested, reads⟩ := (rest state.inHeader).of_run isSuffix
    ⟨cleanRun.regular, cleanRun.run, cleanRun.reaches, cleanRun.clean⟩ attested
  refine ⟨attested, fun spared isEnd => ⟨(reads spared isEnd).1, fun thinned thinner => ?_⟩⟩
  obtain ⟨result', last, parses, found⟩ := (reads spared isEnd).2 thinned thinner
  rw [← thinner.inHeader] at parses
  exact ⟨result', last, Production.parses_bind.2
    ⟨_, _, Production.parses_header.2 ⟨rfl, rfl⟩, parses⟩, found⟩

theorem advance
    (notAtEnd : state.cursor.token ≠ .eof)
    (notSeparator : state.cursor.token.isSeparator = false) :
    ThinsFrom thinning allowance NoParts Production.advance Production.advance (.of .nothing)
      state := by
  constructor
  intro lexeme final taken _ cleanRun _
  obtain ⟨rfl, rfl⟩ := Outcome.done.inj cleanRun.run
  refine ⟨trivial, fun _ _ => ⟨trivial, fun thinned thinner => ?_⟩⟩
  obtain ⟨same, behind⟩ := thinner.advance notAtEnd notSeparator
  exact ⟨_, _, Production.parses_advance.2 ⟨same.symm, rfl⟩, rfl, behind⟩

end ThinsFrom

namespace Thins

theorem pure
    {value : α}
    (same : ∀ property, holds property value ↔ parts property) :
    Thins thinning allowance parts (.pure value) (.upTo holds ends) :=
  fun _ => .pure same

theorem node
    {slot : Slot}
    {tree : Tree P slot}
    {ends : Tree P slot -> Cursor P -> Prop}
    (ordinary : tree.isTelling = false)
    (same : ∀ property, (tree.children.Forall fun part => part.2.Everywhere property)
      ↔ parts property) :
    Thins thinning allowance parts (.pure tree) (.upTo .tree ends) :=
  fun _ => .node ordinary same

theorem refuse {cause : SyntaxCause} :
    Thins thinning allowance parts (.refuse cause) contract :=
  fun _ => .refuse

theorem of_parts
    (same : ∀ property, parts property ↔ firstParts property)
    (thins : Thins thinning allowance firstParts production contract) :
    Thins thinning allowance parts production contract :=
  fun state => (thins state).of_parts same

/-- A phrase is yielded if its parts fit. -/
theorem build
    {result : Except InvalidNode α}
    (same : ∀ value, result = .ok value -> ∀ property, holds property value ↔ parts property) :
    Thins thinning allowance parts (Production.build result) (.upTo holds ends) := by
  cases result with
  | ok value => exact .pure (same value rfl)
  | error reason => exact .refuse

theorem bind
    {next : α -> Production P β}
    (first : Thins thinning allowance NoParts production (.of holds))
    (rest : ∀ value, Thins thinning allowance
      (fun property => parts property ∧ holds property value) (next value) following) :
    Thins thinning allowance parts (production.bind next) following := by
  intro state
  exact (first state).bind fun value => rest value

theorem anywhere (thins : Thins thinning allowance parts production (.of holds)) :
    Thins thinning allowance parts production (.upTo holds ends) :=
  fun state => (thins state).anywhere

/-- Some of the parts are those of the first phrase. -/
theorem bind_parts
    {next : α -> Production P β}
    (first : Thins thinning allowance firstParts production (.of holds))
    (rest : ∀ value, Thins thinning allowance
      (fun property => restParts property ∧ holds property value) (next value) following) :
    Thins thinning allowance (fun property => restParts property ∧ firstParts property)
      (production.bind next) following := by
  intro state
  refine (first state).bind_parts (fun _ _ _ _ => trivial) ?_
  intro value
  exact rest value

/-- Another value is made of what is read, which ends in the same place. -/
theorem map
    {change : α -> β}
    {holdsNext : Holding P β}
    {between : Cursor P -> Prop}
    (reads : Thins thinning allowance parts production (.upTo holds fun _ => between))
    (same : ∀ property value, holdsNext property (change value) ↔ holds property value) :
    Thins thinning allowance parts (production.bind fun value => .pure (change value))
      (.upTo holdsNext fun _ => between) := by
  refine fun state => (reads state).bind_all_to (fun _ run _ isEnd => ?_) fun value _ => .pure (same · value)
  obtain ⟨rfl, rfl⟩ := Outcome.done.inj run.run
  exact isEnd

theorem bind_all
    {next : α -> Production P β}
    (first : Thins thinning allowance parts production (.of holds))
    (rest : ∀ value, Thins thinning allowance (fun property => holds property value) (next value)
      following) :
    Thins thinning allowance parts (production.bind next) following := by
  intro state
  exact (first state).bind_all fun value => rest value

/-- What is read is a value that may be missing. -/
theorem some_map (reads : Thins thinning allowance parts production (.of holds)) :
    Thins thinning allowance parts (some <$> production) (.of (.option holds)) := by
  refine .bind_all reads ?_
  intro _
  exact .pure fun _ => by simp

theorem skip
    {next : α -> Production P β}
    (first : Thins thinning allowance NoParts production (.of .nothing))
    (rest : ∀ value, Thins thinning allowance parts (next value) following) :
    Thins thinning allowance parts (production.bind next) following := by
  intro state
  exact (first state).skip fun value => rest value

theorem pure_bind
    {value : α}
    {next : α -> Production P β}
    (rest : Thins thinning allowance parts (next value) following) :
    Thins thinning allowance parts ((Production.pure value).bind next) following :=
  fun state => .pure_bind (rest state)

/-- Whether a token comes next that is no pause. -/
theorem look_token
    {yes no : Production P β}
    (noPause : token.isPause = false)
    (whenTrue : Thins thinning allowance parts yes following)
    (whenFalse : Thins thinning allowance parts no following) :
    Thins thinning allowance parts
      (Production.look.bind fun cursor => if cursor.token = token then yes else no) following := by
  intro state
  refine .look_token noPause (fun _ _ _ => whenTrue state) ?_
  intro _ _ _
  exact whenFalse state

theorem nested (inner : Thins thinning allowance parts production contract) :
    Thins thinning allowance parts (.nested production) contract := by
  intro state
  constructor
  intro value final taken isSuffix cleanRun attested
  obtain ⟨room, innerRun⟩ := cleanRun.of_nested
  obtain ⟨attested, reads⟩ :=
    (inner { state with depth := state.depth + 1 }).of_run isSuffix innerRun attested
  refine ⟨attested, fun spared isEnd => ?_⟩
  obtain ⟨partsSpared, reads⟩ := reads spared isEnd
  refine ⟨partsSpared, fun thinned thinner => ?_⟩
  obtain ⟨result, last, parses, agrees, behind⟩ := reads _ thinner.deeper
  have thinnedRoom : thinned.depth < thinning.limit := thinner.depth ▸ Nat.not_le.1 room
  refine ⟨result, last, Production.parses_nested.2 ⟨thinnedRoom, parses⟩, agrees, behind.isSuffix,
    behind.ahead, ?_, behind.inHeader⟩
  exact Nat.succ.inj behind.depth

theorem inHeader
    {inside : Bool}
    (inner : Thins thinning allowance parts production contract) :
    Thins thinning allowance parts (.inHeader inside production) contract := by
  intro state
  constructor
  intro value final taken isSuffix cleanRun attested
  obtain ⟨attested, reads⟩ :=
    (inner { state with inHeader := inside }).of_run isSuffix cleanRun.of_inHeader attested
  refine ⟨attested, fun spared isEnd => ?_⟩
  obtain ⟨partsSpared, reads⟩ := reads spared isEnd
  refine ⟨partsSpared, fun thinned thinner => ?_⟩
  obtain ⟨result, last, parses, agrees, behind⟩ := reads _ (thinner.place inside)
  refine ⟨result, last, Production.parses_inHeader.2 parses, agrees, behind.isSuffix, behind.ahead,
    behind.depth, ?_⟩
  exact thinner.inHeader.trans cleanRun.reaches.inHeader.symm

/-- A nonterminal is read by its rule. -/
theorem call
    {nonterminal : Nonterminal}
    {contract : Contract P (nonterminal.Result P)}
    (rule : Thins thinning allowance parts nonterminal.rule contract) :
    Thins thinning (allowance + 1) parts (.call nonterminal) contract := by
  intro state
  constructor
  intro value final taken isSuffix cleanRun attested
  obtain ⟨attested, reads⟩ := (rule state).of_run isSuffix
    ⟨cleanRun.regular, cleanRun.run, cleanRun.reaches, cleanRun.clean⟩ attested
  refine ⟨attested, fun spared isEnd => ⟨(reads spared isEnd).1, fun thinned thinner => ?_⟩⟩
  obtain ⟨result, last, parses, found⟩ := (reads spared isEnd).2 thinned thinner
  exact ⟨result, last, Production.parses_call.2 parses, found⟩

/-- Nothing is read on no allowance. -/
theorem call_zero
    {nonterminal : Nonterminal}
    {contract : Contract P (nonterminal.Result P)} :
    Thins thinning 0 parts (.call nonterminal) contract := by
  intro state
  constructor
  intro value final taken isSuffix cleanRun
  cases cleanRun.run

/-! ## Tokens -/

theorem expect
    (notSeparator : token.isSeparator = false)
    (notAtEnd : token ≠ .eof) :
    Thins thinning allowance NoParts (Production.expect token) (.of .nothing) := by
  intro state
  by_cases atToken : state.cursor.token = token
  · refine .look fun thinned thinner => .choice ?_ (fun _ => ?_) fun notToken => absurd atToken notToken
    · rw [thinner.token_eq (atToken ▸ notSeparator)]
    · exact .advance (atToken ▸ notAtEnd) (atToken ▸ notSeparator)
  · refine .of_not_parses fun _ value final parses => ?_
    exact atToken (Production.parses_expect.1 parses).1

theorem mark
    (notSeparator : token.isSeparator = false)
    (notAtEnd : token ≠ .eof) :
    Thins thinning allowance NoParts (Production.mark token) (.of .nothing) := by
  refine .skip (.expect notSeparator notAtEnd) ?_
  intro _
  exact .pure fun _ => .rfl

theorem ident : Thins thinning allowance NoParts Production.ident (.of .nothing) := by
  refine .skip (.expect rfl (by decide)) ?_
  intro _
  exact .pure fun _ => .rfl

theorem eat?
    (noPause : token.isPause = false)
    (notAtEnd : token ≠ .eof) :
    Thins thinning allowance NoParts (Production.eat? token) (.of .nothing) := by
  intro state
  refine .look_token noPause (fun _ _ atToken => ?_) fun _ _ _ => .pure fun _ => .rfl
  have notSeparator := Token.isSeparator_of_not_isPause noPause
  exact .skip (.advance (atToken ▸ notAtEnd) (atToken ▸ notSeparator)) fun _ _ => .pure fun _ => .rfl

theorem mark?
    (noPause : token.isPause = false)
    (notAtEnd : token ≠ .eof) :
    Thins thinning allowance NoParts (Production.mark? token) (.of .nothing) := by
  refine .skip (.eat? noPause notAtEnd) ?_
  intro _
  exact .pure fun _ => .rfl

theorem ident? : Thins thinning allowance NoParts Production.ident? (.of .nothing) := by
  refine .skip (.eat? rfl (by decide)) ?_
  intro _
  exact .pure fun _ => .rfl

end Thins

/-- An operator is read that is no separator. -/
theorem ThinsFrom.anyMark
    (notAtEnd : state.cursor.token ≠ .eof)
    (notSeparator : state.cursor.token.isSeparator = false) :
    ThinsFrom thinning allowance NoParts Production.anyMark Production.anyMark (.of .nothing)
      state := by
  refine .skip (.advance notAtEnd notSeparator) ?_
  intro _ _
  exact .pure fun _ => .rfl

/-! ## Choices at separators -/

namespace ThinsFrom

/-- Where something else must begin, a separator cannot come next. -/
theorem of_begins
    {instead : Production P α}
    (begins : Begins thinning.limit production)
    (isPause : state.cursor.token.isPause = true) :
    ThinsFrom thinning allowance parts production instead contract state := by
  refine .of_not_parses fun _ value final parses => ?_
  exact Bool.false_ne_true ((begins parses).symm.trans isPause)

/-- The same token comes next in both, or a separator that may have been left out. -/
theorem look_cases
    {next next' : Cursor P -> Production P β}
    (same : ∀ thinned, thinning.Thinner state thinned -> thinned.cursor.token = state.cursor.token ->
      ThinsFrom thinning allowance parts (next state.cursor) (next' thinned.cursor) following state)
    (separator : ∀ thinned : ReadState P, state.cursor.token.isSeparator = true ->
      thinned.cursor.token.isCloser = true ->
        ThinsFrom thinning allowance parts (next state.cursor) (next' thinned.cursor) following
          state) :
    ThinsFrom thinning allowance parts (Production.look.bind next) (Production.look.bind next') following
      state := by
  refine .look fun thinned thinner => ?_
  rcases thinner.tokens with isSame | isOptional
  · exact same thinned thinner isSame
  · exact separator thinned (Token.isSeparator_of_isOptionalBefore isOptional)
      (Token.isCloser_of_isOptionalBefore isOptional)

/-- A closing bracket is read if it comes next, and otherwise something else must begin. -/
theorem mark?_closer
    {next : Option (Mark P) -> Production P β}
    (isCloser : token.isCloser = true)
    (rest : ∀ found, Thins thinning allowance parts (next found) following)
    (begins : Begins thinning.limit (next none)) :
    ThinsFrom thinning allowance parts ((Production.mark? token).bind next)
      ((Production.mark? token).bind next) following state := by
  by_cases isSeparator : state.cursor.token.isSeparator = true
  · refine .of_not_parses fun _ value final parses => ?_
    obtain ⟨found, middle, first, parses⟩ := Production.parses_bind.1 parses
    rw [Production.parses_mark?, if_neg] at first
    · obtain ⟨rfl, rfl⟩ := first
      have isPause := Token.isPause_of_isSeparator isSeparator
      exact Bool.false_ne_true ((begins parses).symm.trans isPause)
    · rintro rfl
      exact Bool.false_ne_true ((Token.isSeparator_of_isCloser isCloser).symm.trans isSeparator)
  · have notSeparator : state.cursor.token.isSeparator = false := Bool.eq_false_iff.2 isSeparator
    refine .skip ?_ fun found middle => rest found middle
    refine .skip (.look fun thinned thinner => .choice ?_ (fun atCloser => ?_) fun _ => ?_) fun _ _ =>
      .pure fun _ => .rfl
    · rw [thinner.token_eq notSeparator]
    · have notAtEnd : state.cursor.token ≠ .eof := by
        rintro atEnd
        rw [← atCloser, atEnd] at isCloser
        cases isCloser
      exact .skip (.advance notAtEnd notSeparator) fun _ _ => .pure fun _ => .rfl
    · exact .pure fun _ => .rfl

/-- What is read after a look ahead decides how the thinned text looks there. -/
theorem look_into
    {next next' : Cursor P -> Production P α}
    (body : Production P α)
    (reads : ThinsFrom thinning allowance parts (next state.cursor) body (.upTo holds ends) state)
    (same : ∀ {thinned value final last}, thinning.Thinner state thinned ->
      Parses thinning.limit (next state.cursor) state value final -> ends value final ->
      Parses thinning.limit body thinned value last ->
      thinning.Thinner (state.moveTo final) (thinned.moveTo last) -> next' thinned.cursor = body) :
    ThinsFrom thinning allowance parts (Production.look.bind next) (Production.look.bind next')
      (.upTo holds ends) state := by
  constructor
  intro value final taken isSuffix cleanRun attested
  have nextRun : CleanRun (ruleMachine thinning.limit allowance) (next state.cursor) state value final
      taken := ⟨cleanRun.regular, cleanRun.run, cleanRun.reaches, cleanRun.clean⟩
  obtain ⟨attested, reads⟩ := reads.of_run isSuffix nextRun attested
  refine ⟨attested, fun spared isEnd => ⟨(reads spared isEnd).1, fun thinned thinner => ?_⟩⟩
  obtain ⟨_, last, parses, rfl, behind⟩ := (reads spared isEnd).2 thinned thinner
  refine ⟨_, last, Production.parses_bind_look.2 ?_, rfl, behind⟩
  have finalEq : final = state.moveTo final.cursor := nextRun.reaches.eq_moveTo nextRun.clean
  rwa [same thinner nextRun.parses isEnd parses (finalEq ▸ behind)]

end ThinsFrom
end GoFront
