import GoFront.Proofs.Copies.Runs
import GoFront.Proofs.Reading.Terminators

/-!
# Types in copies

The productions that read terminals, lists, types and signatures repeat on a copy what they do on the text.
-/

namespace GoFront

/-! ## What is refused -/

/-- What begins with a parenthesis is refused. -/
def RefusesParen {P α : Type} (machine : Machine P) (production : Production P α) : Prop :=
  ∀ state value final, state.cursor.token = .lParen -> machine.run production state ≠ .done value final

namespace RefusesParen

variable {P : Type} {α β : Type} {machine : Machine P} {production : Production P α}

theorem bind
    {next : α -> Production P β}
    (refuses : RefusesParen machine production) :
    RefusesParen machine (production.bind next) := by
  intro state value final isParen run
  obtain ⟨_, _, first, -⟩ := Reads.run_bind_done run
  exact refuses _ _ _ isParen first

theorem ident : RefusesParen machine Production.ident := by
  intro state value final isParen run
  obtain ⟨_, _, first, -⟩ := Reads.run_bind_done run
  replace first := Reads.run_look_done first
  rw [if_neg (isParen ▸ by decide)] at first
  cases first

theorem stringLit : RefusesParen machine Production.stringLit := by
  intro state value final isParen run
  replace run := Reads.run_look_done run
  rw [isParen] at run
  cases run

end RefusesParen

theorem Machine.run_eat?_bind
    {P α : Type}
    {machine : Machine P}
    {token : Token}
    {next : Option (Lexeme P) -> Production P α}
    (state : ReadState P) :
    machine.run ((Production.eat? token).bind next) state
      = if state.cursor.token = token then
          machine.run (next (some state.cursor.peek)) { state with cursor := state.cursor.advance }
        else machine.run (next none) state := by
  change (machine.run (if state.cursor.token = token then _ else _) state).bind _ = _
  split <;> rfl

namespace Copies

variable {P Q : Type} {α β γ δ : Type} {copier : Copier P Q} {head : Token} {copy : α -> β}

/-- What decides a production is the same for a copy. -/
theorem choice
    {condition condition' : Prop}
    [Decidable condition]
    [Decidable condition']
    {first second : Production P α}
    {first' second' : Production Q β}
    (same : condition' ↔ condition)
    (yes : Copies copier head copy first first')
    (no : Copies copier head copy second second') :
    Copies copier head copy (if condition then first else second)
      (if condition' then first' else second') := by
  simp only [same]
  split
  · exact yes
  · exact no

/-! ## Terminals -/

theorem expect
    {token : Token}
    (notPoint : token ≠ .dot) :
    Copies copier head (Lexeme.map copier.place) (Production.expect token) (Production.expect token) := by
  refine lookToken fun cursor cursor' here there => ?_
  rw [here, there]
  split
  · next found => exact advance (found ▸ notPoint)
  · exact refuse _

theorem eat?
    {token : Token}
    (notPoint : token ≠ .dot) :
    Copies copier head (Option.map (Lexeme.map copier.place)) (Production.eat? token)
      (Production.eat? token) := by
  refine lookToken fun cursor cursor' here there => ?_
  rw [here, there]
  split
  · next found => exact (advance (found ▸ notPoint)).bind fun lexeme => pure rfl
  · exact pure rfl

theorem mark
    {token : Token}
    (notPoint : token ≠ .dot) :
    Copies copier head (Mark.map copier.place) (Production.mark token) (Production.mark token) :=
  (expect notPoint).bind fun _ => pure rfl

theorem mark?
    {token : Token}
    (notPoint : token ≠ .dot) :
    Copies copier head (Option.map (Mark.map copier.place)) (Production.mark? token)
      (Production.mark? token) := by
  refine (eat? notPoint).bind fun lexeme => pure ?_
  cases lexeme <;> rfl

theorem anyMark (notPoint : head ≠ .dot) :
    Copies copier head (Mark.map copier.place) Production.anyMark Production.anyMark :=
  (advance notPoint).bind fun _ => pure rfl

theorem ident :
    Copies copier head (Ident.map copier.place) Production.ident Production.ident :=
  (expect (by decide)).bind fun _ => pure rfl

theorem ident? :
    Copies copier head (Option.map (Ident.map copier.place)) Production.ident? Production.ident? := by
  refine (eat? (by decide)).bind fun lexeme => pure ?_
  cases lexeme <;> rfl

theorem semicolon :
    Copies copier head id Production.semicolon Production.semicolon := by
  refine look fun cursor here only => ?_
  rw [Copying.atAny_cursor only]
  split
  · exact pure rfl
  · exact (expect (by decide)).bind fun _ => pure rfl

theorem build
    {node : Except InvalidNode α}
    {node' : Except InvalidNode β}
    (same : node' = node.map copy) :
    Copies copier head copy (Production.build node) (Production.build node') := by
  subst same
  cases node with
  | ok node => exact pure rfl
  | error reason => exact refuse _

/-! ## Lists -/

theorem many
    (copy : α -> β)
    {step : Production P (Option α)}
    {step' : Production Q (Option β)}
    (item : ∀ {behind}, Copies copier behind (Option.map copy) step step') :
    Copies copier head (List.map copy) (Production.many step) (Production.many step') := by
  refine (iterate (List.map copy) rfl fun items => ?_).bind fun items => ?_
  · refine item.bind fun next => pure ?_
    cases next <;> rfl
  · exact pure List.map_reverse.symm

theorem commaSeparated
    {item : Production P α}
    {item' : Production Q β}
    (each : ∀ {behind}, Copies copier behind copy item item') :
    Copies copier head (List.map copy) (Production.commaSeparated item)
      (Production.commaSeparated item') := by
  refine each.bind fun first => ?_
  refine (many copy ?_).bind fun rest => pure rfl
  refine (eat? (by decide)).bind fun comma => ?_
  rw [Option.isSome_map]
  split
  · exact each.bind fun next => pure rfl
  · exact pure rfl

theorem commaTail
    {closer : Token}
    {item : Production P α}
    {item' : Production Q β}
    (each : ∀ {behind}, Copies copier behind copy item item') :
    Copies copier head (List.map copy) (Production.commaTail closer item)
      (Production.commaTail closer item') := by
  refine many copy ?_
  refine (eat? (by decide)).bind fun comma => lookToken fun cursor cursor' here there => ?_
  rw [Option.isSome_map, here, there]
  split
  · exact each.bind fun next => pure rfl
  · exact pure rfl

theorem itemsUntil
    (copy : α -> β)
    {closer : Token}
    {item : Bool -> Production P (α × Bool)}
    {item' : Bool -> Production Q (β × Bool)}
    (each : ∀ first {behind}, Copies copier behind (Prod.map copy id) (item first) (item' first)) :
    Copies copier head (List.map copy) (Production.itemsUntil closer item)
      (Production.itemsUntil closer item') := by
  refine (iterate (Prod.map (List.map copy) id) rfl ?_).bind fun items => ?_
  · rintro ⟨items, more⟩
    refine look fun cursor here only => ?_
    rw [Copying.atAny_cursor only]
    change Copies _ _ _ _ (if more && !cursor.atAny [closer, .eof] then _ else _)
    split
    · have sameEmpty : (items.map copy).isEmpty = items.isEmpty := List.isEmpty_map
      change Copies _ _ _ _ ((item' (items.map copy).isEmpty).bind _)
      rw [sameEmpty]
      exact (each items.isEmpty).bind fun next => pure rfl
    · exact pure rfl
  · exact pure List.map_reverse.symm

theorem withComma
    {item : Production P α}
    {item' : Production Q β}
    (each : Copies copier head copy item item') :
    Copies copier head (Prod.map copy id) (Production.withComma item) (Production.withComma item') := by
  refine each.bind fun value => (eat? (by decide)).bind fun comma => pure ?_
  cases comma <;> rfl

theorem withSemicolon
    {item : Production P α}
    {item' : Production Q β}
    (each : Copies copier head copy item item') :
    Copies copier head (Prod.map copy id) (Production.withSemicolon item)
      (Production.withSemicolon item') := by
  refine each.bind ?_
  intro _
  exact semicolon.bind fun _ => pure rfl

theorem resuming
    (copy : α -> β)
    {recovery : Recovery}
    {goesOn : Cursor P -> Bool}
    {goesOn' : Cursor Q -> Bool}
    {item : Production P α}
    {item' : Production Q β}
    (same : ∀ cursor, OnlyAsserted copier.asks cursor.ahead ->
      goesOn' (copier.cursor cursor) = goesOn cursor)
    (each : ∀ {behind}, Copies copier behind copy item item') :
    Copies copier head (List.map copy) (Production.resuming recovery goesOn item)
      (Production.resuming recovery goesOn' item') := by
  refine (iterate (List.map copy) rfl fun items => ?_).bind fun items => ?_
  · refine look fun cursor here only => ?_
    rw [same cursor only]
    split
    · refine (recovering each).bind fun next => pure ?_
      cases next <;> rfl
    · exact pure rfl
  · exact pure List.map_reverse.symm

/-! ## Types -/

theorem type? :
    Copies copier head (Option.map copier.tree) Production.type? Production.type? :=
  call .type

theorem type :
    Copies copier head copier.tree Production.type Production.type := by
  refine type?.bind fun type => ?_
  cases type with
  | some type => exact pure rfl
  | none =>
      refine lookToken fun cursor cursor' here there => ?_
      rw [here, there]
      exact refuse _

theorem expr :
    Copies copier head copier.tree Production.expr Production.expr :=
  call (.expr .or)

theorem identList :
    Copies copier head (List.map (Ident.map copier.place)) Production.identList Production.identList :=
  commaSeparated ident

theorem typeList :
    Copies copier head copier.tree Production.typeList Production.typeList := by
  refine (commaSeparated type).bind fun types => pure ?_
  rw [← Tree.copy_ofList]
  rfl

theorem stringLit :
    Copies copier head (BasicLit.map copier.place) Production.stringLit Production.stringLit := by
  refine lookToken fun cursor cursor' here there => ?_
  rw [here, there]
  cases head
  case stringLit => exact (advance (by decide)).bind fun lexeme => pure rfl
  case rawStringLit => exact (advance (by decide)).bind fun lexeme => pure rfl
  all_goals exact refuse _

theorem typeArgs :
    Copies copier head copier.tree Production.typeArgs Production.typeArgs := by
  refine inHeader ((mark (by decide)).bind fun lBrack => lookToken fun cursor cursor' here there => ?_)
  rw [here, there]
  split
  · exact refuse _
  · refine type.bind fun first => (commaTail type).bind fun rest => ?_
    refine (mark (by decide)).bind fun rBrack => pure ?_
    rw [← List.map_cons, ← Tree.copy_ofList]
    rfl

/-- A name and the type arguments behind it. -/
theorem nameArgs
    (package : Option (Ident P))
    (name : Ident P) :
    Copies copier head copier.tree
      (Production.look.bind fun cursor =>
        if cursor.token = .lBrack then
          Production.typeArgs.bind fun args => .pure (.typeName package name (.present args))
        else .pure (.typeName package name .absent))
      (Production.look.bind fun cursor =>
        if cursor.token = .lBrack then
          Production.typeArgs.bind fun args =>
            .pure (.typeName (package.map (Ident.map copier.place)) (name.map copier.place)
              (.present args))
        else .pure (.typeName (package.map (Ident.map copier.place)) (name.map copier.place)
          .absent)) := by
  refine lookToken fun cursor cursor' here there => ?_
  rw [here, there]
  split
  · exact typeArgs.bind fun args => pure rfl
  · exact pure rfl

/-- What goes on behind a point, and does not begin with a parenthesis, goes on in the copy. -/
theorem behindPoint
    {further : γ -> δ}
    {next : Production P γ}
    {next' : Production Q δ}
    {state : ReadState P}
    (only : OnlyAsserted copier.asks state.cursor.ahead)
    (refuses : RefusesParen copier.first next)
    (rest : ∀ {behind}, Copies copier behind further next next') :
    Outcome.Copied copier.toCopying further state
      (copier.first.run next { state with cursor := state.cursor.advance })
      (copier.second.run next'
        { copier.state state with cursor := (copier.state state).cursor.advance }) := by
  by_cases inside : copier.Faithful ∨ state.cursor.advance.token ≠ .lParen
  · have behindOnly : OnlyAsserted copier.asks state.cursor.advance.ahead :=
      inside.elim (fun faithful => faithful.onlyAsserted _) fun notParen =>
        Copying.onlyAsserted_advance only fun _ => notParen
    have copied := rest { state with cursor := state.cursor.advance } rfl behindOnly
    have sameAdvance : (copier.state state).cursor.advance = copier.cursor state.cursor.advance :=
      Copying.advance_cursor state.cursor
    rw [sameAdvance]
    exact copied
  · obtain ⟨unfaithful, isParen⟩ := not_or.1 inside
    exact .of_unclean unfaithful fun _ _ run => absurd run (refuses _ _ _ (not_not.1 isParen))

/-- A point is passed, or not, in front of what does not begin with a parenthesis. -/
theorem eatPoint_bind
    {further : γ -> δ}
    {next : Option (Lexeme P) -> Production P γ}
    {next' : Option (Lexeme Q) -> Production Q δ}
    (refuses : ∀ point, RefusesParen copier.first (next (some point)))
    (rest : ∀ point {behind}, Copies copier behind further (next point)
      (next' (point.map (Lexeme.map copier.place)))) :
    Copies copier head further ((Production.eat? .dot).bind next) ((Production.eat? .dot).bind next') := by
  intro state here only
  have there : (copier.state state).cursor.token = head := (Copying.token_cursor only).trans here
  rw [Machine.run_eat?_bind, Machine.run_eat?_bind, here, there]
  split
  · have samePeek : (copier.state state).cursor.peek = state.cursor.peek.map copier.place :=
      Copying.peek_cursor only
    rw [samePeek]
    exact behindPoint only (refuses _) (rest (some _))
  · exact rest none state here only

/-- A point is passed in front of what does not begin with a parenthesis. -/
theorem markPoint_bind
    {further : γ -> δ}
    {next : Mark P -> Production P γ}
    {next' : Mark Q -> Production Q δ}
    (refuses : ∀ point, RefusesParen copier.first (next point))
    (rest : ∀ point {behind}, Copies copier behind further (next point)
      (next' (point.map copier.place))) :
    Copies copier .dot further ((Production.mark .dot).bind next) ((Production.mark .dot).bind next') := by
  intro state here only
  have there : (copier.state state).cursor.token = .dot := (Copying.token_cursor only).trans here
  have samePos : (copier.state state).cursor.pos = copier.place state.cursor.pos :=
    Copying.pos_cursor only
  change Outcome.Copied _ _ _ ((copier.first.run (Production.mark .dot) state).bind fun point =>
      copier.first.run (next point))
    ((copier.second.run (Production.mark .dot) (copier.state state)).bind fun point =>
      copier.second.run (next' point))
  rw [Machine.run_mark, Machine.run_mark, if_pos here, if_pos there, samePos]
  exact behindPoint only (refuses _) (rest _)

theorem typeName :
    Copies copier head copier.tree Production.typeName Production.typeName := by
  refine ident.bind ?_
  intro first _
  refine eatPoint_bind ?_ ?_
  · intro point
    change RefusesParen _ (Production.ident.bind _)
    exact .bind .ident
  · intro point _
    cases point with
    | some point => exact ident.bind fun name => pure_bind (nameArgs (some first) name)
    | none => exact pure_bind (nameArgs none first)

theorem arrayOrSliceType :
    Copies copier head copier.tree Production.arrayOrSliceType
      Production.arrayOrSliceType := by
  refine (mark (by decide)).bind fun lBrack => (mark? (by decide)).bind fun rBrack => ?_
  cases rBrack with
  | some rBrack => exact type.bind fun elem => pure rfl
  | none =>
      refine (mark? (by decide)).bind fun ellipsis => ?_
      cases ellipsis with
      | some ellipsis => exact (mark (by decide)).bind fun rBrack => type.bind fun elem => pure rfl
      | none =>
          refine (inHeader expr).bind fun length => ?_
          exact (mark (by decide)).bind fun rBrack => type.bind fun elem => pure rfl

theorem mapType :
    Copies copier head copier.tree Production.mapType Production.mapType := by
  refine (mark (by decide)).bind ?_
  intro keyword
  refine (mark (by decide)).bind ?_
  intro lBrack
  refine type.bind ?_
  intro key
  exact (mark (by decide)).bind fun rBrack => type.bind fun value => pure rfl

theorem chanType :
    Copies copier head copier.tree Production.chanType Production.chanType := by
  refine (mark? (by decide)).bind fun arrow => ?_
  cases arrow with
  | some arrow => exact (mark (by decide)).bind fun keyword => type.bind fun elem => pure rfl
  | none =>
      refine (mark (by decide)).bind ?_
      intro keyword
      refine (mark? (by decide)).bind ?_
      intro arrow
      refine type.bind ?_
      intro elem
      refine pure ?_
      cases arrow <;> rfl

/-! ## Signatures -/

theorem paramEntry :
    Copies copier head (Production.ParamEntry.copy copier.asks copier.place) Production.paramEntry
      Production.paramEntry := by
  refine look fun cursor here only => ?_
  simp only [Copying.token_cursor only, Copying.tokenAfter_cursor only, Copying.brackFollowedBy_cursor only]
  refine choice .rfl (ident.bind fun name => pure rfl) (choice .rfl ?_ ?_)
  · refine ident.bind ?_
    intro name
    refine (mark? (by decide)).bind ?_
    intro ellipsis
    exact type.bind fun type => pure rfl
  · exact (mark? (by decide)).bind fun ellipsis => type.bind fun type => pure rfl

theorem params (variadic : Bool) :
    Copies copier head copier.tree (Production.params variadic)
      (Production.params variadic) := by
  refine inHeader ((mark (by decide)).bind fun lParen => ?_)
  refine (itemsUntil _ fun _ => withComma paramEntry).bind fun entries => ?_
  rw [Production.ParamEntry.resolve_copy]
  cases Production.ParamEntry.resolve variadic entries with
  | error cause => exact refuse cause
  | ok params =>
      refine (mark (by decide)).bind fun rParen => pure ?_
      rw [← Tree.copy_ofList]
      rfl

theorem signature :
    Copies copier head copier.tree Production.signature Production.signature := by
  refine (params true).bind fun inputs => lookToken fun cursor cursor' here there => ?_
  rw [here, there]
  split
  · exact (params false).bind fun outputs => pure rfl
  · refine type?.bind fun output => pure ?_
    cases output <;> rfl

theorem funcType :
    Copies copier head copier.tree Production.funcType Production.funcType := by
  refine (mark (by decide)).bind ?_
  intro keyword
  exact signature.bind fun shape => pure rfl

/-! ## Type parameters -/

theorem typeTerm :
    Copies copier head copier.tree Production.typeTerm Production.typeTerm := by
  refine (mark? (by decide)).bind fun tilde => type.bind fun type => ?_
  cases tilde <;> exact pure rfl

theorem typeElem :
    Copies copier head copier.tree Production.typeElem Production.typeElem := by
  refine typeTerm.bind fun first => ?_
  refine (many copier.tree ?_).bind fun rest => pure ?_
  · refine (eat? (by decide)).bind fun bar => ?_
    rw [Option.isSome_map]
    split
    · exact typeTerm.bind fun next => pure rfl
    · exact pure rfl
  · rw [← List.map_cons, ← Tree.copy_ofList]
    rfl

theorem typeParam :
    Copies copier head copier.tree Production.typeParam Production.typeParam := by
  refine identList.bind ?_
  intro names
  exact typeElem.bind fun bound => pure rfl

theorem typeParams :
    Copies copier head copier.tree Production.typeParams Production.typeParams := by
  refine inHeader ((mark (by decide)).bind fun lBrack => ?_)
  refine (itemsUntil _ fun _ => withComma typeParam).bind fun entries => ?_
  rw [List.isEmpty_map]
  split
  · exact refuse _
  · refine (mark (by decide)).bind fun rBrack => pure ?_
    rw [← Tree.copy_ofList]
    rfl

/-! ## Structures and interfaces -/

theorem tag? :
    Copies copier head (Option.map (BasicLit.map copier.place)) Production.tag? Production.tag? := by
  refine look fun cursor here only => ?_
  rw [Copying.atAny_cursor only]
  split
  · exact stringLit.bind fun tag => pure rfl
  · exact pure rfl

theorem fieldDecl :
    Copies copier head copier.tree Production.fieldDecl Production.fieldDecl := by
  refine look fun cursor here only => ?_
  have same : Production.atEmbeddedField (copier.cursor cursor)
      = Production.atEmbeddedField cursor := by
    simp only [Production.atEmbeddedField, Copying.token_cursor only, Copying.tokenAfter_cursor only,
      Copying.brackFollowedBy_cursor only]
  rw [same]
  split
  · refine (mark? (by decide)).bind ?_
    intro star
    refine typeName.bind ?_
    intro name
    exact tag?.bind fun tag => pure rfl
  · refine identList.bind ?_
    intro names
    refine type.bind ?_
    intro type
    exact tag?.bind fun tag => pure rfl

theorem structType :
    Copies copier head copier.tree Production.structType Production.structType := by
  refine (mark (by decide)).bind fun keyword => (mark (by decide)).bind fun lBrace => ?_
  refine (itemsUntil _ fun _ => withSemicolon fieldDecl).bind fun fields => ?_
  refine (mark (by decide)).bind fun rBrace => pure ?_
  rw [← Tree.copy_ofList]
  rfl

theorem interfaceElem :
    Copies copier head copier.tree Production.interfaceElem Production.interfaceElem := by
  refine look fun cursor here only => ?_
  rw [Copying.token_cursor only, Copying.tokenAfter_cursor only]
  split
  · exact ident.bind fun name => signature.bind fun shape => pure rfl
  · exact typeElem.bind fun elem => pure rfl

theorem interfaceType :
    Copies copier head copier.tree Production.interfaceType Production.interfaceType := by
  refine (mark (by decide)).bind fun keyword => (mark (by decide)).bind fun lBrace => ?_
  refine (itemsUntil _ fun _ => withSemicolon interfaceElem).bind fun elems => ?_
  refine (mark (by decide)).bind fun rBrace => pure ?_
  rw [← Tree.copy_ofList]
  rfl

/-! ## All types -/

theorem pointerType :
    Copies copier head copier.tree Production.pointerType Production.pointerType := by
  refine (mark (by decide)).bind ?_
  intro star
  exact type.bind fun elem => pure rfl

theorem parenType :
    Copies copier head copier.tree Production.parenType Production.parenType := by
  refine inHeader ((mark (by decide)).bind fun lParen => type.bind fun inner => ?_)
  exact (mark (by decide)).bind fun rParen => pure rfl

theorem typeRule :
    Copies copier head (Option.map copier.tree) Production.typeRule
      Production.typeRule := by
  have some {production : Production P (TypeExpr P)} {production' : Production Q (TypeExpr Q)}
      (reads : Copies copier head copier.tree production production') :
      Copies copier head (Option.map copier.tree)
        (production.bind fun type => .pure (some type))
        (production'.bind fun type => .pure (some type)) :=
    reads.bind fun type => pure rfl
  refine nested (lookToken fun cursor cursor' here there => ?_)
  rw [here, there]
  cases head
  case ident => exact some (typeName.bind fun name => pure rfl)
  case star => exact some pointerType
  case lParen => exact some parenType
  case kwFunc => exact some (funcType.bind fun type => pure rfl)
  case lBrack => exact some arrayOrSliceType
  case kwMap => exact some mapType
  case kwChan | arrow => exact some chanType
  case kwStruct => exact some structType
  case kwInterface => exact some interfaceType
  all_goals exact pure rfl

end Copies
end GoFront
