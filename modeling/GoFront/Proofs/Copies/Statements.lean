import GoFront.Proofs.Copies.Expressions
import GoFront.Proofs.Reading.ParsedExprs

/-!
# Declarations and statements in copies

The productions that read declarations, statements and files repeat on a copy what they do on the text. Where
the tag of a switch would become a query, no cases are opened behind it, so no switch was read there. So
nonterminals are read of a copy as they are of the text, and on every larger allowance.
-/

namespace GoFront

/-! ## Cases of switches -/

namespace Production

variable {P : Type} {limit : Nat} {state : ReadState P} {final : Cursor P}

/-- What follows the header of a switch. -/
def switchBody
    (keyword : Mark P)
    (init : Option (SimpleStmt P))
    (subject : SwitchSubject P) : Production P (Stmt P) := do
  let lBrace ← mark .lBrace
  match subject with
  | .values tag =>
      let clauses ← caseClauses fun keyword => do
        let exprs ← exprList
        pure (.exprCase keyword exprs)
      let rBrace ← mark .rBrace
      pure (.exprSwitch keyword (.ofOption init) (.ofOption tag) lBrace clauses rBrace)
  | .types guard =>
      let clauses ← caseClauses fun keyword => do
        let types ← typeList
        pure (.typeCase keyword types)
      let rBrace ← mark .rBrace
      pure (.typeSwitch keyword (.ofOption init) guard lBrace clauses rBrace)

/-- A switch has cases, or the brace that it opens is closed at once. -/
theorem opensCases_or_closed_of_switchBody
    {keyword : Mark P}
    {init : Option (SimpleStmt P)}
    {subject : SwitchSubject P}
    {stmt : Stmt P}
    (parses : Parses limit (switchBody keyword init subject) state stmt final) :
    opensCases (state.cursor.ahead.map Lexeme.token) = true
      ∨ state.cursor.token = .lBrace ∧ state.cursor.advance.token = .rBrace := by
  obtain ⟨lBrace, _, isBrace, parses⟩ := parses_bind.1 parses
  obtain ⟨atBrace, -, rfl⟩ := parses_mark.1 isBrace
  have atCase : state.cursor.advance.token = .kwCase ∨ state.cursor.advance.token = .kwDefault
      ∨ state.cursor.advance.token = .rBrace := by
    split at parses
    all_goals
      obtain ⟨_, middle, areClauses, parses⟩ := parses_bind.1 parses
      obtain ⟨_, _, closes, -⟩ := parses_bind.1 parses
      exact token_of_caseClauses areClauses (parses_mark.1 closes).1
  refine (or_assoc.2 atCase).imp (fun opens => ?_) fun closed => ⟨atBrace, closed⟩
  obtain ⟨⟨consumed, ahead, stop⟩, depth, inHeader, errors⟩ := state
  match ahead with
  | [] => cases atBrace
  | [_] => obtain isEnd | isEnd := opens <;> cases isEnd
  | brace :: next :: rest =>
      replace atBrace : brace.token = .lBrace := atBrace
      replace opens : next.token = .kwCase ∨ next.token = .kwDefault := opens
      obtain atToken | atToken := opens <;> simp [atBrace, atToken, opensCases]

end Production

namespace Machine

variable {P : Type} {machine : Machine P} {state final : ReadState P}

/-- There are no clauses in front of the brace that closes them. -/
theorem run_caseClauses_of_closed
    {kind : ClauseKind}
    (label : Mark P -> Production P (Tree P (.one (.caseLabel kind))))
    (closed : state.cursor.token = .rBrace) :
    machine.run (Production.caseClauses label) state
      = if machine.allowance = 0 then .exhausted else .done .nil state := by
  have stops : state.cursor.atAny [.rBrace, .eof] = true := by
    rw [Cursor.atAny, closed]
    rfl
  obtain ⟨limit, allowance, reader, sound⟩ := machine
  cases allowance with
  | zero => rfl
  | succ allowance =>
      change (((((Production.run limit (allowance + 1) reader
          (if true && !state.cursor.atAny [.rBrace, .eof] then _ else _) state).bind _)).bind _).bind _) = _
      rw [stops]
      rfl

/-- There are no clauses in braces that are closed at once. -/
theorem run_cases_of_closed
    {α : Type}
    {kind : ClauseKind}
    (label : Mark P -> Production P (Tree P (.one (.caseLabel kind))))
    (form : Mark P -> Tree P (.many (.caseClause kind)) -> Mark P -> α)
    (atBrace : state.cursor.token = .lBrace)
    (closed : state.cursor.advance.token = .rBrace) :
    machine.run ((Production.mark .lBrace).bind fun lBrace =>
        (Production.caseClauses label).bind fun clauses =>
          (Production.mark .rBrace).bind fun rBrace => .pure (form lBrace clauses rBrace)) state
      = if machine.allowance = 0 then .exhausted
        else .done (form ⟨.lBrace, state.cursor.pos⟩ .nil ⟨.rBrace, state.cursor.advance.pos⟩)
          { state with cursor := state.cursor.advance.advance } := by
  change (machine.run (Production.mark .lBrace) state).bind _ = _
  rw [run_mark, if_pos atBrace]
  change (machine.run (Production.caseClauses label) { state with cursor := state.cursor.advance }).bind _ = _
  rw [run_caseClauses_of_closed label closed]
  split
  · rfl
  · change (machine.run (Production.mark .rBrace) { state with cursor := state.cursor.advance }).bind _ = _
    rw [run_mark, if_pos closed]
    rfl

end Machine

namespace Copies

variable {P Q : Type} {copier : Copier P Q} {head : Token}

/-! ## Specs -/

theorem importSpec :
    Copies copier head copier.tree Production.importSpec Production.importSpec := by
  refine bind_assoc (lookToken fun cursor cursor' here there => ?_)
  rw [here, there]
  cases head
  case ident => exact bind_assoc (ident.bind fun name => pure_bind (stringLit.bind fun path => pure rfl))
  case dot =>
    refine bind_assoc (markPoint_bind ?_ ?_)
    · exact fun point => RefusesParen.stringLit.bind
    · exact fun point _ => pure_bind (stringLit.bind fun path => pure rfl)
  all_goals exact pure_bind (stringLit.bind fun path => pure rfl)

theorem constSpec (first : Bool) :
    Copies copier head copier.tree (Production.constSpec first)
      (Production.constSpec first) := by
  refine identList.bind fun names => type?.bind fun type => ?_
  refine lookToken fun cursor cursor' here there => ?_
  rw [here, there, ← Tree.copy_ofOption]
  split
  · exact (expect (by decide)).bind fun assign => exprList.bind fun values => pure rfl
  · exact pure rfl

theorem varSpec :
    Copies copier head copier.tree Production.varSpec Production.varSpec := by
  refine identList.bind ?_
  intro names
  refine type?.bind ?_
  intro type
  refine (eat? (by decide)).bind ?_
  intro assign _
  rw [← Tree.copy_ofOption]
  have behind (values : Tree P (.maybe .exprList)) {next : Token} : Copies copier next copier.tree
      ((Production.build (Tree.varSpec? names (.ofOption type) values)).bind fun spec =>
        .pure (.varSpecOf spec))
      ((Production.build (Tree.varSpec? (names.map (Ident.map copier.place))
        (copier.tree (Tree.ofOption type)) (copier.tree values))).bind fun spec =>
        .pure (.varSpecOf spec)) :=
    (build (Tree.varSpec?_copy copier.asks copier.place _ _ _)).bind fun spec => pure rfl
  cases assign with
  | none => exact pure_bind (behind .absent)
  | some assign =>
      refine exprList.bind ?_
      intro values _
      exact pure_bind (behind (.present values))

theorem typeSpec :
    Copies copier head copier.tree Production.typeSpec Production.typeSpec := by
  refine ident.bind fun name => (mark? (by decide)).bind fun assign => ?_
  cases assign with
  | some assign => exact type.bind fun type => pure rfl
  | none =>
      refine look fun cursor here only => ?_
      have same : Production.atTypeParams (copier.cursor cursor) = Production.atTypeParams cursor := by
        unfold Production.atTypeParams
        rw [Copying.token_cursor only, Copying.tokenAfter_cursor only]
        by_cases isBrack : cursor.token = .lBrack
        · rw [Copying.tokenAfter_two_cursor only (isBrack ▸ by decide)]
        · simp [isBrack]
      rw [same]
      refine choice .rfl (typeParams.bind fun generics => pure_bind ?_) (pure_bind ?_)
      · exact type.bind fun type => pure rfl
      · exact type.bind fun type => pure rfl

theorem singleSpec
    (kind : SpecKind)
    (first : Bool) :
    Copies copier head copier.tree (Production.singleSpec kind first)
      (Production.singleSpec kind first) := by
  cases kind with
  | imports => exact importSpec
  | consts => exact constSpec first
  | vars => exact varSpec
  | types => exact typeSpec

theorem spec (kind : SpecKind) :
    Copies copier head copier.tree (Production.spec kind) (Production.spec kind) := by
  refine (mark? (by decide)).bind fun lParen => ?_
  cases lParen with
  | none => exact singleSpec kind true
  | some lParen =>
      refine (itemsUntil _ fun first => withSemicolon (singleSpec kind first)).bind fun specs => ?_
      refine (mark (by decide)).bind fun rParen => ?_
      exact (build (Tree.groupSpec?_copy copier.asks copier.place kind lParen rParen specs)).bind fun group =>
        pure rfl

/-! ## Declarations -/

theorem specDecl (kind : SpecKind) :
    Copies copier head copier.tree (Production.specDecl kind)
      (Production.specDecl kind) := by
  have notPoint : kind.keyword ≠ .dot := by cases kind <;> decide
  refine (mark notPoint).bind fun keyword => (spec kind).bind fun spec => ?_
  refine (build (Tree.specDecl?_copy copier.asks copier.place kind keyword spec)).bind fun decl => ?_
  exact semicolon.bind fun _ => pure rfl

theorem body? :
    Copies copier head copier.tree Production.body? Production.body? := by
  refine lookToken fun cursor cursor' here there => ?_
  rw [here, there]
  split
  · exact block.bind fun body => pure rfl
  · exact pure rfl

theorem funcTail (keyword : Mark P) :
    Copies copier head copier.tree (Production.funcTail keyword)
      (Production.funcTail (keyword.map copier.place)) := by
  refine ident.bind fun name => lookToken fun cursor cursor' here there => ?_
  rw [here, there]
  refine choice .rfl (typeParams.bind fun generics => pure_bind ?_) (pure_bind ?_)
  · exact signature.bind fun shape => body?.bind fun body => pure rfl
  · exact signature.bind fun shape => body?.bind fun body => pure rfl

theorem methodTail (keyword : Mark P) :
    Copies copier head copier.tree (Production.methodTail keyword)
      (Production.methodTail (keyword.map copier.place)) := by
  refine (params false).bind fun receiver => ident.bind fun name => ?_
  exact signature.bind fun shape => body?.bind fun body => pure rfl

theorem funcOrMethod :
    Copies copier head copier.tree Production.funcOrMethod Production.funcOrMethod := by
  refine (mark (by decide)).bind fun keyword => lookToken fun cursor cursor' here there => ?_
  rw [here, there]
  refine choice .rfl ?_ ?_
  · exact (methodTail keyword).bind fun decl => semicolon.bind fun _ => pure rfl
  · exact (funcTail keyword).bind fun decl => semicolon.bind fun _ => pure rfl

theorem specifiedDecl (kind : SpecKind) :
    Copies copier head copier.tree (Production.specifiedDecl kind)
      (Production.specifiedDecl kind) :=
  (specDecl kind).bind fun _ => pure rfl

theorem decl :
    Copies copier head copier.tree Production.decl Production.decl := by
  refine lookToken fun cursor cursor' here there => ?_
  rw [here, there]
  cases head
  case kwVar => exact specifiedDecl .vars
  case kwConst => exact specifiedDecl .consts
  case kwType => exact specifiedDecl .types
  case kwFunc => exact funcOrMethod
  all_goals exact refuse _

/-! ## Simple statements -/

theorem simpleTail (left : ExprList P) :
    Copies copier head copier.tree (Production.simpleTail left)
      (Production.simpleTail (copier.tree left)) := by
  refine lookToken fun cursor cursor' here there => ?_
  rw [here, there, Ident.listOfExprs?_copy]
  split
  · cases Ident.listOfExprs? left with
    | error reason => exact refuse _
    | ok names => exact (mark (by decide)).bind fun define => exprList.bind fun values => pure rfl
  split
  · next isOp =>
      have notPoint : head ≠ .dot := by
        rintro rfl
        cases isOp
      exact (anyMark notPoint).bind fun op => exprList.bind fun right => pure rfl
  rw [Production.onlyExpr, Production.onlyExpr, Tree.exprs_copy]
  match left.exprs with
  | [] => exact refuse_bind _
  | _ :: _ :: _ => exact refuse_bind _
  | [first] =>
      refine pure_bind ?_
      cases head
      case inc | dec => exact (anyMark (by decide)).bind fun op => pure rfl
      case arrow => exact (mark (by decide)).bind fun arrow => expr.bind fun value => pure rfl
      all_goals exact pure rfl

theorem simpleStmt :
    Copies copier head copier.tree Production.simpleStmt Production.simpleStmt :=
  exprList.bind fun left => simpleTail left

theorem simpleStmtUnless (tokens : List Token) :
    Copies copier head (Option.map copier.tree) (Production.simpleStmtUnless tokens)
      (Production.simpleStmtUnless tokens) := by
  refine look fun cursor here only => ?_
  rw [Copying.atAny_cursor only]
  split
  · exact pure rfl
  · exact simpleStmt.bind fun stmt => pure rfl

theorem callOnly :
    Copies copier head copier.tree Production.callOnly Production.callOnly := by
  refine expr.bind ?_
  intro expr _
  cases expr
  case callExpr => exact pure rfl
  case typeAssertion base dot lParen type rParen =>
    cases keyword : type.askedAt? copier.asks with
    | none =>
        rw [copier.tree_of_not_asked base dot lParen rParen keyword]
        exact refuse _
    | some pos =>
        rw [copier.tree_of_asked base dot lParen rParen keyword]
        exact refuse _
  all_goals exact refuse _

/-! ## Statement lists -/

theorem stmtList :
    Copies copier head copier.tree Production.stmtList Production.stmtList := by
  refine (resuming copier.tree (fun cursor only => ?_) (nested (call .stmt))).bind
    fun stmts => pure ?_
  · rw [Production.moreStmts, Copying.atAny_cursor only]
    rfl
  · rw [← Tree.copy_ofList]
    rfl

theorem blockRule :
    Copies copier head copier.tree Production.blockRule Production.blockRule := by
  refine nested (inHeader ((mark (by decide)).bind fun lBrace => stmtList.bind fun stmts => ?_))
  exact (mark (by decide)).bind fun rBrace => pure rfl

/-! ## Conditional statements and loops -/

theorem headerStmts :
    Copies copier head
      (Prod.map (Option.map copier.tree) (Option.map copier.tree))
      Production.headerStmts Production.headerStmts := by
  refine (simpleStmtUnless _).bind fun first => (eat? (by decide)).bind fun semi => ?_
  rw [Option.isNone_map]
  split
  · exact pure rfl
  · exact (simpleStmtUnless _).bind fun second => pure rfl

theorem headerExpr
    (part : HeaderPart)
    (stmt : SimpleStmt P) :
    Copies copier head copier.tree (Production.headerExpr part stmt)
      (Production.headerExpr part (copier.tree stmt)) := by
  cases stmt
  case exprStmt => exact pure rfl
  all_goals exact refuse _

theorem ifHeader :
    Copies copier head (Prod.map (Option.map copier.tree) copier.tree)
      Production.ifHeader Production.ifHeader := by
  refine inHeader (headerStmts.bind ?_)
  rintro ⟨init, condition⟩ _
  cases condition with
  | none => exact refuse _
  | some condition => exact (headerExpr _ condition).bind fun condition => pure rfl

theorem elseBody :
    Copies copier head (Tree.ElseBody.copy copier.asks copier.place) Production.elseBody
      Production.elseBody := by
  refine lookToken fun cursor cursor' here there => ?_
  rw [here, there]
  cases head
  case kwIf => exact (nested (call .ifStmt)).bind fun stmt => pure rfl
  case lBrace => exact block.bind fun body => pure rfl
  all_goals exact refuse _

theorem ifStmtRule :
    Copies copier head copier.tree Production.ifStmtRule Production.ifStmtRule := by
  refine (mark (by decide)).bind fun keyword => ifHeader.bind ?_
  rintro ⟨init, condition⟩ _
  refine block.bind fun body => (mark? (by decide)).bind ?_
  intro elseKeyword _
  have behind (elseBody : Option (Tree.ElseBody P)) {next : Token} : Copies copier next copier.tree
      (Production.build
        (Tree.ifStmt? keyword (.ofOption init) condition body elseKeyword elseBody))
      (Production.build (Tree.ifStmt? (keyword.map copier.place)
        (.ofOption (init.map copier.tree)) (copier.tree condition)
        (copier.tree body) (elseKeyword.map (Mark.map copier.place))
        (elseBody.map (Tree.ElseBody.copy copier.asks copier.place)))) := by
    rw [← Tree.copy_ofOption]
    exact build (Tree.ifStmt?_copy copier.asks copier.place _ _ _ _ _ _)
  dsimp only
  rw [Option.isSome_map]
  split
  · refine elseBody.bind ?_
    intro elseBody _
    exact pure_bind (behind (some elseBody))
  · exact pure_bind (behind none)

theorem forClauseTail (init : Option (SimpleStmt P)) :
    Copies copier head copier.tree (Production.forClauseTail init)
      (Production.forClauseTail (init.map copier.tree)) := by
  have behind (condition : Option (Expr P)) {next : Token} : Copies copier next copier.tree
      ((Production.expect .semi).bind fun _ =>
        (Production.simpleStmtUnless [.lBrace]).bind fun post =>
          .pure (.forClause (.ofOption init) (.ofOption condition) (.ofOption post)))
      ((Production.expect .semi).bind fun _ =>
        (Production.simpleStmtUnless [.lBrace]).bind fun post =>
          .pure (.forClause (.ofOption (init.map copier.tree))
            (.ofOption (condition.map copier.tree)) (.ofOption post))) := by
    refine (expect (by decide)).bind fun _ => (simpleStmtUnless _).bind fun post => pure ?_
    rw [← Tree.copy_ofOption, ← Tree.copy_ofOption, ← Tree.copy_ofOption]
    rfl
  refine (expect (by decide)).bind fun _ => lookToken fun cursor cursor' here there => ?_
  rw [here, there]
  refine choice .rfl (pure_bind ?_) (expr.bind ?_)
  · exact behind none
  · intro condition _
    exact pure_bind (behind (some condition))

theorem boundNames :
    Copies copier head (Prod.map copier.tree (Mark.map copier.place))
      Production.boundNames Production.boundNames := by
  refine identList.bind ?_
  intro names
  exact (mark (by decide)).bind fun op => pure rfl

theorem boundExprs :
    Copies copier head (Prod.map copier.tree (Mark.map copier.place))
      Production.boundExprs Production.boundExprs := by
  refine exprList.bind ?_
  intro exprs
  exact (mark (by decide)).bind fun op => pure rfl

theorem rangeBinding :
    Copies copier head (Option.map (Prod.map copier.tree (Mark.map copier.place)))
      Production.rangeBinding Production.rangeBinding := by
  refine look fun cursor here only => ?_
  rw [Copying.token_cursor only, Copying.occurBefore_cursor only (by decide)]
  refine choice .rfl (pure rfl) (choice .rfl ?_ ?_)
  · exact boundNames.bind fun bound => pure rfl
  · exact boundExprs.bind fun bound => pure rfl

theorem rangeClause :
    Copies copier head copier.tree Production.rangeClause Production.rangeClause := by
  refine rangeBinding.bind ?_
  intro bound
  refine (mark (by decide)).bind ?_
  intro keyword
  refine expr.bind ?_
  intro expr
  refine build ?_
  have same := Tree.rangeClause?_copy copier.asks copier.place (bound.map Prod.fst) (bound.map Prod.snd)
    keyword expr
  cases bound <;> exact same

theorem forHeader :
    Copies copier head copier.tree Production.forHeader Production.forHeader := by
  refine inHeader (look fun cursor here only => ?_)
  rw [Copying.token_cursor only, Copying.occurBefore_cursor only (by decide)]
  refine choice .rfl (pure rfl) (choice .rfl ?_ ?_)
  · exact rangeClause.bind fun clause => pure rfl
  · refine (simpleStmtUnless _).bind fun init => lookToken fun cursor cursor' here there => ?_
    cases init with
    | none => exact (forClauseTail none).bind fun clause => pure rfl
    | some condition =>
        refine choice (by rw [here, there]) ?_ ?_
        · exact (forClauseTail (some condition)).bind fun clause => pure rfl
        · exact (headerExpr _ condition).bind fun condition => pure rfl

theorem forStmt :
    Copies copier head copier.tree Production.forStmt Production.forStmt := by
  refine (mark (by decide)).bind ?_
  intro keyword
  refine forHeader.bind ?_
  intro iteration
  exact block.bind fun body => pure rfl

/-! ## Switch and select statements -/

theorem caseClauses
    {kind : ClauseKind}
    {label : Mark P -> Production P (Tree P (.one (.caseLabel kind)))}
    {label' : Mark Q -> Production Q (Tree Q (.one (.caseLabel kind)))}
    (each : ∀ keyword {behind}, Copies copier behind copier.tree (label keyword)
      (label' (keyword.map copier.place))) :
    Copies copier head copier.tree (Production.caseClauses label)
      (Production.caseClauses label') := by
  have behind (label : Tree P (.one (.caseLabel kind))) {next : Token} : Copies copier next
      (Prod.map copier.tree id)
      ((Production.mark .colon).bind fun colon => Production.stmtList.bind fun body =>
        .pure (Tree.caseClause label colon body, true))
      ((Production.mark .colon).bind fun colon => Production.stmtList.bind fun body =>
        .pure (Tree.caseClause (copier.tree label) colon body, true)) :=
    (mark (by decide)).bind fun colon => stmtList.bind fun body => pure rfl
  refine (itemsUntil copier.tree ?_).bind fun clauses => ?_
  rotate_left
  · exact pure (Tree.copy_ofList copier.asks copier.place clauses).symm
  intro _ next
  refine lookToken fun cursor cursor' here there => ?_
  rw [here, there]
  cases next
  case kwCase =>
    refine (mark (by decide)).bind ?_
    intro keyword _
    exact (each keyword).bind fun label => behind label
  case kwDefault =>
    refine (mark (by decide)).bind ?_
    intro keyword _
    exact pure_bind (behind (.defaultCase keyword))
  all_goals exact refuse_bind _

/-- A query is copied as one. -/
theorem isTypeQuery_copy
    {expr : Expr P}
    (isQuery : Production.isTypeQuery expr = true) :
    Production.isTypeQuery (copier.tree expr) = true := by
  cases expr with
  | typeQuery => rfl
  | _ => cases isQuery

theorem isTypeQuery_copy_of_becomesQuery
    {expr : Expr P}
    (becomes : (Tree.present expr).becomesQuery copier.asks = true) :
    Production.isTypeQuery (copier.tree expr) = true := by
  cases expr with
  | typeAssertion base dot lParen type rParen =>
      obtain ⟨pos, asked⟩ := Option.isSome_iff_exists.1 becomes
      rw [copier.tree_of_asked base dot lParen rParen asked]
      rfl
  | _ => cases becomes

/-- What becomes a query is an assertion of a name that is asked for. -/
theorem exists_of_isTypeQuery_copy
    {expr : Expr P}
    (isQuery : Production.isTypeQuery (copier.tree expr) = true)
    (notQuery : Production.isTypeQuery expr = false) :
    ∃ base dot lParen type rParen pos, expr = .typeAssertion base dot lParen type rParen
      ∧ type.askedAt? copier.asks = some pos := by
  cases expr with
  | typeAssertion base dot lParen type rParen =>
      cases keyword : type.askedAt? copier.asks with
      | none =>
          rw [copier.tree_of_not_asked base dot lParen rParen keyword] at isQuery
          cases isQuery
      | some pos => exact ⟨base, dot, lParen, type, rParen, pos, rfl, keyword⟩
  | typeQuery => cases notQuery
  | _ => cases isQuery

theorem isTypeQuery_copy_of_faithful
    {expr : Expr P}
    (faithful : copier.Faithful)
    (notQuery : Production.isTypeQuery expr = false) :
    Production.isTypeQuery (copier.tree expr) = false := by
  rw [← Bool.not_eq_true]
  intro isQuery
  obtain ⟨_, _, _, type, _, pos, -, asked⟩ := exists_of_isTypeQuery_copy isQuery notQuery
  rw [Tree.askedAt?_eq_none _ faithful type] at asked
  cases asked

theorem switchSubject (last : Option (SimpleStmt P)) :
    Copies copier head (Production.SwitchSubject.copy copier.asks copier.place)
      (Production.switchSubject last) (Production.switchSubject (last.map copier.tree)) := by
  have tagged (stmt : SimpleStmt P) : Copies copier head
      (Production.SwitchSubject.copy copier.asks copier.place)
      ((Production.headerExpr .switchTag stmt).bind fun tag =>
        if Production.isTypeQuery tag then .pure (.types (.guard none tag))
        else .pure (.values (some tag)))
      ((Production.headerExpr .switchTag (copier.tree stmt)).bind fun tag =>
        if Production.isTypeQuery tag then .pure (.types (.guard none tag))
        else .pure (.values (some tag))) := by
    refine (headerExpr _ stmt).bind ?_
    intro tag _
    cases isQuery : Production.isTypeQuery tag with
    | true =>
        rw [isTypeQuery_copy isQuery]
        exact pure rfl
    | false =>
        change Copies _ _ _ (.pure _) (if Production.isTypeQuery (copier.tree tag) then _ else _)
        split
        · next becomes => exact pure (if_pos becomes).symm
        · next stays => exact pure (if_neg stays).symm
  have bound (name : Ident P) (define : Mark P) (value : Expr P) : Copies copier head
      (Production.SwitchSubject.copy copier.asks copier.place)
      (if Production.isTypeQuery value then .pure (.types (.guard (some ⟨name, define⟩) value))
        else .refuse .typeGuardExpected)
      (if Production.isTypeQuery (copier.tree value) then
        .pure (.types (.guard (some ⟨name.map copier.place, define.map copier.place⟩) (copier.tree value)))
        else .refuse .typeGuardExpected) := by
    cases isQuery : Production.isTypeQuery value with
    | true =>
        rw [isTypeQuery_copy isQuery]
        exact pure rfl
    | false =>
        -- what is refused becomes a guard only if names are asked for
        intro state _ only faithful
        rw [isTypeQuery_copy_of_faithful faithful isQuery]
        exact congrArg Outcome.gaveUp (record_state copier.toCopying state _ only)
  cases last with
  | none => exact pure rfl
  | some stmt =>
      cases stmt
      case shortVarDecl names define values =>
        cases values with
        | exprList exprs =>
            match names, exprs with
            | [name], .cons value .nil => exact bound name define value
            | [], _ => exact refuse _
            | _ :: _ :: _, _ => exact refuse _
            | [_], .nil => exact refuse _
            | [_], .cons _ (.cons _ _) => exact refuse _
      all_goals exact tagged _

theorem switchHeader :
    Copies copier head
      (Prod.map (Option.map copier.tree) (Production.SwitchSubject.copy copier.asks copier.place))
      Production.switchHeader Production.switchHeader := by
  refine inHeader (headerStmts.bind ?_)
  rintro ⟨init, last⟩ _
  exact (switchSubject last).bind fun subject => pure rfl

theorem switchBody
    (keyword : Mark P)
    (init : Option (SimpleStmt P))
    {subject : Production.SwitchSubject P}
    (keeps : ∀ tag, subject = .values (some tag) -> Production.isTypeQuery (copier.tree tag) = false) :
    Copies copier head copier.tree (Production.switchBody keyword init subject)
      (Production.switchBody (keyword.map copier.place) (init.map copier.tree)
        (subject.copy copier.asks copier.place)) := by
  cases subject with
  | values tag =>
      have same : (Production.SwitchSubject.values tag).copy copier.asks copier.place
          = .values (tag.map copier.tree) := by
        cases tag with
        | none => rfl
        | some tag =>
            refine if_neg ?_
            rw [keeps tag rfl]
            exact Bool.false_ne_true
      rw [same]
      refine (mark (by decide)).bind fun lBrace => (caseClauses fun keyword => ?_).bind fun clauses => ?_
      · exact exprList.bind fun exprs => pure rfl
      · refine (mark (by decide)).bind fun rBrace => pure ?_
        have stays : (Tree.ofOption tag).becomesQuery copier.asks = false := by
          cases tag with
          | none => rfl
          | some tag =>
              rw [← Bool.not_eq_true]
              intro becomes
              exact Bool.noConfusion ((keeps tag rfl).symm.trans (isTypeQuery_copy_of_becomesQuery becomes))
        rw [← Tree.copy_ofOption, ← Tree.copy_ofOption]
        change _ = Tree.switchOver ((Tree.ofOption tag).becomesQuery copier.asks) _ _ _ _ _ _
        rw [stays]
        rfl
  | types guard =>
      refine (mark (by decide)).bind fun lBrace => (caseClauses fun keyword => ?_).bind fun clauses => ?_
      · exact typeList.bind fun types => pure rfl
      · refine (mark (by decide)).bind fun rBrace => pure ?_
        rw [← Tree.copy_ofOption]
        rfl

/-- No cases are opened behind a tag that becomes a query. -/
theorem noCases_of_switchHeader
    {state : ReadState P}
    {init : Option (SimpleStmt P)}
    {tag : Expr P}
    {final : Cursor P}
    (only : OnlyAsserted copier.asks state.cursor.ahead)
    (parses : Production.Parses copier.limit Production.switchHeader state
      (init, .values (some tag)) final)
    (isQuery : Production.isTypeQuery (copier.tree tag) = true)
    (notQuery : Production.isTypeQuery tag = false) :
    opensCases (final.ahead.map Lexeme.token) = false := by
  obtain ⟨_, _, _, type, _, pos, rfl, asked⟩ := exists_of_isTypeQuery_copy isQuery notQuery
  obtain ⟨opened, openedSuffix, isTag⟩ := Production.exists_of_switchHeader parses
  obtain ⟨inner, middle, innerSuffix, isType, closes, rfl⟩ := Production.exists_of_assertion isTag
  obtain ⟨name, aheadEq, asksName⟩ := Production.exists_of_askedAt? isType asked
  obtain ⟨front, wholeEq⟩ := innerSuffix.trans openedSuffix
  rw [← wholeEq, aheadEq] at only
  have noCases := (only.asserted asksName).noCases
  rwa [← List.map_tail, ← Cursor.ahead_advance] at noCases

/-- Where there are no clauses, a switch over the values of a tag that becomes a query is copied as one over
types. -/
theorem switchBody_of_closed
    (keyword : Mark P)
    (init : Option (SimpleStmt P))
    {tag : Expr P}
    {state : ReadState P}
    (becomes : (Tree.present tag).becomesQuery copier.asks = true)
    (atBrace : state.cursor.token = .lBrace)
    (closed : state.cursor.advance.token = .rBrace)
    (only : OnlyAsserted copier.asks state.cursor.ahead) :
    Outcome.Copied copier.toCopying copier.tree state
      (copier.first.run (Production.switchBody keyword init (.values (some tag))) state)
      (copier.second.run (Production.switchBody (keyword.map copier.place) (init.map copier.tree)
        (.types (.guard none (copier.tree tag)))) (copier.state state)) := by
  have overTypes : Copies copier .lBrace copier.tree
      (Production.switchBody keyword init (.types (.guard none tag)))
      (Production.switchBody (keyword.map copier.place) (init.map copier.tree)
        (.types (.guard none (copier.tree tag)))) :=
    switchBody keyword init nofun
  have copied := overTypes state atBrace only
  have typesRun : copier.first.run
      (Production.switchBody keyword init (.types (.guard none tag))) state = _ :=
    Machine.run_cases_of_closed _ (Tree.typeSwitch keyword (.ofOption init) (.guard none tag)) atBrace closed
  have valuesRun : copier.first.run
      (Production.switchBody keyword init (.values (some tag))) state = _ :=
    Machine.run_cases_of_closed _ (Tree.exprSwitch keyword (.ofOption init) (.present tag)) atBrace closed
  rw [typesRun] at copied
  rw [valuesRun]
  split at copied
  · next empty =>
      rw [if_pos empty]
      trivial
  · next positive =>
      rw [if_neg positive]
      intro clean
      obtain ⟨stillOnly, ended⟩ := copied clean
      refine ⟨stillOnly, ended.trans ?_⟩
      congr 1
      change _ = Tree.switchOver ((Tree.present tag).becomesQuery copier.asks) _ _ _ _ _ _
      rw [becomes]
      rfl

theorem switchStmt :
    Copies copier head copier.tree Production.switchStmt Production.switchStmt := by
  refine (mark (by decide)).bind ?_
  intro keyword next state here only
  refine Outcome.Copied.bind (copier.first.run_sound _ _) (fun _ => copier.first.run_sound _)
    (switchHeader state here only) ?_
  rintro ⟨init, subject⟩ middle run clean middleOnly
  by_cases keeps : ∀ tag, subject = .values (some tag) -> Production.isTypeQuery (copier.tree tag) = false
  · exact switchBody keyword init keeps middle rfl middleOnly
  · obtain ⟨tag, rfl, isQuery⟩ : ∃ tag, subject = .values (some tag)
        ∧ Production.isTypeQuery (copier.tree tag) = true := by
      simpa using keeps
    have notQuery := Yields.notQuery_switchHeader.of_run rfl run tag rfl
    have becomes : (Tree.present tag).becomesQuery copier.asks = true := by
      obtain ⟨_, _, _, _, _, _, rfl, asked⟩ := exists_of_isTypeQuery_copy isQuery notQuery
      exact congrArg Option.isSome asked
    have unfaithful : ¬copier.Faithful := by
      intro faithful
      rw [Tree.becomesQuery_eq_false _ faithful] at becomes
      cases becomes
    have isHeader := Production.Parses.of_run run (clean.resolve_left unfaithful)
    have noCases := noCases_of_switchHeader only isHeader isQuery notQuery
    by_cases closed : middle.cursor.token = .lBrace ∧ middle.cursor.advance.token = .rBrace
    · change Outcome.Copied _ _ _ _ (copier.second.run (Production.switchBody _ _
        (if Production.isTypeQuery (copier.tree tag) then _ else _)) _)
      rw [if_pos isQuery]
      exact switchBody_of_closed keyword init becomes closed.1 closed.2 middleOnly
    · refine .of_unclean unfaithful fun stmt final body bodyClean => ?_
      have isBody : Production.Parses copier.limit
          (Production.switchBody keyword init (.values (some tag))) middle stmt final.cursor :=
        .of_run body bodyClean
      have opens := (Production.opensCases_or_closed_of_switchBody isBody).resolve_right closed
      rw [opens] at noCases
      cases noCases

theorem commBinding :
    Copies copier head (Option.map (Prod.map copier.tree (Mark.map copier.place)))
      Production.commBinding Production.commBinding := by
  refine look fun cursor here only => ?_
  rw [Copying.occurBefore_cursor only (by decide), Copying.occurBefore_cursor only (by decide)]
  refine choice .rfl ?_ (choice .rfl ?_ (pure rfl))
  · exact boundExprs.bind fun bound => pure rfl
  · exact boundNames.bind fun bound => pure rfl

theorem communication :
    Copies copier head copier.tree Production.communication
      Production.communication := by
  refine commBinding.bind fun bound => expr.bind fun channel => ?_
  cases bound with
  | some bound => exact pure rfl
  | none =>
      refine (mark? (by decide)).bind fun arrow => ?_
      cases arrow with
      | some arrow => exact expr.bind fun value => pure rfl
      | none => exact pure rfl

theorem selectStmt :
    Copies copier head copier.tree Production.selectStmt Production.selectStmt := by
  refine (mark (by decide)).bind fun keyword => (mark (by decide)).bind fun lBrace => ?_
  refine (caseClauses fun keyword => communication.bind fun stmt => ?_).bind fun clauses => ?_
  · exact build (Tree.commCase?_copy copier.asks copier.place keyword stmt)
  · exact (mark (by decide)).bind fun rBrace => pure rfl

/-! ## Statements -/

theorem terminated
    {stmt : Production P (Stmt P)}
    {stmt' : Production Q (Stmt Q)}
    (reads : Copies copier head copier.tree stmt stmt') :
    Copies copier head copier.tree (Production.terminated stmt)
      (Production.terminated stmt') := by
  refine reads.bind ?_
  intro _
  exact semicolon.bind fun _ => pure rfl

theorem labeledTail_of_not_name
    {label : ExprList P}
    (notName : ∀ name, label.exprs ≠ [.ident name]) :
    Production.labeledTail label = .refuse .labelExpected := by
  unfold Production.labeledTail
  split
  · next name isName => exact absurd isName (notName name)
  · rfl

theorem labeledTail (label : ExprList P) :
    Copies copier head copier.tree (Production.labeledTail label)
      (Production.labeledTail (copier.tree label)) := by
  by_cases named : ∃ name, label.exprs = [.ident name]
  · obtain ⟨name, isName⟩ := named
    rw [Production.labeledTail, Production.labeledTail, Tree.exprs_copy, isName]
    refine (mark (by decide)).bind fun colon => look fun cursor here only => ?_
    refine choice (by rw [Copying.token_cursor only]) (pure_bind (pure ?_)) ?_
    · rw [Copying.pos_cursor only]
      rfl
    · exact (nested (call .stmt)).bind fun stmt => pure rfl
  · have notName : ∀ name, (copier.tree label).exprs ≠ [.ident name] := by
      intro copied isCopied
      rw [Tree.exprs_copy] at isCopied
      obtain ⟨expr, isSingle, isName⟩ := List.map_eq_singleton_iff.1 isCopied
      have found := Tree.identOfExpr?_copy copier.asks copier.place expr
      rw [isName] at found
      cases expr with
      | ident name => exact named ⟨name, isSingle⟩
      | _ => cases found
    rw [labeledTail_of_not_name (not_exists.1 named), labeledTail_of_not_name notName]
    exact refuse _

theorem exprLedStmt :
    Copies copier head copier.tree Production.exprLedStmt Production.exprLedStmt := by
  refine exprList.bind fun exprs => lookToken fun cursor cursor' here there => ?_
  rw [here, there]
  refine choice .rfl (labeledTail exprs) ?_
  exact (simpleTail exprs).bind fun stmt => semicolon.bind fun _ => pure rfl

theorem results? :
    Copies copier head copier.tree Production.results? Production.results? := by
  refine look fun cursor here only => ?_
  rw [Copying.atAny_cursor only]
  split
  · exact pure rfl
  · exact exprList.bind fun results => pure rfl

theorem stmtRule :
    Copies copier head copier.tree Production.stmtRule Production.stmtRule := by
  refine lookToken fun cursor cursor' here there => ?_
  rw [here, there]
  cases head
  case lBrace => exact terminated (block.bind fun body => pure rfl)
  case kwIf => exact terminated ((call .ifStmt).bind fun stmt => pure rfl)
  case kwFor => exact terminated forStmt
  case kwSwitch => exact terminated switchStmt
  case kwSelect => exact terminated selectStmt
  case kwGo => exact terminated ((mark (by decide)).bind fun _ => callOnly.bind fun call => pure rfl)
  case kwDefer => exact terminated ((mark (by decide)).bind fun _ => callOnly.bind fun call => pure rfl)
  case kwReturn => exact terminated ((mark (by decide)).bind fun _ => results?.bind fun results => pure rfl)
  case kwGoto => exact terminated ((mark (by decide)).bind fun _ => ident.bind fun label => pure rfl)
  case kwBreak => exact terminated ((mark (by decide)).bind fun _ => ident?.bind fun label => pure rfl)
  case kwContinue => exact terminated ((mark (by decide)).bind fun _ => ident?.bind fun label => pure rfl)
  case kwFallthrough => exact terminated ((mark (by decide)).bind fun keyword => pure rfl)
  case kwVar | kwConst | kwType => exact decl.bind fun decl => pure rfl
  case semi => exact (advance (by decide)).bind fun lexeme => pure rfl
  all_goals first
    | exact exprLedStmt
    | exact refuse _

/-! ## Nonterminals -/

/-- A rule repeats on a copy what it does on the text. -/
theorem rule
    (copier : Copier P Q)
    (nonterminal : Nonterminal) :
    Copies copier head (nonterminal.copy copier.asks copier.place) nonterminal.rule nonterminal.rule := by
  cases nonterminal with
  | type => exact typeRule
  | expr least => exact exprRule least
  | unary => exact unaryRule
  | literalBody => exact literalBodyRule
  | block => exact blockRule
  | stmt => exact stmtRule
  | ifStmt => exact ifStmtRule

end Copies

/-- Nonterminals are read of a copy as they are of the text, and on a larger allowance. -/
theorem Nonterminal.read_copied
    {P Q : Type}
    (copying : Copying P Q)
    (limit : Nat)
    {allowance larger : Nat}
    (enough : allowance ≤ larger)
    (nonterminal : Nonterminal)
    (state : ReadState P)
    (only : OnlyAsserted copying.asks state.cursor.ahead) :
    Outcome.Copied copying (nonterminal.copy copying.asks copying.place) state
      (Nonterminal.read limit allowance nonterminal state)
      (Nonterminal.read limit larger nonterminal (copying.state state)) := by
  induction allowance generalizing larger nonterminal state with
  | zero => trivial
  | succ allowance inductionHypothesis =>
      obtain ⟨more, rfl⟩ : ∃ more, larger = more + 1 := ⟨larger - 1, by omega⟩
      have smaller : allowance ≤ more := Nat.le_of_succ_le_succ enough
      exact Copies.rule ⟨copying, limit, allowance, more, smaller, inductionHypothesis smaller⟩
        nonterminal state rfl only

/-- A text and its copy, read by the rules of the grammar. -/
def Copier.ofRules
    {P Q : Type}
    (copying : Copying P Q)
    (limit : Nat)
    {allowance larger : Nat}
    (enough : allowance ≤ larger) : Copier P Q where
  toCopying := copying
  limit := limit
  allowance := allowance
  larger := larger
  enough := enough
  reads := Nonterminal.read_copied copying limit enough

namespace Copies

variable {P Q : Type} {copier : Copier P Q} {head : Token}

/-! ## Files -/

theorem packageClause :
    Copies copier head (PackageClause.map copier.place) Production.packageClause
      Production.packageClause := by
  refine (mark (by decide)).bind ?_
  intro _
  refine ident.bind ?_
  intro _
  exact semicolon.bind fun _ => pure rfl

theorem file :
    Copies copier head (Production.FileParts.copy copier.asks copier.place) Production.file
      Production.file := by
  refine (recovering packageClause).bind fun package => ?_
  refine (resuming _ (fun cursor only => ?_) (specDecl .imports)).bind fun imports => ?_
  · rw [Copying.token_cursor only]
  · refine (resuming _ (fun cursor only => ?_) decl).bind fun decls => pure rfl
    rw [Copying.token_cursor only]

theorem singleDecl :
    Copies copier head copier.tree Production.singleDecl Production.singleDecl := by
  have behind {inner : Production P (Decl P)} {inner' : Production Q (Decl Q)}
      (isDecl : Copies copier head copier.tree inner inner') :
      Copies copier head copier.tree
        (inner.bind fun decl => Production.look.bind fun cursor =>
          if cursor.token = .eof then .pure decl
          else (Production.report (.trailing cursor.token)).bind fun _ => .pure decl)
        (inner'.bind fun decl => Production.look.bind fun cursor =>
          if cursor.token = .eof then .pure decl
          else (Production.report (.trailing cursor.token)).bind fun _ => .pure decl) := by
    refine isDecl.bind fun decl => lookToken fun cursor cursor' here there => ?_
    rw [here, there]
    exact choice .rfl (pure rfl) ((report _).bind fun _ => pure rfl)
  refine lookToken fun cursor cursor' here there => ?_
  rw [here, there]
  dsimp only
  split
  · exact behind (specifiedDecl .imports)
  · exact behind decl

end Copies

end GoFront
