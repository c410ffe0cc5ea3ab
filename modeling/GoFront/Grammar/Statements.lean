import GoFront.Grammar.Declarations

/-!
# Statements

How statements are read. What begins with expressions is decided by the token behind them. In the
header of a control statement a brace opens the body. A loop header is searched ahead for its range
clause, and the case of a select statement for the operator of its binding.
-/

namespace GoFront
namespace Production

variable {P : Type}

/-! ## Simple statements -/

/-- Reads the only expression of a list. -/
def onlyExpr (exprs : ExprList P) : Production P (Expr P) :=
  match exprs.exprs with
  | [expr] => pure expr
  | _ => .refuse .singleExprExpected

/-- Reads the rest of a simple statement that begins with expressions. -/
def simpleTail (left : ExprList P) : Production P (SimpleStmt P) := do
  let cursor ← .look
  if cursor.token = .define then
    match Ident.listOfExprs? left with
    | .error _ => .refuse .nameExpectedInDefinition
    | .ok names =>
        let define ← mark .define
        let values ← exprList
        pure (.shortVarDecl names define values)
  else if cursor.token.isAssignOp then
    let op ← anyMark
    let right ← exprList
    pure (.assignment left op right)
  else
    let first ← onlyExpr left
    match cursor.token with
    | .inc | .dec =>
        let op ← anyMark
        pure (.incDec first op)
    | .arrow =>
        let arrow ← mark .arrow
        let value ← expr
        pure (.send first arrow value)
    | _ => pure (.exprStmt first)

/-- Reads a simple statement without the end of its line. -/
def simpleStmt : Production P (SimpleStmt P) := do
  let left ← exprList
  simpleTail left

/-- Reads a simple statement unless one of the given tokens comes next. -/
def simpleStmtUnless (tokens : List Token) : Production P (Option (SimpleStmt P)) := do
  let cursor ← .look
  if cursor.atAny tokens then pure none
  else
    let stmt ← simpleStmt
    pure (some stmt)

/-- Reads a statement that runs or defers a call. -/
def callOnly : Production P (Tree P (.one .call)) := do
  let expr ← expr
  match expr with
  | .callExpr invocation => pure invocation
  | _ => .refuse .callExpected

/-! ## Statement lists -/

/-- Whether another statement of a list comes next. -/
def moreStmts (cursor : Cursor P) : Bool :=
  !cursor.atAny [.kwCase, .kwDefault, .rBrace, .eof]

/-- Reads statements up to a closing brace or the next case. -/
def stmtList : Production P (Tree P (.one .stmtList)) := do
  let (stmts : List (Stmt P)) ← resuming .stmt moreStmts (.nested (.call .stmt))
  pure (.stmtList (.ofList stmts))

/-- The rule for statements between braces. -/
def blockRule : Production P (Block P) :=
  .nested <| .inHeader false do
    let lBrace ← mark .lBrace
    let stmts ← stmtList
    let rBrace ← mark .rBrace
    pure (.block lBrace stmts rBrace)

/-! ## Conditional statements and loops -/

/-- Reads the statements of a header: an optional first one that ends in a semicolon, and an optional
second one. A lone statement is the second. -/
def headerStmts : Production P (Option (SimpleStmt P) × Option (SimpleStmt P)) := do
  let first ← simpleStmtUnless [.semi, .lBrace]
  let semi ← eat? .semi
  if semi.isNone then pure (none, first)
  else
    let second ← simpleStmtUnless [.lBrace]
    pure (first, second)

/-- Reads the expression that a part of a header consists of. -/
def headerExpr (part : HeaderPart) : SimpleStmt P -> Production P (Expr P)
  | .exprStmt expr => pure expr
  | _ => .refuse (.notAnExpr part)

/-- Reads the header of a conditional statement. -/
def ifHeader : Production P (Option (SimpleStmt P) × Expr P) :=
  .inHeader true do
    let (init, condition) ← headerStmts
    match condition with
    | none => .refuse .conditionMissing
    | some condition =>
        let condition ← headerExpr .ifCondition condition
        pure (init, condition)

/-- Reads what follows `else`. -/
def elseBody : Production P (Tree.ElseBody P) := do
  let cursor ← .look
  match cursor.token with
  | .kwIf =>
      let (stmt : IfStmt P) ← .nested (.call .ifStmt)
      pure (.conditional stmt)
  | .lBrace =>
      let body ← block
      pure (.block body)
  | _ => .refuse .malformedElse

/-- The rule for conditional statements. -/
def ifStmtRule : Production P (IfStmt P) := do
  let keyword ← mark .kwIf
  let (init, condition) ← ifHeader
  let body ← block
  let elseKeyword ← mark? .kwElse
  let elseBody ←
    if elseKeyword.isSome then do
      let elseBody ← elseBody
      pure (some elseBody)
    else pure none
  build (Tree.ifStmt? keyword (.ofOption init) condition body elseKeyword elseBody)

/-- Reads the rest of a loop header with three parts, from behind its first part. -/
def forClauseTail (init : Option (SimpleStmt P)) : Production P (Tree P (.one .iteration)) := do
  let _ ← expect .semi
  let cursor ← .look
  let condition ←
    if cursor.token = .semi then pure none
    else do
      let condition ← expr
      pure (some condition)
  let _ ← expect .semi
  let post ← simpleStmtUnless [.lBrace]
  pure (.forClause (.ofOption init) (.ofOption condition) (.ofOption post))

/-- Reads the names bound by a definition, and its operator. -/
def boundNames : Production P (Tree P (.one .bindingList) × Mark P) := do
  let names ← identList
  let op ← mark .define
  pure (.boundNames names, op)

/-- Reads the expressions bound by an assignment, and its operator. -/
def boundExprs : Production P (Tree P (.one .bindingList) × Mark P) := do
  let exprs ← exprList
  let op ← mark .assign
  pure (.boundExprs exprs, op)

/-- Reads what a range clause binds, if anything. -/
def rangeBinding : Production P (Option (Tree P (.one .bindingList) × Mark P)) := do
  let cursor ← .look
  if cursor.token = .kwRange then pure none
  else if cursor.occurBefore .kwRange [.define] then some <$> boundNames
  else some <$> boundExprs

/-- Reads a range clause. -/
def rangeClause : Production P (Tree P (.one .iteration)) := do
  let binding ← rangeBinding
  let keyword ← mark .kwRange
  let expr ← expr
  build (Tree.rangeClause? (binding.map Prod.fst) (binding.map Prod.snd) keyword expr)

/-- Reads the header of a loop. -/
def forHeader : Production P (Tree P (.maybe .iteration)) :=
  .inHeader true do
    let cursor ← .look
    if cursor.token = .lBrace then pure .absent
    else if cursor.occurBefore .lBrace [.kwRange] then
      let clause ← rangeClause
      pure (.present clause)
    else
      let init ← simpleStmtUnless [.semi]
      let cursor ← .look
      match init with
      | some condition =>
          if cursor.token = .semi then
            let clause ← forClauseTail (some condition)
            pure (.present clause)
          else
            let condition ← headerExpr .forCondition condition
            pure (.present (.whileTrue condition))
      | none =>
          let clause ← forClauseTail none
          pure (.present clause)

/-- Reads a loop. -/
def forStmt : Production P (Stmt P) := do
  let keyword ← mark .kwFor
  let iteration ← forHeader
  let body ← block
  pure (.forStmt keyword iteration body)

/-! ## Switch and select statements -/

/-- Reads the clauses of a statement with cases, each with its own kind of label behind the
keyword. -/
def caseClauses {kind : ClauseKind}
    (label : Mark P -> Production P (Tree P (.one (.caseLabel kind)))) :
    Production P (Tree P (.many (.caseClause kind))) := do
  let clauses ← itemsUntil .rBrace fun _ => do
    let cursor ← .look
    let label ←
      match cursor.token with
      | .kwCase => do
          let keyword ← mark .kwCase
          label keyword
      | .kwDefault => do
          let keyword ← mark .kwDefault
          pure (Tree.defaultCase keyword)
      | token => .refuse (.caseExpected token)
    let colon ← mark .colon
    let body ← stmtList
    pure (Tree.caseClause label colon body, true)
  pure (.ofList clauses)

/-- Whether an expression asks for the type of a value. -/
def isTypeQuery : Expr P -> Bool
  | .typeQuery .. => true
  | _ => false

/-- What the header of a switch statement decides: a switch over values, or one over types. -/
inductive SwitchSubject (P : Type)
  | values (tag : Option (Expr P))
  | types (guard : Tree P (.one .guard))

/-- Reads the subject of a switch from the last statement of its header. -/
def switchSubject : Option (SimpleStmt P) -> Production P (SwitchSubject P)
  | none => pure (.values none)
  | some (.shortVarDecl names define values) =>
      match names, values.exprs with
      | [name], [value] =>
          if isTypeQuery value then pure (.types (.guard (some ⟨name, define⟩) value))
          else .refuse .typeGuardExpected
      | _, _ => .refuse .typeGuardExpected
  | some stmt => do
      let tag ← headerExpr .switchTag stmt
      if isTypeQuery tag then pure (.types (.guard none tag))
      else pure (.values (some tag))

/-- Reads the header of a switch statement. -/
def switchHeader : Production P (Option (SimpleStmt P) × SwitchSubject P) :=
  .inHeader true do
    let (init, last) ← headerStmts
    let subject ← switchSubject last
    pure (init, subject)

/-- Reads a switch statement. -/
def switchStmt : Production P (Stmt P) := do
  let keyword ← mark .kwSwitch
  let (init, subject) ← switchHeader
  let lBrace ← mark .lBrace
  match subject with
  | .values tag =>
      let clauses ← caseClauses fun keyword => do
        let exprs ← exprList
        pure (.exprCase keyword exprs)
      let rBrace ← mark .rBrace
      pure (.exprSwitch keyword (.ofOption init) (.ofOption tag) lBrace clauses rBrace)
  | .types guard =>
      let clauses ← caseClauses fun keyword => do
        let types ← typeList
        pure (.typeCase keyword types)
      let rBrace ← mark .rBrace
      pure (.typeSwitch keyword (.ofOption init) guard lBrace clauses rBrace)

/-- Reads what a case of a select statement binds, if anything. -/
def commBinding : Production P (Option (Tree P (.one .bindingList) × Mark P)) := do
  let cursor ← .look
  if cursor.occurBefore .colon [.assign] then some <$> boundExprs
  else if cursor.occurBefore .colon [.define] then some <$> boundNames
  else pure none

/-- Reads the communication of a case. -/
def communication : Production P (SimpleStmt P) := do
  let bound ← commBinding
  let expr ← expr
  match bound with
  | some (list, op) => pure (.receive (.present (.binding list op)) expr)
  | none =>
      let arrow ← mark? .arrow
      match arrow with
      | some arrow =>
          let value ← Production.expr
          pure (.send expr arrow value)
      | none => pure (.receive .absent expr)

/-- Reads a select statement. -/
def selectStmt : Production P (Stmt P) := do
  let keyword ← mark .kwSelect
  let lBrace ← mark .lBrace
  let clauses ← caseClauses fun keyword => do
    let stmt ← communication
    build (Tree.commCase? keyword stmt)
  let rBrace ← mark .rBrace
  pure (.selectStmt keyword lBrace clauses rBrace)

/-! ## Statements -/

/-- Reads a statement and the end of its line. -/
def terminated (stmt : Production P (Stmt P)) : Production P (Stmt P) := do
  let stmt ← stmt
  semicolon
  pure stmt

/-- Reads a labelled statement, from behind its label. -/
def labeledTail (label : ExprList P) : Production P (Stmt P) :=
  match label.exprs with
  | [.ident label] => do
      let colon ← mark .colon
      let cursor ← .look
      let (stmt : Stmt P) ←
        if cursor.token = .rBrace then pure (.simple (.emptyStmt cursor.pos))
        else .nested (.call .stmt)
      pure (.labeled label colon stmt)
  | _ => .refuse .labelExpected

/-- Reads a statement that begins with expressions. -/
def exprLedStmt : Production P (Stmt P) := do
  let exprs ← exprList
  let cursor ← .look
  if cursor.token = .colon then labeledTail exprs
  else
    let stmt ← simpleTail exprs
    semicolon
    pure (.simple stmt)

/-- The tokens that can start a statement by starting an expression. -/
def startsExprStmt : Token -> Bool
  | .ident | .intLit | .floatLit | .imagLit | .runeLit | .stringLit | .rawStringLit
  | .plus | .minus | .bang | .caret | .star | .amp | .arrow
  | .kwFunc | .lParen | .lBrack | .kwStruct | .kwMap | .kwChan | .kwInterface => true
  | _ => false

/-- Reads the results of a function if there are any. -/
def results? : Production P (Tree P (.maybe .exprList)) := do
  let cursor ← .look
  if cursor.atAny [.semi, .rBrace] then pure .absent
  else
    let results ← exprList
    pure (.present results)

/-- Reads a statement that its keyword introduces, without the end of its line. -/
def keywordStmt : Token -> Option (Production P (Stmt P))
  | .lBrace => some do
      let body ← block
      pure (.blockStmt body)
  | .kwIf => some do
      let (stmt : IfStmt P) ← .call .ifStmt
      pure (.conditional stmt)
  | .kwFor => some forStmt
  | .kwSwitch => some switchStmt
  | .kwSelect => some selectStmt
  | .kwGo => some do
      let keyword ← mark .kwGo
      let call ← callOnly
      pure (.goStmt keyword call)
  | .kwDefer => some do
      let keyword ← mark .kwDefer
      let call ← callOnly
      pure (.deferStmt keyword call)
  | .kwReturn => some do
      let keyword ← mark .kwReturn
      let results ← results?
      pure (.returnStmt keyword results)
  | .kwGoto => some do
      let keyword ← mark .kwGoto
      let label ← ident
      pure (.gotoStmt keyword label)
  | .kwBreak => some do
      let keyword ← mark .kwBreak
      let label ← ident?
      pure (.breakStmt keyword label)
  | .kwContinue => some do
      let keyword ← mark .kwContinue
      let label ← ident?
      pure (.continueStmt keyword label)
  | .kwFallthrough => some do
      let keyword ← mark .kwFallthrough
      pure (.fallthroughStmt keyword)
  | _ => none

/-- The rule for statements. -/
def stmtRule : Production P (Stmt P) := do
  let cursor ← .look
  match keywordStmt cursor.token with
  | some stmt => terminated stmt
  | none =>
      match cursor.token with
      | .kwVar | .kwConst | .kwType =>
          let decl ← decl
          pure (.declStmt decl)
      | .semi =>
          let lexeme ← .advance
          pure (.simple (.emptyStmt lexeme.pos))
      | token =>
          if startsExprStmt token then exprLedStmt
          else .refuse (.stmtExpected token)

end Production
end GoFront
