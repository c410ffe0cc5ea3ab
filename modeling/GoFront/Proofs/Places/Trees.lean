import GoFront.Grammar.Statements

/-!
# Trees at other places

A tree can be moved: every leaf keeps what it says and stands at another place. So can the parts of a file.
-/

namespace GoFront

variable {P Q : Type}

/-! ## Moving leaves -/

/-- The same name at another place. -/
def Ident.map (move : P -> Q) (name : Ident P) : Ident Q :=
  ⟨name.name, move name.pos⟩

/-- The same mark at another place. -/
def Mark.map (move : P -> Q) (mark : Mark P) : Mark Q :=
  ⟨mark.token, move mark.pos⟩

/-- The same literal at another place. -/
def BasicLit.map (move : P -> Q) (literal : BasicLit P) : BasicLit Q :=
  ⟨literal.kind, literal.raw, move literal.pos⟩

/-- The same name of an import at another place. -/
def ImportName.map (move : P -> Q) : ImportName P -> ImportName Q
  | ident name => ident (name.map move)
  | dot mark => dot (mark.map move)

/-- The same binding at another place. -/
def GuardBinding.map (move : P -> Q) (bound : GuardBinding P) : GuardBinding Q :=
  ⟨bound.name.map move, bound.define.map move⟩

/-- Names that are moved twice are moved once. -/
theorem Ident.names_comp
    {R : Type}
    (move : P -> Q)
    (further : Q -> R) :
    List.map (Ident.map further) ∘ List.map (Ident.map move) = List.map (Ident.map (further ∘ move)) := by
  funext names
  exact List.map_map

theorem ImportName.map_comp
    {R : Type}
    (move : P -> Q)
    (further : Q -> R) :
    ImportName.map further ∘ ImportName.map move = ImportName.map (further ∘ move) := by
  funext name
  cases name <;> rfl

/-! ## Moving trees -/

namespace Tree

/-- The same tree at another place. -/
def map (move : P -> Q) : {slot : Slot} -> Tree P slot -> Tree Q slot
  -- slots with many phrases, or possibly one
  | _, nil => nil
  | _, cons head tail => cons (head.map move) (tail.map move)
  | _, absent => absent
  | _, present tree => present (tree.map move)
  -- expressions
  | _, ident name => ident (name.map move)
  | _, basicLit literal => basicLit (literal.map move)
  | _, compositeLit type lBrace elements rBrace =>
      compositeLit (type.map move) (lBrace.map move) (elements.map move) (rBrace.map move)
  | _, funcLit type body => funcLit (type.map move) (body.map move)
  | _, callExpr invocation => callExpr (invocation.map move)
  | _, index base lBrack subscript rBrack =>
      index (base.map move) (lBrack.map move) (subscript.map move) (rBrack.map move)
  | _, instantiation base args => instantiation (base.map move) (args.map move)
  | _, simpleSlice base lBrack low colon high rBrack =>
      simpleSlice (base.map move) (lBrack.map move) (low.map move) (colon.map move) (high.map move)
        (rBrack.map move)
  | _, fullSlice base lBrack low firstColon high secondColon max rBrack =>
      fullSlice (base.map move) (lBrack.map move) (low.map move) (firstColon.map move)
        (high.map move) (secondColon.map move) (max.map move) (rBrack.map move)
  | _, selector base dot name => selector (base.map move) (dot.map move) (name.map move)
  | _, typeAssertion base dot lParen type rParen =>
      typeAssertion (base.map move) (dot.map move) (lParen.map move) (type.map move)
        (rParen.map move)
  | _, typeQuery base dot lParen keyword rParen =>
      typeQuery (base.map move) (dot.map move) (lParen.map move) (keyword.map move)
        (rParen.map move)
  | _, group lParen inner rParen => group (lParen.map move) (inner.map move) (rParen.map move)
  | _, binary left op right => binary (left.map move) (op.map move) (right.map move)
  | _, unary op operand => unary (op.map move) (operand.map move)
  | _, typeOperand type => typeOperand (type.map move)
  | _, exprList exprs => exprList (exprs.map move)
  | _, call func lParen args ellipsis rParen =>
      call (func.map move) (lParen.map move) (args.map move) (ellipsis.map (Mark.map move))
        (rParen.map move)
  | _, element key value => element (key.map move) (value.map move)
  | _, elementKey key colon => elementKey (key.map move) (colon.map move)
  | _, elementList elements => elementList (elements.map move)
  -- types
  | _, namedType name => namedType (name.map move)
  | _, arrayType lBrack length rBrack elem =>
      arrayType (lBrack.map move) (length.map move) (rBrack.map move) (elem.map move)
  | _, countedArrayType lBrack ellipsis rBrack elem =>
      countedArrayType (lBrack.map move) (ellipsis.map move) (rBrack.map move) (elem.map move)
  | _, sliceType lBrack rBrack elem => sliceType (lBrack.map move) (rBrack.map move) (elem.map move)
  | _, mapType keyword lBrack key rBrack value =>
      mapType (keyword.map move) (lBrack.map move) (key.map move) (rBrack.map move) (value.map move)
  | _, chanType dir keyword arrow elem =>
      chanType dir (keyword.map move) (arrow.map (Mark.map move)) (elem.map move)
  | _, functionType type => functionType (type.map move)
  | _, structType keyword lBrace fields rBrace =>
      structType (keyword.map move) (lBrace.map move) (fields.map move) (rBrace.map move)
  | _, interfaceType keyword lBrace elems rBrace =>
      interfaceType (keyword.map move) (lBrace.map move) (elems.map move) (rBrace.map move)
  | _, pointerType star elem => pointerType (star.map move) (elem.map move)
  | _, parenType lParen inner rParen =>
      parenType (lParen.map move) (inner.map move) (rParen.map move)
  | _, typeList types => typeList (types.map move)
  | _, typeName package name args =>
      typeName (package.map (Ident.map move)) (name.map move) (args.map move)
  | _, typeArgs lBrack types rBrack => typeArgs (lBrack.map move) (types.map move) (rBrack.map move)
  | _, funcType keyword shape => funcType (keyword.map move) (shape.map move)
  | _, namedField names type tag =>
      namedField (names.map (Ident.map move)) (type.map move) (tag.map (BasicLit.map move))
  | _, embeddedField star type tag =>
      embeddedField (star.map (Mark.map move)) (type.map move) (tag.map (BasicLit.map move))
  | _, method name shape => method (name.map move) (shape.map move)
  | _, constraint elem => constraint (elem.map move)
  | _, typeElem terms => typeElem (terms.map move)
  | _, exactTerm type => exactTerm (type.map move)
  | _, underlyingTerm tilde type => underlyingTerm (tilde.map move) (type.map move)
  -- signatures and type parameters
  | _, signature entries result => signature (entries.map move) (result.map move)
  | _, resultParams entries => resultParams (entries.map move)
  | _, resultType type => resultType (type.map move)
  | _, params lParen entries rParen => params (lParen.map move) (entries.map move) (rParen.map move)
  | _, param names ellipsis type =>
      param (names.map (List.map (Ident.map move))) (ellipsis.map (Mark.map move)) (type.map move)
  | _, typeParams lBrack entries rBrack =>
      typeParams (lBrack.map move) (entries.map move) (rBrack.map move)
  | _, typeParam names bound => typeParam (names.map (Ident.map move)) (bound.map move)
  -- statements
  | _, declStmt decl => declStmt (decl.map move)
  | _, blockStmt body => blockStmt (body.map move)
  | _, conditional stmt => conditional (stmt.map move)
  | _, forStmt keyword iteration body =>
      forStmt (keyword.map move) (iteration.map move) (body.map move)
  | _, exprSwitch keyword init tag lBrace clauses rBrace =>
      exprSwitch (keyword.map move) (init.map move) (tag.map move) (lBrace.map move)
        (clauses.map move) (rBrace.map move)
  | _, typeSwitch keyword init subject lBrace clauses rBrace =>
      typeSwitch (keyword.map move) (init.map move) (subject.map move) (lBrace.map move)
        (clauses.map move) (rBrace.map move)
  | _, selectStmt keyword lBrace clauses rBrace =>
      selectStmt (keyword.map move) (lBrace.map move) (clauses.map move) (rBrace.map move)
  | _, labeled label colon stmt => labeled (label.map move) (colon.map move) (stmt.map move)
  | _, goStmt keyword invocation => goStmt (keyword.map move) (invocation.map move)
  | _, deferStmt keyword invocation => deferStmt (keyword.map move) (invocation.map move)
  | _, returnStmt keyword results => returnStmt (keyword.map move) (results.map move)
  | _, gotoStmt keyword label => gotoStmt (keyword.map move) (label.map move)
  | _, breakStmt keyword label => breakStmt (keyword.map move) (label.map (Ident.map move))
  | _, continueStmt keyword label => continueStmt (keyword.map move) (label.map (Ident.map move))
  | _, fallthroughStmt keyword => fallthroughStmt (keyword.map move)
  | _, simple stmt => simple (stmt.map move)
  | _, stmtList stmts => stmtList (stmts.map move)
  | _, assignment left op right => assignment (left.map move) (op.map move) (right.map move)
  | _, shortVarDecl names define values =>
      shortVarDecl (names.map (Ident.map move)) (define.map move) (values.map move)
  | _, incDec expr op => incDec (expr.map move) (op.map move)
  | _, send channel arrow value => send (channel.map move) (arrow.map move) (value.map move)
  | _, receive bound expr => receive (bound.map move) (expr.map move)
  | _, exprStmt expr => exprStmt (expr.map move)
  | _, emptyStmt pos => emptyStmt (move pos)
  | _, block lBrace stmts rBrace => block (lBrace.map move) (stmts.map move) (rBrace.map move)
  | _, ifStmt keyword init condition body elseBranch =>
      ifStmt (keyword.map move) (init.map move) (condition.map move) (body.map move)
        (elseBranch.map move)
  | _, elseIf keyword stmt => elseIf (keyword.map move) (stmt.map move)
  | _, elseBlock keyword body => elseBlock (keyword.map move) (body.map move)
  | _, whileTrue condition => whileTrue (condition.map move)
  | _, forClause init condition post =>
      forClause (init.map move) (condition.map move) (post.map move)
  | _, rangeClause bound keyword expr =>
      rangeClause (bound.map move) (keyword.map move) (expr.map move)
  | _, boundNames names => boundNames (names.map (Ident.map move))
  | _, boundExprs exprs => boundExprs (exprs.map move)
  | _, binding list op => binding (list.map move) (op.map move)
  | _, guard bound expr => guard (bound.map (GuardBinding.map move)) (expr.map move)
  | _, defaultCase keyword => defaultCase (keyword.map move)
  | _, exprCase keyword exprs => exprCase (keyword.map move) (exprs.map move)
  | _, typeCase keyword types => typeCase (keyword.map move) (types.map move)
  | _, commCase keyword stmt => commCase (keyword.map move) (stmt.map move)
  | _, caseClause label colon body => caseClause (label.map move) (colon.map move) (body.map move)
  -- declarations
  | _, funcDecl keyword name generics shape body =>
      funcDecl (keyword.map move) (name.map move) (generics.map move) (shape.map move)
        (body.map move)
  | _, methodDecl keyword receiver name shape body =>
      methodDecl (keyword.map move) (receiver.map move) (name.map move) (shape.map move)
        (body.map move)
  | _, specified kind decl => specified kind (decl.map move)
  | _, specDecl kind keyword spec => specDecl kind (keyword.map move) (spec.map move)
  | _, importSpec name path => importSpec (name.map (ImportName.map move)) (path.map move)
  | _, constSpec names type values =>
      constSpec (names.map (Ident.map move)) (type.map move) (values.map move)
  | _, varSpecOf spec => varSpecOf (spec.map move)
  | _, typeSpecOf spec => typeSpecOf (spec.map move)
  | _, groupSpecOf spec => groupSpecOf (spec.map move)
  | _, varSpec names type values =>
      varSpec (names.map (Ident.map move)) (type.map move) (values.map move)
  | _, typeDef name generics type => typeDef (name.map move) (generics.map move) (type.map move)
  | _, aliasDecl name assign type => aliasDecl (name.map move) (assign.map move) (type.map move)
  | _, groupSpec kind lParen specs rParen =>
      groupSpec kind (lParen.map move) (specs.map move) (rParen.map move)

variable (move : P -> Q)

@[simp] theorem map_ofList {phrase : Phrase} (trees : List (Tree P (.one phrase))) :
    (ofList trees).map move = ofList (trees.map (map move)) := by
  induction trees with
  | nil => rfl
  | cons head tail inductionHypothesis =>
      change cons (head.map move) ((ofList tail).map move) = _
      rw [inductionHypothesis]
      rfl

@[simp] theorem toList_map {phrase : Phrase} (tree : Tree P (.many phrase)) :
    (tree.map move).toList = tree.toList.map (map move) := by
  match tree with
  | nil => rfl
  | cons head tail => exact congrArg (head.map move :: ·) (toList_map tail)

/-- A tree that is moved nowhere stays the same. -/
@[simp] theorem map_id {slot : Slot} (tree : Tree P slot) :
    tree.map id = tree := by
  have names : List.map (Ident.map (id : P -> P)) = id := List.map_id_fun
  have importNames : ImportName.map (id : P -> P) = id := by
    funext name
    cases name <;> rfl
  induction tree <;> (conv => lhs; whnf)
  all_goals congr 1
  all_goals first
    | rfl
    | assumption
    | exact congrFun names _
    | exact congrFun Option.map_id_fun _
    | simp [names, importNames]

/-- Moving a tree twice moves it once. -/
@[simp] theorem map_map
    {R : Type}
    (further : Q -> R)
    {slot : Slot}
    (tree : Tree P slot) :
    (tree.map move).map further = tree.map (further ∘ move) := by
  induction tree <;> (conv => lhs; whnf) <;> (conv => rhs; whnf)
  all_goals congr 1
  all_goals first
    | rfl
    | assumption
    | exact List.map_map
    | exact Option.map_map _ _ _
    | exact (Option.map_map _ _ _).trans (congrArg (Option.map · _) (Ident.names_comp move further))
    | exact (Option.map_map _ _ _).trans (congrArg (Option.map · _) (ImportName.map_comp move further))

end Tree

/-! ## Moving files -/

/-- The same package clause at another place. -/
def PackageClause.map
    (move : P -> Q)
    (clause : PackageClause P) : PackageClause Q :=
  ⟨clause.keyword.map move, clause.name.map move⟩

namespace Production

/-- The same parts of a file at another place. -/
def FileParts.map
    (move : P -> Q)
    (parts : FileParts P) : FileParts Q :=
  ⟨parts.package.map (PackageClause.map move), parts.imports.map (Tree.map move),
    parts.decls.map (Tree.map move)⟩

theorem FileParts.map_id (parts : FileParts P) :
    parts.map id = parts := by
  have clause : PackageClause.map (id : P -> P) = id := rfl
  have imports : Tree.map id = (id : SpecDecl P .imports -> SpecDecl P .imports) :=
    funext Tree.map_id
  have decls : Tree.map id = (id : Decl P -> Decl P) := funext Tree.map_id
  simp [map, clause, imports, decls]

end Production
end GoFront
