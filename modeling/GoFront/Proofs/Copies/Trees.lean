import GoFront.Proofs.Places.Trees

/-!
# Copies of trees

A tree can be copied to other places. On the way an assertion of a plain name can become a query: the
keyword `type` takes the place of the name that was asserted. How trees are put together and how they are
read as names and types does not change with that.
-/

namespace GoFront

variable {P Q : Type}

namespace Tree

/-- The place of the name that a type consists of, if the name at that place is asked for. -/
def askedAt? (asks : P -> Bool) : TypeExpr P -> Option P
  | namedType (typeName none name absent) => if asks name.pos then some name.pos else none
  | _ => none

/-- An assertion of a type, or a query if there is a place for its keyword. -/
def assertion
    (base : Expr P)
    (dot lParen : Mark P)
    (type : TypeExpr P)
    (keyword : Option P)
    (rParen : Mark P) : Expr P :=
  match keyword with
  | none => typeAssertion base dot lParen type rParen
  | some pos => typeQuery base dot lParen ⟨.kwType, pos⟩ rParen

/-- Whether the tag of a switch is an assertion of a name that is asked for. -/
def becomesQuery (asks : P -> Bool) : Tree P (.maybe .expr) -> Bool
  | present (typeAssertion _ _ _ type _) => (type.askedAt? asks).isSome
  | _ => false

/-- A switch over the values of its tag, or over types if the tag is a query and there are no clauses. -/
def switchOver
    (isQuery : Bool)
    (keyword : Mark P)
    (init : Tree P (.maybe .simpleStmt))
    (tag : Tree P (.maybe .expr))
    (lBrace : Mark P)
    (clauses : Tree P (.many (.caseClause .values)))
    (rBrace : Mark P) : Stmt P :=
  match isQuery, tag, clauses with
  | true, present tag, nil => typeSwitch keyword init (guard none tag) lBrace nil rBrace
  | _, tag, clauses => exprSwitch keyword init tag lBrace clauses rBrace

/-- The same tree at another place, with queries for the assertions of the names that are asked for. -/
def copy (asks : P -> Bool) (move : P -> Q) : {slot : Slot} -> Tree P slot -> Tree Q slot
  -- slots with many phrases, or possibly one
  | _, nil => nil
  | _, cons head tail => cons (head.copy asks move) (tail.copy asks move)
  | _, absent => absent
  | _, present tree => present (tree.copy asks move)
  -- expressions
  | _, ident name => ident (name.map move)
  | _, basicLit literal => basicLit (literal.map move)
  | _, compositeLit type lBrace elements rBrace =>
      compositeLit (type.copy asks move) (lBrace.map move) (elements.copy asks move) (rBrace.map move)
  | _, funcLit type body => funcLit (type.copy asks move) (body.copy asks move)
  | _, callExpr invocation => callExpr (invocation.copy asks move)
  | _, index base lBrack subscript rBrack =>
      index (base.copy asks move) (lBrack.map move) (subscript.copy asks move) (rBrack.map move)
  | _, instantiation base args => instantiation (base.copy asks move) (args.copy asks move)
  | _, simpleSlice base lBrack low colon high rBrack =>
      simpleSlice (base.copy asks move) (lBrack.map move) (low.copy asks move) (colon.map move)
        (high.copy asks move) (rBrack.map move)
  | _, fullSlice base lBrack low firstColon high secondColon max rBrack =>
      fullSlice (base.copy asks move) (lBrack.map move) (low.copy asks move) (firstColon.map move)
        (high.copy asks move) (secondColon.map move) (max.copy asks move) (rBrack.map move)
  | _, selector base dot name => selector (base.copy asks move) (dot.map move) (name.map move)
  | _, typeAssertion base dot lParen type rParen =>
      assertion (base.copy asks move) (dot.map move) (lParen.map move) (type.copy asks move)
        ((type.askedAt? asks).map move) (rParen.map move)
  | _, typeQuery base dot lParen keyword rParen =>
      typeQuery (base.copy asks move) (dot.map move) (lParen.map move) (keyword.map move) (rParen.map move)
  | _, group lParen inner rParen => group (lParen.map move) (inner.copy asks move) (rParen.map move)
  | _, binary left op right => binary (left.copy asks move) (op.map move) (right.copy asks move)
  | _, unary op operand => unary (op.map move) (operand.copy asks move)
  | _, typeOperand type => typeOperand (type.copy asks move)
  | _, exprList exprs => exprList (exprs.copy asks move)
  | _, call func lParen args ellipsis rParen =>
      call (func.copy asks move) (lParen.map move) (args.copy asks move) (ellipsis.map (Mark.map move))
        (rParen.map move)
  | _, element key value => element (key.copy asks move) (value.copy asks move)
  | _, elementKey key colon => elementKey (key.copy asks move) (colon.map move)
  | _, elementList elements => elementList (elements.copy asks move)
  -- types
  | _, namedType name => namedType (name.copy asks move)
  | _, arrayType lBrack length rBrack elem =>
      arrayType (lBrack.map move) (length.copy asks move) (rBrack.map move) (elem.copy asks move)
  | _, countedArrayType lBrack ellipsis rBrack elem =>
      countedArrayType (lBrack.map move) (ellipsis.map move) (rBrack.map move) (elem.copy asks move)
  | _, sliceType lBrack rBrack elem => sliceType (lBrack.map move) (rBrack.map move) (elem.copy asks move)
  | _, mapType keyword lBrack key rBrack value =>
      mapType (keyword.map move) (lBrack.map move) (key.copy asks move) (rBrack.map move)
        (value.copy asks move)
  | _, chanType dir keyword arrow elem =>
      chanType dir (keyword.map move) (arrow.map (Mark.map move)) (elem.copy asks move)
  | _, functionType type => functionType (type.copy asks move)
  | _, structType keyword lBrace fields rBrace =>
      structType (keyword.map move) (lBrace.map move) (fields.copy asks move) (rBrace.map move)
  | _, interfaceType keyword lBrace elems rBrace =>
      interfaceType (keyword.map move) (lBrace.map move) (elems.copy asks move) (rBrace.map move)
  | _, pointerType star elem => pointerType (star.map move) (elem.copy asks move)
  | _, parenType lParen inner rParen => parenType (lParen.map move) (inner.copy asks move) (rParen.map move)
  | _, typeList types => typeList (types.copy asks move)
  | _, typeName package name args =>
      typeName (package.map (Ident.map move)) (name.map move) (args.copy asks move)
  | _, typeArgs lBrack types rBrack => typeArgs (lBrack.map move) (types.copy asks move) (rBrack.map move)
  | _, funcType keyword shape => funcType (keyword.map move) (shape.copy asks move)
  | _, namedField names type tag =>
      namedField (names.map (Ident.map move)) (type.copy asks move) (tag.map (BasicLit.map move))
  | _, embeddedField star type tag =>
      embeddedField (star.map (Mark.map move)) (type.copy asks move) (tag.map (BasicLit.map move))
  | _, method name shape => method (name.map move) (shape.copy asks move)
  | _, constraint elem => constraint (elem.copy asks move)
  | _, typeElem terms => typeElem (terms.copy asks move)
  | _, exactTerm type => exactTerm (type.copy asks move)
  | _, underlyingTerm tilde type => underlyingTerm (tilde.map move) (type.copy asks move)
  -- signatures and type parameters
  | _, signature entries result => signature (entries.copy asks move) (result.copy asks move)
  | _, resultParams entries => resultParams (entries.copy asks move)
  | _, resultType type => resultType (type.copy asks move)
  | _, params lParen entries rParen => params (lParen.map move) (entries.copy asks move) (rParen.map move)
  | _, param names ellipsis type =>
      param (names.map (List.map (Ident.map move))) (ellipsis.map (Mark.map move)) (type.copy asks move)
  | _, typeParams lBrack entries rBrack =>
      typeParams (lBrack.map move) (entries.copy asks move) (rBrack.map move)
  | _, typeParam names bound => typeParam (names.map (Ident.map move)) (bound.copy asks move)
  -- statements
  | _, declStmt decl => declStmt (decl.copy asks move)
  | _, blockStmt body => blockStmt (body.copy asks move)
  | _, conditional stmt => conditional (stmt.copy asks move)
  | _, forStmt keyword iteration body =>
      forStmt (keyword.map move) (iteration.copy asks move) (body.copy asks move)
  | _, exprSwitch keyword init tag lBrace clauses rBrace =>
      switchOver (tag.becomesQuery asks) (keyword.map move) (init.copy asks move) (tag.copy asks move)
        (lBrace.map move) (clauses.copy asks move) (rBrace.map move)
  | _, typeSwitch keyword init subject lBrace clauses rBrace =>
      typeSwitch (keyword.map move) (init.copy asks move) (subject.copy asks move) (lBrace.map move)
        (clauses.copy asks move) (rBrace.map move)
  | _, selectStmt keyword lBrace clauses rBrace =>
      selectStmt (keyword.map move) (lBrace.map move) (clauses.copy asks move) (rBrace.map move)
  | _, labeled label colon stmt => labeled (label.map move) (colon.map move) (stmt.copy asks move)
  | _, goStmt keyword invocation => goStmt (keyword.map move) (invocation.copy asks move)
  | _, deferStmt keyword invocation => deferStmt (keyword.map move) (invocation.copy asks move)
  | _, returnStmt keyword results => returnStmt (keyword.map move) (results.copy asks move)
  | _, gotoStmt keyword label => gotoStmt (keyword.map move) (label.map move)
  | _, breakStmt keyword label => breakStmt (keyword.map move) (label.map (Ident.map move))
  | _, continueStmt keyword label => continueStmt (keyword.map move) (label.map (Ident.map move))
  | _, fallthroughStmt keyword => fallthroughStmt (keyword.map move)
  | _, simple stmt => simple (stmt.copy asks move)
  | _, stmtList stmts => stmtList (stmts.copy asks move)
  | _, assignment left op right => assignment (left.copy asks move) (op.map move) (right.copy asks move)
  | _, shortVarDecl names define values =>
      shortVarDecl (names.map (Ident.map move)) (define.map move) (values.copy asks move)
  | _, incDec expr op => incDec (expr.copy asks move) (op.map move)
  | _, send channel arrow value => send (channel.copy asks move) (arrow.map move) (value.copy asks move)
  | _, receive bound expr => receive (bound.copy asks move) (expr.copy asks move)
  | _, exprStmt expr => exprStmt (expr.copy asks move)
  | _, emptyStmt pos => emptyStmt (move pos)
  | _, block lBrace stmts rBrace => block (lBrace.map move) (stmts.copy asks move) (rBrace.map move)
  | _, ifStmt keyword init condition body elseBranch =>
      ifStmt (keyword.map move) (init.copy asks move) (condition.copy asks move) (body.copy asks move)
        (elseBranch.copy asks move)
  | _, elseIf keyword stmt => elseIf (keyword.map move) (stmt.copy asks move)
  | _, elseBlock keyword body => elseBlock (keyword.map move) (body.copy asks move)
  | _, whileTrue condition => whileTrue (condition.copy asks move)
  | _, forClause init condition post =>
      forClause (init.copy asks move) (condition.copy asks move) (post.copy asks move)
  | _, rangeClause bound keyword expr =>
      rangeClause (bound.copy asks move) (keyword.map move) (expr.copy asks move)
  | _, boundNames names => boundNames (names.map (Ident.map move))
  | _, boundExprs exprs => boundExprs (exprs.copy asks move)
  | _, binding list op => binding (list.copy asks move) (op.map move)
  | _, guard bound expr => guard (bound.map (GuardBinding.map move)) (expr.copy asks move)
  | _, defaultCase keyword => defaultCase (keyword.map move)
  | _, exprCase keyword exprs => exprCase (keyword.map move) (exprs.copy asks move)
  | _, typeCase keyword types => typeCase (keyword.map move) (types.copy asks move)
  | _, commCase keyword stmt => commCase (keyword.map move) (stmt.copy asks move)
  | _, caseClause label colon body => caseClause (label.copy asks move) (colon.map move) (body.copy asks move)
  -- declarations
  | _, funcDecl keyword name generics shape body =>
      funcDecl (keyword.map move) (name.map move) (generics.copy asks move) (shape.copy asks move)
        (body.copy asks move)
  | _, methodDecl keyword receiver name shape body =>
      methodDecl (keyword.map move) (receiver.copy asks move) (name.map move) (shape.copy asks move)
        (body.copy asks move)
  | _, specified kind decl => specified kind (decl.copy asks move)
  | _, specDecl kind keyword spec => specDecl kind (keyword.map move) (spec.copy asks move)
  | _, importSpec name path => importSpec (name.map (ImportName.map move)) (path.map move)
  | _, constSpec names type values =>
      constSpec (names.map (Ident.map move)) (type.copy asks move) (values.copy asks move)
  | _, varSpecOf spec => varSpecOf (spec.copy asks move)
  | _, typeSpecOf spec => typeSpecOf (spec.copy asks move)
  | _, groupSpecOf spec => groupSpecOf (spec.copy asks move)
  | _, varSpec names type values =>
      varSpec (names.map (Ident.map move)) (type.copy asks move) (values.copy asks move)
  | _, typeDef name generics type => typeDef (name.map move) (generics.copy asks move) (type.copy asks move)
  | _, aliasDecl name assign type => aliasDecl (name.map move) (assign.map move) (type.copy asks move)
  | _, groupSpec kind lParen specs rParen =>
      groupSpec kind (lParen.map move) (specs.copy asks move) (rParen.map move)

variable (asks : P -> Bool) (move : P -> Q)

/-- What is the same for queries and assertions does not tell which of them a copy is. -/
theorem assertion_eq
    {α : Type}
    {base : Expr P}
    {dot lParen rParen : Mark P}
    {type : TypeExpr P}
    {keyword : Option P}
    {value : α}
    (read : Expr P -> α)
    (query : ∀ keyword, read (typeQuery base dot lParen keyword rParen) = value)
    (asserted : read (typeAssertion base dot lParen type rParen) = value) :
    read (assertion base dot lParen type keyword rParen) = value := by
  cases keyword with
  | none => exact asserted
  | some pos => exact query _

@[simp] theorem copy_ofList {phrase : Phrase} (trees : List (Tree P (.one phrase))) :
    (ofList trees).copy asks move = ofList (trees.map (copy asks move)) := by
  induction trees with
  | nil => rfl
  | cons head tail inductionHypothesis =>
      change cons (head.copy asks move) ((ofList tail).copy asks move) = _
      rw [inductionHypothesis]
      rfl

@[simp] theorem copy_ofOption {phrase : Phrase} (tree : Option (Tree P (.one phrase))) :
    (ofOption tree).copy asks move = ofOption (tree.map (copy asks move)) := by
  cases tree <;> rfl

@[simp] theorem toList_copy {phrase : Phrase} (tree : Tree P (.many phrase)) :
    (tree.copy asks move).toList = tree.toList.map (copy asks move) := by
  match tree with
  | nil => rfl
  | cons head tail => exact congrArg (head.copy asks move :: ·) (toList_copy tail)

@[simp] theorem exprs_copy (list : ExprList P) :
    exprs (list.copy asks move) = (exprs list).map (copy asks move) := by
  cases list with
  | exprList exprs => exact toList_copy asks move exprs

theorem askedAt?_eq_none
    (faithful : ∀ pos, asks pos = false)
    (type : TypeExpr P) :
    type.askedAt? asks = none := by
  unfold askedAt?
  split
  · rw [faithful]
    rfl
  · rfl

theorem becomesQuery_eq_false
    (faithful : ∀ pos, asks pos = false)
    (tag : Tree P (.maybe .expr)) :
    tag.becomesQuery asks = false := by
  cases tag with
  | absent => rfl
  | present expr =>
      cases expr with
      | typeAssertion base dot lParen type rParen =>
          exact congrArg Option.isSome (askedAt?_eq_none asks faithful type)
      | _ => rfl

/-- If nothing is asked for, a copy is the same tree at another place. -/
theorem copy_eq_map
    (faithful : ∀ pos, asks pos = false)
    {slot : Slot}
    (tree : Tree P slot) :
    tree.copy asks move = tree.map move := by
  induction tree
  case typeAssertion base dot lParen type rParen baseHypothesis typeHypothesis =>
    change assertion (base.copy asks move) _ _ (type.copy asks move) ((type.askedAt? asks).map move) _ = _
    rw [askedAt?_eq_none asks faithful, baseHypothesis, typeHypothesis]
    rfl
  case exprSwitch keyword init tag lBrace clauses rBrace initHypothesis tagHypothesis clausesHypothesis =>
    change switchOver (tag.becomesQuery asks) _ (init.copy asks move) (tag.copy asks move) _
      (clauses.copy asks move) _ = _
    rw [becomesQuery_eq_false asks faithful, initHypothesis, tagHypothesis, clausesHypothesis]
    rfl
  all_goals conv => lhs; whnf
  all_goals conv => rhs; whnf
  all_goals congr 1

theorem askedAt?_map
    {R : Type}
    (asks : Q -> Bool)
    (further : Q -> R)
    (type : TypeExpr P) :
    ((type.map move).askedAt? asks).map further
      = (type.askedAt? (asks ∘ move)).map (further ∘ move) := by
  cases type with
  | namedType name =>
      cases name with
      | typeName package name args =>
          cases package <;> cases args
          case none.absent =>
            change Option.map further (if asks (move name.pos) then some (move name.pos) else none)
              = Option.map (further ∘ move) (if asks (move name.pos) then some name.pos else none)
            split <;> rfl
          all_goals rfl
  | _ => rfl

theorem becomesQuery_map
    (asks : Q -> Bool)
    (tag : Tree P (.maybe .expr)) :
    (tag.map move).becomesQuery asks = tag.becomesQuery (asks ∘ move) := by
  cases tag with
  | absent => rfl
  | present expr =>
      cases expr with
      | typeAssertion base dot lParen type rParen =>
          have same := congrArg Option.isSome (askedAt?_map move asks id type)
          rwa [Option.isSome_map, Option.isSome_map] at same
      | _ => rfl

theorem switchOver_map
    (isQuery : Bool)
    (keyword : Mark P)
    (init : Tree P (.maybe .simpleStmt))
    (tag : Tree P (.maybe .expr))
    (lBrace : Mark P)
    (clauses : Tree P (.many (.caseClause .values)))
    (rBrace : Mark P) :
    (switchOver isQuery keyword init tag lBrace clauses rBrace).map move
      = switchOver isQuery (keyword.map move) (init.map move) (tag.map move) (lBrace.map move)
        (clauses.map move) (rBrace.map move) := by
  cases isQuery <;> cases tag <;> cases clauses <;> rfl

/-- To copy a tree from another place is to copy it from here. -/
theorem map_copy
    {R : Type}
    (asks : Q -> Bool)
    (further : Q -> R)
    {slot : Slot}
    (tree : Tree P slot) :
    (tree.map move).copy asks further = tree.copy (asks ∘ move) (further ∘ move) := by
  induction tree
  case typeAssertion base dot lParen type rParen baseHypothesis typeHypothesis =>
    change assertion ((base.map move).copy asks further) _ _ ((type.map move).copy asks further)
        (((type.map move).askedAt? asks).map further) _
      = assertion (base.copy (asks ∘ move) (further ∘ move)) _ _ (type.copy (asks ∘ move) (further ∘ move))
        ((type.askedAt? (asks ∘ move)).map (further ∘ move)) _
    rw [baseHypothesis, typeHypothesis, askedAt?_map]
    rfl
  case exprSwitch keyword init tag lBrace clauses rBrace initHypothesis tagHypothesis clausesHypothesis =>
    change switchOver ((tag.map move).becomesQuery asks) _ ((init.map move).copy asks further)
      ((tag.map move).copy asks further) _ ((clauses.map move).copy asks further) _ = _
    rw [becomesQuery_map, initHypothesis, tagHypothesis, clausesHypothesis]
    rfl
  all_goals conv => lhs; whnf
  all_goals conv => rhs; whnf
  all_goals congr 1
  all_goals first
    | rfl
    | assumption
    | exact List.map_map
    | exact Option.map_map _ _ _
    | exact (Option.map_map _ _ _).trans (congrArg (Option.map · _) (Ident.names_comp move further))
    | exact (Option.map_map _ _ _).trans (congrArg (Option.map · _) (ImportName.map_comp move further))

/-- To move a copy is to copy to another place. -/
theorem copy_map
    {R : Type}
    (further : Q -> R)
    {slot : Slot}
    (tree : Tree P slot) :
    (tree.copy asks move).map further = tree.copy asks (further ∘ move) := by
  induction tree
  case typeAssertion base dot lParen type rParen baseHypothesis typeHypothesis =>
    change (assertion (base.copy asks move) _ _ (type.copy asks move)
        ((type.askedAt? asks).map move) _).map further
      = assertion (base.copy asks (further ∘ move)) _ _ (type.copy asks (further ∘ move))
        ((type.askedAt? asks).map (further ∘ move)) _
    rw [← baseHypothesis, ← typeHypothesis]
    cases type.askedAt? asks <;> rfl
  case exprSwitch keyword init tag lBrace clauses rBrace initHypothesis tagHypothesis clausesHypothesis =>
    change (switchOver (tag.becomesQuery asks) _ (init.copy asks move) (tag.copy asks move) _
      (clauses.copy asks move) _).map further = _
    rw [switchOver_map, initHypothesis, tagHypothesis, clausesHypothesis]
    rfl
  all_goals conv => lhs; whnf
  all_goals conv => rhs; whnf
  all_goals congr 1
  all_goals first
    | rfl
    | assumption
    | exact List.map_map
    | exact Option.map_map _ _ _
    | exact (Option.map_map _ _ _).trans (congrArg (Option.map · _) (Ident.names_comp move further))
    | exact (Option.map_map _ _ _).trans (congrArg (Option.map · _) (ImportName.map_comp move further))

/-! ## Reading copies -/

@[simp] theorem identOfExpr?_copy (expr : Expr P) :
    identOfExpr? (expr.copy asks move) = (identOfExpr? expr).map (Ident.map move) := by
  cases expr
  case typeAssertion => exact assertion_eq identOfExpr? (fun _ => rfl) rfl
  all_goals rfl

@[simp] theorem specKind_copy (spec : Spec P) :
    specKind (spec.copy asks move) = specKind spec := by
  cases spec with
  | groupSpecOf group => cases group; rfl
  | _ => rfl

@[simp] theorem isGroup_copy (spec : Spec P) :
    isGroup (spec.copy asks move) = isGroup spec := by
  cases spec <;> rfl

theorem withTypeArgs?_copy
    (args : Tree P (.one .typeArgs))
    (type : TypeExpr P) :
    withTypeArgs? (args.copy asks move) (type.copy asks move)
      = (withTypeArgs? args type).map (copy asks move) := by
  cases type with
  | namedType name =>
      cases name with
      | typeName package name args => cases args <;> rfl
  | _ => rfl

theorem readType?_copy {slot : Slot} (tree : Tree P slot) :
    (tree.copy asks move).readType? = tree.readType?.map (copy asks move) := by
  induction tree with
  | typeAssertion => exact assertion_eq readType? (fun _ => rfl) rfl
  | selector base dot name =>
      cases base
      case typeAssertion =>
        exact assertion_eq (fun base => (selector base _ _).readType?) (fun _ => rfl) rfl
      all_goals rfl
  | index base lBrack arg rBrack baseHypothesis argHypothesis =>
      change ((arg.copy asks move).readType?.bind fun arg => (base.copy asks move).readType?.bind _) = _
      rw [baseHypothesis, argHypothesis]
      change _ = (arg.readType?.bind fun arg => base.readType?.bind _).map _
      cases arg.readType? with
      | none => rfl
      | some arg =>
          cases base.readType? with
          | none => rfl
          | some base =>
              exact withTypeArgs?_copy asks move (typeArgs lBrack (typeList (cons arg nil)) rBrack) base
  | instantiation base args baseHypothesis _ =>
      change ((base.copy asks move).readType?.bind _) = _
      rw [baseHypothesis]
      change _ = (base.readType?.bind _).map _
      cases base.readType? with
      | none => rfl
      | some base => exact withTypeArgs?_copy asks move args base
  | unary op operand operandHypothesis =>
      change (if op.token = .star then (operand.copy asks move).readType?.bind _ else none) = _
      rw [operandHypothesis]
      change _ = (if op.token = .star then operand.readType?.bind _ else none).map _
      split
      · cases operand.readType? <;> rfl
      · rfl
  | group lParen inner rParen innerHypothesis =>
      change ((inner.copy asks move).readType?.bind _) = _
      rw [innerHypothesis]
      change _ = (inner.readType?.bind _).map _
      cases inner.readType? <;> rfl
  | exprSwitch keyword init tag lBrace clauses rBrace =>
      change (switchOver (tag.becomesQuery asks) _ _ (tag.copy asks move) _ (clauses.copy asks move)
        _).readType? = none
      cases tag.becomesQuery asks <;> cases tag.copy asks move <;> cases clauses.copy asks move <;> rfl
  | _ => rfl

/-- The copies of the items of a list are read as the items are if each one is. -/
theorem mapM_copy
    {α α' β β' : Type}
    {read : α -> Option β}
    {read' : α' -> Option β'}
    {copyItem : α -> α'}
    {copyResult : β -> β'}
    (each : ∀ item, read' (copyItem item) = (read item).map copyResult)
    (items : List α) :
    (items.map copyItem).mapM read' = (items.mapM read).map (List.map copyResult) := by
  induction items with
  | nil => rfl
  | cons item items inductionHypothesis =>
      rw [List.map_cons, List.mapM_cons, List.mapM_cons, inductionHypothesis, each]
      cases read item with
      | none => rfl
      | some result => cases items.mapM read <;> rfl

theorem readTypes_copy (exprs : List (Expr P)) :
    (exprs.map (copy asks move)).mapM readType? = (exprs.mapM readType?).map (List.map (copy asks move)) :=
  mapM_copy (readType?_copy asks move) exprs

theorem identsOfExprs_copy (exprs : List (Expr P)) :
    (exprs.map (copy asks move)).mapM identOfExpr?
      = (exprs.mapM identOfExpr?).map (List.map (Ident.map move)) :=
  mapM_copy (identOfExpr?_copy asks move) exprs

end Tree

theorem Ident.listOfExprs?_copy
    (asks : P -> Bool)
    (move : P -> Q)
    (list : ExprList P) :
    listOfExprs? (list.copy asks move) = (listOfExprs? list).map (List.map (Ident.map move)) := by
  rw [listOfExprs?, listOfExprs?, Tree.exprs_copy, Tree.identsOfExprs_copy]
  cases list.exprs.mapM Tree.identOfExpr? <;> rfl

/-! ## Putting copied parts together -/

namespace Tree

variable (asks : P -> Bool) (move : P -> Q)

/-- A copy of the body of an `else`. -/
def ElseBody.copy : ElseBody P -> ElseBody Q
  | conditional stmt => conditional (stmt.copy asks move)
  | block body => block (body.copy asks move)

theorem element?_copy
    (key : Option (Expr P))
    (colon : Option (Mark P))
    (value : Expr P) :
    element? (key.map (copy asks move)) (colon.map (Mark.map move)) (value.copy asks move)
      = (element? key colon value).map (copy asks move) := by
  cases key <;> cases colon <;> rfl

theorem varSpec?_copy
    (names : List (Ident P))
    (type : Tree P (.maybe .type))
    (values : Tree P (.maybe .exprList)) :
    varSpec? (names.map (Ident.map move)) (type.copy asks move) (values.copy asks move)
      = (varSpec? names type values).map (copy asks move) := by
  cases type <;> cases values <;> rfl

theorem groupSpec?_copy
    (kind : SpecKind)
    (lParen rParen : Mark P)
    (specs : List (Spec P)) :
    groupSpec? kind (lParen.map move) (specs.map (copy asks move)) (rParen.map move)
      = (groupSpec? kind lParen specs rParen).map (copy asks move) := by
  have same : (fun spec : Spec Q => spec.isGroup || spec.specKind ≠ kind) ∘ copy asks move
      = fun spec : Spec P => spec.isGroup || spec.specKind ≠ kind := by
    funext spec
    simp
  rw [groupSpec?, groupSpec?, List.find?_map, same]
  cases specs.find? fun spec => spec.isGroup || spec.specKind ≠ kind with
  | none =>
      change Except.ok (groupSpec kind _ (ofList (specs.map (copy asks move))) _) = _
      rw [← copy_ofList]
      rfl
  | some member =>
      change Except.error (InvalidNode.groupMismatch kind (member.copy asks move).specKind) = _
      rw [specKind_copy]
      rfl

theorem specDecl?_copy
    (kind : SpecKind)
    (keyword : Mark P)
    (spec : Spec P) :
    specDecl? kind (keyword.map move) (spec.copy asks move)
      = (specDecl? kind keyword spec).map (copy asks move) := by
  rw [specDecl?, specDecl?, specKind_copy]
  change (if keyword.token = kind.keyword && spec.specKind = kind then _ else _) = _
  split <;> rfl

theorem ifStmt?_copy
    (keyword : Mark P)
    (init : Tree P (.maybe .simpleStmt))
    (condition : Expr P)
    (body : Block P)
    (elseKeyword : Option (Mark P))
    (elseBody : Option (ElseBody P)) :
    ifStmt? (keyword.map move) (init.copy asks move) (condition.copy asks move) (body.copy asks move)
        (elseKeyword.map (Mark.map move)) (elseBody.map (ElseBody.copy asks move))
      = (ifStmt? keyword init condition body elseKeyword elseBody).map (copy asks move) := by
  match elseKeyword, elseBody with
  | some _, some (.conditional _) => rfl
  | some _, some (.block _) => rfl
  | some _, none => rfl
  | none, some _ => rfl
  | none, none => rfl

theorem rangeClause?_copy
    (list : Option (Tree P (.one .bindingList)))
    (op : Option (Mark P))
    (keyword : Mark P)
    (expr : Expr P) :
    rangeClause? (list.map (copy asks move)) (op.map (Mark.map move)) (keyword.map move)
        (expr.copy asks move)
      = (rangeClause? list op keyword expr).map (copy asks move) := by
  cases list <;> cases op <;> rfl

theorem commCase?_copy
    (keyword : Mark P)
    (stmt : SimpleStmt P) :
    commCase? (keyword.map move) (stmt.copy asks move)
      = (commCase? keyword stmt).map (copy asks move) := by
  cases stmt <;> rfl

end Tree

/-! ## Copies of what productions yield -/

/-- A copy of a literal body. -/
def LiteralBody.copy
    (asks : P -> Bool)
    (move : P -> Q)
    (body : LiteralBody P) : LiteralBody Q :=
  ⟨body.lBrace.map move, body.elements.copy asks move, body.rBrace.map move⟩

namespace Production

/-- A copy of the parts of a file. -/
def FileParts.copy
    (asks : P -> Bool)
    (move : P -> Q)
    (parts : FileParts P) : FileParts Q :=
  ⟨parts.package.map (PackageClause.map move), parts.imports.map (Tree.copy asks move),
    parts.decls.map (Tree.copy asks move)⟩

theorem FileParts.copy_eq_map
    {asks : P -> Bool}
    (faithful : ∀ pos, asks pos = false)
    (move : P -> Q) :
    copy asks move = map move := by
  have same {slot : Slot} : (Tree.copy asks move : Tree P slot -> Tree Q slot) = Tree.map move :=
    funext (Tree.copy_eq_map asks move faithful)
  funext parts
  simp only [copy, map, same]

/-- A copy of the subject of a switch. A tag that becomes a query makes it a switch over types. -/
def SwitchSubject.copy (asks : P -> Bool) (move : P -> Q) : SwitchSubject P -> SwitchSubject Q
  | values none => values none
  | values (some tag) =>
      if isTypeQuery (tag.copy asks move) then types (.guard none (tag.copy asks move))
      else values (some (tag.copy asks move))
  | types guard => types (guard.copy asks move)

namespace ParamEntry

variable (asks : P -> Bool) (move : P -> Q)

/-- A copy of an entry. -/
def copy : ParamEntry P -> ParamEntry Q
  | bare name => bare (name.map move)
  | unnamed ellipsis type => unnamed (ellipsis.map (Mark.map move)) (type.copy asks move)
  | named name ellipsis type =>
      named (name.map move) (ellipsis.map (Mark.map move)) (type.copy asks move)

theorem hasEllipsis_copy (entry : ParamEntry P) :
    (entry.copy asks move).hasEllipsis = entry.hasEllipsis := by
  cases entry with
  | bare _ => rfl
  | unnamed ellipsis _ => exact Option.isSome_map
  | named _ ellipsis _ => exact Option.isSome_map

theorem isNamed_copy (entry : ParamEntry P) :
    (entry.copy asks move).isNamed = entry.isNamed := by
  cases entry <;> rfl

theorem unnamedParam_copy (entry : ParamEntry P) :
    (entry.copy asks move).unnamedParam = entry.unnamedParam.copy asks move := by
  cases entry <;> rfl

theorem namedParams?_copy
    (pending : List (Ident P))
    (entries : List (ParamEntry P)) :
    namedParams? (pending.map (Ident.map move)) (entries.map (copy asks move))
      = (namedParams? pending entries).map (List.map (Tree.copy asks move)) := by
  induction entries generalizing pending with
  | nil => cases pending <;> rfl
  | cons entry rest inductionHypothesis =>
      cases entry with
      | bare name =>
          have longer := inductionHypothesis (pending ++ [name])
          rw [List.map_append] at longer
          cases pending <;> exact longer
      | unnamed ellipsis type => cases pending <;> rfl
      | named name ellipsis type =>
          have param : (Tree.param (some (pending ++ [name])) ellipsis type).copy asks move
              = .param (some (pending.map (Ident.map move) ++ [name.map move]))
                (ellipsis.map (Mark.map move)) (type.copy asks move) := by
            change Tree.param (some ((pending ++ [name]).map (Ident.map move))) _ _ = _
            rw [List.map_append]
            rfl
          have behind : namedParams? [] (rest.map (copy asks move)) = _ := inductionHypothesis []
          rw [List.map_cons, copy]
          rw [namedParams?.eq_4, namedParams?.eq_4, behind, Option.map_map, Option.map_map]
          congr 1
          funext params
          change _ = _ :: _
          rw [param]
          rfl

/-- Names and types are told apart in the same way in a copy. -/
theorem resolve_copy
    (variadic : Bool)
    (entries : List (ParamEntry P)) :
    resolve variadic (entries.map (copy asks move))
      = (resolve variadic entries).map (List.map (Tree.copy asks move)) := by
  have ellipsis : hasEllipsis ∘ copy asks move = hasEllipsis (P := P) := funext (hasEllipsis_copy asks move)
  have named : isNamed ∘ copy asks move = isNamed (P := P) := funext (isNamed_copy asks move)
  have unnamed : unnamedParam ∘ copy asks move = Tree.copy asks move ∘ unnamedParam :=
    funext (unnamedParam_copy asks move)
  have sameFixed : ((if variadic then (entries.map (copy asks move)).dropLast
      else entries.map (copy asks move)).any hasEllipsis)
        = (if variadic then entries.dropLast else entries).any hasEllipsis := by
    cases variadic <;> simp [List.any_map, ellipsis, ← List.map_dropLast]
  have pairs := namedParams?_copy asks move [] entries
  rw [List.map_nil] at pairs
  rw [resolve, resolve, sameFixed, List.any_map, named, pairs, List.map_map, unnamed]
  generalize (if variadic then entries.dropLast else entries) = fixed
  split
  · rfl
  · split
    · cases namedParams? [] entries <;> rfl
    · exact congrArg Except.ok List.map_map.symm

end ParamEntry
end Production
end GoFront
