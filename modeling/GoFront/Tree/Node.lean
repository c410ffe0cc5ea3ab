import GoFront.Tree.Basic

/-!
# Trees as labelled nodes

Tools that do not care about particular kinds of phrase see a tree as nodes with labelled fields. A
node has a name and, for some kinds, a grammatical category; where categories nest, the innermost one
is kept. A field is a child, a text, a place, or the absence of a child or of a list.
-/

namespace GoFront

mutual

/-- A node of the uniform view. -/
inductive Node (P : Type)
  | mk (category : Option String) (name : String) (fields : List (Field P))

/-- A labelled field of a node. A list of children is one field for each child. -/
inductive Field (P : Type)
  | child (label : String) (node : Node P)
  | leaf (label : String) (text : String)
  | place (label : String) (pos : P)
  | absent (label : String)
  | emptyList (label : String)

end

namespace Node

variable {P : Type}

/-- The grammatical category of a node. -/
def category : Node P -> Option String
  | mk category _ _ => category

/-- The name of a kind of node. -/
def name : Node P -> String
  | mk _ name _ => name

/-- The fields of a node. -/
def fields : Node P -> List (Field P)
  | mk _ _ fields => fields

/-- A node without a category. -/
def plain (name : String) (fields : List (Field P)) : Node P :=
  mk none name fields

/-- A node in a category, unless it has one already. -/
def within (category : String) : Node P -> Node P
  | mk inner name fields => mk (inner <|> some category) name fields

end Node

namespace Field

variable {P : Type}

/-- The fields of a list of children. -/
def children (label : String) (nodes : List (Node P)) : List (Field P) :=
  if nodes.isEmpty then [emptyList label] else nodes.map (child label)

/-- The field of a child that may be missing. -/
def optional (label : String) : Option (Node P) -> Field P
  | some node => child label node
  | none => absent label

end Field

variable {P : Type}

/-! ## Leaves -/

/-- A name as a node. -/
def Ident.node (ident : Ident P) : Node P :=
  .plain "Ident" [.place "pos" ident.pos, .leaf "name" ident.name]

/-- The fields of a mark. -/
def Mark.fields (mark : Mark P) : List (Field P) :=
  [.place "pos" mark.pos, .leaf "token" mark.token.display]

/-- A keyword as a node. -/
def Mark.keywordNode (mark : Mark P) : Node P :=
  .plain "Keyword" mark.fields

/-- An operator as a node. -/
def Mark.operatorNode (mark : Mark P) : Node P :=
  .plain "Operator" mark.fields

/-- A punctuation mark as a node. -/
def Mark.punctNode (mark : Mark P) : Node P :=
  .plain "Punct" mark.fields

/-- The name of a kind of literal. -/
def LitKind.name : LitKind -> String
  | int => "Int"
  | float => "Float"
  | imag => "Imag"
  | rune => "Rune"
  | string => "String"
  | rawString => "RawString"

/-- The name of a direction. -/
def ChanDir.name : ChanDir -> String
  | both => "Both"
  | send => "Send"
  | recv => "Recv"

/-- The name of a kind of spec. -/
def SpecKind.name : SpecKind -> String
  | imports => "Import"
  | vars => "Var"
  | consts => "Const"
  | types => "Type"

/-- The name of the declarations made of a kind of spec. -/
def SpecKind.declName (kind : SpecKind) : String :=
  kind.name ++ "Decl"

/-- A literal as a node. -/
def BasicLit.node (literal : BasicLit P) : Node P :=
  .plain "BasicLit"
    [.place "pos" literal.pos, .leaf "kind" literal.kind.name, .leaf "raw" literal.raw]

/-- A comment as a node. -/
def Comment.node (comment : Comment P) : Node P :=
  .plain "Comment"
    [.place "pos" comment.pos, .leaf "token" comment.token.display, .leaf "text" comment.text]

/-- A list of names as a node. -/
def Ident.listNode (idents : List (Ident P)) : Node P :=
  .plain "IdentList" (Field.children "idents" (idents.map Ident.node))

/-- The name of an import as a node. -/
def ImportName.node : ImportName P -> Node P
  | ident name => name.node
  | dot mark => mark.punctNode

/-- The binding of a type switch as a node. -/
def GuardBinding.node (binding : GuardBinding P) : Node P :=
  .plain "GuardBinding"
    [.child "ident" binding.name.node, .child "define" binding.define.operatorNode]

/-! ## Trees -/

/-- What a slot of the tree looks like in the uniform view. -/
def Slot.View (P : Type) : Slot -> Type
  | one _ => Node P
  | many _ => List (Node P)
  | maybe _ => Option (Node P)

/-- The uniform view of a tree. -/
def Tree.view : {slot : Slot} -> Tree P slot -> slot.View P
  | _, nil => ([] : List (Node P))
  | _, cons head tail => (head.view :: tail.view : List (Node P))
  | _, absent => (none : Option (Node P))
  | _, present tree => some tree.view
  -- expressions
  | _, ident name => name.node.within "PrimaryExpr"
  | _, basicLit literal => literal.node.within "PrimaryExpr"
  | _, compositeLit type lBrace elements rBrace =>
      .mk "PrimaryExpr" "CompositeLit"
        [.optional "ty" type.view, .child "l_brace" lBrace.punctNode,
          .child "elements" elements.view, .child "r_brace" rBrace.punctNode]
  | _, funcLit type body =>
      .mk "PrimaryExpr" "FuncLit" [.child "ty" type.view, .child "body" body.view]
  | _, callExpr invocation => Node.within "PrimaryExpr" invocation.view
  | _, index base lBrack subscript rBrack =>
      .mk "PrimaryExpr" "IndexExpr"
        [.child "expr" base.view, .child "l_brack" lBrack.punctNode,
          .child "index" subscript.view, .child "r_brack" rBrack.punctNode]
  | _, instantiation base args =>
      .mk "PrimaryExpr" "InstantiationExpr"
        [.child "expr" base.view, .child "type_args" args.view]
  | _, simpleSlice base lBrack low colon high rBrack =>
      .mk "PrimaryExpr" "SimpleSliceExpr"
        [.child "expr" base.view, .child "l_brack" lBrack.punctNode,
          .optional "low" low.view, .child "colon" colon.punctNode,
          .optional "high" high.view, .child "r_brack" rBrack.punctNode]
  | _, fullSlice base lBrack low firstColon high secondColon max rBrack =>
      .mk "PrimaryExpr" "FullSliceExpr"
        [.child "expr" base.view, .child "l_brack" lBrack.punctNode,
          .optional "low" low.view, .child "first_colon" firstColon.punctNode,
          .child "high" high.view, .child "second_colon" secondColon.punctNode,
          .child "max" max.view, .child "r_brack" rBrack.punctNode]
  | _, selector base dot name =>
      .mk "PrimaryExpr" "SelectorExpr"
        [.child "expr" base.view, .child "dot" dot.punctNode, .child "selector" name.node]
  | _, typeAssertion base dot lParen type rParen =>
      .mk "PrimaryExpr" "TypeAssertionExpr"
        [.child "expr" base.view, .child "dot" dot.punctNode,
          .child "l_paren" lParen.punctNode, .child "ty" type.view,
          .child "r_paren" rParen.punctNode]
  | _, typeQuery base dot lParen keyword rParen =>
      .mk "PrimaryExpr" "TypeAssertionExpr"
        [.child "expr" base.view, .child "dot" dot.punctNode,
          .child "l_paren" lParen.punctNode, .child "ty" keyword.keywordNode,
          .child "r_paren" rParen.punctNode]
  | _, group lParen inner rParen =>
      .mk "PrimaryExpr" "GroupExpr"
        [.child "l_paren" lParen.punctNode, .child "expr" inner.view,
          .child "r_paren" rParen.punctNode]
  | _, binary left op right =>
      .mk "Expr" "BinaryExpr"
        [.child "left" left.view, .child "op" op.operatorNode, .child "right" right.view]
  | _, unary op operand =>
      .mk "Expr" "UnaryExpr" [.child "op" op.operatorNode, .child "expr" operand.view]
  | _, typeOperand type => Node.within "Expr" type.view
  | _, exprList exprs => .plain "ExprList" (Field.children "exprs" exprs.view)
  | _, call func lParen args ellipsis rParen =>
      .plain "CallExpr"
        [.child "func" func.view, .child "l_paren" lParen.punctNode,
          .child "args" args.view, .optional "ellipsis" (ellipsis.map Mark.punctNode),
          .child "r_paren" rParen.punctNode]
  | _, element key value =>
      .plain "KeyedElement" [.optional "key" key.view, .child "element" value.view]
  | _, elementKey key colon =>
      .plain "ElementKey" [.child "key" key.view, .child "colon" colon.punctNode]
  | _, elementList elements => .plain "ElementList" (Field.children "elements" elements.view)
  -- types
  | _, namedType name => Node.within "Type" name.view
  | _, arrayType lBrack length rBrack elem =>
      .mk "TypeLit" "ArrayType"
        [.child "l_brack" lBrack.punctNode, .child "len" length.view,
          .child "r_brack" rBrack.punctNode, .child "elem" elem.view]
  | _, countedArrayType lBrack ellipsis rBrack elem =>
      .mk "TypeLit" "ArrayType"
        [.child "l_brack" lBrack.punctNode, .child "len" ellipsis.punctNode,
          .child "r_brack" rBrack.punctNode, .child "elem" elem.view]
  | _, sliceType lBrack rBrack elem =>
      .mk "TypeLit" "SliceType"
        [.child "l_brack" lBrack.punctNode, .child "r_brack" rBrack.punctNode,
          .child "elem" elem.view]
  | _, mapType keyword lBrack key rBrack value =>
      .mk "TypeLit" "MapType"
        [.child "keyword" keyword.keywordNode, .child "l_brack" lBrack.punctNode,
          .child "key" key.view, .child "r_brack" rBrack.punctNode,
          .child "value" value.view]
  | _, chanType dir keyword arrow elem =>
      .mk "TypeLit" "ChannelType"
        [.leaf "dir" dir.name, .child "keyword" keyword.keywordNode,
          .optional "arrow" (arrow.map Mark.operatorNode), .child "elem" elem.view]
  | _, functionType type => Node.within "TypeLit" type.view
  | _, structType keyword lBrace fields rBrace =>
      .mk "TypeLit" "StructType"
        ([.child "keyword" keyword.keywordNode, .child "l_brace" lBrace.punctNode]
          ++ Field.children "fields" fields.view ++ [.child "r_brace" rBrace.punctNode])
  | _, interfaceType keyword lBrace elems rBrace =>
      .mk "TypeLit" "InterfaceType"
        ([.child "keyword" keyword.keywordNode, .child "l_brace" lBrace.punctNode]
          ++ Field.children "elems" elems.view ++ [.child "r_brace" rBrace.punctNode])
  | _, pointerType star elem =>
      .mk "TypeLit" "PointerType" [.child "star" star.punctNode, .child "elem" elem.view]
  | _, parenType lParen inner rParen =>
      .mk "TypeLit" "ParenType"
        [.child "l_paren" lParen.punctNode, .child "ty" inner.view,
          .child "r_paren" rParen.punctNode]
  | _, typeList types => .plain "TypeList" (Field.children "types" types.view)
  | _, typeName package name args =>
      .plain "TypeName"
        [.optional "package" (package.map Ident.node), .child "name" name.node,
          .optional "type_args" args.view]
  | _, typeArgs lBrack types rBrack =>
      .plain "TypeArgs"
        [.child "l_brack" lBrack.punctNode, .child "types" types.view,
          .child "r_brack" rBrack.punctNode]
  | _, funcType keyword shape =>
      .plain "FuncType"
        [.child "keyword" keyword.keywordNode, .child "signature" shape.view]
  | _, namedField names type tag =>
      .plain "NamedFieldDecl"
        [.child "idents" (Ident.listNode names), .child "ty" type.view,
          .optional "tag" (tag.map BasicLit.node)]
  | _, embeddedField star type tag =>
      .plain "EmbeddedFieldDecl"
        [.optional "star" (star.map Mark.punctNode), .child "type_name" type.view,
          .optional "tag" (tag.map BasicLit.node)]
  | _, method name shape =>
      .plain "MethodElem" [.child "name" name.node, .child "signature" shape.view]
  | _, constraint elem => elem.view
  | _, typeElem terms => .plain "TypeElem" (Field.children "terms" terms.view)
  | _, exactTerm type => type.view
  | _, underlyingTerm tilde type =>
      .plain "UnderlyingType" [.child "tilde" tilde.operatorNode, .child "ty" type.view]
  -- signatures and type parameters
  | _, signature inputs result =>
      .plain "Signature" [.child "params" inputs.view, .optional "result" result.view]
  | _, resultParams outputs => outputs.view
  | _, resultType type => type.view
  | _, params lParen entries rParen =>
      .plain "Params"
        (.child "l_paren" lParen.punctNode :: Field.children "params" entries.view
          ++ [.child "r_paren" rParen.punctNode])
  | _, param names ellipsis type =>
      .plain "ParamDecl"
        [.optional "idents" (names.map Ident.listNode),
          .optional "ellipsis" (ellipsis.map Mark.punctNode), .child "ty" type.view]
  | _, typeParams lBrack entries rBrack =>
      .plain "TypeParams"
        (.child "l_brack" lBrack.punctNode :: Field.children "params" entries.view
          ++ [.child "r_brack" rBrack.punctNode])
  | _, typeParam names bound =>
      .plain "TypeParamDecl"
        [.child "idents" (Ident.listNode names), .child "constraint" bound.view]
  -- statements
  | _, declStmt decl => Node.within "Stmt" decl.view
  | _, blockStmt body => Node.within "Stmt" body.view
  | _, conditional stmt => Node.within "Stmt" stmt.view
  | _, forStmt keyword iteration body =>
      .mk "Stmt" "ForStmt"
        [.child "keyword" keyword.keywordNode, .optional "iteration" iteration.view,
          .child "body" body.view]
  | _, exprSwitch keyword init tag lBrace clauses rBrace =>
      .mk "Stmt" "ExprSwitchStmt"
        ([.child "keyword" keyword.keywordNode, .optional "init" init.view,
            .optional "tag" tag.view, .child "l_brace" lBrace.punctNode]
          ++ Field.children "clauses" clauses.view ++ [.child "r_brace" rBrace.punctNode])
  | _, typeSwitch keyword init subject lBrace clauses rBrace =>
      .mk "Stmt" "TypeSwitchStmt"
        ([.child "keyword" keyword.keywordNode, .optional "init" init.view,
            .child "guard" subject.view, .child "l_brace" lBrace.punctNode]
          ++ Field.children "clauses" clauses.view ++ [.child "r_brace" rBrace.punctNode])
  | _, selectStmt keyword lBrace clauses rBrace =>
      .mk "Stmt" "SelectStmt"
        ([.child "keyword" keyword.keywordNode, .child "l_brace" lBrace.punctNode]
          ++ Field.children "clauses" clauses.view ++ [.child "r_brace" rBrace.punctNode])
  | _, labeled label colon stmt =>
      .mk "Stmt" "LabeledStmt"
        [.child "label" label.node, .child "colon" colon.punctNode, .child "stmt" stmt.view]
  | _, goStmt keyword invocation =>
      .mk "Stmt" "GoStmt" [.child "keyword" keyword.keywordNode, .child "call" invocation.view]
  | _, deferStmt keyword invocation =>
      .mk "Stmt" "DeferStmt" [.child "keyword" keyword.keywordNode, .child "call" invocation.view]
  | _, returnStmt keyword results =>
      .mk "Stmt" "ReturnStmt"
        [.child "keyword" keyword.keywordNode, .optional "results" results.view]
  | _, gotoStmt keyword label =>
      .mk "Stmt" "GotoStmt" [.child "keyword" keyword.keywordNode, .child "label" label.node]
  | _, breakStmt keyword label =>
      .mk "Stmt" "BreakStmt"
        [.child "keyword" keyword.keywordNode, .optional "label" (label.map Ident.node)]
  | _, continueStmt keyword label =>
      .mk "Stmt" "ContinueStmt"
        [.child "keyword" keyword.keywordNode, .optional "label" (label.map Ident.node)]
  | _, fallthroughStmt keyword =>
      .mk "Stmt" "FallthroughStmt" [.child "keyword" keyword.keywordNode]
  | _, simple stmt => Node.within "Stmt" stmt.view
  | _, stmtList stmts => .plain "StmtList" (Field.children "stmts" stmts.view)
  | _, assignment left op right =>
      .mk "SimpleStmt" "AssignmentStmt"
        [.child "lhs" left.view, .child "op" op.operatorNode, .child "rhs" right.view]
  | _, shortVarDecl names define values =>
      .mk "SimpleStmt" "ShortVarDecl"
        [.child "idents" (Ident.listNode names), .child "define" define.operatorNode,
          .child "values" values.view]
  | _, incDec expr op =>
      .mk "SimpleStmt" "IncDecStmt" [.child "expr" expr.view, .child "op" op.operatorNode]
  | _, send channel arrow value =>
      .mk "SimpleStmt" "SendStmt"
        [.child "channel" channel.view, .child "arrow" arrow.operatorNode,
          .child "value" value.view]
  | _, receive bound expr =>
      .mk "SimpleStmt" "RecvStmt"
        [.optional "binding" bound.view, .child "expr" expr.view]
  | _, exprStmt expr => .mk "SimpleStmt" "ExprStmt" [.child "expr" expr.view]
  | _, emptyStmt pos => .mk "SimpleStmt" "EmptyStmt" [.place "pos" pos]
  | _, block lBrace stmts rBrace =>
      .plain "BlockStmt"
        [.child "l_brace" lBrace.punctNode, .child "stmts" stmts.view,
          .child "r_brace" rBrace.punctNode]
  | _, ifStmt keyword init condition body elseBranch =>
      .plain "IfStmt"
        [.child "keyword" keyword.keywordNode, .optional "init" init.view,
          .child "cond" condition.view, .child "body" body.view,
          .optional "else_branch" elseBranch.view]
  | _, elseIf keyword stmt =>
      .plain "ElseBranch"
        [.child "keyword" keyword.keywordNode, .child "body" stmt.view]
  | _, elseBlock keyword body =>
      .plain "ElseBranch"
        [.child "keyword" keyword.keywordNode, .child "body" body.view]
  | _, whileTrue condition => condition.view
  | _, forClause init condition post =>
      .plain "ForClause"
        [.optional "init" init.view, .optional "cond" condition.view,
          .optional "post" post.view]
  | _, rangeClause bound keyword expr =>
      .plain "RangeClause"
        [.optional "binding" bound.view, .child "keyword" keyword.keywordNode,
          .child "expr" expr.view]
  | _, boundNames names => Ident.listNode names
  | _, boundExprs exprs => exprs.view
  | _, binding list op =>
      .plain "Binding" [.child "list" list.view, .child "op" op.operatorNode]
  | _, guard bound expr =>
      .plain "TypeSwitchGuard"
        [.optional "binding" (bound.map GuardBinding.node), .child "expr" expr.view]
  | _, defaultCase keyword =>
      .plain "DefaultCase" [.child "keyword" keyword.keywordNode]
  | _, exprCase keyword exprs =>
      .plain "ExprSwitchCase"
        [.child "keyword" keyword.keywordNode, .child "exprs" exprs.view]
  | _, typeCase keyword types =>
      .plain "TypeSwitchCase"
        [.child "keyword" keyword.keywordNode, .child "types" types.view]
  | _, commCase keyword stmt =>
      .plain "CommCase" [.child "keyword" keyword.keywordNode, .child "stmt" stmt.view]
  | _, caseClause label colon body =>
      .plain "CaseClause"
        [.child "label" label.view, .child "colon" colon.punctNode, .child "body" body.view]
  -- declarations
  | _, funcDecl keyword name generics shape body =>
      .mk "Decl" "FuncDecl"
        [.child "keyword" keyword.keywordNode, .child "name" name.node,
          .optional "type_params" generics.view, .child "signature" shape.view,
          .optional "body" body.view]
  | _, methodDecl keyword receiver name shape body =>
      .mk "Decl" "MethodDecl"
        [.child "keyword" keyword.keywordNode, .child "receiver" receiver.view,
          .child "name" name.node, .child "signature" shape.view,
          .optional "body" body.view]
  | _, specified _ decl => Node.within "Decl" decl.view
  | _, specDecl kind keyword spec =>
      .plain kind.declName
        [.child "keyword" keyword.keywordNode, .child "spec" spec.view]
  | _, importSpec name path =>
      .mk "Spec" "ImportSpec"
        [.optional "name" (name.map ImportName.node), .child "path" path.node]
  | _, constSpec names type values =>
      .mk "Spec" "ConstSpec"
        [.child "idents" (Ident.listNode names), .optional "ty" type.view,
          .optional "values" values.view]
  | _, varSpecOf spec => Node.within "Spec" spec.view
  | _, typeSpecOf spec => Node.within "Spec" spec.view
  | _, groupSpecOf spec => Node.within "Spec" spec.view
  | _, varSpec names type values =>
      .plain "VarSpec"
        [.child "idents" (Ident.listNode names), .optional "ty" type.view,
          .optional "values" values.view]
  | _, typeDef name generics type =>
      .plain "TypeDef"
        [.child "name" name.node, .optional "type_params" generics.view,
          .child "ty" type.view]
  | _, aliasDecl name assign type =>
      .plain "AliasDecl"
        [.child "name" name.node, .child "assign" assign.operatorNode, .child "ty" type.view]
  | _, groupSpec kind lParen specs rParen =>
      .plain "GroupSpec"
        ([.leaf "spec_type" kind.name, .child "l_paren" lParen.punctNode]
          ++ Field.children "specs" specs.view ++ [.child "r_paren" rParen.punctNode])

/-! ## Files -/

/-- The package clause as a node. -/
def PackageClause.node (clause : PackageClause P) : Node P :=
  .plain "PackageClause"
    [.child "keyword" clause.keyword.keywordNode, .child "name" clause.name.node]

/-- A file as a node. -/
def File.node (file : File P) : Node P :=
  .plain "File"
    ((file.filename.map (Field.leaf "filename")).getD (.absent "filename")
      :: .child "package" file.package.node
      :: Field.children "imports" file.imports.view
      ++ Field.children "decls" file.decls.view
      ++ Field.children "comments" (file.comments.map Comment.node))

end GoFront
