import GoFront.Tree.Construct
import GoFront.Tree.TypeReading

/-!
# The lexemes that a tree mentions

A tree keeps names, literals, keywords, operators and brackets as leaves. Its outline lists the leaves
in the order of the text, and among them the few tokens that the shape of a tree implies although no
leaf records them: the point of a qualified name, the sign before the values of constants and
variables, and the bars of a union. Commas and semicolons are never mentioned.
-/

namespace GoFront

variable {P : Type}

/-! ## Leaves as lexemes -/

/-- A name as it was written. -/
def Ident.lexeme (name : Ident P) : Lexeme P :=
  ⟨.ident, name.pos, some name.name⟩

/-- A keyword, an operator or a bracket as it was written. -/
def Mark.lexeme (mark : Mark P) : Lexeme P :=
  ⟨mark.token, mark.pos, none⟩

/-- The token of a kind of literal. -/
def LitKind.token : LitKind -> Token
  | int => .intLit
  | float => .floatLit
  | imag => .imagLit
  | rune => .runeLit
  | string => .stringLit
  | rawString => .rawStringLit

/-- A literal as it was written. -/
def BasicLit.lexeme (literal : BasicLit P) : Lexeme P :=
  ⟨literal.kind.token, literal.pos, some literal.raw⟩

/-! ## Outlines -/

/-- What a tree says about one lexeme: a leaf records it, or the shape of the tree implies its
token. -/
inductive Mention (P : Type)
  | leaf (lexeme : Lexeme P)
  | implied (token : Token)
  deriving DecidableEq, Repr

namespace Mention

/-- The lexeme that a leaf records. -/
def lexeme? : Mention P -> Option (Lexeme P)
  | leaf lexeme => some lexeme
  | implied _ => none

/-- The lexemes that leaves record. -/
def leaves (mentions : List (Mention P)) : List (Lexeme P) :=
  mentions.filterMap lexeme?

@[simp] theorem leaves_nil : leaves ([] : List (Mention P)) = [] := rfl

@[simp] theorem leaves_append (first second : List (Mention P)) :
    leaves (first ++ second) = leaves first ++ leaves second :=
  List.filterMap_append

@[simp] theorem leaves_leaf
    (lexeme : Lexeme P)
    (rest : List (Mention P)) :
    leaves (leaf lexeme :: rest) = lexeme :: leaves rest := rfl

@[simp] theorem leaves_implied
    (token : Token)
    (rest : List (Mention P)) :
    leaves (implied token :: rest) = leaves rest := rfl

end Mention

/-- A name as a leaf. -/
def Ident.mention (name : Ident P) : Mention P :=
  .leaf name.lexeme

/-- A keyword, an operator or a bracket as a leaf. -/
def Mark.mention (mark : Mark P) : Mention P :=
  .leaf mark.lexeme

/-- A literal as a leaf. -/
def BasicLit.mention (literal : BasicLit P) : Mention P :=
  .leaf literal.lexeme

/-- The name of an import as a leaf. -/
def ImportName.mention : ImportName P -> Mention P
  | ident name => name.mention
  | dot mark => mark.mention

/-- The leaves of what a type switch binds. -/
def GuardBinding.outline (binding : GuardBinding P) : List (Mention P) :=
  [binding.name.mention, binding.define.mention]

namespace Tree

/-- The leaves of a tree in the order of the text, with the tokens that its shape implies. Every term
of a union stands behind a bar, of which the first is none. -/
def outline : {slot : Slot} -> Tree P slot -> List (Mention P)
  | _, nil | _, absent => []
  | _, cons head tail => head.outline ++ tail.outline
  | _, present tree => tree.outline
  -- expressions
  | _, ident name => [name.mention]
  | _, basicLit literal => [literal.mention]
  | _, compositeLit type lBrace elements rBrace =>
      type.outline ++ lBrace.mention :: (elements.outline ++ [rBrace.mention])
  | _, funcLit type body => type.outline ++ body.outline
  | _, callExpr invocation => invocation.outline
  | _, index base lBrack subscript rBrack =>
      base.outline ++ lBrack.mention :: (subscript.outline ++ [rBrack.mention])
  | _, instantiation base args => base.outline ++ args.outline
  | _, simpleSlice base lBrack low colon high rBrack =>
      base.outline ++ lBrack.mention :: (low.outline
        ++ colon.mention :: (high.outline ++ [rBrack.mention]))
  | _, fullSlice base lBrack low firstColon high secondColon max rBrack =>
      base.outline ++ lBrack.mention :: (low.outline
        ++ firstColon.mention :: (high.outline
          ++ secondColon.mention :: (max.outline ++ [rBrack.mention])))
  | _, selector base dot name => base.outline ++ [dot.mention, name.mention]
  | _, typeAssertion base dot lParen type rParen =>
      base.outline ++ dot.mention :: lParen.mention :: (type.outline ++ [rParen.mention])
  | _, typeQuery base dot lParen keyword rParen =>
      base.outline ++ [dot.mention, lParen.mention, keyword.mention, rParen.mention]
  | _, group lParen inner rParen => lParen.mention :: (inner.outline ++ [rParen.mention])
  | _, binary left op right => left.outline ++ op.mention :: right.outline
  | _, unary op operand => op.mention :: operand.outline
  | _, typeOperand type => type.outline
  | _, exprList exprs => exprs.outline
  | _, call func lParen args ellipsis rParen =>
      func.outline ++ lParen.mention :: (args.outline
        ++ ((ellipsis.map Mark.mention).toList ++ [rParen.mention]))
  | _, element key value => key.outline ++ value.outline
  | _, elementKey key colon => key.outline ++ [colon.mention]
  | _, elementList elements => elements.outline
  -- types
  | _, namedType name => name.outline
  | _, arrayType lBrack length rBrack elem =>
      lBrack.mention :: (length.outline ++ rBrack.mention :: elem.outline)
  | _, countedArrayType lBrack ellipsis rBrack elem =>
      lBrack.mention :: ellipsis.mention :: rBrack.mention :: elem.outline
  | _, sliceType lBrack rBrack elem => lBrack.mention :: rBrack.mention :: elem.outline
  | _, mapType keyword lBrack key rBrack value =>
      keyword.mention :: lBrack.mention :: (key.outline ++ rBrack.mention :: value.outline)
  | _, chanType .recv keyword arrow elem =>
      (arrow.map Mark.mention).toList ++ keyword.mention :: elem.outline
  | _, chanType _ keyword arrow elem =>
      keyword.mention :: ((arrow.map Mark.mention).toList ++ elem.outline)
  | _, functionType type => type.outline
  | _, structType keyword lBrace fields rBrace =>
      keyword.mention :: lBrace.mention :: (fields.outline ++ [rBrace.mention])
  | _, interfaceType keyword lBrace elems rBrace =>
      keyword.mention :: lBrace.mention :: (elems.outline ++ [rBrace.mention])
  | _, pointerType star elem => star.mention :: elem.outline
  | _, parenType lParen inner rParen => lParen.mention :: (inner.outline ++ [rParen.mention])
  | _, typeList types => types.outline
  | _, typeName none name args => name.mention :: args.outline
  | _, typeName (some package) name args =>
      package.mention :: .implied .dot :: name.mention :: args.outline
  | _, typeArgs lBrack types rBrack => lBrack.mention :: (types.outline ++ [rBrack.mention])
  | _, funcType keyword shape => keyword.mention :: shape.outline
  | _, namedField names type tag =>
      names.map Ident.mention ++ (type.outline ++ (tag.map BasicLit.mention).toList)
  | _, embeddedField star type tag =>
      (star.map Mark.mention).toList ++ (type.outline ++ (tag.map BasicLit.mention).toList)
  | _, method name shape => name.mention :: shape.outline
  | _, constraint elem => elem.outline
  | _, typeElem terms => terms.outline.tail
  | _, exactTerm type => .implied .pipe :: type.outline
  | _, underlyingTerm tilde type => .implied .pipe :: tilde.mention :: type.outline
  -- signatures and type parameters
  | _, signature inputs result => inputs.outline ++ result.outline
  | _, resultParams outputs => outputs.outline
  | _, resultType type => type.outline
  | _, params lParen entries rParen => lParen.mention :: (entries.outline ++ [rParen.mention])
  | _, param names ellipsis type =>
      (names.getD []).map Ident.mention ++ ((ellipsis.map Mark.mention).toList ++ type.outline)
  | _, typeParams lBrack entries rBrack =>
      lBrack.mention :: (entries.outline ++ [rBrack.mention])
  | _, typeParam names bound => names.map Ident.mention ++ bound.outline
  -- statements
  | _, declStmt decl => decl.outline
  | _, blockStmt body => body.outline
  | _, conditional stmt => stmt.outline
  | _, forStmt keyword iteration body =>
      keyword.mention :: (iteration.outline ++ body.outline)
  | _, exprSwitch keyword init tag lBrace clauses rBrace =>
      keyword.mention :: (init.outline ++ (tag.outline
        ++ lBrace.mention :: (clauses.outline ++ [rBrace.mention])))
  | _, typeSwitch keyword init subject lBrace clauses rBrace =>
      keyword.mention :: (init.outline ++ (subject.outline
        ++ lBrace.mention :: (clauses.outline ++ [rBrace.mention])))
  | _, selectStmt keyword lBrace clauses rBrace =>
      keyword.mention :: lBrace.mention :: (clauses.outline ++ [rBrace.mention])
  | _, labeled label colon stmt => label.mention :: colon.mention :: stmt.outline
  | _, goStmt keyword invocation | _, deferStmt keyword invocation =>
      keyword.mention :: invocation.outline
  | _, returnStmt keyword results => keyword.mention :: results.outline
  | _, gotoStmt keyword label => [keyword.mention, label.mention]
  | _, breakStmt keyword label | _, continueStmt keyword label =>
      keyword.mention :: (label.map Ident.mention).toList
  | _, fallthroughStmt keyword => [keyword.mention]
  | _, simple stmt => stmt.outline
  | _, stmtList stmts => stmts.outline
  | _, assignment left op right => left.outline ++ op.mention :: right.outline
  | _, shortVarDecl names define values =>
      names.map Ident.mention ++ define.mention :: values.outline
  | _, incDec expr op => expr.outline ++ [op.mention]
  | _, send channel arrow value => channel.outline ++ arrow.mention :: value.outline
  | _, receive bound expr => bound.outline ++ expr.outline
  | _, exprStmt expr => expr.outline
  | _, emptyStmt _ => []
  | _, block lBrace stmts rBrace => lBrace.mention :: (stmts.outline ++ [rBrace.mention])
  | _, ifStmt keyword init condition body elseBranch =>
      keyword.mention :: (init.outline ++ (condition.outline
        ++ (body.outline ++ elseBranch.outline)))
  | _, elseIf keyword stmt => keyword.mention :: stmt.outline
  | _, elseBlock keyword body => keyword.mention :: body.outline
  | _, whileTrue condition => condition.outline
  | _, forClause init condition post => init.outline ++ (condition.outline ++ post.outline)
  | _, rangeClause bound keyword expr => bound.outline ++ keyword.mention :: expr.outline
  | _, boundNames names => names.map Ident.mention
  | _, boundExprs exprs => exprs.outline
  | _, binding list op => list.outline ++ [op.mention]
  | _, guard bound expr => (bound.map GuardBinding.outline).getD [] ++ expr.outline
  | _, defaultCase keyword => [keyword.mention]
  | _, exprCase keyword exprs => keyword.mention :: exprs.outline
  | _, typeCase keyword types => keyword.mention :: types.outline
  | _, commCase keyword stmt => keyword.mention :: stmt.outline
  | _, caseClause label colon body => label.outline ++ colon.mention :: body.outline
  -- declarations
  | _, funcDecl keyword name generics shape body =>
      keyword.mention :: name.mention :: (generics.outline ++ (shape.outline ++ body.outline))
  | _, methodDecl keyword receiver name shape body =>
      keyword.mention :: (receiver.outline ++ name.mention :: (shape.outline ++ body.outline))
  | _, specified _ decl => decl.outline
  | _, specDecl _ keyword spec => keyword.mention :: spec.outline
  | _, importSpec name path => (name.map ImportName.mention).toList ++ [path.mention]
  | _, constSpec names type values | _, varSpec names type values =>
      names.map Ident.mention ++ (type.outline
        ++ match values with
          | absent => []
          | present values => .implied .assign :: values.outline)
  | _, varSpecOf spec => spec.outline
  | _, typeSpecOf spec => spec.outline
  | _, groupSpecOf spec => spec.outline
  | _, typeDef name generics type => name.mention :: (generics.outline ++ type.outline)
  | _, aliasDecl name assign type => name.mention :: assign.mention :: type.outline
  | _, groupSpec _ lParen specs rParen =>
      lParen.mention :: (specs.outline ++ [rParen.mention])

theorem outline_ofList {phrase : Phrase} (trees : List (Tree P (.one phrase))) :
    (ofList trees).outline = trees.flatMap outline := by
  induction trees with
  | nil => rfl
  | cons head tail inductionHypothesis =>
      rw [List.flatMap_cons, ← inductionHypothesis]
      rfl

theorem outline_toList :
    {phrase : Phrase} -> (tree : Tree P (.many phrase)) ->
      tree.outline = tree.toList.flatMap outline
  | _, nil => rfl
  | _, cons head tail => by
      rw [toList_cons, List.flatMap_cons, ← outline_toList tail]
      rfl

theorem outline_exprs (list : ExprList P) :
    list.outline = list.exprs.flatMap outline := by
  cases list with
  | exprList exprs => exact outline_toList exprs

/-- The lexemes that the leaves of a tree record. -/
def leaves {slot : Slot} (tree : Tree P slot) : List (Lexeme P) :=
  Mention.leaves tree.outline

end Tree
end GoFront
