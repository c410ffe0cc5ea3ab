import GoFront.Proofs.Reading.Outline
import GoFront.Tree.Node

/-!
# What a walk tells about the text

A walk through the uniform view of a tree meets markers: names, keywords, operators, punctuation marks
and literals. Read from left to right they are the lexemes of the text, but for the arrow of a channel
that only receives, which stands before its keyword in the text and behind it in the view. A few tokens
have no marker although the view implies them. What the walk tells is the outline of the tree.
-/

namespace GoFront

variable {P : Type}

/-! ## Markers -/

/-- The kind of literal that a token is. -/
def LitKind.ofToken? : Token -> Option LitKind
  | .intLit => some .int
  | .floatLit => some .float
  | .imagLit => some .imag
  | .runeLit => some .rune
  | .stringLit => some .string
  | .rawStringLit => some .rawString
  | _ => none

@[simp] theorem LitKind.ofToken?_token (kind : LitKind) :
    ofToken? kind.token = some kind := by
  cases kind <;> rfl

/-- The fields of the marker of a lexeme: its place, and its token or its text. -/
def Lexeme.markerFields (lexeme : Lexeme P) : List (Field P) :=
  .place "pos" lexeme.pos :: match lexeme.literal, LitKind.ofToken? lexeme.token with
    | none, _ => [.leaf "token" lexeme.token.display]
    | some text, none => [.leaf "name" text]
    | some text, some kind => [.leaf "kind" kind.name, .leaf "raw" text]

/-- The names of the nodes that are markers. -/
def Node.markerNames : List String :=
  ["Ident", "Keyword", "Operator", "Punct", "BasicLit"]

/-- What a walk tells about one lexeme: a marker shows it, or the kind of a node implies its token. -/
inductive Trace (P : Type)
  | marker (fields : List (Field P))
  | implied (token : Token)

/-- The fields of the marker, if there is one. -/
def Trace.marker? : Trace P -> Option (List (Field P))
  | marker fields => some fields
  | implied _ => none

/-- What a walk tells about the fields of a node, in the order of the text. Fields are told one by one,
with four exceptions: the arrow of a receiving channel stands before the keyword, the package of a type
name is followed by a point, values follow the sign that gives them, and terms are separated by bars. -/
def Trace.arrange : (name : String) -> List (Field P) -> List (List (Trace P)) -> List (Trace P)
  | "ChannelType", .leaf _ "Recv" :: _, [dir, keyword, arrow, elem] =>
      dir ++ (arrow ++ (keyword ++ elem))
  | "TypeName", .child _ _ :: _, package :: rest => package ++ .implied .dot :: rest.flatten
  | "ConstSpec", [_, _, .child _ _], [names, type, values] =>
      names ++ (type ++ .implied .assign :: values)
  | "VarSpec", [_, _, .child _ _], [names, type, values] =>
      names ++ (type ++ .implied .assign :: values)
  | "TypeElem", _, terms => [Trace.implied .pipe].intercalate terms
  | _, _, parts => parts.flatten

mutual

/-- What a walk tells about a node. -/
def Node.traces : Node P -> List (Trace P)
  | .mk _ name fields =>
      if Node.markerNames.contains name then [.marker fields]
      else Trace.arrange name fields (Field.tracesEach fields)

/-- What a walk tells about each of several fields. -/
def Field.tracesEach : List (Field P) -> List (List (Trace P))
  | [] => []
  | field :: fields => field.traces :: Field.tracesEach fields

/-- What a walk tells about a field. -/
def Field.traces : Field P -> List (Trace P)
  | .child _ node => node.traces
  | .leaf _ _ | .place _ _ | .absent _ | .emptyList _ => []

end

/-- The fields of the markers that a walk meets, in the order of the text. -/
def Node.markers (node : Node P) : List (List (Field P)) :=
  node.traces.filterMap Trace.marker?

namespace Node

theorem traces_within
    (category : String)
    (node : Node P) :
    (node.within category).traces = node.traces := by
  cases node
  rfl

end Node

namespace Field

theorem tracesEach_append (first second : List (Field P)) :
    tracesEach (first ++ second) = tracesEach first ++ tracesEach second := by
  induction first with
  | nil => rfl
  | cons field fields inductionHypothesis =>
      exact congrArg (field.traces :: ·) inductionHypothesis

theorem tracesEach_map_child
    (label : String)
    (nodes : List (Node P)) :
    tracesEach (nodes.map (child label)) = nodes.map Node.traces := by
  induction nodes with
  | nil => rfl
  | cons node nodes inductionHypothesis =>
      exact congrArg (node.traces :: ·) inductionHypothesis

/-- A list of children is told child by child. -/
theorem flatten_tracesEach_children
    (label : String)
    (nodes : List (Node P)) :
    (tracesEach (children label nodes)).flatten = nodes.flatMap Node.traces := by
  cases nodes with
  | nil => rfl
  | cons node nodes =>
      change (tracesEach ((node :: nodes).map (child label))).flatten = _
      rw [tracesEach_map_child, List.flatMap_def]

end Field

/-! ## Mentions -/

namespace Mention

/-- What a walk tells about the lexeme of a mention. -/
def trace : Mention P -> Trace P
  | leaf lexeme => .marker lexeme.markerFields
  | implied token => .implied token

theorem filterMap_marker?_map_trace (mentions : List (Mention P)) :
    (mentions.map trace).filterMap Trace.marker? = (leaves mentions).map Lexeme.markerFields := by
  induction mentions with
  | nil => rfl
  | cons mention mentions inductionHypothesis =>
      cases mention with
      | leaf lexeme => exact congrArg (lexeme.markerFields :: ·) inductionHypothesis
      | implied _ => exact inductionHypothesis

end Mention

/-- Whether a walk tells of fields what an outline mentions. -/
def Field.Tells (fields : List (Field P)) (mentions : List (Mention P)) : Prop :=
  (Field.tracesEach fields).flatten = mentions.map Mention.trace

/-- A literal is told by its marker. -/
theorem BasicLit.traces_node (literal : BasicLit P) :
    literal.node.traces = [literal.mention.trace] := by
  obtain ⟨kind, raw, pos⟩ := literal
  cases kind <;> rfl

theorem ImportName.traces_node (name : ImportName P) :
    name.node.traces = [name.mention.trace] := by
  cases name <;> rfl

namespace Field.Tells

variable {fields : List (Field P)} {inner : Node P} {part mentions : List (Mention P)}
  {label : String}

theorem nil : Tells ([] : List (Field P)) [] := rfl

theorem skip
    {field : Field P}
    (silent : field.traces = [])
    (rest : Tells fields mentions) :
    Tells (field :: fields) mentions := by
  rw [Tells, ← rest]
  change field.traces ++ _ = _
  rw [silent]
  rfl

theorem leaf
    {mention : Mention P}
    (isLeaf : inner.traces = [mention.trace])
    (rest : Tells fields mentions) :
    Tells (.child label inner :: fields) (mention :: mentions) := by
  rw [Tells, List.map_cons, ← rest]
  change inner.traces ++ _ = _
  rw [isLeaf]
  rfl

theorem child
    (told : inner.traces = part.map Mention.trace)
    (rest : Tells fields mentions) :
    Tells (.child label inner :: fields) (part ++ mentions) := by
  rw [Tells, List.map_append, ← rest, ← told]
  rfl

theorem last (told : inner.traces = part.map Mention.trace) :
    Tells [.child label inner] part := by
  rw [← List.append_nil part]
  exact Tells.child told nil

theorem optional
    {inner : Option (Node P)}
    (told : inner.elim [] Node.traces = part.map Mention.trace)
    (rest : Tells fields mentions) :
    Tells (.optional label inner :: fields) (part ++ mentions) := by
  rw [Tells, List.map_append, ← rest, ← told]
  cases inner <;> rfl

theorem lastOptional
    {inner : Option (Node P)}
    (told : inner.elim [] Node.traces = part.map Mention.trace) :
    Tells [.optional label inner] part := by
  rw [← List.append_nil part]
  exact optional told nil

theorem several
    {nodes : List (Node P)}
    (told : nodes.flatMap Node.traces = part.map Mention.trace)
    (rest : Tells fields mentions) :
    Tells (Field.children label nodes ++ fields) (part ++ mentions) := by
  rw [Tells, List.map_append, ← rest, ← told, tracesEach_append, List.flatten_append,
    flatten_tracesEach_children]

theorem lastSeveral
    {nodes : List (Node P)}
    (told : nodes.flatMap Node.traces = part.map Mention.trace) :
    Tells (Field.children label nodes) part := by
  rw [Tells, ← told, flatten_tracesEach_children]

/-- A node whose fields are told one by one. -/
theorem node
    (ordinary : inner.traces = (tracesEach inner.fields).flatten)
    (told : Tells inner.fields mentions) :
    inner.traces = mentions.map Mention.trace :=
  ordinary.trans told

end Field.Tells

/-- A leaf that may be missing. -/
theorem traces_maybe
    {α : Type}
    {node : α -> Node P}
    {mention : α -> Mention P}
    (isLeaf : ∀ value, (node value).traces = [(mention value).trace])
    (value : Option α) :
    (value.map node).elim [] Node.traces = (value.map mention).toList.map Mention.trace := by
  cases value with
  | none => rfl
  | some value => exact isLeaf value

theorem Ident.traces_listNode (names : List (Ident P)) :
    (listNode names).traces = (names.map mention).map Mention.trace := by
  change (Field.tracesEach (Field.children "idents" (names.map node))).flatten = _
  rw [Field.flatten_tracesEach_children, List.flatMap_map, List.map_map]
  induction names with
  | nil => rfl
  | cons name names inductionHypothesis =>
      exact congrArg (name.mention.trace :: ·) inductionHypothesis

theorem Ident.traces_maybe_listNode (names : Option (List (Ident P))) :
    (names.map listNode).elim [] Node.traces
      = ((names.getD []).map mention).map Mention.trace := by
  cases names with
  | none => rfl
  | some names => exact traces_listNode names

theorem GuardBinding.traces_node (binding : GuardBinding P) :
    binding.node.traces = binding.outline.map Mention.trace := rfl

/-- Values are told behind the sign that gives them. -/
theorem traces_values
    (names : List (Ident P))
    {type : Option (Node P)}
    {values : Node P}
    {part mentions : List (Mention P)}
    (typeTold : type.elim [] Node.traces = part.map Mention.trace)
    (told : values.traces = mentions.map Mention.trace) :
    (Ident.listNode names).traces
        ++ ((Field.optional "ty" type).traces ++ .implied .assign :: values.traces)
      = (names.map Ident.mention ++ (part ++ .implied .assign :: mentions)).map Mention.trace := by
  rw [List.map_append, List.map_append, List.map_cons, Ident.traces_listNode, ← typeTold, ← told]
  cases type <;> rfl

/-- The terms of a union are told with bars between them, though each is mentioned behind a bar. -/
theorem intercalate_tracesEach_children
    {label : String}
    {nodes : List (Node P)}
    {mentions : List (Mention P)}
    (told : nodes.flatMap (fun node => [.implied .pipe] ++ node.traces)
      = mentions.map Mention.trace) :
    [Trace.implied .pipe].intercalate (Field.tracesEach (Field.children label nodes))
      = mentions.tail.map Mention.trace := by
  rw [List.map_tail, ← told]
  cases nodes with
  | nil => rfl
  | cons node nodes =>
      change List.intercalate _ (Field.tracesEach ((node :: nodes).map (Field.child label)))
        = node.traces ++ nodes.flatMap _
      rw [Field.tracesEach_map_child]
      clear told
      induction nodes generalizing node with
      | nil => simp
      | cons next nodes inductionHypothesis =>
          have rest := inductionHypothesis next
          rw [List.map_cons] at rest
          rw [List.map_cons, List.map_cons, List.intercalate_cons_cons, rest, List.flatMap_cons]
          simp

/-! ## Trees -/

/-- The bar that is mentioned before every term of a union. -/
def Phrase.lead : Phrase -> List (Trace P)
  | typeTerm => [.implied .pipe]
  | _ => []

/-- Whether a walk through what fills a slot tells what an outline mentions. -/
def Slot.Tells : (slot : Slot) -> slot.View P -> List (Mention P) -> Prop
  | one phrase, node, mentions =>
      phrase.lead ++ Node.traces node = mentions.map Mention.trace
  | many phrase, nodes, mentions =>
      List.flatMap (fun node => phrase.lead ++ Node.traces node) nodes = mentions.map Mention.trace
  | maybe phrase, node, mentions =>
      Option.elim node [] (fun node => phrase.lead ++ Node.traces node)
        = mentions.map Mention.trace

namespace Tree

open GoFront.Field (Tells)

/-- A walk through a tree tells its outline. -/
theorem tells : {slot : Slot} -> (tree : Tree P slot) -> slot.Tells tree.view tree.outline
  | _, nil => rfl
  | .many phrase, cons head tail => by
      have headTells : phrase.lead ++ head.view.traces = _ := head.tells
      have tailTells : List.flatMap _ tail.view = _ := tail.tells
      change (phrase.lead ++ head.view.traces) ++ List.flatMap _ tail.view
        = (head.outline ++ tail.outline).map Mention.trace
      rw [List.map_append, headTells, tailTells]
  | _, absent => rfl
  | _, present tree => tree.tells
  -- expressions
  | _, ident _ => rfl
  | _, basicLit literal => (Node.traces_within _ _).trans literal.traces_node
  | _, compositeLit type _ elements _ =>
      Tells.node rfl <| .optional type.tells <| .leaf rfl <| .child elements.tells <| .leaf rfl .nil
  | _, funcLit type body => Tells.node rfl <| .child type.tells <| .last body.tells
  | _, callExpr invocation => (Node.traces_within _ _).trans invocation.tells
  | _, index base _ subscript _ =>
      Tells.node rfl <| .child base.tells <| .leaf rfl <| .child subscript.tells <| .leaf rfl .nil
  | _, instantiation base args => Tells.node rfl <| .child base.tells <| .last args.tells
  | _, simpleSlice base _ low _ high _ =>
      Tells.node rfl <| .child base.tells <| .leaf rfl <| .optional low.tells <| .leaf rfl <|
        .optional high.tells <| .leaf rfl .nil
  | _, fullSlice base _ low _ high _ max _ =>
      Tells.node rfl <| .child base.tells <| .leaf rfl <| .optional low.tells <| .leaf rfl <|
        .child high.tells <| .leaf rfl <| .child max.tells <| .leaf rfl .nil
  | _, selector base _ _ => Tells.node rfl <| .child base.tells <| .leaf rfl <| .leaf rfl .nil
  | _, typeAssertion base _ _ type _ =>
      Tells.node rfl <| .child base.tells <| .leaf rfl <| .leaf rfl <| .child type.tells <|
        .leaf rfl .nil
  | _, typeQuery base _ _ _ _ =>
      Tells.node rfl <| .child base.tells <| .leaf rfl <| .leaf rfl <| .leaf rfl <| .leaf rfl .nil
  | _, group _ inner _ => Tells.node rfl <| .leaf rfl <| .child inner.tells <| .leaf rfl .nil
  | _, binary left _ right => Tells.node rfl <| .child left.tells <| .leaf rfl <| .last right.tells
  | _, unary _ operand => Tells.node rfl <| .leaf rfl <| .last operand.tells
  | _, typeOperand type => (Node.traces_within _ _).trans type.tells
  | _, exprList exprs => Tells.node rfl <| .lastSeveral exprs.tells
  | _, call func _ args ellipsis _ =>
      Tells.node rfl <| .child func.tells <| .leaf rfl <| .child args.tells <|
        .optional (traces_maybe (fun _ => rfl) ellipsis) <| .leaf rfl .nil
  | _, element key value => Tells.node rfl <| .optional key.tells <| .last value.tells
  | _, elementKey key _ => Tells.node rfl <| .child key.tells <| .leaf rfl .nil
  | _, elementList elements => Tells.node rfl <| .lastSeveral elements.tells
  -- types
  | _, namedType name => (Node.traces_within _ _).trans name.tells
  | _, arrayType _ length _ elem =>
      Tells.node rfl <| .leaf rfl <| .child length.tells <| .leaf rfl <| .last elem.tells
  | _, countedArrayType _ _ _ elem =>
      Tells.node rfl <| .leaf rfl <| .leaf rfl <| .leaf rfl <| .last elem.tells
  | _, sliceType _ _ elem => Tells.node rfl <| .leaf rfl <| .leaf rfl <| .last elem.tells
  | _, mapType _ _ key _ value =>
      Tells.node rfl <| .leaf rfl <| .leaf rfl <| .child key.tells <| .leaf rfl <| .last value.tells
  | _, chanType .recv _ arrow elem => by
      have elemTells : elem.view.traces = _ := elem.tells
      change [] ++ (Field.traces (.optional "arrow" _) ++ (_ ++ elem.view.traces))
        = ((arrow.map Mark.mention).toList ++ _ :: elem.outline).map Mention.trace
      rw [List.map_append, List.map_cons, ← elemTells]
      cases arrow <;> rfl
  | _, chanType .send _ arrow elem | _, chanType .both _ arrow elem =>
      Tells.node rfl <| .skip rfl <| .leaf rfl <|
        .optional (traces_maybe (fun _ => rfl) arrow) <| .last elem.tells
  | _, functionType type => (Node.traces_within _ _).trans type.tells
  | _, structType _ _ fields _ =>
      Tells.node rfl <| .leaf rfl <| .leaf rfl <| .several fields.tells <| .leaf rfl .nil
  | _, interfaceType _ _ elems _ =>
      Tells.node rfl <| .leaf rfl <| .leaf rfl <| .several elems.tells <| .leaf rfl .nil
  | _, pointerType _ elem => Tells.node rfl <| .leaf rfl <| .last elem.tells
  | _, parenType _ inner _ => Tells.node rfl <| .leaf rfl <| .child inner.tells <| .leaf rfl .nil
  | _, typeList types => Tells.node rfl <| .lastSeveral types.tells
  | _, typeName none _ args => Tells.node rfl <| .skip rfl <| .leaf rfl <| .lastOptional args.tells
  | _, typeName (some package) name args => by
      have argsTell : Tells [.child "name" name.node, .optional "type_args" args.view]
          (name.mention :: args.outline) := .leaf rfl <| .lastOptional args.tells
      exact congrArg (fun traces => package.mention.trace :: .implied .dot :: traces) argsTell
  | _, typeArgs _ types _ => Tells.node rfl <| .leaf rfl <| .child types.tells <| .leaf rfl .nil
  | _, funcType _ shape => Tells.node rfl <| .leaf rfl <| .last shape.tells
  | _, namedField names type tag =>
      Tells.node rfl <| .child (Ident.traces_listNode names) <| .child type.tells <|
        .lastOptional (traces_maybe BasicLit.traces_node tag)
  | _, embeddedField star type tag =>
      Tells.node rfl <| .optional (traces_maybe (fun _ => rfl) star) <| .child type.tells <|
        .lastOptional (traces_maybe BasicLit.traces_node tag)
  | _, method _ shape => Tells.node rfl <| .leaf rfl <| .last shape.tells
  | _, constraint elem => elem.tells
  | _, typeElem terms => intercalate_tracesEach_children terms.tells
  | _, exactTerm type => congrArg (Trace.implied .pipe :: ·) type.tells
  | _, underlyingTerm tilde type =>
      congrArg (Trace.implied .pipe :: ·)
        (Tells.node rfl <| .leaf rfl <| .last type.tells)
  -- signatures and type parameters
  | _, signature inputs result =>
      Tells.node rfl <| .child inputs.tells <| .lastOptional result.tells
  | _, resultParams outputs => outputs.tells
  | _, resultType type => type.tells
  | _, params _ entries _ => Tells.node rfl <| .leaf rfl <| .several entries.tells <| .leaf rfl .nil
  | _, param names ellipsis type =>
      Tells.node rfl <| .optional (Ident.traces_maybe_listNode names) <|
        .optional (traces_maybe (fun _ => rfl) ellipsis) <| .last type.tells
  | _, typeParams _ entries _ =>
      Tells.node rfl <| .leaf rfl <| .several entries.tells <| .leaf rfl .nil
  | _, typeParam names bound =>
      Tells.node rfl <| .child (Ident.traces_listNode names) <| .last bound.tells
  -- statements
  | _, declStmt decl => (Node.traces_within _ _).trans decl.tells
  | _, blockStmt body => (Node.traces_within _ _).trans body.tells
  | _, conditional stmt => (Node.traces_within _ _).trans stmt.tells
  | _, forStmt _ iteration body =>
      Tells.node rfl <| .leaf rfl <| .optional iteration.tells <| .last body.tells
  | _, exprSwitch _ init tag _ clauses _ =>
      Tells.node rfl <| .leaf rfl <| .optional init.tells <| .optional tag.tells <| .leaf rfl <|
        .several clauses.tells <| .leaf rfl .nil
  | _, typeSwitch _ init subject _ clauses _ =>
      Tells.node rfl <| .leaf rfl <| .optional init.tells <| .child subject.tells <| .leaf rfl <|
        .several clauses.tells <| .leaf rfl .nil
  | _, selectStmt _ _ clauses _ =>
      Tells.node rfl <| .leaf rfl <| .leaf rfl <| .several clauses.tells <| .leaf rfl .nil
  | _, labeled _ _ stmt => Tells.node rfl <| .leaf rfl <| .leaf rfl <| .last stmt.tells
  | _, goStmt _ invocation => Tells.node rfl <| .leaf rfl <| .last invocation.tells
  | _, deferStmt _ invocation => Tells.node rfl <| .leaf rfl <| .last invocation.tells
  | _, returnStmt _ results => Tells.node rfl <| .leaf rfl <| .lastOptional results.tells
  | _, gotoStmt _ _ => Tells.node rfl <| .leaf rfl <| .leaf rfl .nil
  | _, breakStmt _ label =>
      Tells.node rfl <| .leaf rfl <| .lastOptional (traces_maybe (fun _ => rfl) label)
  | _, continueStmt _ label =>
      Tells.node rfl <| .leaf rfl <| .lastOptional (traces_maybe (fun _ => rfl) label)
  | _, fallthroughStmt _ => Tells.node rfl <| .leaf rfl .nil
  | _, simple stmt => (Node.traces_within _ _).trans stmt.tells
  | _, stmtList stmts => Tells.node rfl <| .lastSeveral stmts.tells
  | _, assignment left _ right =>
      Tells.node rfl <| .child left.tells <| .leaf rfl <| .last right.tells
  | _, shortVarDecl names _ values =>
      Tells.node rfl <| .child (Ident.traces_listNode names) <| .leaf rfl <| .last values.tells
  | _, incDec expr _ => Tells.node rfl <| .child expr.tells <| .leaf rfl .nil
  | _, send channel _ value =>
      Tells.node rfl <| .child channel.tells <| .leaf rfl <| .last value.tells
  | _, receive bound expr => Tells.node rfl <| .optional bound.tells <| .last expr.tells
  | _, exprStmt expr => Tells.node rfl <| .last expr.tells
  | _, emptyStmt _ => Tells.node rfl <| .skip rfl .nil
  | _, block _ stmts _ => Tells.node rfl <| .leaf rfl <| .child stmts.tells <| .leaf rfl .nil
  | _, ifStmt _ init condition body elseBranch =>
      Tells.node rfl <| .leaf rfl <| .optional init.tells <| .child condition.tells <|
        .child body.tells <| .lastOptional elseBranch.tells
  | _, elseIf _ stmt => Tells.node rfl <| .leaf rfl <| .last stmt.tells
  | _, elseBlock _ body => Tells.node rfl <| .leaf rfl <| .last body.tells
  | _, whileTrue condition => condition.tells
  | _, forClause init condition post =>
      Tells.node rfl <| .optional init.tells <| .optional condition.tells <|
        .lastOptional post.tells
  | _, rangeClause bound _ expr =>
      Tells.node rfl <| .optional bound.tells <| .leaf rfl <| .last expr.tells
  | _, boundNames names => Ident.traces_listNode names
  | _, boundExprs exprs => exprs.tells
  | _, binding list _ => Tells.node rfl <| .child list.tells <| .leaf rfl .nil
  | _, guard none expr => Tells.node rfl <| .skip rfl <| .last expr.tells
  | _, guard (some bound) expr => Tells.node rfl <| .child bound.traces_node <| .last expr.tells
  | _, defaultCase _ => Tells.node rfl <| .leaf rfl .nil
  | _, exprCase _ exprs => Tells.node rfl <| .leaf rfl <| .last exprs.tells
  | _, typeCase _ types => Tells.node rfl <| .leaf rfl <| .last types.tells
  | _, commCase _ stmt => Tells.node rfl <| .leaf rfl <| .last stmt.tells
  | _, caseClause label _ body =>
      Tells.node rfl <| .child label.tells <| .leaf rfl <| .last body.tells
  -- declarations
  | _, funcDecl _ _ generics shape body =>
      Tells.node rfl <| .leaf rfl <| .leaf rfl <| .optional generics.tells <| .child shape.tells <|
        .lastOptional body.tells
  | _, methodDecl _ receiver _ shape body =>
      Tells.node rfl <| .leaf rfl <| .child receiver.tells <| .leaf rfl <| .child shape.tells <|
        .lastOptional body.tells
  | _, specified _ decl => (Node.traces_within _ _).trans decl.tells
  | _, specDecl kind _ spec => Tells.node (by cases kind <;> rfl) <| .leaf rfl <| .last spec.tells
  | _, importSpec name path =>
      Tells.node rfl <| .optional (traces_maybe ImportName.traces_node name) <|
        .leaf path.traces_node .nil
  | _, constSpec names type absent =>
      Tells.node rfl <| .child (Ident.traces_listNode names) <| .optional type.tells <|
        .skip rfl .nil
  | _, constSpec names type (present values) => traces_values names type.tells values.tells
  | _, varSpecOf spec => (Node.traces_within _ _).trans spec.tells
  | _, typeSpecOf spec => (Node.traces_within _ _).trans spec.tells
  | _, groupSpecOf spec => (Node.traces_within _ _).trans spec.tells
  | _, varSpec names type absent =>
      Tells.node rfl <| .child (Ident.traces_listNode names) <| .optional type.tells <|
        .skip rfl .nil
  | _, varSpec names type (present values) => traces_values names type.tells values.tells
  | _, typeDef _ generics type =>
      Tells.node rfl <| .leaf rfl <| .optional generics.tells <| .last type.tells
  | _, aliasDecl _ _ type => Tells.node rfl <| .leaf rfl <| .leaf rfl <| .last type.tells
  | _, groupSpec _ _ specs _ =>
      Tells.node rfl <| .skip rfl <| .leaf rfl <| .several specs.tells <| .leaf rfl .nil

end Tree
end GoFront
