import GoFront.Proofs.Answers.Diagnostics
import GoFront.Proofs.Lexing.Printing
import GoFront.Proofs.Reading.EntryPoints
import GoFront.Proofs.Reading.TypesAsExprs
import GoFront.Proofs.Shape.Climbing

/-!
# How high trees grow

Phrases nest only as deep as the limit allows, so the tree of a text is as high as its chains of operators
and suffixes are long. The chains themselves are not limited: every selector behind an expression makes
the tree one node higher, however many there are.
-/

namespace GoFront

variable {P : Type} {limit : Nat}

/-! ## Nodes below others -/

theorem Field.height_le_heightOfAll
    {label : String}
    {inner : Node P}
    {fields : List (Field P)}
    (isChild : .child label inner ∈ fields) :
    inner.height ≤ heightOfAll fields := by
  induction fields with
  | nil => cases isChild
  | cons field fields inductionHypothesis =>
      rcases List.mem_cons.1 isChild with rfl | below
      · exact Nat.le_max_left inner.height (heightOfAll fields)
      · exact Nat.le_trans (inductionHypothesis below)
          (Nat.le_max_right field.height (heightOfAll fields))

/-- A child is not as high as its parent. -/
theorem Node.height_lt_of_child
    {label : String}
    {inner node : Node P}
    (isChild : .child label inner ∈ node.fields) :
    inner.height < node.height := by
  cases node
  exact Nat.lt_succ_of_le (Field.height_le_heightOfAll isChild)

theorem Field.mem_children
    {label : String}
    {inner : Node P}
    {nodes : List (Node P)}
    (member : inner ∈ nodes) :
    .child label inner ∈ children label nodes := by
  rw [children, if_neg (by simpa using List.ne_nil_of_mem member)]
  exact List.mem_map_of_mem member

/-! ## Texts that are printed -/

/-- Printed lexemes are lexed as what they say if they lack no semicolon. -/
theorem lex_print_of_printable
    (lexemes : List (Lexeme P))
    (filename : Option String)
    (printable : ∀ lexeme ∈ lexemes, lexeme.Printable)
    (complete : Lexeme.lacksSemicolon false lexemes = false) :
    (lex (Lexeme.print lexemes) filename).errors = []
      ∧ (lex (Lexeme.print lexemes) filename).significant.map Lexeme.content
        = lexemes.map Lexeme.content := by
  obtain ⟨noErrors, contents⟩ := stream_print lexemes printable .start false
  rw [complete, if_neg Bool.false_ne_true, List.append_nil] at contents
  constructor
  · simp only [lex, streamOf]
    rw [Event.filterMap_error?_map]
    exact List.map_eq_nil_iff.2 noErrors
  · -- none of the lexemes is a comment
    have lexed := (content_lexemes (Lexeme.print lexemes) filename).trans contents
    have filtered := congrArg (List.filter fun content => !content.1.isComment) lexed
    rw [List.filter_map, List.filter_map] at filtered
    have allCode : lexemes.filter (fun lexeme => !lexeme.token.isComment) = lexemes :=
      List.filter_eq_self.2 fun lexeme member => by simp [(printable lexeme member).isCode]
    exact filtered.trans (congrArg _ allCode)

/-! ## Lexemes ahead -/

/-- A cursor stands before lexemes that say what is given. -/
def Cursor.IsBefore
    (cursor : Cursor P)
    (contents : List (Token × Option String)) : Prop :=
  cursor.ahead.map Lexeme.content = contents

namespace Cursor.IsBefore

variable {cursor : Cursor P} {token : Token} {literal : Option String}
  {contents : List (Token × Option String)}

theorem token_eq (isBefore : cursor.IsBefore ((token, literal) :: contents)) :
    cursor.token = token := by
  obtain ⟨lexeme, rest, ahead, content, -⟩ := List.map_eq_cons_iff.1 isBefore
  rw [Cursor.token, Cursor.peek, ahead]
  exact congrArg Prod.fst content

theorem advance (isBefore : cursor.IsBefore ((token, literal) :: contents)) :
    cursor.advance.IsBefore contents := by
  obtain ⟨lexeme, rest, ahead, -, behind⟩ := List.map_eq_cons_iff.1 isBefore
  rw [Cursor.advance, ahead]
  exact behind

theorem atEnd (isBefore : cursor.IsBefore []) : cursor.token = .eof := by
  rw [Cursor.token, Cursor.peek, List.map_eq_nil_iff.1 isBefore]
  rfl

end Cursor.IsBefore

/-! ## Selectors -/

/-- The lexemes of a number of selectors with a semicolon behind them. -/
def selectors : Nat -> List (Token × Option String)
  | 0 => [(.semi, none)]
  | links + 1 => (.dot, none) :: (.ident, some "a") :: selectors links

/-- The lexemes of a variable whose value is a name with a number of selectors behind it. -/
def selectorDecl (links : Nat) : List (Token × Option String) :=
  [(.kwVar, none), (.ident, some "y"), (.assign, none), (.ident, some "x")] ++ selectors links

namespace Production

variable {state : ReadState P}

theorem parses_selector
    {contents : List (Token × Option String)}
    (isBefore : state.cursor.IsBefore ((.dot, none) :: (.ident, some "a") :: contents))
    (base : Expr P) :
    Parses limit (suffix? base) state
      (some (.selector base ⟨.dot, state.cursor.pos⟩ (identOf state.cursor.advance.peek)))
      state.cursor.advance.advance := by
  simp [suffix?, selectorOrAssertion, isBefore.token_eq, isBefore.advance.token_eq]

/-- Each selector makes an expression one node higher. -/
theorem exists_repeats_selectors
    {links : Nat}
    (isBefore : state.cursor.IsBefore (selectors links))
    (base : Expr P) :
    ∃ (tree : Expr P) (final : Cursor P), Repeats limit suffix? state base tree final
      ∧ final.IsBefore [(.semi, none)] ∧ Node.height base.view + links ≤ Node.height tree.view := by
  induction links generalizing state base with
  | zero =>
      have stops : Parses limit (suffix? base) state none state.cursor := by
        simp [suffix?, isBefore.token_eq]
      exact ⟨base, state.cursor, .stop stops, isBefore, Nat.le_refl _⟩
  | succ links inductionHypothesis =>
      have first := @parses_selector _ limit _ _ isBefore base
      obtain ⟨tree, final, rest, ends, high⟩ :=
        @inductionHypothesis (state.moveTo state.cursor.advance.advance) isBefore.advance.advance
          (.selector base ⟨.dot, state.cursor.pos⟩ (identOf state.cursor.advance.peek))
      refine ⟨tree, final, .more first rest, ends, Nat.le_trans ?_ high⟩
      rw [← Nat.add_assoc, Nat.add_right_comm]
      exact Nat.add_le_add_right (Node.height_lt_of_child (.head _)) links

/-! ## Variables -/

theorem parses_commaSeparated_single
    {α : Type}
    {item : Production P α}
    {value : α}
    {final : Cursor P}
    (parses : Parses limit item state value final)
    (noComma : final.token ≠ .comma) :
    Parses limit (commaSeparated item) state [value] final := by
  refine parses_bind.2 ⟨value, final, parses, ?_⟩
  refine parses_bind.2 ⟨[], final, parses_many.2 ?_, by simp⟩
  simp [Collects, noComma]

theorem parses_type?_none
    (room : state.depth < limit)
    (noType : typeFrom (P := P) state.cursor.token = none) :
    Parses limit type? state none state.cursor := by
  refine parses_call.2 (parses_nested.2 ⟨room, parses_bind_look.2 ?_⟩)
  rw [ReadState.deeper, noType]
  exact parses_pure.2 ⟨rfl, rfl⟩

/-- A name and what is added to it is an expression if neither an operator nor a suffix follows. -/
theorem parses_expr_of_name
    {value : Expr P}
    {final : Cursor P}
    (room : state.depth < limit)
    (atName : state.cursor.token = .ident)
    (suffixes : Repeats limit suffix? ((state.moveTo state.cursor.advance).deeper 1)
      (.ident (identOf state.cursor.peek)) value final)
    (noOperator : final.token.precedence = .none) :
    Parses limit expr state value final := by
  have isName : Parses limit operand (state.deeper 1) (.ident (identOf state.cursor.peek))
      state.cursor.advance := by
    simp [operand, atName, litKind?]
  have unary := parses_unary_of_operand room (by rw [atName]; rfl) isName suffixes
  have stops : Parses limit (binaryTail? .or value) (state.moveTo final) none final := by
    simp [binaryTail?, noOperator]
  exact parses_call.2 (parses_bind.2 ⟨value, final, unary, parses_iterate.2 (.stop stops)⟩)

end Production

namespace Tree

/-- The spec of a variable that has a value and no type. -/
def valueSpec
    (name : Ident P)
    (value : Expr P) : Tree P (.one .varSpec) :=
  .varSpec [name] .absent (.present (.exprList (.ofList [value])))

/-- The declaration of a variable that has a value and no type. -/
def valueDecl
    (keyword : Mark P)
    (name : Ident P)
    (value : Expr P) : Decl P :=
  .specified .vars (.specDecl .vars keyword (.varSpecOf (valueSpec name value)))

theorem height_lt_valueSpec
    (name : Ident P)
    (value : Expr P) :
    Node.height value.view < Node.height (valueSpec name value).view := by
  have inList : Node.height value.view < Node.height (exprList (.ofList [value])).view :=
    Node.height_lt_of_child (.head _)
  have inSpec : Node.height (exprList (.ofList [value])).view
      < Node.height (valueSpec name value).view :=
    Node.height_lt_of_child (.tail _ (.tail _ (.head _)))
  exact Nat.lt_trans inList inSpec

/-- A variable is higher than its value. -/
theorem height_lt_valueDecl
    (keyword : Mark P)
    (name : Ident P)
    (value : Expr P) :
    Node.height value.view < Node.height (valueDecl keyword name value).view := by
  have inDecl : Node.height (varSpecOf (valueSpec name value)).view
      < Node.height (specDecl .vars keyword (varSpecOf (valueSpec name value))).view :=
    Node.height_lt_of_child (.tail _ (.head _))
  calc Node.height value.view
    _ < Node.height (valueSpec name value).view := height_lt_valueSpec name value
    _ = Node.height (varSpecOf (valueSpec name value)).view := (Node.height_within "Spec" _).symm
    _ < Node.height (specDecl .vars keyword (varSpecOf (valueSpec name value))).view := inDecl
    _ = Node.height (valueDecl keyword name value).view := (Node.height_within "Decl" _).symm

end Tree

namespace Production

variable {state : ReadState P} {value : Expr P} {final : Cursor P}

theorem parses_varSpec_of_value
    (room : state.depth < limit)
    (isName : state.cursor.token = .ident)
    (isAssign : state.cursor.advance.token = .assign)
    (parses : Parses limit expr (state.moveTo state.cursor.advance.advance) value final)
    (noComma : final.token ≠ .comma) :
    Parses limit varSpec state (.varSpecOf (.valueSpec (identOf state.cursor.peek) value)) final := by
  have names : Parses limit identList state [identOf state.cursor.peek] state.cursor.advance :=
    parses_commaSeparated_single (parses_ident.2 ⟨isName, rfl, rfl⟩) (by simp [isAssign])
  have noType : Parses limit type? (state.moveTo state.cursor.advance) none state.cursor.advance :=
    parses_type?_none room (by simp [isAssign, typeFrom])
  have assign : Parses limit (eat? .assign) (state.moveTo state.cursor.advance)
      (some state.cursor.advance.peek) state.cursor.advance.advance := by
    simp [isAssign]
  have values := parses_commaSeparated_single parses noComma
  refine parses_bind.2 ⟨_, _, names, parses_bind.2 ⟨_, _, noType, parses_bind.2 ⟨_, _, assign, ?_⟩⟩⟩
  refine parses_bind.2 ⟨.exprList (.ofList [value]), final, ?_, ?_⟩
  · exact parses_bind.2 ⟨_, final, values, parses_pure.2 ⟨rfl, rfl⟩⟩
  refine parses_bind.2 ⟨.present (.exprList (.ofList [value])), final, parses_pure.2 ⟨rfl, rfl⟩, ?_⟩
  exact parses_bind.2 ⟨_, final, parses_pure.2 ⟨rfl, rfl⟩, parses_pure.2 ⟨rfl, rfl⟩⟩

/-- A variable is read as the declaration of its spec. -/
theorem parses_specifiedDecl_of_varSpec
    {spec : Tree P (.one .varSpec)}
    (isVar : state.cursor.token = .kwVar)
    (noGroup : state.cursor.advance.token ≠ .lParen)
    (parses : Parses limit varSpec (state.moveTo state.cursor.advance) (.varSpecOf spec) final)
    (ends : final.token = .semi) :
    Parses limit (specifiedDecl .vars) state
      (.specified .vars (.specDecl .vars ⟨.kwVar, state.cursor.pos⟩ (.varSpecOf spec)))
      final.advance := by
  have isSpec : Parses limit (Production.spec .vars) (state.moveTo state.cursor.advance)
      (.varSpecOf spec) final :=
    parses_bind.2 ⟨none, state.cursor.advance, by simp [noGroup], parses⟩
  have isEnd : Parses limit semicolon (state.moveTo final) () final.advance := by
    simp [semicolon, Cursor.atAny, ends]
  refine parses_bind.2 ⟨_, final.advance, ?_, parses_pure.2 ⟨rfl, rfl⟩⟩
  refine parses_bind.2 ⟨_, _, parses_mark.2 ⟨isVar, rfl, rfl⟩, ?_⟩
  refine parses_bind.2 ⟨_, final, isSpec, parses_bind.2 ⟨_, final, parses_pure.2 ⟨rfl, rfl⟩, ?_⟩⟩
  exact parses_bind.2 ⟨(), final.advance, isEnd, parses_pure.2 ⟨rfl, rfl⟩⟩

/-- The lexemes of a variable with selectors are read as such a variable. -/
theorem exists_parses_selectorDecl
    {links : Nat}
    (room : state.depth < limit)
    (isBefore : state.cursor.IsBefore (selectorDecl links)) :
    ∃ keyword name value final,
      Parses limit (specifiedDecl .vars) state (.valueDecl keyword name value) final
        ∧ final.IsBefore [] ∧ links ≤ Node.height value.view := by
  have atName := isBefore.advance
  have atValue := atName.advance.advance
  obtain ⟨value, final, suffixes, ends, high⟩ :=
    @exists_repeats_selectors _ limit
      ((state.moveTo state.cursor.advance.advance.advance.advance).deeper 1) links atValue.advance
      (.ident (identOf state.cursor.advance.advance.advance.peek))
  have isValue : Parses limit expr (state.moveTo state.cursor.advance.advance.advance) value final :=
    parses_expr_of_name room atValue.token_eq suffixes (by rw [ends.token_eq]; rfl)
  have isSpec : Parses limit varSpec (state.moveTo state.cursor.advance)
      (.varSpecOf (.valueSpec (identOf state.cursor.advance.peek) value)) final :=
    parses_varSpec_of_value room atName.token_eq atName.advance.token_eq isValue
      (by simp [ends.token_eq])
  exact ⟨_, _, value, final.advance, parses_specifiedDecl_of_varSpec isBefore.token_eq
    (by simp [atName.token_eq]) isSpec ends.token_eq, ends.advance,
    Nat.le_trans (Nat.le_add_left links _) high⟩

end Production

/-! ## A file with selectors -/

/-- The lexemes of a file with a single variable, whose value has a number of selectors. -/
def selectorFile (links : Nat) : List (Lexeme Unit) :=
  clauseLexemes () () () ++ (selectorDecl links).map fun content => ⟨content.1, (), content.2⟩

theorem contents_selectorFile (links : Nat) :
    (selectorFile links).map Lexeme.content
      = (clauseLexemes () () ()).map Lexeme.content ++ selectorDecl links := by
  rw [selectorFile, List.map_append, List.map_map]
  exact congrArg _ (List.map_id _)

/-- Whatever the number of selectors, their lexemes are the same few. -/
theorem mem_selectors
    {links : Nat}
    {content : Token × Option String}
    (member : content ∈ selectors links) :
    content ∈ selectors 1 := by
  induction links with
  | zero => exact List.mem_cons_of_mem _ (List.mem_cons_of_mem _ member)
  | succ links inductionHypothesis =>
      rcases List.mem_cons.1 member with rfl | member
      · exact .head _
      rcases List.mem_cons.1 member with rfl | member
      · exact .tail _ (.head _)
      · exact inductionHypothesis member

theorem mem_selectorFile
    {links : Nat}
    {lexeme : Lexeme Unit}
    (member : lexeme ∈ selectorFile links) :
    lexeme ∈ selectorFile 1 := by
  rw [selectorFile, List.mem_append, List.mem_map] at member ⊢
  refine member.imp id fun ⟨content, inDecl, isLexeme⟩ => ⟨content, ?_, isLexeme⟩
  rw [selectorDecl, List.mem_append] at inDecl ⊢
  exact inDecl.imp id mem_selectors

theorem printable_selectorFile (links : Nat) : ∀ lexeme ∈ selectorFile links, lexeme.Printable := by
  intro lexeme member
  have sample : (lex "package p ; var y = x . a" none).significant.map (Lexeme.map fun _ => ())
      = selectorFile 1 := by decide +kernel
  have inSample := mem_selectorFile member
  rw [← sample] at inSample
  obtain ⟨lexeme, inText, rfl⟩ := List.mem_map.1 inSample
  exact (printable_of_mem_significant _ _ lexeme inText).map _

theorem lacksSemicolon_selectors
    (links : Nat)
    (due : Bool) :
    Lexeme.lacksSemicolon due ((selectors links).map fun content =>
      (⟨content.1, (), content.2⟩ : Lexeme Unit)) = false := by
  induction links generalizing due with
  | zero => rfl
  | succ links inductionHypothesis =>
      rw [selectors, List.map_cons, Lexeme.lacksSemicolon_cons, List.map_cons,
        Lexeme.lacksSemicolon_cons]
      exact inductionHypothesis _

theorem lacksSemicolon_selectorFile (links : Nat) :
    Lexeme.lacksSemicolon false (selectorFile links) = false := by
  simp only [selectorFile, clauseLexemes, selectorDecl, List.map_cons, List.cons_append,
    List.nil_append, Lexeme.lacksSemicolon_cons]
  exact lacksSemicolon_selectors links _

/-- Lexemes that begin as those of a package clause do are a package clause and what follows it. -/
theorem exists_clause_of_content
    {lexemes : List (Lexeme P)}
    {contents : List (Token × Option String)}
    (same : lexemes.map Lexeme.content
      = (clauseLexemes () () ()).map Lexeme.content ++ contents) :
    ∃ keyword name semi ahead, lexemes = clauseLexemes keyword name semi ++ ahead
      ∧ ahead.map Lexeme.content = contents := by
  obtain ⟨⟨_, keyword, _⟩, _, rfl, isKeyword, behindKeyword⟩ := List.map_eq_cons_iff.1 same
  obtain ⟨⟨_, name, _⟩, _, rfl, isName, behindName⟩ := List.map_eq_cons_iff.1 behindKeyword
  obtain ⟨⟨_, semi, _⟩, ahead, rfl, isSemi, behindSemi⟩ := List.map_eq_cons_iff.1 behindName
  cases isKeyword
  cases isName
  cases isSemi
  exact ⟨keyword, name, semi, ahead, rfl, behindSemi⟩

/-- A declaration that is read without errors up to the end of the input is the only one of a file. -/
theorem exists_parts_of_parses
    {ahead : List (Lexeme P)}
    {keyword name semi stop : P}
    {decl : Decl P}
    {last : Cursor P}
    (regular : ∀ lexeme ∈ clauseLexemes keyword name semi ++ ahead, lexeme.Regular)
    (parses : Production.Parses limit (.declAt (ReadState.behindClause ahead stop).cursor)
      (.behindClause ahead stop) decl last)
    (atEnd : last.token = .eof) :
    ∃ parts final, Production.file.readFrom limit (clauseLexemes keyword name semi ++ ahead) stop
        = .done parts final
      ∧ final.errors = [] ∧ parts.members = [decl] := by
  obtain ⟨allowance, run⟩ := parses
  have ends : Production.file.readFrom limit (clauseLexemes keyword name semi ++ ahead) stop
      ≠ .exhausted :=
    Production.readFrom_ne_exhausted (readsNonterminals limit _).file (by omega) regular
  cases fileRun : Production.file.readFrom limit (clauseLexemes keyword name semi ++ ahead) stop with
  | exhausted => exact absurd fileRun ends
  | gaveUp failed => exact absurd fileRun (Production.file_ne_gaveUp _ _ _ _)
  | done parts final =>
      -- a run on a larger allowance reads the declaration, and nothing else
      have lasts := Nat.le_max_left allowance (Production.allowance
        (clauseLexemes keyword name semi ++ ahead).length)
      have enough : 2 ≤ max allowance (Production.allowance
          (clauseLexemes keyword name semi ++ ahead).length) := by
        simp only [Production.allowance]
        omega
      obtain ⟨parts', final', larger, clean, members⟩ :=
        (@Machine.run_file_iff _ (ruleMachine limit _) _ keyword name semi _ _ enough).2
          ⟨_, Production.Parses.run_of_le run lasts, atEnd, rfl⟩
      rw [Production.readFrom_eq_run] at fileRun
      have same := run_file_mono (Nat.le_max_right allowance _) fileRun
      obtain ⟨rfl, rfl⟩ := Outcome.done.inj (same.symm.trans larger)
      exact ⟨_, _, rfl, clean, members⟩

/-- However many selectors a variable has, a text that says so is read without complaint. -/
theorem exists_file_of_selectors
    {links : Nat}
    {source : String}
    {filename : Option String}
    (room : 0 < limit)
    (noErrors : (lex source filename).errors = [])
    (contents : (lex source filename).significant.map Lexeme.content
      = (clauseLexemes () () ()).map Lexeme.content ++ selectorDecl links) :
    ∃ file keyword name value, (parseFileWithin limit source filename).Accepts file
      ∧ file.members = [.valueDecl keyword name value] ∧ links ≤ Node.height value.view := by
  have regular := regular_of_mem_significant source filename
  obtain ⟨_, _, _, ahead, isClause, isBefore⟩ := exists_clause_of_content contents
  rw [isClause] at regular
  have atDecl : (ReadState.behindClause ahead (lex source filename).stop).cursor.IsBefore
      (selectorDecl links) := isBefore
  obtain ⟨keyword, name, value, last, parses, ends, high⟩ :=
    Production.exists_parses_selectorDecl room atDecl
  have declParses : Production.Parses limit
      (.declAt (ReadState.behindClause ahead (lex source filename).stop).cursor)
      (.behindClause ahead (lex source filename).stop) (.valueDecl keyword name value) last := by
    rw [Production.declAt, atDecl.token_eq, if_neg (by simp)]
    exact Production.parses_bind_look.2 (by rw [atDecl.token_eq]; exact parses)
  obtain ⟨parts, final, run, clean, members⟩ :=
    exists_parts_of_parses regular declParses ends.atEnd
  obtain ⟨imports, decls, _, -, -, rfl⟩ :=
    Machine.exists_of_run_file ((Production.readFrom_eq_run limit _ _ _).symm.trans run)
  rw [← isClause] at run
  exact ⟨_, keyword, name, value, Parsed.accepts_ofLexed_iff.2 ⟨noErrors, _, final, run, clean, rfl⟩,
    (members_of_file? rfl).trans members, high⟩

/-- The nodes of a list are those of its phrases. -/
theorem Tree.view_mem_of_mem_toList
    {phrase : Phrase}
    {list : Tree P (.many phrase)}
    {tree : Tree P (.one phrase)}
    (member : tree ∈ list.toList) :
    tree.view ∈ (show List (Node P) from list.view) := by
  match list, member with
  | .cons head tail, member =>
      rcases List.mem_cons.1 member with rfl | inTail
      · exact .head _
      · exact .tail _ (view_mem_of_mem_toList inTail)

/-- A file is higher than each of its declarations. -/
theorem File.height_lt_of_mem_decls
    {file : File P}
    {decl : Decl P}
    (member : decl ∈ file.decls.toList) :
    Node.height decl.view < file.node.height := by
  have inDecls : .child "decls" decl.view ∈ Field.children "decls" file.decls.view :=
    Field.mem_children (Tree.view_mem_of_mem_toList member)
  have inFile : .child "decls" decl.view ∈ file.node.fields :=
    List.mem_append_left _ (List.mem_append_right _ inDecls)
  exact Node.height_lt_of_child inFile

theorem File.mem_decls_of_members
    {file : File P}
    {keyword : Mark P}
    {name : Ident P}
    {value : Expr P}
    (members : file.members = [.valueDecl keyword name value]) :
    .valueDecl keyword name value ∈ file.decls.toList := by
  have member : .valueDecl keyword name value ∈ file.members := by
    rw [members]
    exact .head _
  refine (List.mem_append.1 member).resolve_left fun isImport => ?_
  obtain ⟨_, -, same⟩ := List.mem_map.1 isImport
  cases same

/-! ## The height of a file -/

/-- A file is one node higher than its declarations. -/
theorem File.height_le_of_within
    {bound : Nat}
    (file : File P)
    (imports : file.imports.Within (bound + 2))
    (decls : file.decls.Within (bound + 2)) :
    file.node.height ≤ bound + 3 := by
  have commentsLow : ∀ node ∈ file.comments.map Comment.node, node.height ≤ bound + 2 := by
    intro node member
    obtain ⟨comment, -, rfl⟩ := List.mem_map.1 member
    exact Nat.le_add_left 1 (bound + 1)
  have noName : ((file.filename.map (Field.leaf (P := P) "filename")).getD
      (.absent "filename")).height = 0 := by
    cases file.filename <;> rfl
  have partsLow : Field.AllWithin (bound + 2)
      (.child "package" file.package.node :: (Field.children "imports" file.imports.view
        ++ (Field.children "decls" file.decls.view
          ++ Field.children "comments" (file.comments.map Comment.node)))) :=
    .child (Nat.le_add_left 2 bound) <| .several imports <| .several decls <|
      .lastSeveral commentsLow
  refine Field.AllWithin.node ?_
  simpa [File.node, Node.plain, Node.fields] using partsLow.skip noName

/-- The tree of a text is as high as its chains of operators and suffixes are long, for each level to
which phrases may nest. -/
theorem height_le_of_chains
    (limit longest : Nat)
    (source : String)
    (filename : Option String)
    (file : File Position)
    (returned : (parseFileWithin limit source filename).tree = some file)
    (imports : file.imports.ChainsWithin longest)
    (decls : file.decls.ChainsWithin longest) :
    file.node.height ≤ (8 * limit + 18) * (longest + 1) := by
  obtain ⟨importsGraded, declsGraded⟩ := graded_of_returned_file returned
  have least : longest + (8 * limit + 15) * (longest + 1) + 3
      ≤ (8 * limit + 18) * (longest + 1) := by
    simp only [Nat.add_mul]
    omega
  have importsWithin : file.imports.Within (longest + (8 * limit + 15) * (longest + 1) + 2) := by
    have short := imports file.imports (.refl _)
    exact (importsGraded.layered.within imports).mono (by omega)
  have declsWithin : file.decls.Within (longest + (8 * limit + 15) * (longest + 1) + 2) := by
    have short := decls file.decls (.refl _)
    exact (declsGraded.layered.within decls).mono (by omega)
  exact Nat.le_trans (file.height_le_of_within importsWithin declsWithin) least

/-- A selector is a chain of one link. -/
theorem height_le_of_chains_selector :
    ∃ file, (parseFileWithin 9 "package p\nvar x = a.b" none).tree = some file
      ∧ file.imports.ChainsWithin 1 ∧ file.decls.ChainsWithin 1
      ∧ file.node.height ≤ (8 * 9 + 18) * (1 + 1) := by
  have checked : ((parseFileWithin 9 "package p\nvar x = a.b" none).tree.any fun file =>
      file.imports.hasChainsWithin 1 11 && file.decls.hasChainsWithin 1 11) = true := by
    decide +kernel
  obtain ⟨file, returned, checked⟩ := Option.any_eq_true _ _ |>.1 checked
  obtain ⟨importsChecked, declsChecked⟩ := Bool.and_eq_true_iff.1 checked
  have imports : file.imports.ChainsWithin 1 := Tree.ChainsWithin.of_hasChainsWithin importsChecked
  have decls : file.decls.ChainsWithin 1 := Tree.ChainsWithin.of_hasChainsWithin declsChecked
  exact ⟨file, returned, imports, decls, height_le_of_chains 9 1 _ none file returned imports decls⟩

/-- No height is enough for the trees of all texts: selectors are chained as long as the text likes. -/
theorem selectors_exceed_every_height :
    ¬ ∃ bound, ∀ source filename file, (parseFile source filename).tree = some file ->
      file.node.height ≤ bound := by
  rintro ⟨bound, low⟩
  obtain ⟨noErrors, contents⟩ := lex_print_of_printable (selectorFile bound) none
    (printable_selectorFile bound) (lacksSemicolon_selectorFile bound)
  rw [contents_selectorFile] at contents
  obtain ⟨file, keyword, name, value, accepted, members, high⟩ :=
    @exists_file_of_selectors nestingLimit bound _ none (by decide) noErrors contents
  have higher := calc bound
    _ ≤ Node.height value.view := high
    _ < Node.height (Tree.valueDecl keyword name value).view := Tree.height_lt_valueDecl keyword name value
    _ < file.node.height := File.height_lt_of_mem_decls (File.mem_decls_of_members members)
  exact absurd (low _ none file accepted.returned) (Nat.not_le.2 higher)

end GoFront
