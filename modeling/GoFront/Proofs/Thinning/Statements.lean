import GoFront.Proofs.Thinning.Declarations

/-!
# Statements in thinned texts

A statement is read of a thinned text as of the whole one. The semicolon behind the last statement of a
block may have been left out, unless it is a statement itself; those of a header never are.
-/

namespace GoFront

open Production (Parses)

variable {P : Type} {thinning : Thinning P} {allowance : Nat} {state : ReadState P}

/-! ## Names read as expressions -/

namespace Tree

variable {property : PhraseProperty P}

theorem everywhere_of_identOfExpr?
    {expr : Expr P}
    {name : Ident P}
    (found : identOfExpr? expr = some name) :
    expr.Everywhere property := by
  unfold identOfExpr? at found
  split at found
  · exact .node (property.ordinary _ rfl) trivial
  · cases found

theorem everywhere_of_mapM_identOfExpr?
    {exprs : List (Expr P)}
    {names : List (Ident P)}
    (found : exprs.mapM identOfExpr? = some names) :
    ∀ expr ∈ exprs, expr.Everywhere property := by
  have read := forall₂_of_mapM found
  clear found
  induction read with
  | nil => exact List.forall_mem_nil _
  | cons isName _ inductionHypothesis =>
      exact List.forall_mem_cons.2 ⟨everywhere_of_identOfExpr? isName, inductionHypothesis⟩

theorem everywhere_of_listOfExprs?
    {exprs : ExprList P}
    {names : List (Ident P)}
    (found : Ident.listOfExprs? exprs = .ok names) :
    exprs.Everywhere property := by
  unfold Ident.listOfExprs? at found
  split at found
  · next identified => exact (everywhere_exprs exprs).2 (everywhere_of_mapM_identOfExpr? identified)
  · cases found

end Tree

/-! ## Semicolons of headers -/

namespace Thinning

/-- The semicolon that may come next was not left out. -/
def KeepsSemi (thinning : Thinning P) (cursor : Cursor P) : Prop :=
  ∀ lexeme rest, cursor.ahead = lexeme :: rest -> lexeme.token = .semi -> thinning.kept lexeme = true

theorem keepsSemi
    (isSuffix : state.cursor.ahead <:+ thinning.text)
    (fails : state.cursor.token = .semi -> state.cursor.advance.token.isCloser = true -> False) :
    thinning.KeepsSemi state.cursor := by
  intro lexeme rest ahead isSemi
  by_contra isLost
  have lost := thinning.lost_of_not_kept isSuffix ahead (Bool.eq_false_iff.2 isLost)
  exact fails ((Cursor.token_of_ahead ahead).trans isSemi) lost.isCloser

end Thinning

namespace Production

variable {α : Type} {limit : Nat} {value : α} {final : Cursor P}

/-- Where a closing bracket comes next, no header goes on. -/
theorem not_parses_simpleStmtUnless
    {next : Option (SimpleStmt P) -> Production P α}
    (isCloser : state.cursor.token.isCloser = true) :
    ¬ Parses limit ((simpleStmtUnless [.lBrace]).bind next) state value final := by
  intro parses
  obtain ⟨_, _, parses, -⟩ := parses_bind.1 parses
  have parses := parses_bind_look.1 parses
  rw [if_neg] at parses
  · obtain ⟨_, _, parses, -⟩ := parses_bind.1 parses
    have isPause := Token.isPause_of_isCloser isCloser
    exact Bool.false_ne_true ((Begins.simpleStmt parses).symm.trans isPause)
  · rw [Cursor.atAny]
    rcases Token.eq_or_eq_or_eq_of_isCloser isCloser with isToken | isToken | isToken <;> rw [isToken] <;>
      decide

/-- Where a closing bracket comes next, no condition of a loop does. -/
theorem not_parses_condition
    {instead : Production P α}
    {next : Expr P -> Production P α}
    (isCloser : state.cursor.token.isCloser = true) :
    ¬ Parses limit (look.bind fun cursor => if cursor.token = .semi then instead
      else Production.expr.bind next) state value final := by
  intro parses
  have parses := parses_bind_look.1 parses
  rw [if_neg] at parses
  · obtain ⟨_, _, parses, -⟩ := parses_bind.1 parses
    have isPause := Token.isPause_of_isCloser isCloser
    exact Bool.false_ne_true ((Begins.expr parses).symm.trans isPause)
  · rintro atSemi
    cases isCloser.symm.trans (congrArg Token.isCloser atSemi)

theorem not_parses_forClauseTail
    {init : Option (SimpleStmt P)}
    {next : Tree P (.one .iteration) -> Production P α}
    (isCloser : state.cursor.advance.token.isCloser = true) :
    ¬ Parses limit ((forClauseTail init).bind next) state value final := by
  intro parses
  obtain ⟨_, _, parses, -⟩ := parses_bind.1 parses
  obtain ⟨_, _, semi, parses⟩ := parses_bind.1 parses
  obtain ⟨-, -, rfl⟩ := parses_expect.1 semi
  exact not_parses_condition isCloser parses

/-! ## Clauses -/

/-- Reads a clause of a statement with cases. -/
def caseClause
    {kind : ClauseKind}
    (label : Mark P -> Production P (Tree P (.one (.caseLabel kind)))) :
    Production P (Tree P (.one (.caseClause kind)) × Bool) := do
  let cursor ← .look
  let label ←
    match cursor.token with
    | .kwCase => do
        let keyword ← mark .kwCase
        label keyword
    | .kwDefault => do
        let keyword ← mark .kwDefault
        pure (Tree.defaultCase keyword)
    | token => .refuse (.caseExpected token)
  let colon ← mark .colon
  let body ← stmtList
  pure (Tree.caseClause label colon body, true)

theorem caseClauses_eq
    {kind : ClauseKind}
    {label : Mark P -> Production P (Tree P (.one (.caseLabel kind)))} :
    caseClauses label = (itemsUntil .rBrace fun _ => caseClause label).bind fun clauses =>
      .pure (.ofList clauses) := rfl

theorem begins_caseClause
    {kind : ClauseKind}
    {label : Mark P -> Production P (Tree P (.one (.caseLabel kind)))} :
    Begins limit (caseClause label) := by
  intro state value final parses
  have parses := parses_bind_look.1 parses
  split at parses
  · next atCase => exact atCase ▸ rfl
  · next atDefault => exact atDefault ▸ rfl
  · obtain ⟨_, _, parses, -⟩ := parses_bind.1 parses
    exact absurd parses not_parses_refuse

end Production

/-! ## Searches -/

namespace Thinning

/-- The search for a range clause or a binding passes over separators. -/
theorem occurIn_filter
    {terminator : Token}
    {needles : List Token}
    {lexemes : List (Lexeme P)}
    (isSuffix : lexemes <:+ thinning.text)
    (notTerminator : terminator.isSeparator = false)
    (notNeedle : ∀ needle ∈ needles, needle.isSeparator = false)
    (depth braces : Nat) :
    Cursor.occurIn terminator needles depth braces (lexemes.filter thinning.kept)
      = Cursor.occurIn terminator needles depth braces lexemes := by
  induction lexemes generalizing needles depth braces with
  | nil => rfl
  | cons lexeme rest inductionHypothesis =>
      have restSuffix : rest <:+ thinning.text := .trans ⟨[lexeme], rfl⟩ isSuffix
      cases needles with
      | nil => simp [Cursor.occurIn]
      | cons needle needles =>
          cases isKept : thinning.kept lexeme with
          | true =>
              rw [List.filter_cons_of_pos isKept, Cursor.occurIn, Cursor.occurIn]
              split
              · rfl
              · refine inductionHypothesis restSuffix ?_ _ _
                split
                · exact fun other member => notNeedle other (List.mem_cons_of_mem _ member)
                · exact notNeedle
          | false =>
              obtain ⟨_, _, -, isOptional⟩ := thinning.isOptional isSuffix isKept
              have isSeparator := Token.isSeparator_of_isOptionalBefore isOptional
              have otherTerminator := Token.ne_of_isSeparator isSeparator notTerminator
              have otherNeedle := Token.ne_of_isSeparator isSeparator (notNeedle _ List.mem_cons_self)
              rw [List.filter_cons_of_neg (Bool.eq_false_iff.1 isKept), Cursor.occurIn,
                if_neg (by simp [otherTerminator]), inductionHypothesis restSuffix notNeedle]
              simp only [otherNeedle, decide_false, Bool.false_and, Bool.false_eq_true, if_false]
              rcases Token.eq_or_eq_of_isSeparator isSeparator with isToken | isToken <;> rw [isToken] <;>
                rfl

theorem Thinner.occurBefore_eq
    {thinned : ReadState P}
    {terminator : Token}
    {needles : List Token}
    (thinner : thinning.Thinner state thinned)
    (notTerminator : terminator.isSeparator = false)
    (notNeedle : ∀ needle ∈ needles, needle.isSeparator = false) :
    thinned.cursor.occurBefore terminator needles = state.cursor.occurBefore terminator needles := by
  rw [Cursor.occurBefore, thinner.ahead]
  exact thinning.occurIn_filter thinner.isSuffix notTerminator notNeedle 0 0

end Thinning

namespace ThinsNonterminals

variable (thins : ThinsNonterminals thinning allowance)

include thins

/-! ## Simple statements -/

omit thins in
/-- The only expression of a list is used. -/
theorem onlyExpr_bind
    {α : Type}
    {exprs : ExprList P}
    {next next' : Expr P -> Production P α}
    {contract : Contract P α}
    (rest : ∀ expr, ThinsFrom thinning allowance (fun property => expr.Everywhere property) (next expr)
      (next' expr) contract state) :
    ThinsFrom thinning allowance (fun property => exprs.Everywhere property)
      ((Production.onlyExpr exprs).bind next) ((Production.onlyExpr exprs).bind next') contract state := by
  unfold Production.onlyExpr
  split
  · next expr only =>
    refine .pure_bind (.of_parts (fun property => ?_) (rest expr))
    rw [Tree.everywhere_exprs, only, List.forall_mem_singleton]
  · refine .of_not_parses fun _ value final parses => ?_
    obtain ⟨_, _, parses, -⟩ := Production.parses_bind.1 parses
    exact Production.not_parses_refuse parses

theorem simpleTail (left : ExprList P) :
    Thins thinning allowance (fun property => left.Everywhere property) (Production.simpleTail left)
      (.of .tree) := by
  have exprStmt (state : ReadState P) : ThinsFrom thinning allowance (fun property => left.Everywhere property)
      ((Production.onlyExpr left).bind fun first => .pure (Tree.exprStmt first))
      ((Production.onlyExpr left).bind fun first => .pure (Tree.exprStmt first)) (.of .tree) state :=
    onlyExpr_bind fun first => .node rfl fun _ => .rfl
  refine fun state => .look_cases (fun thinned _ same => ?_) fun thinned isSeparator isCloser => ?_
  · rw [same]
    split
    · split
      · exact .refuse
      · next found =>
        refine .skip (.of_thins (.mark rfl (by decide))) ?_
        intro define middle
        refine .bind (thins.exprList middle) ?_
        intro values last
        refine .node rfl ?_
        intro property
        simp [Tree.children, Tree.everywhere_of_listOfExprs? found]
    · split
      · next isAssign =>
        have notAtEnd : state.cursor.token ≠ .eof := by
          intro atEnd
          cases isAssign.symm.trans (congrArg Token.isAssignOp atEnd)
        have notSeparator : state.cursor.token.isSeparator = false := by
          revert isAssign
          cases state.cursor.token <;> simp [Token.isAssignOp, Token.isSeparator]
        refine .skip (.anyMark notAtEnd notSeparator) ?_
        intro op middle
        refine .bind (thins.exprList middle) ?_
        intro right _
        exact .node rfl fun _ => by simp [Tree.children]
      · refine onlyExpr_bind fun first => ?_
        split
        · next atInc =>
          exact .skip (.anyMark (atInc.trans_ne (by decide)) (atInc ▸ rfl)) fun op _ =>
            .node rfl fun _ => .rfl
        · next atDec =>
          exact .skip (.anyMark (atDec.trans_ne (by decide)) (atDec ▸ rfl)) fun op _ =>
            .node rfl fun _ => .rfl
        · refine .skip (.of_thins (.mark rfl (by decide))) ?_
          intro arrow middle
          refine .bind (thins.expr middle) ?_
          intro value _
          exact .node rfl fun _ => by simp [Tree.children]
        · exact .node rfl fun _ => .rfl
  · rcases Token.eq_or_eq_of_isSeparator isSeparator with isToken | isToken <;>
      rcases Token.eq_or_eq_or_eq_of_isCloser isCloser with isOther | isOther | isOther <;>
        rw [isToken, isOther] <;> exact exprStmt state

theorem simpleStmt : Thins thinning allowance NoParts Production.simpleStmt (.of .tree) :=
  .bind_all thins.exprList fun left => thins.simpleTail left

/-! ## Headers -/

/-- A simple statement may be missing where a token comes next that was not left out. -/
theorem simpleStmtUnless
    {tokens : List Token}
    (onlySemi : ∀ token ∈ tokens, token.isSeparator = true -> token = .semi) :
    Thins thinning allowance NoParts (Production.simpleStmtUnless tokens)
      (.upTo (.option .tree) fun _ cursor => .semi ∈ tokens -> thinning.KeepsSemi cursor) := by
  refine fun state => .look fun thinned thinner => ?_
  by_cases same : thinned.cursor.token = state.cursor.token
  · rw [Cursor.atAny, Cursor.atAny, same]
    refine .choice .rfl (fun _ => .pure fun _ => by simp) ?_
    intro _
    exact (Thins.some_item thins.simpleStmt).anywhere state
  obtain ⟨lexeme, rest, ahead, lost⟩ := thinner.exists_lost same
  have isSeparator := Token.isSeparator_of_isOptionalBefore lost.isOptional
  have isToken := Cursor.token_of_ahead ahead
  by_cases stops : state.cursor.atAny tokens = true
  · have member := List.contains_iff_mem.1 stops
    have isSemi := onlySemi _ member (isToken ▸ isSeparator)
    rw [if_pos stops]
    refine .of_not_ends (fun _ => by simp) fun isEnd => ?_
    have isKept := isEnd (isSemi ▸ member) lexeme rest ahead (isToken.symm.trans isSemi)
    exact Bool.false_ne_true (lost.isLost.symm.trans isKept)
  · rw [if_neg stops]
    exact .of_begins Begins.simpleStmt.bind (Token.isPause_of_isSeparator (isToken ▸ isSeparator))

/-- What comes behind an optional statement in front of a body. -/
theorem simpleStmtUnless_bind
    {α : Type}
    {parts : PhraseProperty P -> Prop}
    {next : Option (SimpleStmt P) -> Production P α}
    {contract : Contract P α}
    (rest : ∀ found, Thins thinning allowance
      (fun property => parts property ∧ Holding.option .tree property found) (next found) contract) :
    Thins thinning allowance parts ((Production.simpleStmtUnless [.lBrace]).bind next) contract := by
  intro state
  refine (thins.simpleStmtUnless (by decide) state).bind_to (fun _ _ _ _ => by simp) ?_
  intro found
  exact rest found

theorem headerStmts :
    Thins thinning allowance NoParts Production.headerStmts
      (.of (.both (.option .tree) (.option .tree))) := by
  refine fun state => (thins.simpleStmtUnless (by decide) state).bind_to
    (fun isSuffix run _ _ _ => thinning.keepsSemi isSuffix fun atSemi closes => ?_) fun first middle => ?_
  · obtain ⟨_, _, semi, parses⟩ := Production.parses_bind.1 run.parses
    rw [Production.parses_eat?, if_pos atSemi] at semi
    obtain ⟨rfl, rfl⟩ := semi
    exact Production.not_parses_simpleStmtUnless closes parses
  · refine .eat? rfl (.pure fun _ => by simp) (fun semi => ?_) fun semi _ lost => ?_
    · exact thins.simpleStmtUnless_bind (fun second => .pure fun _ => by simp) _
    · exact .of_not_parses fun _ _ _ => Production.not_parses_simpleStmtUnless lost.isCloser

omit thins in
theorem headerExpr (part : HeaderPart) (stmt : SimpleStmt P) :
    Thins thinning allowance (fun property => stmt.Everywhere property)
      (Production.headerExpr part stmt) (.of .tree) := by
  unfold Production.headerExpr
  split
  · next expr =>
    have whole (property : PhraseProperty P) :
        (Tree.exprStmt expr).Everywhere property ↔ expr.Everywhere property := Tree.everywhere_iff rfl
    exact .pure fun property => (whole property).symm
  · exact .refuse

theorem ifHeader :
    Thins thinning allowance NoParts Production.ifHeader (.of (.both (.option .tree) .tree)) := by
  refine .inHeader (.bind thins.headerStmts fun (init, condition) => ?_)
  dsimp only
  split
  · exact .refuse
  · next condition =>
    have rest : Thins thinning allowance
        (fun property => Holding.option .tree property init ∧ condition.Everywhere property)
        ((Production.headerExpr .ifCondition condition).bind fun expr => .pure (init, expr))
        (.of (.both (.option .tree) .tree)) :=
      .bind_parts (headerExpr .ifCondition condition) fun expr => .pure fun _ => .rfl
    exact .of_parts (fun _ => by simp) rest

/-! ## Conditional statements and loops -/

/-- The branch behind `else` has a property everywhere. -/
def BranchHolds : Holding P (Tree.ElseBody P)
  | property, .conditional stmt => stmt.Everywhere property
  | property, .block body => body.Everywhere property

theorem elseBody : Thins thinning allowance NoParts Production.elseBody (.of BranchHolds) := by
  refine fun state => .look_cases (fun thinned _ same => ?_) fun thinned isSeparator _ => ?_
  · rw [same]
    split
    · exact .bind (Thins.nested thins.ifStmt state) fun stmt _ => .pure fun _ => by simp [BranchHolds]
    · exact .bind (thins.block state) fun body _ => .pure fun _ => by simp [BranchHolds]
    · exact .refuse
  · rcases Token.eq_or_eq_of_isSeparator isSeparator with isToken | isToken <;> rw [isToken] <;>
      exact .refuse

omit thins in
theorem elseBranch_iff
    {property : PhraseProperty P}
    {keyword : Mark P}
    {body : Tree.ElseBody P} :
    (Tree.elseBranch keyword body).Everywhere property ↔ BranchHolds property body := by
  cases body <;> exact Tree.everywhere_iff rfl

omit thins in
theorem ifStmt?_iff
    {property : PhraseProperty P}
    {keyword : Mark P}
    {init : Option (SimpleStmt P)}
    {condition : Expr P}
    {body : Block P}
    {elseKeyword : Option (Mark P)}
    {elseBody : Option (Tree.ElseBody P)}
    {stmt : IfStmt P}
    (built : Tree.ifStmt? keyword (.ofOption init) condition body elseKeyword elseBody = .ok stmt) :
    stmt.Everywhere property ↔ (((∀ first ∈ init, first.Everywhere property) ∧ condition.Everywhere property)
      ∧ body.Everywhere property) ∧ ∀ branch ∈ elseBody, BranchHolds property branch := by
  unfold Tree.ifStmt? at built
  split at built <;> cases built <;>
    exact (Tree.everywhere_iff rfl).trans (by simp [Tree.children, elseBranch_iff, and_assoc])

theorem ifStmtRule : Thins thinning allowance NoParts Production.ifStmtRule (.of .tree) := by
  have built (keyword : Mark P) (init : Option (SimpleStmt P)) (condition : Expr P) (body : Block P)
      (elseKeyword : Option (Mark P)) (elseBody : Option (Tree.ElseBody P)) :
      Thins thinning allowance (fun property => (((∀ first ∈ init, first.Everywhere property)
          ∧ condition.Everywhere property) ∧ body.Everywhere property)
          ∧ ∀ branch ∈ elseBody, BranchHolds property branch)
        (Production.build (Tree.ifStmt? keyword (.ofOption init) condition body elseKeyword elseBody))
        (.of .tree) :=
    .build fun stmt isStmt property => ifStmt?_iff isStmt
  refine .skip (.mark rfl (by decide)) ?_
  intro keyword
  refine .bind thins.ifHeader ?_
  intro (init, condition)
  refine .bind thins.block ?_
  intro body
  refine .skip (.mark? rfl (by decide)) ?_
  intro elseKeyword
  dsimp only
  split
  · exact .bind thins.elseBody fun elseBody => .pure_bind (.of_parts (fun _ => by simp)
      (built keyword init condition body elseKeyword (some elseBody)))
  · exact .pure_bind (.of_parts (fun _ => by simp) (built keyword init condition body elseKeyword none))

theorem forClauseTail (init : Option (SimpleStmt P)) :
    Thins thinning allowance (fun property => ∀ first ∈ init, first.Everywhere property)
      (Production.forClauseTail init) (.of .tree) := by
  have rest (condition : Option (Expr P)) : Thins thinning allowance
      (fun property => (∀ first ∈ init, first.Everywhere property)
        ∧ ∀ expr ∈ condition, expr.Everywhere property)
      ((Production.expect .semi).bind fun _ => (Production.simpleStmtUnless [.lBrace]).bind fun post =>
        .pure (Tree.forClause (.ofOption init) (.ofOption condition) (.ofOption post))) (.of .tree) :=
    fun state => .expect rfl (fun _ => thins.simpleStmtUnless_bind (fun post => .node rfl fun _ => by
      simp [Tree.children, and_assoc]) _) fun _ _ _ _ isCloser =>
        Production.not_parses_simpleStmtUnless isCloser
  refine fun state => .expect rfl (fun semi => .look fun thinned thinner => ?_)
    fun _ _ _ _ isCloser => Production.not_parses_condition isCloser
  by_cases same : thinned.cursor.token = (state.moveTo state.cursor.advance).cursor.token
  · rw [same]
    refine .choice .rfl (fun _ => .pure_bind ?_) fun _ =>
      .bind (thins.expr _) fun condition _ => .pure_bind ?_
    · exact .of_parts (fun _ => by simp) (rest none _)
    · exact .of_parts (fun _ => by simp) (rest (some condition) _)
  obtain ⟨lexeme, behind, ahead, lost⟩ := thinner.exists_lost same
  split
  · refine .of_not_parses fun _ value final parses => ?_
    obtain ⟨_, _, nothing, parses⟩ := Production.parses_bind.1 parses
    obtain ⟨rfl, rfl⟩ := Production.parses_pure.1 nothing
    obtain ⟨_, _, semi, parses⟩ := Production.parses_bind.1 parses
    obtain ⟨-, -, rfl⟩ := Production.parses_expect.1 semi
    exact Production.not_parses_simpleStmtUnless lost.isCloser parses
  · have isSeparator := Token.isSeparator_of_isOptionalBefore lost.isOptional
    refine .of_begins Begins.expr.bind (Token.isPause_of_isSeparator ?_)
    rwa [Cursor.token_of_ahead ahead]

/-! ### Bindings -/

omit thins in
theorem boundNames : Thins thinning allowance NoParts Production.boundNames (.of (.left .tree)) := by
  refine .skip identList ?_
  intro _
  refine .skip (.mark rfl (by decide)) ?_
  intro _
  refine .pure ?_
  intro property
  exact iff_of_true (.node (property.ordinary _ rfl) trivial) trivial

theorem boundExprs : Thins thinning allowance NoParts Production.boundExprs (.of (.left .tree)) := by
  refine .bind_all thins.exprList ?_
  intro _
  refine .skip (.mark rfl (by decide)) ?_
  intro _
  exact .pure fun _ => Tree.everywhere_iff rfl

theorem rangeBinding :
    Thins thinning allowance NoParts Production.rangeBinding (.of (.option (.left .tree))) := by
  refine fun state => .look fun thinned thinner => .choice (thinner.token_eq_iff rfl)
    (fun _ => .pure fun _ => by simp) fun _ => .choice ?_ (fun _ => boundNames.some_map state)
      fun _ => thins.boundExprs.some_map state
  rw [thinner.occurBefore_eq rfl (by decide)]

/-- A binding that may be missing and its operator are made of the list that is bound. -/
theorem rangeClause : Thins thinning allowance NoParts Production.rangeClause (.of .tree) := by
  refine .bind thins.rangeBinding ?_
  intro binding
  refine .skip (.mark rfl (by decide)) ?_
  intro keyword
  refine .bind thins.expr ?_
  intro expr
  refine .build ?_
  intro clause built property
  cases binding with
  | none =>
      obtain rfl := Except.ok.inj built
      exact (Tree.everywhere_iff rfl).trans (by simp [Tree.children])
  | some binding =>
      obtain rfl := Except.ok.inj built
      have whole : (Tree.binding binding.1 binding.2).Everywhere property ↔ binding.1.Everywhere property :=
        Tree.everywhere_iff rfl
      exact (Tree.everywhere_iff rfl).trans (by simp [Tree.children, whole])

/-! ### Loops -/

theorem forHeader : Thins thinning allowance NoParts Production.forHeader (.of .tree) := by
  have clause (init : Option (SimpleStmt P)) : Thins thinning allowance (fun property =>
      NoParts property ∧ Holding.option .tree property init) ((Production.forClauseTail init).bind
        fun clause => .pure (Tree.present clause)) (.of .tree) :=
    .of_parts (fun _ => by simp) (.bind_all (thins.forClauseTail init) fun clause => .pure fun _ =>
      Tree.everywhere_present)
  have whileTrue (stmt : SimpleStmt P) : Thins thinning allowance (fun property =>
      NoParts property ∧ Holding.option .tree property (some stmt))
      ((Production.headerExpr .forCondition stmt).bind fun condition =>
        .pure (Tree.present (.whileTrue condition))) (.of .tree) :=
    .of_parts (fun _ => by simp) (.bind_all (headerExpr .forCondition stmt) fun condition => .pure fun _ =>
      Tree.everywhere_present.trans (Tree.everywhere_iff rfl))
  refine .inHeader fun state => .look fun thinned thinner => .choice (thinner.token_eq_iff rfl)
    (fun _ => .pure fun _ => by simp) fun _ => .choice ?_ (fun _ => ?_) fun _ => ?_
  · rw [thinner.occurBefore_eq rfl (by decide)]
  · exact .bind (thins.rangeClause state) fun clause _ => .node rfl fun _ => by simp [Tree.children]
  · refine (thins.simpleStmtUnless (by decide) state).bind_to
      (fun isSuffix run _ _ _ => thinning.keepsSemi isSuffix fun atSemi closes => ?_) fun init middle => ?_
    · have parses := Production.parses_bind_look.1 run.parses
      split at parses
      · rw [if_pos atSemi] at parses
        exact Production.not_parses_forClauseTail closes parses
      · exact Production.not_parses_forClauseTail closes parses
    · refine .look fun thinned thinner => ?_
      cases init with
      | none => exact clause none middle
      | some stmt =>
          dsimp only
          by_cases same : thinned.cursor.token = middle.cursor.token
          · rw [same]
            exact .choice .rfl (fun _ => clause (some stmt) middle) fun _ => whileTrue stmt middle
          by_cases atSemi : middle.cursor.token = .semi
          · obtain ⟨_, _, _, lost⟩ := thinner.exists_lost same
            rw [if_pos atSemi]
            exact .of_not_parses fun _ _ _ => Production.not_parses_forClauseTail lost.isCloser
          · rw [if_neg atSemi, if_neg (thinner.token_ne rfl atSemi)]
            exact whileTrue stmt middle

theorem forStmt : Thins thinning allowance NoParts Production.forStmt (.of .tree) := by
  refine .skip (.mark rfl (by decide)) ?_
  intro _
  refine .bind thins.forHeader ?_
  intro _
  refine .bind thins.block ?_
  intro _
  exact .node rfl fun _ => by simp [Tree.children]

/-! ## Statement lists -/

omit thins in
/-- A semicolon that was left out is no statement that spares it. -/
theorem not_spared_of_emptyStmt
    {lexeme : Lexeme P}
    {rest : List (Lexeme P)}
    (ahead : state.cursor.ahead = lexeme :: rest)
    (lost : thinning.Lost lexeme state.cursor.advance)
    (isSemi : lexeme.token = .semi) :
    ¬ (Tree.simple (.emptyStmt state.cursor.pos)).Everywhere thinning.Spares := by
  intro spared
  have empty : (Tree.emptyStmt state.cursor.pos).Everywhere thinning.Spares := spared.parts
  have isKept := empty.here lexeme (lost.isSuffix.subset List.mem_cons_self) isSemi
    (congrArg Lexeme.pos (Cursor.peek_of_ahead ahead)).symm
  exact Bool.false_ne_true (lost.isLost.symm.trans isKept)

omit thins in
theorem not_spared_of_stmt
    {stmt : Stmt P}
    {final : Cursor P}
    {lexeme : Lexeme P}
    {rest : List (Lexeme P)}
    (ahead : state.cursor.ahead = lexeme :: rest)
    (lost : thinning.Lost lexeme state.cursor.advance)
    (parses : Parses thinning.limit (.nested (.call .stmt)) state stmt final) :
    ¬ stmt.Everywhere thinning.Spares := by
  have isSeparator := Token.isSeparator_of_isOptionalBefore lost.isOptional
  have isPause : state.cursor.token.isPause = true :=
    Cursor.token_of_ahead ahead ▸ Token.isPause_of_isSeparator isSeparator
  obtain ⟨atSemi, rfl⟩ := Production.stmt_of_pause (Production.parses_nested.1 parses).2 isPause
  exact not_spared_of_emptyStmt ahead lost ((Cursor.token_of_ahead ahead).symm.trans atSemi)

theorem stmtList : Thins thinning allowance NoParts Production.stmtList (.of .tree) := by
  refine .bind (.resuming (fun {state thinned} thinner => ?_) (fun {middle} goesOn => ?_)
    (Thins.nested thins.stmt)) fun (stmts : List (Stmt P)) => .node rfl fun _ =>
      Tree.everywhere_ofList.trans (and_iff_right trivial).symm
  · by_cases same : thinned.cursor.token = state.cursor.token
    · exact .inl (by rw [Production.moreStmts, Cursor.atAny, same]; rfl)
    obtain ⟨lexeme, rest, ahead, lost⟩ := thinner.exists_lost same
    refine .inr ⟨?_, fun value final parses => not_spared_of_stmt ahead lost parses⟩
    rw [Production.moreStmts, Cursor.atAny, Cursor.token_of_ahead ahead]
    rcases Token.eq_or_eq_of_isSeparator (Token.isSeparator_of_isOptionalBefore lost.isOptional) with
      isToken | isToken <;> rw [isToken] <;> rfl
  · rintro atParen
    rcases goesOn with stops | ⟨value, final, parses⟩
    · rw [Production.moreStmts, Cursor.atAny, atParen] at stops
      cases stops
    · have isPause : middle.cursor.token.isPause = true := atParen ▸ rfl
      have parses := (Production.parses_nested.1 parses).2
      cases atParen.symm.trans (Production.stmt_of_pause parses isPause).1

theorem blockRule : Thins thinning allowance NoParts Production.blockRule (.of .tree) := by
  refine .nested ?_
  refine .inHeader ?_
  refine .skip (.mark rfl (by decide)) ?_
  intro lBrace
  refine .bind thins.stmtList ?_
  intro stmts
  refine .skip (.mark rfl (by decide)) ?_
  intro rBrace
  exact .node rfl fun _ => by simp [Tree.children]

/-! ## Statements with cases -/

theorem caseClause
    {kind : ClauseKind}
    {label : Mark P -> Production P (Tree P (.one (.caseLabel kind)))}
    (labels : ∀ keyword, Thins thinning allowance NoParts (label keyword) (.of .tree)) :
    Thins thinning allowance NoParts (Production.caseClause label) (.item .rBrace .tree) := by
  have rest (label : Tree P (.one (.caseLabel kind))) : Thins thinning allowance
      (fun property => label.Everywhere property)
      ((Production.mark .colon).bind fun colon => Production.stmtList.bind fun body =>
        .pure (Tree.caseClause label colon body, true)) (.item .rBrace .tree) :=
    .skip (.mark rfl (by decide)) fun colon => .bind thins.stmtList fun body state =>
      .pure_item (fun _ => (Tree.everywhere_iff rfl).trans (by simp [Tree.children])) (.inl rfl)
  intro state
  by_cases isPause : state.cursor.token.isPause = true
  · exact .of_begins Production.begins_caseClause isPause
  have notSeparator := Token.isSeparator_of_not_isPause (Bool.eq_false_iff.2 isPause)
  refine .look fun thinned thinner => ?_
  rw [thinner.token_eq notSeparator]
  split
  · exact .skip (.of_thins (.mark rfl (by decide))) fun keyword middle =>
      .bind_all (labels keyword middle) fun label => rest label
  · refine .skip (.of_thins (.mark rfl (by decide))) fun keyword _ =>
      .pure_bind (.of_parts (fun property => ?_) (rest _ _))
    exact iff_of_true trivial (.node (property.ordinary _ rfl) trivial)
  · refine .of_not_parses fun _ value final parses => ?_
    obtain ⟨_, _, parses, -⟩ := Production.parses_bind.1 parses
    exact Production.not_parses_refuse parses

theorem caseClauses
    {kind : ClauseKind}
    {label : Mark P -> Production P (Tree P (.one (.caseLabel kind)))}
    (labels : ∀ keyword, Thins thinning allowance NoParts (label keyword) (.of .tree)) :
    Thins thinning allowance NoParts (Production.caseClauses label)
      (.upTo .tree fun _ cursor => cursor.token = .rBrace) := by
  rw [Production.caseClauses_eq]
  refine .map (.itemsUntil rfl (fun _ => Production.begins_caseClause) fun _ => thins.caseClause labels) ?_
  intro _ _
  simp

/-- The subject of a switch has a property everywhere. -/
def SubjectHolds : Holding P (Production.SwitchSubject P)
  | property, .values tag => ∀ expr ∈ tag, expr.Everywhere property
  | property, .types guard => guard.Everywhere property

omit thins in
theorem switchSubject (last : Option (SimpleStmt P)) :
    Thins thinning allowance (fun property => ∀ stmt ∈ last, stmt.Everywhere property)
      (Production.switchSubject last) (.of SubjectHolds) := by
  unfold Production.switchSubject
  split
  · exact .pure fun _ => by simp [SubjectHolds]
  · next names define values =>
    split
    · next _ name value only =>
      split
      · refine .pure fun property => ?_
        have guard : (Tree.guard (some ⟨name, define⟩) value).Everywhere property
            ↔ value.Everywhere property := Tree.everywhere_iff rfl
        have stmt : (Tree.shortVarDecl [name] define values).Everywhere property
            ↔ values.Everywhere property := Tree.everywhere_iff rfl
        simp [SubjectHolds, guard, stmt, Tree.everywhere_exprs, only]
      · exact .refuse
    · exact .refuse
  · next stmt _ =>
    refine .of_parts (fun _ => by simp) (.bind_all (headerExpr .switchTag stmt) fun tag => ?_)
    split
    · exact .pure fun property => Tree.everywhere_iff rfl
    · exact .pure fun _ => by simp [SubjectHolds]

theorem switchHeader :
    Thins thinning allowance NoParts Production.switchHeader
      (.of (.both (.option .tree) SubjectHolds)) := by
  refine .inHeader (.bind thins.headerStmts fun (init, last) => ?_)
  have rest : Thins thinning allowance
      (fun property => Holding.option .tree property init ∧ ∀ stmt ∈ last, stmt.Everywhere property)
      ((Production.switchSubject last).bind fun subject => .pure (init, subject))
      (.of (.both (.option .tree) SubjectHolds)) :=
    .bind_parts (switchSubject last) fun subject => .pure fun _ => .rfl
  exact .of_parts (fun _ => by simp) rest

/-- Clauses stand in front of a closing brace. -/
theorem caseClauses_bind
    {α : Type}
    {kind : ClauseKind}
    {label : Mark P -> Production P (Tree P (.one (.caseLabel kind)))}
    {parts : PhraseProperty P -> Prop}
    {next : Tree P (.many (.caseClause kind)) -> Mark P -> Production P α}
    {contract : Contract P α}
    (labels : ∀ keyword, Thins thinning allowance NoParts (label keyword) (.of .tree))
    (rest : ∀ clauses rBrace, Thins thinning allowance
      (fun property => parts property ∧ clauses.Everywhere property) (next clauses rBrace) contract) :
    Thins thinning allowance parts ((Production.caseClauses label).bind fun clauses =>
      (Production.mark .rBrace).bind (next clauses)) contract := by
  intro state
  refine (thins.caseClauses labels state).bind_to (fun _ run _ _ => run.token_of_mark) ?_
  intro clauses _
  exact .of_thins (.skip (.mark rfl (by decide)) (rest clauses))

theorem switchStmt : Thins thinning allowance NoParts Production.switchStmt (.of .tree) := by
  have exprCase (keyword : Mark P) : Thins thinning allowance NoParts
      (Production.exprList.bind fun exprs => .pure (Tree.exprCase keyword exprs)) (.of .tree) :=
    .bind thins.exprList fun _ => .node rfl fun _ => by simp [Tree.children]
  have typeCase (keyword : Mark P) : Thins thinning allowance NoParts
      (Production.typeList.bind fun types => .pure (Tree.typeCase keyword types)) (.of .tree) :=
    .bind thins.typeList fun _ => .node rfl fun _ => by simp [Tree.children]
  refine .skip (.mark rfl (by decide)) fun keyword => .bind thins.switchHeader fun header => ?_
  obtain ⟨init, subject⟩ := header
  refine .skip (.mark rfl (by decide)) fun lBrace => ?_
  split
  · exact thins.caseClauses_bind exprCase fun clauses rBrace => .node rfl fun _ => by
      simp [Tree.children, SubjectHolds, and_assoc]
  · exact thins.caseClauses_bind typeCase fun clauses rBrace => .node rfl fun _ => by
      simp [Tree.children, SubjectHolds, and_assoc]

theorem commBinding :
    Thins thinning allowance NoParts Production.commBinding (.of (.option (.left .tree))) := by
  refine fun state => .look fun thinned thinner => .choice ?_ (fun _ => thins.boundExprs.some_map state)
    fun _ => .choice ?_ (fun _ => boundNames.some_map state) fun _ => .pure fun _ => by simp
  · rw [thinner.occurBefore_eq rfl (by decide)]
  · rw [thinner.occurBefore_eq rfl (by decide)]

theorem communication : Thins thinning allowance NoParts Production.communication (.of .tree) := by
  refine .bind thins.commBinding fun bound => .bind thins.expr fun expr => ?_
  split
  · next list op =>
    have whole (property : PhraseProperty P) :
        (Tree.binding list op).Everywhere property ↔ list.Everywhere property := Tree.everywhere_iff rfl
    exact .node rfl fun property => by simp [Tree.children, whole]
  · refine .skip (.mark? rfl (by decide)) fun arrow => ?_
    split
    · exact .bind thins.expr fun value => .node rfl fun _ => by simp [Tree.children]
    · exact .node rfl fun _ => by simp [Tree.children]

/-- A case is made of its communication, which attests to it. -/
theorem commCase (keyword : Mark P) :
    Thins thinning allowance NoParts
      (Production.communication.bind fun stmt => Production.build (Tree.commCase? keyword stmt))
      (.of .tree) := by
  have isCase {stmt : SimpleStmt P} {label : Tree P (.one (.caseLabel .comms))}
      (isLabel : Tree.commCase? keyword stmt = .ok label) : label = .commCase keyword stmt := by
    unfold Tree.commCase? at isLabel
    split at isLabel <;> cases isLabel <;> rfl
  have body : Thins thinning allowance NoParts
      (Production.communication.bind fun stmt => Production.build (Tree.commCase? keyword stmt))
      (.of fun property label => label.children.Forall fun part => part.2.Everywhere property) :=
    .bind_all thins.communication fun stmt => .build fun label isLabel property => by
      simp [isCase isLabel, Tree.children]
  intro state
  constructor
  intro label final taken isSuffix cleanRun _
  obtain ⟨attested, reads⟩ := (body state).of_run isSuffix cleanRun trivial
  refine ⟨.node ?_ attested, fun spared isEnd => reads spared.parts isEnd⟩
  obtain ⟨stmt, _, parses, built⟩ := Production.parses_bind.1 cleanRun.parses
  obtain rfl := isCase (Production.parses_build.1 built).1
  exact thinning.attests_commCase isSuffix parses

theorem selectStmt : Thins thinning allowance NoParts Production.selectStmt (.of .tree) := by
  refine .skip (.mark rfl (by decide)) ?_
  intro keyword
  refine .skip (.mark rfl (by decide)) ?_
  intro lBrace
  refine thins.caseClauses_bind thins.commCase ?_
  intro clauses rBrace
  exact .node rfl fun _ => by simp [Tree.children]

/-! ## Statements -/

omit thins in
/-- What was left out behind a statement stands before the brace that ends its block. -/
theorem terminated
    {stmt : Production P (Stmt P)}
    (stmts : Thins thinning allowance NoParts stmt (.upTo .tree fun _ => thinning.LostBefore .rBrace)) :
    Thins thinning allowance NoParts (Production.terminated stmt)
      (.upTo .tree fun _ cursor => cursor.token ≠ .rParen) := by
  refine fun state => (stmts state).bind_to (fun {value middle result final _} isSuffix run _ isEnd => ?_)
    fun value middle => .skip (Thins.semicolon middle) fun _ _ => .pure fun _ => by simp
  intro lexeme rest ahead isLost
  have lost := thinning.lost_of_not_kept isSuffix ahead isLost
  obtain ⟨_, cursor, parses, done⟩ := Production.parses_bind.1 run.parses
  obtain ⟨-, cursorEq⟩ := Production.parses_pure.1 done
  have finalEq : final.cursor = cursor := cursorEq
  rw [Production.parses_semicolon, Cursor.atAny, Cursor.token_of_ahead ahead] at parses
  have isOptional := lost.isOptional
  rcases Token.eq_or_eq_of_isSeparator (Token.isSeparator_of_isOptionalBefore isOptional) with
    isComma | isSemi
  · rw [isComma] at parses
    cases parses.1
  · rw [isSemi] at parses isOptional
    rw [finalEq, parses.2] at isEnd
    exact (Token.eq_or_eq_of_semi isOptional).resolve_left isEnd

/-- A labelled statement may be missing at the end of a block. -/
theorem labeledTail (label : ExprList P) :
    Thins thinning allowance (fun property => label.Everywhere property) (Production.labeledTail label)
      (.upTo .tree fun _ cursor => cursor.token ≠ .rParen) := by
  unfold Production.labeledTail
  split
  case h_2 => exact .refuse
  next name only =>
  have isName (property : PhraseProperty P) : label.Everywhere property := by
    rw [Tree.everywhere_exprs, only, List.forall_mem_singleton]
    exact .node (property.ordinary _ rfl) trivial
  have stmt (colon : Mark P) : Thins thinning allowance NoParts
      ((Production.nested (.call .stmt)).bind fun stmt => .pure (Tree.labeled name colon stmt))
      (.upTo .tree fun _ cursor => cursor.token ≠ .rParen) :=
    .map (.nested thins.stmt) fun _ _ => Tree.everywhere_iff rfl
  refine .skip (.mark rfl (by decide)) fun colon state => .look fun thinned thinner => ?_
  by_cases same : thinned.cursor.token = state.cursor.token
  · rw [same]
    refine .choice .rfl (fun closes => ?_) fun _ => .of_parts (fun _ => iff_of_true (isName _) trivial)
      (stmt colon state)
    have samePos : thinned.cursor.pos = state.cursor.pos :=
      congrArg Lexeme.pos (thinner.advance (closes.trans_ne (by decide)) (closes ▸ rfl)).1
    rw [samePos]
    refine .pure_bind (.done (fun _ => ?_) fun _ _ => isName _)
    refine .node (thinning.attests _ rfl) (.node (thinning.attests _ rfl) ?_)
    exact .node (thinning.attests _ rfl) trivial
  · obtain ⟨lexeme, rest, ahead, lost⟩ := thinner.exists_lost same
    have isSeparator := Token.isSeparator_of_isOptionalBefore lost.isOptional
    rw [if_neg (Token.ne_of_isSeparator (Cursor.token_of_ahead ahead ▸ isSeparator) rfl)]
    refine .of_parts (fun _ => iff_of_true (isName _) trivial)
      ((stmt colon state).of_not_spared fun _ _ _ _ run _ spared => ?_)
    obtain ⟨_, _, parses, done⟩ := Production.parses_bind.1 run.parses
    obtain ⟨rfl, -⟩ := Production.parses_pure.1 done
    exact not_spared_of_stmt ahead lost parses spared.parts

/-- Behind `return` results may be missing at the end of a line or a block. -/
theorem results? : Thins thinning allowance NoParts Production.results?
    (.upTo .tree fun _ => thinning.LostBefore .rBrace) := by
  have some (state : ReadState P) : ThinsFrom thinning allowance NoParts
      (Production.exprList.bind fun results => .pure (Tree.present results))
      (Production.exprList.bind fun results => .pure (Tree.present results))
      (.upTo .tree fun _ => thinning.LostBefore .rBrace) state :=
    .bind (thins.exprList state) fun results _ => .node rfl fun _ => by simp [Tree.children]
  refine fun state => .look fun thinned thinner => ?_
  by_cases same : thinned.cursor.token = state.cursor.token
  · rw [Cursor.atAny, Cursor.atAny, same]
    refine .choice .rfl (fun _ => .pure fun _ => by simp) ?_
    intro _
    exact some state
  obtain ⟨lexeme, rest, ahead, lost⟩ := thinner.exists_lost same
  split
  · by_cases closes : thinned.cursor.token = .rBrace
    · rw [if_pos (by rw [Cursor.atAny, closes]; rfl)]
      exact .pure fun _ => by simp
    · refine .of_not_ends (fun _ => by simp) fun isEnd => closes ?_
      rw [(thinner.behind_lost ahead lost.isLost).token_eq lost.not_isSeparator]
      exact isEnd lexeme rest ahead lost.isLost
  · have isSeparator := Token.isSeparator_of_isOptionalBefore lost.isOptional
    refine .of_begins Begins.exprList.bind (Token.isPause_of_isSeparator ?_)
    rwa [Cursor.token_of_ahead ahead]

/-- Calls that are run or deferred. -/
theorem callOnly : Thins thinning allowance NoParts Production.callOnly (.of .tree) := by
  refine .bind_all thins.expr fun expr => ?_
  split
  · next call =>
    have whole (property : PhraseProperty P) : (Tree.callExpr call).Everywhere property
        ↔ call.Everywhere property := Tree.everywhere_iff rfl
    exact .pure fun property => (whole property).symm
  · exact .refuse

theorem keywordStmt
    {token : Token}
    {production : Production P (Stmt P)}
    (found : Production.keywordStmt token = some production) :
    Thins thinning allowance NoParts production (.upTo .tree fun _ => thinning.LostBefore .rBrace) := by
  revert found
  unfold Production.keywordStmt
  split <;> rintro ⟨⟩
  · exact .bind thins.block fun _ => .node rfl fun _ => by simp [Tree.children]
  · exact .bind thins.ifStmt fun _ => .node rfl fun _ => by simp [Tree.children]
  · exact thins.forStmt.anywhere
  · exact thins.switchStmt.anywhere
  · exact thins.selectStmt.anywhere
  · refine .skip (.mark rfl (by decide)) fun keyword => ?_
    refine .bind thins.callOnly fun call => ?_
    exact .node rfl fun _ => by simp [Tree.children]
  · refine .skip (.mark rfl (by decide)) fun keyword => ?_
    refine .bind thins.callOnly fun call => ?_
    exact .node rfl fun _ => by simp [Tree.children]
  · exact .skip (.mark rfl (by decide)) fun _ => .map thins.results? fun _ _ => Tree.everywhere_iff rfl
  · refine .skip (.mark rfl (by decide)) fun keyword => ?_
    refine .skip .ident fun label => ?_
    exact .node rfl fun _ => by simp [Tree.children]
  · refine .skip (.mark rfl (by decide)) fun keyword => ?_
    refine .skip .ident? fun label => ?_
    exact .node rfl fun _ => by simp [Tree.children]
  · refine .skip (.mark rfl (by decide)) fun keyword => ?_
    refine .skip .ident? fun label => ?_
    exact .node rfl fun _ => by simp [Tree.children]
  · exact .skip (.mark rfl (by decide)) fun _ => .node rfl fun _ => by simp [Tree.children]

theorem exprLedStmt : Thins thinning allowance NoParts Production.exprLedStmt
    (.upTo .tree fun _ cursor => cursor.token ≠ .rParen) := by
  refine .bind_all thins.exprList fun exprs => .look_token rfl (thins.labeledTail exprs) ?_
  refine .bind_all (thins.simpleTail exprs) ?_
  intro stmt
  refine .skip .semicolon ?_
  intro _
  exact .node rfl fun _ => .rfl

omit thins in
/-- A semicolon that is a statement was not left out. -/
theorem emptyStmt
    {instead : Production P (Stmt P)}
    {ends : Stmt P -> Cursor P -> Prop}
    (atSemi : state.cursor.token = .semi)
    (reads : ∀ thinned, thinning.Thinner state thinned -> thinned.cursor.token = .semi ->
      ∀ stmt last, Parses thinning.limit (Production.advance.bind fun lexeme =>
        .pure (Tree.simple (.emptyStmt lexeme.pos))) thinned stmt last ->
          Parses thinning.limit instead thinned stmt last) :
    ThinsFrom thinning allowance NoParts
      (Production.advance.bind fun lexeme => .pure (.simple (.emptyStmt lexeme.pos))) instead
      (.upTo .tree ends) state := by
  constructor
  intro stmt final taken isSuffix cleanRun _
  have finalEq := cleanRun.eq_moveTo
  obtain ⟨_, _, advanced, done⟩ := Production.parses_bind.1 cleanRun.parses
  obtain ⟨rfl, rfl⟩ := Production.parses_advance.1 advanced
  obtain ⟨rfl, cursorEq⟩ := Production.parses_pure.1 done
  have cursorEq : final.cursor = state.cursor.advance := cursorEq
  rw [cursorEq] at finalEq
  refine ⟨.node (thinning.attests _ rfl) (.node (thinning.attests _ rfl) trivial), fun spared _ => ?_⟩
  refine ⟨trivial, fun thinned thinner => ?_⟩
  obtain ⟨lexeme, rest, ahead, isToken⟩ := Cursor.exists_of_token_ne_eof (atSemi.trans_ne (by decide))
  cases isKept : thinning.kept lexeme with
  | true =>
      have thinnedAhead := thinner.ahead_of_kept ahead isKept
      have thinnedSemi : thinned.cursor.token = .semi :=
        (Cursor.token_of_ahead thinnedAhead).trans (isToken.trans atSemi)
      have samePeek : thinned.cursor.peek = state.cursor.peek := by
        rw [Cursor.peek_of_ahead thinnedAhead, Cursor.peek_of_ahead ahead]
      refine ⟨_, thinned.cursor.advance, reads thinned thinner thinnedSemi _ _ ?_, rfl, ?_⟩
      · refine Production.parses_bind.2 ⟨_, _, Production.parses_advance.2 ⟨samePeek.symm, rfl⟩, ?_⟩
        exact Production.parses_pure.2 ⟨rfl, rfl⟩
      · exact finalEq ▸ thinner.behind_kept ahead isKept
  | false =>
      have lost := thinning.lost_of_not_kept isSuffix ahead isKept
      exact absurd spared (not_spared_of_emptyStmt ahead lost (isToken.trans atSemi))

theorem stmtRule : Thins thinning allowance NoParts Production.stmtRule
    (.upTo .tree fun _ cursor => cursor.token ≠ .rParen) := by
  intro state
  by_cases isPause : state.cursor.token.isPause = true
  · by_cases atSemi : state.cursor.token = .semi
    · refine .of_look ?_
      rw [atSemi]
      refine emptyStmt atSemi fun thinned _ thinnedSemi stmt last parses => ?_
      refine Production.parses_bind_look.2 ?_
      rw [thinnedSemi]
      exact parses
    · refine .of_not_parses fun _ value final parses => ?_
      exact atSemi (Production.stmt_of_pause (Production.parses_call.2 parses) isPause).1
  have notSeparator := Token.isSeparator_of_not_isPause (Bool.eq_false_iff.2 isPause)
  refine .look fun thinned thinner => ?_
  rw [thinner.token_eq notSeparator]
  split
  · next found => exact terminated (thins.keywordStmt found) state
  · split
    · exact (thins.decl state).bind fun decl _ => .node rfl fun _ => by simp [Tree.children]
    · exact (thins.decl state).bind fun decl _ => .node rfl fun _ => by simp [Tree.children]
    · exact (thins.decl state).bind fun decl _ => .node rfl fun _ => by simp [Tree.children]
    · next atSemi => exact absurd (congrArg Token.isPause atSemi) isPause
    · exact .choice .rfl (fun _ => thins.exprLedStmt state) fun _ => .refuse

end ThinsNonterminals

/-- All nonterminals read a thinned text as they read the text. -/
theorem thinsNonterminals (thinning : Thinning P) :
    ∀ allowance, ThinsNonterminals thinning allowance
  | 0 => ⟨.call_zero, fun _ => .call_zero, .call_zero, .call_zero, .call_zero, .call_zero, .call_zero⟩
  | allowance + 1 =>
      have thins := thinsNonterminals thinning allowance
      { type? := .call thins.typeRule
        exprOf := fun least => .call (thins.exprRule least)
        unary := .call thins.unaryRule
        literalBody := .call thins.literalBodyRule
        block := .call thins.blockRule
        stmt := .call thins.stmtRule
        ifStmt := .call thins.ifStmtRule }

end GoFront
