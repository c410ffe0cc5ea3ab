import GoFront.Proofs.Shape.Declarations

/-!
# Layers of statements

Statements are graded. What can come in two parts comes with both or with none, and a case of a select
statement has a communication, so that all parts fit.
-/

namespace GoFront

variable {P : Type}

open GoFront.Tree (Graded)

/-! ## Branches, bindings and cases -/

namespace Tree

variable {layers : Nat}

/-- What stands behind `else` is graded. -/
def ElseBody.Graded (layers : Nat) : ElseBody P -> Prop
  | conditional stmt => stmt.Graded layers
  | block body => body.Graded layers

theorem graded_elseBranch
    {elseBody : ElseBody P}
    (keyword : Mark P)
    (graded : elseBody.Graded layers) :
    (elseBranch keyword elseBody).Graded (layers + 1) := by
  cases elseBody with
  | conditional _ => exact .node trivial rfl graded
  | block _ => exact .node trivial rfl graded

/-- What is bound is graded. -/
def GradedBinding (layers : Nat) (bound : Tree P (.one .bindingList) × Mark P) : Prop :=
  (binding bound.1 bound.2).Graded layers

/-- A graded statement that sends or receives. -/
structure GradedCommunication (layers : Nat) (stmt : SimpleStmt P) : Prop where
  graded : stmt.Graded layers
  isCommunication : stmt.isCommunication = true

theorem commCase?_eq_ok
    {stmt : SimpleStmt P}
    (keyword : Mark P)
    (isCommunication : stmt.isCommunication = true) :
    commCase? keyword stmt = .ok (commCase keyword stmt) := by
  cases stmt with
  | send _ _ _ | receive _ _ => rfl
  | _ => cases isCommunication

end Tree

/-- The subject of a switch is graded. -/
def Production.SwitchSubject.Graded (layers : Nat) : Production.SwitchSubject P -> Prop
  | values tag => ∀ expr ∈ tag, expr.Graded layers
  | types guard => guard.Graded layers

namespace BuildsGraded

open Builds
open GoFront.Tree (GradedBinding GradedCommunication)

variable {room : Nat} {machine : Machine P} (graded : BuildsGraded machine)

include graded

/-! ## Simple statements -/

omit graded in
theorem onlyExpr
    {layers : Nat}
    {exprs : ExprList P}
    (isExprs : exprs.Graded layers) :
    Builds room machine (Production.onlyExpr exprs) (Graded layers) := by
  unfold Production.onlyExpr
  split
  · next expr only => exact done (isExprs.of_mem_exprs (by simp [only]))
  · exact refuse (.of_other rfl)

theorem simpleTail
    {left : ExprList P}
    (isLeft : left.Graded (8 * room + 9)) :
    Builds room machine (Production.simpleTail left) (Graded (8 * room + 10)) := by
  refine skip look fun cursor => choice (fun _ => ?_) fun _ => choice (fun _ => ?_) fun _ => ?_
  · split
    · exact refuse (.of_other rfl)
    · refine skip (mark _) fun define => bind graded.exprList fun values isValues => done ?_
      exact .node trivial rfl isValues
  · refine skip anyMark fun op => bind graded.exprList fun right isRight => done ?_
    exact .node trivial rfl ⟨isLeft, isRight⟩
  · refine bind (onlyExpr isLeft) fun first isFirst => ?_
    split
    · exact skip anyMark fun op => done (.node trivial rfl isFirst)
    · exact skip anyMark fun op => done (.node trivial rfl isFirst)
    · refine skip (mark _) fun arrow => bind graded.anyExpr fun value isValue => done ?_
      exact .node trivial rfl ⟨isFirst, isValue.mono (by omega)⟩
    · exact done (.node trivial rfl isFirst)

theorem simpleStmt : Builds room machine (Production.simpleStmt (P := P)) (Graded (8 * room + 10)) :=
  bind graded.exprList fun _ isLeft => graded.simpleTail isLeft

theorem simpleStmtUnless (tokens : List Token) :
    Builds room machine (Production.simpleStmtUnless (P := P) tokens) fun found =>
      ∀ stmt ∈ found, stmt.Graded (8 * room + 10) := by
  refine skip look ?_
  intro _
  refine choice (fun _ => done_none) ?_
  intro _
  exact bind graded.simpleStmt fun _ isStmt => done_some isStmt

theorem callOnly : Builds room machine (Production.callOnly (P := P)) (Graded (8 * room + 8)) := by
  refine bind graded.anyExpr fun expr isExpr => ?_
  split
  · exact done (isExpr.child (.head _))
  · exact refuse (.of_other rfl)

/-! ## Statement lists -/

theorem stmtList : Builds room machine (Production.stmtList (P := P)) (Graded (8 * room + 9)) := by
  have item : Builds room machine (.nested (.call .stmt)) (Graded (P := P) (8 * room + 8)) :=
    nested fun less isLess =>
      (graded.builds .stmt).weaken fun stmt (isStmt : stmt.Graded (8 * less + 16)) =>
        isStmt.mono (by omega)
  exact bind (resuming item) fun stmts isStmts => done (.node trivial rfl (.ofList isStmts))

theorem blockRule : Builds room machine (Production.blockRule (P := P)) (Graded (8 * room + 3)) := by
  refine nested fun less isLess => inHeader (skip (mark _) fun lBrace => ?_)
  refine bind graded.stmtList fun stmts isStmts => skip (mark _) fun rBrace => done ?_
  have block : (Tree.block lBrace stmts rBrace).Graded (8 * less + 10) := .node trivial rfl isStmts
  exact block.mono (by omega)

/-! ## Conditional statements and loops -/

theorem headerStmts :
    Builds room machine (Production.headerStmts (P := P)) fun found =>
      (∀ stmt ∈ found.1, stmt.Graded (8 * room + 10))
        ∧ ∀ stmt ∈ found.2, stmt.Graded (8 * room + 10) := by
  refine bind (graded.simpleStmtUnless _) fun first isFirst => skip (eat? _) fun semi => ?_
  refine choice (fun _ => done ⟨nofun, isFirst⟩) fun _ => ?_
  exact bind (graded.simpleStmtUnless _) fun second isSecond => done ⟨isFirst, isSecond⟩

omit graded in
theorem headerExpr
    {layers : Nat}
    {stmt : SimpleStmt P}
    (part : HeaderPart)
    (isStmt : stmt.Graded layers) :
    Builds room machine (Production.headerExpr part stmt) (Graded layers) := by
  unfold Production.headerExpr
  split
  · exact done (isStmt.child (.head _))
  · exact refuse (.of_other rfl)

theorem ifHeader :
    Builds room machine (Production.ifHeader (P := P)) fun found =>
      (∀ stmt ∈ found.1, stmt.Graded (8 * room + 10)) ∧ found.2.Graded (8 * room + 10) := by
  apply inHeader
  refine bind graded.headerStmts ?_
  rintro ⟨init, condition⟩ ⟨isInit, isCondition⟩
  cases condition with
  | none => exact refuse (.of_other rfl)
  | some condition =>
      exact bind (headerExpr _ (isCondition condition rfl)) fun condition isCondition =>
        done ⟨isInit, isCondition⟩

theorem elseBody :
    Builds room machine (Production.elseBody (P := P)) (Tree.ElseBody.Graded (8 * room + 3)) := by
  refine skip look fun cursor => ?_
  split
  · refine bind (nested fun less isLess => ?_) fun stmt isStmt => done isStmt
    refine (graded.builds .ifStmt).weaken fun stmt (isStmt : stmt.Graded (8 * less + 11)) => ?_
    exact isStmt.mono (by omega)
  · exact bind graded.block fun body isBody => done isBody
  · exact refuse (.of_other rfl)

/-- Behind `else` there is a body. -/
theorem ifStmtRule : Builds room machine (Production.ifStmtRule (P := P)) (Graded (8 * room + 11)) := by
  refine skip (mark _) fun keyword => bind graded.ifHeader fun ⟨init, condition⟩ ⟨isInit, isCondition⟩ => ?_
  refine bind graded.block fun body isBody => skip (mark? _) fun elseKeyword => ?_
  have stmtGraded {branch : Tree P (.maybe .elseBranch)} (isBranch : branch.Graded (8 * room + 4)) :
      (Tree.ifStmt keyword (.ofOption init) condition body branch).Graded (8 * room + 11) :=
    .node trivial rfl ⟨.ofOption isInit, isCondition, isBody.mono (by omega), isBranch.mono (by omega)⟩
  cases elseKeyword with
  | none => exact pure_bind (done (stmtGraded .absent))
  | some elseKeyword =>
      refine bind graded.elseBody fun elseBody isElse => pure_bind (done (stmtGraded ?_))
      exact .present (Tree.graded_elseBranch elseKeyword isElse)

theorem forClauseTail
    {init : Option (SimpleStmt P)}
    (isInit : ∀ stmt ∈ init, stmt.Graded (8 * room + 10)) :
    Builds room machine (Production.forClauseTail init) (Graded (8 * room + 12)) := by
  have behind {condition : Option (Expr P)}
      (isCondition : ∀ expr ∈ condition, expr.Graded (8 * room + 8)) :
      Builds room machine ((Production.expect .semi).bind fun _ =>
        (Production.simpleStmtUnless [.lBrace]).bind fun post =>
          .pure (Tree.forClause (.ofOption init) (.ofOption condition) (.ofOption post)))
        (Graded (8 * room + 12)) := by
    refine skip (expect _) fun semi => bind (graded.simpleStmtUnless _) fun post isPost => done ?_
    have clause : (Tree.forClause (.ofOption init) (.ofOption condition) (.ofOption post)).Graded
        (8 * room + 11) :=
      .node trivial rfl ⟨.ofOption isInit,
        .ofOption fun expr isFound => (isCondition expr isFound).mono (by omega), .ofOption isPost⟩
    exact clause.mono (by omega)
  refine skip (expect _) fun semi => skip look fun cursor => choice (fun _ => ?_) fun _ => ?_
  · exact pure_bind (behind nofun)
  · refine bind graded.anyExpr fun condition isCondition => pure_bind (behind ?_)
    simpa using isCondition

omit graded in
theorem boundNames :
    Builds room machine (Production.boundNames (P := P)) (GradedBinding (8 * room + 11)) := by
  refine skip identList ?_
  intro names
  exact skip (mark _) fun op => done (.node trivial rfl (.node trivial rfl trivial))

theorem boundExprs :
    Builds room machine (Production.boundExprs (P := P)) (GradedBinding (8 * room + 11)) := by
  refine bind graded.exprList ?_
  intro _ isExprs
  exact skip (mark _) fun _ => done (.node trivial rfl (.node trivial rfl isExprs))

/-- What is bound comes with its operator. -/
theorem rangeClause :
    Builds room machine (Production.rangeClause (P := P)) (Graded (8 * room + 12)) := by
  have binding : Builds room machine (Production.rangeBinding (P := P))
      fun found => ∀ pair ∈ found, GradedBinding (8 * room + 11) pair := by
    refine skip look ?_
    intro cursor
    refine choice (fun _ => done_none) ?_
    intro _
    exact choice (fun _ => map_some boundNames) fun _ => map_some graded.boundExprs
  refine bind binding fun bound isBound => skip (mark _) fun keyword => ?_
  refine bind graded.anyExpr fun expr isExpr => ?_
  cases bound with
  | none => exact done (.node trivial rfl ⟨.absent, isExpr.mono (by omega)⟩)
  | some pair => exact done (.node trivial rfl ⟨.present (isBound pair rfl), isExpr.mono (by omega)⟩)

theorem forHeader : Builds room machine (Production.forHeader (P := P)) (Graded (8 * room + 12)) := by
  refine inHeader (skip look fun cursor => choice (fun _ => done .absent) fun _ => ?_)
  refine choice (fun _ => ?_) fun _ => ?_
  · exact bind graded.rangeClause fun clause isClause => done (.present isClause)
  · refine bind (graded.simpleStmtUnless _) fun init isInit => skip look fun cursor => ?_
    cases init with
    | some condition =>
        refine choice (fun _ => ?_) fun _ => ?_
        · exact bind (graded.forClauseTail isInit) fun clause isClause => done (.present isClause)
        · refine bind (headerExpr _ (isInit condition rfl)) fun condition isCondition => done ?_
          exact .present (.node trivial rfl (isCondition.mono (by omega)))
    | none => exact bind (graded.forClauseTail isInit) fun clause isClause => done (.present isClause)

theorem forStmt : Builds room machine (Production.forStmt (P := P)) (Graded (8 * room + 13)) := by
  refine skip (mark _) fun keyword => bind graded.forHeader fun iteration isIteration => ?_
  refine bind graded.block fun body isBody => done ?_
  exact .node trivial rfl ⟨isIteration, isBody.mono (by omega)⟩

/-! ## Switch and select statements -/

theorem caseClauses
    {kind : ClauseKind}
    {label : Mark P -> Production P (Tree P (.one (.caseLabel kind)))}
    (isLabel : ∀ keyword, Builds room machine (label keyword) (Graded (8 * room + 13))) :
    Builds room machine (Production.caseClauses label) (Graded (8 * room + 14)) := by
  have behind {label : Tree P (.one (.caseLabel kind))} (isLabel : label.Graded (8 * room + 13)) :
      Builds room machine ((Production.mark .colon).bind fun colon => Production.stmtList.bind fun body =>
        .pure (Tree.caseClause label colon body, true)) fun found => found.1.Graded (8 * room + 14) := by
    refine skip (mark _) fun colon => bind graded.stmtList fun body isBody => done ?_
    exact .node trivial rfl ⟨isLabel, isBody.mono (by omega)⟩
  refine bind (itemsUntil fun _ => skip look fun cursor => ?_) fun clauses isClauses =>
    done (.ofList isClauses)
  split
  · exact skip (mark _) fun keyword => bind (isLabel keyword) fun label isLabel => behind isLabel
  · exact skip (mark _) fun keyword => pure_bind (behind (.node trivial rfl trivial))
  · exact bind (refuse (.of_other rfl)) fun label isLabel => behind isLabel

omit graded in
theorem switchSubject
    {last : Option (SimpleStmt P)}
    (isLast : ∀ stmt ∈ last, stmt.Graded (8 * room + 10)) :
    Builds room machine (Production.switchSubject last)
      (Production.SwitchSubject.Graded (8 * room + 11)) := by
  unfold Production.switchSubject
  split
  · exact done nofun
  · next names define values =>
      split
      · next name value only =>
          refine choice (fun isQuery => ?_) fun _ => refuse (.of_other rfl)
          have isValues : values.Graded (8 * room + 10) := (isLast _ rfl).child (.head _)
          have isValue : value.Graded (8 * room + 10) := isValues.of_mem_exprs (by simp [only])
          exact done (.node trivial rfl isValue)
      · exact refuse (.of_other rfl)
  · next stmt _ =>
      refine bind (headerExpr _ (isLast stmt rfl)) fun tag isTag => choice (fun _ => ?_) fun _ => ?_
      · exact done (.node trivial rfl isTag)
      · apply done
        simpa [Production.SwitchSubject.Graded] using isTag.mono (by omega)

theorem switchHeader :
    Builds room machine (Production.switchHeader (P := P)) fun found =>
      (∀ stmt ∈ found.1, stmt.Graded (8 * room + 10)) ∧ found.2.Graded (8 * room + 11) := by
  refine inHeader ?_
  refine bind graded.headerStmts ?_
  rintro _ ⟨isInit, isLast⟩
  exact bind (switchSubject isLast) fun _ isSubject => done ⟨isInit, isSubject⟩

theorem switchStmt : Builds room machine (Production.switchStmt (P := P)) (Graded (8 * room + 15)) := by
  refine skip (mark _) fun keyword => bind graded.switchHeader fun ⟨init, subject⟩ ⟨isInit, isSubject⟩ => ?_
  have initGraded : (Tree.ofOption init).Graded (8 * room + 14) :=
    .ofOption fun stmt isFound => (isInit stmt isFound).mono (by omega)
  refine skip (mark _) fun lBrace => ?_
  cases subject with
  | values tag =>
      have label (keyword : Mark P) :
          Builds room machine
            (Production.exprList.bind fun exprs => .pure (Tree.exprCase keyword exprs))
            (Graded (8 * room + 13)) :=
        bind graded.exprList fun _ isExprs => done (.node trivial rfl (isExprs.mono (by omega)))
      refine bind (graded.caseClauses label) fun clauses isClauses => skip (mark _) fun rBrace => done ?_
      have tagGraded : (Tree.ofOption tag).Graded (8 * room + 14) :=
        .ofOption fun expr isTag => (isSubject expr isTag).mono (by omega)
      exact .node trivial rfl ⟨initGraded, tagGraded, isClauses⟩
  | types guard =>
      have label (keyword : Mark P) :
          Builds room machine
            (Production.typeList.bind fun types => .pure (Tree.typeCase keyword types))
            (Graded (8 * room + 13)) :=
        bind graded.typeList fun _ isTypes => done (.node trivial rfl (isTypes.mono (by omega)))
      refine bind (graded.caseClauses label) fun clauses isClauses => skip (mark _) fun rBrace => done ?_
      have guardGraded : guard.Graded (8 * room + 11) := isSubject
      exact .node trivial rfl ⟨initGraded, guardGraded.mono (by omega), isClauses⟩

/-- A communication sends or receives. -/
theorem communication :
    Builds room machine (Production.communication (P := P)) (GradedCommunication (8 * room + 12)) := by
  have binding : Builds room machine (Production.commBinding (P := P))
      fun found => ∀ pair ∈ found, GradedBinding (8 * room + 11) pair := by
    refine skip look ?_
    intro cursor
    refine choice (fun _ => map_some graded.boundExprs) ?_
    intro _
    exact choice (fun _ => map_some boundNames) fun _ => done_none
  refine bind binding fun bound isBound => bind graded.anyExpr fun expr isExpr => ?_
  have exprGraded : expr.Graded (8 * room + 11) := isExpr.mono (by omega)
  split
  · next list op =>
      have bindingGraded : (Tree.binding list op).Graded (8 * room + 11) := isBound (list, op) rfl
      exact done ⟨.node trivial rfl ⟨.present bindingGraded, exprGraded⟩, rfl⟩
  · refine skip (mark? _) fun arrow => ?_
    split
    · refine bind graded.anyExpr fun value isValue => done ⟨?_, rfl⟩
      exact .node trivial rfl ⟨exprGraded, isValue.mono (by omega)⟩
    · exact done ⟨.node trivial rfl ⟨.absent, exprGraded⟩, rfl⟩

theorem selectStmt : Builds room machine (Production.selectStmt (P := P)) (Graded (8 * room + 15)) := by
  have label (keyword : Mark P) :
      Builds room machine (Production.communication.bind fun stmt =>
        Production.build (Tree.commCase? keyword stmt)) (Graded (8 * room + 13)) := by
    refine bind graded.communication fun stmt isStmt => ?_
    rw [Tree.commCase?_eq_ok keyword isStmt.isCommunication]
    exact done (.node trivial rfl isStmt.graded)
  refine skip (mark _) fun keyword => skip (mark _) fun lBrace => bind (graded.caseClauses label) ?_
  exact fun clauses isClauses => skip (mark _) fun rBrace => done (.node trivial rfl isClauses)

/-! ## Statements -/

theorem labeledTail (label : ExprList P) :
    Builds room machine (Production.labeledTail label) (Graded (8 * room + 16)) := by
  unfold Production.labeledTail
  split
  · next label _ =>
      have behind (colon : Mark P) {stmt : Stmt P} (isStmt : stmt.Graded (8 * room + 8)) :
          Builds room machine (.pure (Tree.labeled label colon stmt)) (Graded (8 * room + 16)) :=
        done (.node trivial rfl (isStmt.mono (by omega)))
      refine skip (mark _) fun colon => skip look fun cursor => choice (fun _ => ?_) fun _ => ?_
      · exact pure_bind (behind colon (.node trivial rfl (.node trivial rfl trivial)))
      · refine bind (nested fun less isLess => ?_) fun stmt isStmt => behind colon isStmt
        refine (graded.builds .stmt).weaken fun stmt (isStmt : stmt.Graded (8 * less + 16)) => ?_
        exact isStmt.mono (by omega)
  · exact refuse (.of_other rfl)

theorem exprLedStmt :
    Builds room machine (Production.exprLedStmt (P := P)) (Graded (8 * room + 16)) := by
  refine bind graded.exprList fun exprs isExprs => skip look fun cursor => ?_
  refine choice (fun _ => graded.labeledTail exprs) fun _ => ?_
  refine bind (graded.simpleTail isExprs) fun stmt isStmt => skip semicolon fun _ => done ?_
  exact .node trivial rfl (isStmt.mono (by omega))

theorem results? : Builds room machine (Production.results? (P := P)) (Graded (8 * room + 9)) := by
  refine skip look ?_
  intro _
  refine choice (fun _ => done .absent) ?_
  intro _
  exact bind graded.exprList fun _ isResults => done (.present isResults)

theorem keywordStmt
    {token : Token}
    {stmt : Production P (Stmt P)}
    (isStmt : Production.keywordStmt token = some stmt) :
    Builds room machine stmt (Graded (8 * room + 16)) := by
  unfold Production.keywordStmt at isStmt
  split at isStmt
  case h_13 => cases isStmt
  all_goals obtain rfl := Option.some.inj isStmt
  · exact bind graded.block fun _ isBody => done (.node trivial rfl (isBody.mono (by omega)))
  · refine bind (graded.builds .ifStmt) fun stmt (isStmt : stmt.Graded (8 * room + 11)) => done ?_
    exact .node trivial rfl (isStmt.mono (by omega))
  · exact graded.forStmt.weaken fun _ isStmt => isStmt.mono (by omega)
  · exact graded.switchStmt.weaken fun _ isStmt => isStmt.mono (by omega)
  · exact graded.selectStmt.weaken fun _ isStmt => isStmt.mono (by omega)
  · exact skip (mark _) fun _ => bind graded.callOnly fun _ isCall =>
      done (.node trivial rfl (isCall.mono (by omega)))
  · exact skip (mark _) fun _ => bind graded.callOnly fun _ isCall =>
      done (.node trivial rfl (isCall.mono (by omega)))
  · exact skip (mark _) fun _ => bind graded.results? fun _ isResults =>
      done (.node trivial rfl (isResults.mono (by omega)))
  · exact skip (mark _) fun _ => skip ident fun _ => done (.node trivial rfl trivial)
  · exact skip (mark _) fun _ => skip ident? fun _ => done (.node trivial rfl trivial)
  · exact skip (mark _) fun _ => skip ident? fun _ => done (.node trivial rfl trivial)
  · exact skip (mark _) fun _ => done (.node trivial rfl trivial)

theorem stmtRule : Builds room machine (Production.stmtRule (P := P)) (Graded (8 * room + 16)) := by
  have declStmt : Builds room machine (Production.decl.bind fun decl => .pure (Tree.declStmt decl))
      (Graded (8 * room + 16)) :=
    bind graded.decl fun _ isDecl => done (.node trivial rfl isDecl)
  refine skip look fun cursor => ?_
  split
  · next stmt isStmt =>
      exact bind (graded.keywordStmt isStmt) fun _ isStmt => skip semicolon fun _ => done isStmt
  · split
    · exact declStmt
    · exact declStmt
    · exact declStmt
    · exact skip advance fun _ => done (.node trivial rfl (.node trivial rfl trivial))
    · exact choice (fun _ => graded.exprLedStmt) fun _ => refuse (.of_other rfl)

end BuildsGraded
end GoFront
