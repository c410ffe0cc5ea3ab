import GoFront.Grammar.Statements
import GoFront.Proofs.Forms.Declarations
import Mathlib.Data.List.Forall2

/-!
# Forms of statements

A statement that is read from a list or a header never receives: communications are read for the cases
of a select statement only. A header with a type query at its end is the header of a switch over types.
-/

namespace GoFront

variable {P : Type}

open GoFront.Tree (Plain)

namespace Tree

variable {inside : Bool}

/-! ## Branches, bindings and cases -/

@[simp] theorem toOption_ofOption
    {phrase : Phrase}
    (found : Option (Tree P (.one phrase))) :
    (ofOption found).toOption = found := by
  cases found <;> rfl

/-- What stands behind `else` can stand anywhere. -/
def ElseBody.Plain (inside : Bool) : ElseBody P -> Prop
  | conditional stmt => stmt.Plain inside
  | block body => body.Plain inside

theorem plain_of_ifStmt?
    {keyword : Mark P}
    {init : Tree P (.maybe .simpleStmt)}
    {condition : Expr P}
    {body : Block P}
    {elseKeyword : Option (Mark P)}
    {elseBody : Option (ElseBody P)}
    {stmt : IfStmt P}
    (isInit : init.Plain true)
    (isCondition : condition.Plain true)
    (isBody : body.Plain inside)
    (isElse : ∀ body ∈ elseBody, body.Plain inside)
    (built : ifStmt? keyword init condition body elseKeyword elseBody = .ok stmt) :
    stmt.Plain inside := by
  unfold ifStmt? at built
  split at built
  · next elseKeyword elseBody =>
      obtain rfl := Except.ok.inj built
      have branch : (elseBranch elseKeyword elseBody).Plain inside := by
        have inner := isElse elseBody rfl
        cases elseBody with
        | conditional _ => exact .of trivial rfl inner
        | block _ => exact .of trivial rfl inner
      exact .of_parts trivial rfl (fun _ => rfl) ⟨isInit, isCondition⟩ trivial
        ⟨isInit.outside, isCondition.outside, isBody.outside, .present branch.outside⟩
  · obtain rfl := Except.ok.inj built
    exact .of_parts trivial rfl (fun _ => rfl) ⟨isInit, isCondition⟩ trivial
      ⟨isInit.outside, isCondition.outside, isBody.outside, .absent⟩
  · cases built

/-- What is bound and its operator make a binding that can stand anywhere. -/
def PlainBinding (inside : Bool) (bound : Tree P (.one .bindingList) × Mark P) : Prop :=
  (binding bound.1 bound.2).Plain inside

theorem plain_of_rangeClause?
    {bound : Option (Tree P (.one .bindingList) × Mark P)}
    {keyword : Mark P}
    {expr : Expr P}
    {clause : Tree P (.one .iteration)}
    (isBound : ∀ pair ∈ bound, PlainBinding inside pair)
    (isExpr : expr.Plain inside)
    (built : rangeClause? (bound.map Prod.fst) (bound.map Prod.snd) keyword expr = .ok clause) :
    clause.Plain inside := by
  cases bound with
  | none =>
      obtain rfl := Except.ok.inj built
      exact .of trivial rfl ⟨.absent, isExpr⟩
  | some pair =>
      obtain rfl := Except.ok.inj built
      exact .of trivial rfl ⟨.present (isBound pair rfl), isExpr⟩

/-- A statement that receives has the form of the case of a select statement. -/
theorem formed_receive
    {bound : Tree P (.maybe .binding)}
    {expr : Expr P}
    (isBound : bound.Plain inside)
    (isExpr : expr.Plain inside) :
    (receive bound expr).Formed false := by
  refine .of_parts trivial (fun _ => rfl) trivial ⟨isBound.formed.outside, isExpr.formed.outside⟩ ?_
  exact ⟨⟨admits_of_unrestricted _ isBound.free, isBound.formed.outside⟩,
    admits_of_unrestricted _ isExpr.free, isExpr.formed.outside⟩

/-- The case of a select statement may receive. -/
theorem plain_of_commCase?
    {keyword : Mark P}
    {stmt : SimpleStmt P}
    {label : Tree P (.one (.caseLabel .comms))}
    (formed : stmt.Formed false)
    (built : commCase? keyword stmt = .ok label) :
    label.Plain inside := by
  have parts : label = commCase keyword stmt ∧ stmt.isCommunication = true := by
    unfold commCase? at built
    split at built
    · exact ⟨(Except.ok.inj built).symm, rfl⟩
    · exact ⟨(Except.ok.inj built).symm, rfl⟩
    · cases built
  obtain ⟨rfl, isCommunication⟩ := parts
  have admits : (commCase keyword stmt).Admits stmt := by
    cases stmt <;> trivial
  exact ⟨.of_parts isCommunication (fun _ => rfl) trivial trivial ⟨admits, formed⟩, rfl⟩

theorem ne_nil_of_listOfExprs?
    {list : ExprList P}
    {names : List (Ident P)}
    (plain : list.Plain inside)
    (found : Ident.listOfExprs? list = .ok names) :
    names ≠ [] := by
  rintro rfl
  unfold Ident.listOfExprs? at found
  split at found
  · next names read =>
      obtain rfl := Except.ok.inj found
      have same := (forall₂_of_mapM read).length_eq
      exact exprs_ne_nil_of_plain plain (List.length_eq_zero_iff.1 same)
  · cases found

end Tree

/-- The subject of a switch has the form that its sort demands. -/
def Production.SwitchSubject.Plain (inside : Bool) : Production.SwitchSubject P -> Prop
  | values tag => ∀ expr ∈ tag, expr.Plain inside ∧ Production.isTypeQuery expr = false
  | types guard => guard.Plain inside

namespace YieldsPlain

open Yields

variable {inside : Bool} {machine : Machine P} (plain : YieldsPlain machine)

include plain

/-! ## Simple statements -/

omit plain in
theorem onlyExpr
    {exprs : ExprList P}
    (isExprs : exprs.Plain inside) :
    Yields inside machine (Production.onlyExpr exprs) (Plain inside) := by
  unfold Production.onlyExpr
  split
  · next expr only => exact done (isExprs.formed.plain_of_mem_exprs (by simp [only]))
  · exact refuse _

theorem simpleTail
    {left : ExprList P}
    (isLeft : left.Plain inside) :
    Yields inside machine (Production.simpleTail left) (Plain inside) := by
  refine skip fun cursor => choice (fun _ => ?_) fun _ => choice (fun _ => ?_) fun _ => ?_
  · split
    · exact refuse _
    · next names found =>
        refine skip fun define => bind plain.exprList fun values isValues => done ?_
        exact .of (Tree.ne_nil_of_listOfExprs? isLeft found) rfl isValues
  · refine skip fun op => bind plain.exprList fun right isRight => done ?_
    exact .of trivial rfl ⟨isLeft, isRight⟩
  · refine bind (onlyExpr isLeft) fun first isFirst => ?_
    split
    · exact skip fun op => done (.of trivial rfl isFirst)
    · exact skip fun op => done (.of trivial rfl isFirst)
    · refine skip fun arrow => bind plain.expr fun value isValue => done ?_
      exact .of trivial rfl ⟨isFirst, isValue⟩
    · exact done (.of trivial rfl isFirst)

theorem simpleStmt : Yields inside machine (Production.simpleStmt (P := P)) (Plain inside) :=
  bind plain.exprList fun _ isLeft => plain.simpleTail isLeft

theorem simpleStmtUnless (tokens : List Token) :
    Yields inside machine (Production.simpleStmtUnless (P := P) tokens)
      fun found => ∀ stmt ∈ found, stmt.Plain inside := by
  refine skip ?_
  intro cursor
  refine choice (fun _ => done_none) ?_
  intro _
  exact bind plain.simpleStmt fun stmt isStmt => done_some isStmt

theorem callOnly : Yields inside machine (Production.callOnly (P := P)) (Plain inside) := by
  refine bind plain.expr fun expr isExpr => ?_
  split
  · exact done (isExpr.formed.plain_part rfl (.head _))
  · exact refuse _

/-! ## Statement lists -/

theorem stmtList : Yields inside machine (Production.stmtList (P := P)) (Plain inside) :=
  bind (resuming (nested (plain.yields .stmt))) fun _ isStmts =>
    done (.of trivial rfl (.ofList isStmts))

theorem blockRule : Yields inside machine (Production.blockRule (P := P)) (Plain inside) := by
  apply nested
  apply inHeader
  refine skip ?_
  intro lBrace
  refine bind plain.stmtList ?_
  intro stmts isStmts
  refine skip ?_
  intro rBrace
  refine done ?_
  exact .sheltered trivial rfl rfl isStmts

/-! ## Conditional statements and loops -/

theorem headerStmts :
    Yields inside machine (Production.headerStmts (P := P)) fun found =>
      (∀ stmt ∈ found.1, stmt.Plain inside) ∧ ∀ stmt ∈ found.2, stmt.Plain inside := by
  refine bind (plain.simpleStmtUnless _) fun first isFirst => skip fun semi => ?_
  refine choice (fun _ => done ⟨nofun, isFirst⟩) fun _ => ?_
  exact bind (plain.simpleStmtUnless _) fun second isSecond => done ⟨isFirst, isSecond⟩

omit plain in
theorem headerExpr
    (part : HeaderPart)
    {stmt : SimpleStmt P}
    (isStmt : stmt.Plain inside) :
    Yields inside machine (Production.headerExpr part stmt) (Plain inside) := by
  unfold Production.headerExpr
  split
  · exact done (isStmt.formed.plain_part rfl (.head _))
  · exact refuse _

theorem ifHeader :
    Yields inside machine (Production.ifHeader (P := P)) fun found =>
      (∀ stmt ∈ found.1, stmt.Plain true) ∧ found.2.Plain true := by
  apply inHeader
  refine bind plain.headerStmts ?_
  rintro ⟨init, condition⟩ ⟨isInit, isCondition⟩
  cases condition with
  | none => exact refuse _
  | some condition =>
      exact bind (headerExpr _ (isCondition condition rfl)) fun condition isCondition =>
        done ⟨isInit, isCondition⟩

theorem elseBody : Yields inside machine (Production.elseBody (P := P))
      (Tree.ElseBody.Plain inside) := by
  refine skip fun cursor => ?_
  split
  · exact bind (nested (plain.yields .ifStmt)) fun stmt isStmt => done isStmt
  · exact bind plain.block fun body isBody => done isBody
  · exact refuse _

theorem ifStmtRule : Yields inside machine (Production.ifStmtRule (P := P)) (Plain inside) := by
  refine skip fun keyword => bind plain.ifHeader fun ⟨init, condition⟩ ⟨isInit, isCondition⟩ => ?_
  refine bind plain.block fun body isBody => skip fun elseKeyword => ?_
  have behind {elseBody : Option (Tree.ElseBody P)}
      (isElse : ∀ body ∈ elseBody, body.Plain inside) :
      Yields inside machine (Production.build
        (Tree.ifStmt? keyword (.ofOption init) condition body elseKeyword elseBody)) (Plain inside) :=
    build fun stmt => Tree.plain_of_ifStmt? (.ofOption isInit) isCondition isBody isElse
  refine choice (fun _ => ?_) fun _ => ?_
  · refine bind plain.elseBody fun elseBody isElse => pure_bind (behind ?_)
    simpa using isElse
  · exact pure_bind (behind nofun)

theorem forClauseTail
    {init : Option (SimpleStmt P)}
    (isInit : ∀ stmt ∈ init, stmt.Plain inside) :
    Yields inside machine (Production.forClauseTail init) (Plain inside) := by
  have behind {condition : Option (Expr P)} (isCondition : ∀ expr ∈ condition, expr.Plain inside) :
      Yields inside machine ((Production.expect .semi).bind fun _ =>
        (Production.simpleStmtUnless [.lBrace]).bind fun post =>
          .pure (Tree.forClause (.ofOption init) (.ofOption condition) (.ofOption post)))
        (Plain inside) := by
    refine skip fun semi => bind (plain.simpleStmtUnless _) fun post isPost => done ?_
    exact .of trivial rfl ⟨.ofOption isInit, .ofOption isCondition, .ofOption isPost⟩
  refine skip fun semi => skip fun cursor => choice (fun _ => ?_) fun _ => ?_
  · exact pure_bind (behind nofun)
  · refine bind plain.expr fun condition isCondition => pure_bind (behind ?_)
    simpa using isCondition

omit plain in
theorem boundNames :
    Yields inside machine (Production.boundNames (P := P)) (Tree.PlainBinding inside) := by
  refine bind identList fun names some => bind (mark .define) fun op isDefine => done ?_
  exact Plain.of ⟨some, isDefine⟩ rfl (Plain.of trivial rfl trivial)

theorem boundExprs :
    Yields inside machine (Production.boundExprs (P := P)) (Tree.PlainBinding inside) := by
  refine bind plain.exprList fun exprs isExprs => bind (mark .assign) fun op isAssign => done ?_
  exact Plain.of ⟨Tree.exprs_ne_nil_of_plain isExprs, isAssign⟩ rfl (Plain.of trivial rfl isExprs)

theorem rangeClause : Yields inside machine (Production.rangeClause (P := P)) (Plain inside) := by
  have binding : Yields inside machine (Production.rangeBinding (P := P))
      fun found => ∀ pair ∈ found, Tree.PlainBinding inside pair := by
    refine skip ?_
    intro cursor
    refine choice (fun _ => done_none) ?_
    intro _
    exact choice (fun _ => map_some boundNames) fun _ => map_some plain.boundExprs
  refine bind binding fun bound isBound => skip fun keyword => ?_
  refine bind plain.expr fun expr isExpr => ?_
  exact build fun clause => Tree.plain_of_rangeClause? isBound isExpr

theorem forHeader : Yields inside machine (Production.forHeader (P := P)) (Plain true) := by
  apply inHeader
  refine skip fun cursor => choice (fun _ => done .absent) fun _ => choice (fun _ => ?_) fun _ => ?_
  · exact bind plain.rangeClause fun clause isClause => done (.present isClause)
  · refine bind (plain.simpleStmtUnless _) fun init isInit => skip fun cursor => ?_
    cases init with
    | some condition =>
        apply choice
        · intro _
          exact bind (plain.forClauseTail isInit) fun clause isClause => done (.present isClause)
        · intro _
          refine bind (headerExpr _ (isInit condition rfl)) fun condition isCondition => done ?_
          exact .present (.of trivial rfl isCondition)
    | none => exact bind (plain.forClauseTail isInit) fun clause isClause => done (.present isClause)

theorem forStmt : Yields inside machine (Production.forStmt (P := P)) (Plain inside) := by
  refine skip fun keyword => bind plain.forHeader fun iteration isIteration => ?_
  refine bind plain.block fun body isBody => done ?_
  exact .of_parts trivial rfl (fun _ => rfl) isIteration trivial ⟨isIteration.outside, isBody.outside⟩

/-! ## Switch and select statements -/

theorem caseClauses
    {kind : ClauseKind}
    {label : Mark P -> Production P (Tree P (.one (.caseLabel kind)))}
    (isLabel : ∀ keyword, Yields inside machine (label keyword) (Plain inside)) :
    Yields inside machine (Production.caseClauses label) (Plain inside) := by
  have behind {label : Tree P (.one (.caseLabel kind))} (isLabel : label.Plain inside) :
      Yields inside machine ((Production.mark .colon).bind fun colon => Production.stmtList.bind fun body =>
        .pure (Tree.caseClause label colon body, true)) fun found => found.1.Plain inside := by
    refine skip fun colon => bind plain.stmtList fun body isBody => done ?_
    exact .of trivial rfl ⟨isLabel, isBody⟩
  refine bind (itemsUntil_of_each ?_) fun clauses isClauses => done (.ofList isClauses)
  refine skip fun cursor => ?_
  split
  · exact skip fun keyword => bind (isLabel keyword) fun label isLabel => behind isLabel
  · refine skip fun keyword => pure_bind (behind ?_)
    exact .of trivial rfl trivial
  · exact bind (refuse _) fun label isLabel => behind isLabel

omit plain in
/-- A switch over types asks for a type, and a switch over values does not. -/
theorem switchSubject
    {last : Option (SimpleStmt P)}
    (isLast : ∀ stmt ∈ last, stmt.Plain inside) :
    Yields inside machine (Production.switchSubject last)
      (Production.SwitchSubject.Plain inside) := by
  unfold Production.switchSubject
  split
  · exact done nofun
  · next names define values =>
      split
      · next name value only =>
          refine choice (fun isQuery => ?_) fun _ => refuse _
          have isValues : values.Plain inside :=
            (isLast _ rfl).formed.plain_part rfl (.head _)
          have isValue : value.Plain inside := isValues.formed.plain_of_mem_exprs (by simp [only])
          exact done (.of isQuery rfl isValue)
      · exact refuse _
  · next stmt _ =>
      refine bind (headerExpr _ (isLast stmt rfl)) fun tag isTag => ?_
      refine choice (fun isQuery => ?_) fun isValue => ?_
      · exact done (.of isQuery rfl isTag)
      · apply done
        simpa [Production.SwitchSubject.Plain, isTag] using isValue

theorem switchHeader :
    Yields inside machine (Production.switchHeader (P := P)) fun found =>
      (∀ stmt ∈ found.1, stmt.Plain true) ∧ found.2.Plain true := by
  refine inHeader ?_
  refine bind plain.headerStmts ?_
  rintro _ ⟨isInit, isLast⟩
  exact bind (switchSubject isLast) fun _ isSubject => done ⟨isInit, isSubject⟩

theorem switchStmt : Yields inside machine (Production.switchStmt (P := P)) (Plain inside) := by
  refine skip fun keyword => bind plain.switchHeader fun ⟨init, subject⟩ ⟨isInit, isSubject⟩ => ?_
  refine skip fun lBrace => ?_
  cases subject with
  | values tag =>
      have label (keyword : Mark P) :
          Yields inside machine
            (Production.exprList.bind fun exprs => .pure (Tree.exprCase keyword exprs))
            (Plain inside) :=
        bind plain.exprList fun _ isExprs => done (.of trivial rfl isExprs)
      refine bind (plain.caseClauses label) fun clauses isClauses => skip fun rBrace => done ?_
      have initPlain : (Tree.ofOption init).Plain true := .ofOption isInit
      have tagPlain : (Tree.ofOption tag).Plain true :=
        .ofOption fun expr isTag => (isSubject expr isTag).1
      refine .of_parts ?_ rfl (fun _ => rfl) ⟨initPlain, tagPlain⟩ trivial
        ⟨initPlain.outside, tagPlain.outside, isClauses.outside⟩
      intro expr isTag
      exact (isSubject expr (by simpa using isTag)).2
  | types guard =>
      have label (keyword : Mark P) :
          Yields inside machine
            (Production.typeList.bind fun types => .pure (Tree.typeCase keyword types))
            (Plain inside) :=
        bind plain.typeList fun _ isTypes => done (.of trivial rfl isTypes)
      refine bind (plain.caseClauses label) fun clauses isClauses => skip fun rBrace => done ?_
      have initPlain : (Tree.ofOption init).Plain true := .ofOption isInit
      have guardPlain : guard.Plain true := isSubject
      exact .of_parts trivial rfl (fun _ => rfl) ⟨initPlain, guardPlain⟩ trivial
        ⟨initPlain.outside, guardPlain.outside, isClauses.outside⟩

/-- Only a communication may receive. -/
theorem communication :
    Yields inside machine (Production.communication (P := P)) (Tree.Formed false) := by
  have binding : Yields inside machine (Production.commBinding (P := P))
      fun found => ∀ pair ∈ found, Tree.PlainBinding inside pair := by
    refine skip ?_
    intro cursor
    refine choice (fun _ => map_some plain.boundExprs) ?_
    intro _
    exact choice (fun _ => map_some boundNames) fun _ => done_none
  refine bind binding fun bound isBound => bind plain.expr fun expr isExpr => ?_
  split
  · next list op => exact done (Tree.formed_receive (.present (isBound (list, op) rfl)) isExpr)
  · refine skip fun arrow => ?_
    split
    · next arrow =>
        refine bind plain.expr fun value isValue => done ?_
        have isSend : (Tree.send expr arrow value).Plain inside := .of trivial rfl ⟨isExpr, isValue⟩
        exact isSend.formed.outside
    · exact done (Tree.formed_receive .absent isExpr)

theorem selectStmt : Yields inside machine (Production.selectStmt (P := P)) (Plain inside) := by
  have label (keyword : Mark P) :
      Yields inside machine (Production.communication.bind fun stmt =>
        Production.build (Tree.commCase? keyword stmt)) (Plain inside) :=
    bind plain.communication fun _ isStmt => build fun _ => Tree.plain_of_commCase? isStmt
  refine skip fun keyword => skip fun lBrace => bind (plain.caseClauses label) ?_
  exact fun clauses isClauses => skip fun rBrace => done (.of trivial rfl isClauses)

/-! ## Statements -/

theorem labeledTail (label : ExprList P) :
    Yields inside machine (Production.labeledTail label) (Plain inside) := by
  unfold Production.labeledTail
  split
  · next label _ =>
      have behind (colon : Mark P) {stmt : Stmt P} (isStmt : stmt.Plain inside) :
          Yields inside machine (.pure (Tree.labeled label colon stmt)) (Plain inside) :=
        done (.of trivial rfl isStmt)
      refine skip fun colon => skip fun cursor => choice (fun _ => ?_) fun _ => ?_
      · exact pure_bind (behind colon (.of trivial rfl (.of trivial rfl trivial)))
      · exact bind (nested (plain.yields .stmt)) fun stmt isStmt => behind colon isStmt
  · exact refuse _

theorem exprLedStmt : Yields inside machine (Production.exprLedStmt (P := P)) (Plain inside) := by
  refine bind plain.exprList fun exprs isExprs => skip fun cursor => ?_
  refine choice (fun _ => plain.labeledTail exprs) fun _ => ?_
  refine bind (plain.simpleTail isExprs) fun stmt isStmt => skip fun _ => done ?_
  exact .of trivial rfl isStmt

theorem results? : Yields inside machine (Production.results? (P := P)) (Plain inside) := by
  refine skip ?_
  intro cursor
  refine choice (fun _ => done .absent) ?_
  intro _
  exact bind plain.exprList fun results isResults => done (.present isResults)

theorem keywordStmt
    {token : Token}
    {stmt : Production P (Stmt P)}
    (isStmt : Production.keywordStmt token = some stmt) :
    Yields inside machine stmt (Plain inside) := by
  unfold Production.keywordStmt at isStmt
  split at isStmt
  case h_13 => cases isStmt
  all_goals obtain rfl := Option.some.inj isStmt
  · exact bind plain.block fun _ isBody => done (.of trivial rfl isBody)
  · exact bind (plain.yields .ifStmt) fun _ isStmt => done (.of trivial rfl isStmt)
  · exact plain.forStmt
  · exact plain.switchStmt
  · exact plain.selectStmt
  · exact skip fun _ => bind plain.callOnly fun _ isCall => done (.of trivial rfl isCall)
  · exact skip fun _ => bind plain.callOnly fun _ isCall => done (.of trivial rfl isCall)
  · exact skip fun _ => bind plain.results? fun _ isResults =>
      done (.of trivial rfl isResults)
  · exact skip fun _ => skip fun _ => done (.of trivial rfl trivial)
  · exact skip fun _ => skip fun _ => done (.of trivial rfl trivial)
  · exact skip fun _ => skip fun _ => done (.of trivial rfl trivial)
  · exact skip fun _ => done (.of trivial rfl trivial)

/-- A declaration is a statement only behind a keyword that opens no function. -/
theorem declStmt
    {state final : ReadState P}
    {stmt : Stmt P}
    (notFunc : state.cursor.token ≠ .kwFunc)
    (run : machine.run (Production.decl.bind fun decl => .pure (Tree.declStmt decl)) state
      = .done stmt final) :
    stmt.Plain inside := by
  obtain ⟨decl, between, declRun, restRun⟩ := Reads.run_bind_done run
  obtain ⟨rfl, -⟩ := Outcome.done.inj restRun
  obtain ⟨isDecl, -⟩ := plain.decl.of_run rfl declRun
  exact .sheltered (plain.isLocalDecl_of_run notFunc declRun) rfl rfl isDecl.outside

theorem stmtRule : Yields inside machine (Production.stmtRule (P := P)) (Plain inside) := by
  constructor
  intro state stmt final atFlag run
  replace run := Reads.run_look_done run
  split at run
  · next inner isStmt =>
      have terminated : Yields inside machine (Production.terminated inner) (Plain inside) :=
        bind (plain.keywordStmt isStmt) fun _ isInner => skip fun _ => done isInner
      exact terminated.of_run atFlag run
  · split at run
    · next isVar => exact plain.declStmt (by simp [isVar]) run
    · next isConst => exact plain.declStmt (by simp [isConst]) run
    · next isType => exact plain.declStmt (by simp [isType]) run
    · have empty : Yields inside machine (Production.advance.bind fun lexeme =>
          .pure (Tree.simple (.emptyStmt lexeme.pos))) (Plain inside) :=
        skip fun _ => done (.of trivial rfl (.of trivial rfl trivial))
      exact empty.of_run atFlag run
    · split at run
      · exact plain.exprLedStmt.of_run atFlag run
      · cases run

end YieldsPlain
end GoFront
