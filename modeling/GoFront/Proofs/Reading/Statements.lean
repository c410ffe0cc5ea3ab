import GoFront.Proofs.Reading.Declarations
import GoFront.Grammar.Statements

/-!
# Reading statements

How statements are read, if nonterminals are read as they should. Statements stand between braces, so
that resuming after a failed one stays in the shelter of its block. The header of a loop is decided by
what lies before the brace that follows it, and a communication by what lies before the colon.
-/

namespace GoFront

variable {P : Type}

/-! ## Parts of statements -/

/-- What is built from parts mentions what they mention. -/
def Completing
    {phrase : Phrase}
    (part : List (Mention P))
    (value : Tree P (.one phrase))
    (credit reached : Nat)
    (mentions : List (Mention P)) : Prop :=
  credit ≤ reached ∧ part ++ mentions = value.outline

/-- A slot that may be empty. -/
def Optional
    {phrase : Phrase}
    (value : Option (Tree P (.one phrase)))
    (credit reached : Nat)
    (mentions : List (Mention P)) : Prop :=
  credit ≤ reached ∧ mentions = (Tree.ofOption value).outline

theorem isMark_of_isAssignOp
    {token : Token}
    (isOp : token.isAssignOp = true) :
    isMark token = true ∧ Brackets.isBracket token = false := by
  revert isOp
  cases token <;> decide

theorem outline_of_exprs
    {list : ExprList P}
    {expr : Expr P}
    (single : list.exprs = [expr]) :
    list.outline = expr.outline := by
  rw [Tree.outline_exprs, single]
  exact List.append_nil _

theorem outline_of_mapM_identOfExpr?
    {exprs : List (Expr P)}
    {names : List (Ident P)}
    (found : exprs.mapM Tree.identOfExpr? = some names) :
    exprs.flatMap Tree.outline = names.map Ident.mention := by
  have reads := Tree.forall₂_of_mapM found
  clear found
  induction reads with
  | nil => rfl
  | @cons expr name _ _ isName _ inductionHypothesis =>
      rw [List.flatMap_cons, inductionHypothesis]
      cases expr with
      | ident other =>
          obtain rfl := Option.some.inj isName
          rfl
      | _ => cases isName

theorem outline_of_listOfExprs?
    {list : ExprList P}
    {names : List (Ident P)}
    (found : Ident.listOfExprs? list = .ok names) :
    list.outline = names.map Ident.mention := by
  unfold Ident.listOfExprs? at found
  split at found
  · next identified =>
      obtain rfl := Except.ok.inj found
      rw [Tree.outline_exprs, outline_of_mapM_identOfExpr? identified]
  · cases found

namespace ReadsNonterminals

open Reads

variable {machine : Machine P} (nonterminals : ReadsNonterminals machine)
include nonterminals

/-! ## Simple statements -/

theorem simpleTail (left : ExprList P) :
    ReadsPhrase machine Anywhere 0 (Production.simpleTail left) (Completing left.outline) := by
  intro frame credit _ _
  refine look (fun first second same _ => ?_) fun cursor _ => ?_
  · rw [same]
  · split
    · split
      · exact refuse
      · next names found =>
          refine mark rfl rfl fun define _ => map (last nonterminals.exprList trivial (by omega) ?_)
          rintro values reached _ ⟨gains, rfl, -⟩
          refine ⟨_, rfl, by omega, ?_⟩
          rw [outline_of_listOfExprs? found]
          rfl
    · split
      · next isOp =>
          obtain ⟨fixed, plain⟩ := isMark_of_isAssignOp isOp
          refine anyMark rfl fixed plain fun op _ => ?_
          refine map (last nonterminals.exprList trivial (by omega) ?_)
          rintro right reached _ ⟨gains, rfl, -⟩
          exact ⟨_, rfl, by omega, rfl⟩
      · unfold Production.onlyExpr
        split
        · next expr single =>
            refine pure_bind ?_
            rw [outline_of_exprs single]
            split
            · next isInc =>
                refine anyMark (congrArg some isInc) rfl rfl fun op _ => ?_
                exact Reads.pure ⟨_, rfl, by omega, rfl⟩
            · next isDec =>
                refine anyMark (congrArg some isDec) rfl rfl fun op _ => ?_
                exact Reads.pure ⟨_, rfl, by omega, rfl⟩
            · refine mark rfl rfl fun arrow _ => map (last nonterminals.expr trivial (by omega) ?_)
              rintro value reached _ ⟨gains, rfl, -⟩
              exact ⟨_, rfl, by omega, rfl⟩
            · exact Reads.pure ⟨_, rfl, Nat.le_refl _, List.append_nil _⟩
        · exact refuse_bind

theorem simpleStmt : ReadsTree machine Anywhere 4 Production.simpleStmt := by
  intro frame credit _ enough
  refine phrase nonterminals.exprList trivial enough ?_
  rintro left reached _ ⟨gains, rfl, -⟩
  refine last (nonterminals.simpleTail left) trivial (Nat.zero_le _) ?_
  rintro stmt _ _ ⟨more, mentionsEq⟩
  exact ⟨_, rfl, by omega, mentionsEq, trivial⟩

theorem simpleStmtUnless (tokens : List Token) :
    ReadsPhrase machine Anywhere 4 (Production.simpleStmtUnless tokens) Optional := by
  intro frame credit _ enough
  refine look (fun first second same _ => ?_) fun cursor _ => ?_
  · rw [Cursor.atAny_congr _ same]
  · split
    · exact Reads.pure ⟨_, rfl, Nat.le_refl _, rfl⟩
    · refine map (last nonterminals.simpleStmt trivial enough ?_)
      rintro stmt reached _ ⟨gains, rfl, -⟩
      exact ⟨_, rfl, by omega, rfl⟩

theorem callOnly : ReadsTree machine Anywhere 4 Production.callOnly := by
  intro frame credit _ enough
  refine phrase nonterminals.expr trivial enough ?_
  rintro expr reached _ ⟨gains, rfl, -⟩
  split
  · exact Reads.pure ⟨_, rfl, gains, List.append_nil _, trivial⟩
  · exact refuse

/-! ## Statement lists -/

theorem stmtList :
    ReadsPhrase machine (Resumes .stmt) 5 Production.stmtList fun list credit reached mentions =>
      credit = reached ∧ mentions = list.outline := by
  intro frame credit resumes enough
  have inBrackets : InBrackets frame.outer := by
    intro outside
    obtain ⟨-, isBrace⟩ := resumes [] outside
    cases isBrace
  refine map (weaken (resuming ?_ ?_ resumes (readsNested nonterminals.stmt) inBrackets (by omega)
    enough) ?_)
  · intro first second same
    rw [Production.moreStmts, Production.moreStmts, Cursor.atAny_congr _ same]
  · intro cursor goesOn
    simp only [Production.moreStmts, Cursor.atAny] at goesOn
    refine ⟨fun atEnd => ?_, fun _ atCloser => ?_⟩
    · rw [atEnd] at goesOn
      cases goesOn
    · rw [atCloser] at goesOn
      cases goesOn
  · rintro stmts _ mentions ⟨rfl, rfl⟩
    exact ⟨_, .refl _, _, rfl, rfl, (Tree.outline_ofList stmts).symm⟩

omit nonterminals in
theorem resumes_of_due
    (due : List Token)
    (outer : Option (List Token)) :
    Resumes .stmt (outer.map ((.rBrace :: due) ++ ·)) := by
  intro opened isOuter
  obtain ⟨_, _, rfl⟩ := Option.map_eq_some_iff.1 isOuter
  exact ⟨rfl, rfl⟩

theorem blockRule : ReadsTree machine Anywhere 1 Production.blockRule := by
  refine readsNested (readsInHeader fun frame credit _ _ => ?_)
  refine mark rfl rfl fun lBrace _ => ?_
  refine phrase nonterminals.stmtList (resumes_of_due [] frame.outer) (by omega) ?_
  rintro stmts _ _ ⟨rfl, rfl⟩
  refine mark rfl rfl fun rBrace _ => ?_
  exact Reads.pure ⟨_, rfl, by omega, rfl, trivial⟩

/-! ## Conditional statements -/

/-- The statements of a header. -/
theorem headerStmts :
    ReadsPhrase machine InBrackets 4 Production.headerStmts fun value credit reached mentions =>
      credit ≤ reached
        ∧ mentions = (Tree.ofOption value.1).outline ++ (Tree.ofOption value.2).outline := by
  intro frame credit inBrackets enough
  refine phrase (nonterminals.simpleStmtUnless _) trivial enough ?_
  rintro first reached _ ⟨more, rfl⟩
  refine semi? (inside_map_nil inBrackets) fun semi => ?_
  split
  · exact Reads.pure ⟨_, rfl, more, List.append_nil _⟩
  · refine map (last (nonterminals.simpleStmtUnless _) trivial (by omega) ?_)
    rintro second _ _ ⟨rest, rfl⟩
    exact ⟨_, rfl, by omega, rfl⟩

omit nonterminals in
/-- The expression that a part of a header consists of. -/
theorem headerExpr
    (frame : Frame)
    (before : Progress)
    (part : HeaderPart)
    (stmt : SimpleStmt P) :
    Reads machine frame (Production.headerExpr part stmt) before fun expr after mentions =>
      after = before ∧ mentions = [] ∧ stmt = .exprStmt expr := by
  unfold Production.headerExpr
  split
  · exact Reads.pure ⟨rfl, rfl, rfl⟩
  · exact refuse

theorem ifHeader :
    ReadsPhrase machine InBrackets 4 Production.ifHeader fun value credit reached mentions =>
      credit ≤ reached ∧ mentions = (Tree.ofOption value.1).outline ++ value.2.outline := by
  refine readsInHeader fun frame credit inBrackets enough => ?_
  refine phrase nonterminals.headerStmts (inside_map_nil inBrackets) enough ?_
  rintro ⟨init, condition⟩ reached _ ⟨more, rfl⟩
  dsimp only
  split
  · exact refuse
  · refine Reads.bind (headerExpr _ _ _ _) ?_
    rintro expr _ _ ⟨rfl, rfl, rfl⟩
    exact Reads.pure ⟨_, rfl, more, List.append_nil _⟩

omit nonterminals in
theorem eq_of_ifStmt?
    {keyword elseKeyword : Mark P}
    {init : Tree P (.maybe .simpleStmt)}
    {condition : Expr P}
    {body : Block P}
    {elseBody : Tree.ElseBody P}
    {stmt : IfStmt P}
    (fits : Tree.ifStmt? keyword init condition body (some elseKeyword) (some elseBody) = .ok stmt) :
    stmt = .ifStmt keyword init condition body (.present (.elseBranch elseKeyword elseBody)) :=
  (Except.ok.inj fits).symm

theorem elseBody (keyword : Mark P) :
    ReadsPhrase machine InBrackets 2 Production.elseBody fun value credit reached mentions =>
      credit ≤ reached
        ∧ keyword.mention :: mentions = (Tree.elseBranch keyword value).outline := by
  intro frame credit inBrackets enough
  refine look (fun first second same _ => ?_) fun cursor _ => ?_
  · rw [same]
  · split
    · refine map (last (readsNested nonterminals.ifStmt) (inside_map_nil inBrackets) enough ?_)
      rintro stmt reached _ ⟨gains, rfl, -⟩
      exact ⟨_, rfl, by omega, rfl⟩
    · refine map (last nonterminals.block trivial enough ?_)
      rintro body reached _ ⟨gains, rfl, -⟩
      exact ⟨_, rfl, by omega, rfl⟩
    · exact refuse

theorem ifStmtRule : ReadsTree machine InBrackets 1 Production.ifStmtRule := by
  intro frame credit inBrackets _
  refine mark rfl rfl fun keyword _ => ?_
  refine phrase nonterminals.ifHeader (inside_map_nil inBrackets) (by omega) ?_
  rintro ⟨init, condition⟩ reached _ ⟨more, rfl⟩
  refine phrase nonterminals.block trivial (by omega) ?_
  rintro body _ _ ⟨gains, rfl, -⟩
  refine mark? rfl rfl (fun elseKeyword _ => ?_) ?_
  · refine phrase (nonterminals.elseBody elseKeyword) (inside_map_nil inBrackets) (by omega) ?_
    rintro elseBody _ mentions ⟨rest, mentionsEq⟩
    refine pure_bind (built fun stmt fits => ?_)
    obtain rfl := eq_of_ifStmt? fits
    refine ⟨_, rfl, by omega, ?_, trivial⟩
    rw [List.append_nil, List.append_assoc]
    change _ = keyword.mention :: ((Tree.ofOption init).outline ++ (condition.outline
      ++ (body.outline ++ (Tree.elseBranch elseKeyword elseBody).outline)))
    rw [mentionsEq]
  · refine pure_bind (built fun stmt fits => ?_)
    obtain rfl := Except.ok.inj fits
    refine ⟨_, rfl, by omega, ?_, trivial⟩
    rw [List.append_assoc]
    rfl

/-! ## Loops -/

theorem forClauseTail (init : Option (SimpleStmt P)) :
    ReadsPhrase machine InBrackets 0 (Production.forClauseTail init)
      (Completing (Tree.ofOption init).outline) := by
  intro frame credit inBrackets _
  refine semi (inside_map_nil inBrackets) fun _ => ?_
  refine look (fun first second same _ => ?_) fun cursor _ => ?_
  · rw [same]
  · split
    · refine pure_bind (semi (inside_map_nil inBrackets) fun _ => ?_)
      refine map (last (nonterminals.simpleStmtUnless _) trivial (by omega) ?_)
      rintro post reached _ ⟨more, rfl⟩
      exact ⟨_, rfl, by omega, rfl⟩
    · refine phrase nonterminals.expr trivial (by omega) ?_
      rintro condition reached _ ⟨gains, rfl, -⟩
      refine pure_bind (semi (inside_map_nil inBrackets) fun _ => ?_)
      refine map (last (nonterminals.simpleStmtUnless _) trivial (by omega) ?_)
      rintro post _ _ ⟨more, rfl⟩
      exact ⟨_, rfl, by omega, rfl⟩

/-- What is bound, and the operator behind it. -/
def BindingRead
    (bound : Tree P (.one .bindingList) × Mark P)
    (credit reached : Nat)
    (mentions : List (Mention P)) : Prop :=
  credit ≤ reached ∧ mentions = bound.1.outline ++ [bound.2.mention]

/-- What may be bound, and the operator behind it. -/
def OptionalBinding
    (bound : Option (Tree P (.one .bindingList) × Mark P))
    (credit reached : Nat)
    (mentions : List (Mention P)) : Prop :=
  credit ≤ reached ∧ mentions = (bound.map fun bound => bound.1.outline ++ [bound.2.mention]).getD []

omit nonterminals in
theorem boundNames : ReadsPhrase machine Anywhere 0 Production.boundNames BindingRead := by
  intro frame credit _ _
  refine phrase identList trivial (Nat.zero_le _) ?_
  rintro names reached _ ⟨gains, rfl, -⟩
  refine mark rfl rfl fun op _ => Reads.pure ⟨_, rfl, by omega, rfl⟩

theorem boundExprs : ReadsPhrase machine Anywhere 4 Production.boundExprs BindingRead := by
  intro frame credit _ enough
  refine phrase nonterminals.exprList trivial enough ?_
  rintro exprs reached _ ⟨gains, rfl, -⟩
  refine mark rfl rfl fun op _ => Reads.pure ⟨_, rfl, by omega, rfl⟩

/-- The binding of a range clause, in front of the keyword. -/
theorem rangeBinding
    (frame : Frame)
    (follows : frame.follower = some .kwRange)
    (credit : Nat)
    (enough : 4 ≤ credit) :
    Reads machine frame Production.rangeBinding ⟨[], credit⟩ fun bound after mentions =>
      ∃ reached, after = ⟨[], reached⟩ ∧ OptionalBinding bound credit reached mentions := by
  refine look_further (fun _ bound after mentions => ∃ reached, after = ⟨[], reached⟩
    ∧ OptionalBinding bound credit reached mentions) (fun cursor _ => ?_)
    (fun _ _ _ _ holds => holds) ?_
  · split
    · exact Reads.pure ⟨_, rfl, Nat.le_refl _, rfl⟩
    · split
      · refine map (last boundNames trivial (Nat.zero_le _) ?_)
        rintro bound reached _ ⟨more, rfl⟩
        exact ⟨_, rfl, more, rfl⟩
      · refine map (last nonterminals.boundExprs trivial enough ?_)
        rintro bound reached _ ⟨more, rfl⟩
        exact ⟨_, rfl, more, rfl⟩
  · rintro state final bound _ mentions taken lexeme behind behind' other _ ⟨reached, rfl, -⟩ _ _
      nested stateAhead _ isFollower otherAhead
    have sameSearch : other.occurBefore .kwRange [.define]
        = state.cursor.occurBefore .kwRange [.define] := by
      rw [Cursor.occurBefore, Cursor.occurBefore, stateAhead, otherAhead]
      exact Cursor.occurIn_append nested (isFollower _ follows)
    rw [Cursor.token_congr stateAhead otherAhead, sameSearch]

omit nonterminals in
theorem eq_of_rangeClause?
    {bound : Option (Tree P (.one .bindingList) × Mark P)}
    {keyword : Mark P}
    {expr : Expr P}
    {clause : Tree P (.one .iteration)}
    (fits : Tree.rangeClause? (bound.map Prod.fst) (bound.map Prod.snd) keyword expr
      = .ok clause) :
    clause.outline = (bound.map fun bound => bound.1.outline ++ [bound.2.mention]).getD []
      ++ keyword.mention :: expr.outline := by
  cases bound with
  | none =>
      obtain rfl := Except.ok.inj fits
      rfl
  | some bound =>
      obtain rfl := Except.ok.inj fits
      rfl

theorem rangeClause : ReadsTree machine Anywhere 4 Production.rangeClause := by
  intro frame credit _ enough
  refine bind_leading (some .kwRange) (nonterminals.rangeBinding _ rfl credit enough) ?_ ?_
  · rintro bound _ _ ⟨reached, rfl, more, rfl⟩
    refine mark rfl rfl fun keyword _ => phrase nonterminals.expr trivial (by omega) ?_
    rintro expr _ _ ⟨gains, rfl, -⟩
    refine built fun clause fits => ⟨_, rfl, by omega, ?_, trivial⟩
    rw [eq_of_rangeClause? fits, List.append_nil]
  · rintro token isFollower bound state result final lexeme behind run _ _
    obtain rfl := Option.some.inj isFollower
    exact token_of_mark run

/-- The header of a loop, in front of the brace of its body. -/
theorem forHeader
    (frame : Frame)
    (follows : frame.follower = some .lBrace)
    (inBrackets : InBrackets frame.outer)
    (credit : Nat)
    (enough : 4 ≤ credit) :
    Reads machine frame Production.forHeader ⟨[], credit⟩ fun value after mentions =>
      ∃ reached, after = ⟨[], reached⟩ ∧ credit ≤ reached ∧ mentions = value.outline := by
  refine inHeader (look_further (fun _ value after mentions => ∃ reached, after = ⟨[], reached⟩
    ∧ credit ≤ reached ∧ mentions = value.outline) (fun cursor _ => ?_)
    (fun _ _ _ _ holds => holds) ?_)
  · split
    · exact Reads.pure ⟨_, rfl, Nat.le_refl _, rfl⟩
    · split
      · refine map (last nonterminals.rangeClause trivial enough ?_)
        rintro clause reached _ ⟨gains, rfl, -⟩
        exact ⟨_, rfl, by omega, rfl⟩
      · refine phrase (nonterminals.simpleStmtUnless _) trivial enough ?_
        rintro init reached _ ⟨more, rfl⟩
        refine look (fun first second same _ => ?_) fun cursor _ => ?_
        · rw [same]
        · split
          · split
            · refine map (last (nonterminals.forClauseTail _) (inside_map_nil inBrackets)
                (Nat.zero_le _) ?_)
              rintro clause _ mentions ⟨rest, mentionsEq⟩
              exact ⟨_, rfl, by omega, mentionsEq⟩
            · refine Reads.bind (headerExpr _ _ _ _) ?_
              rintro expr _ _ ⟨rfl, rfl, rfl⟩
              exact Reads.pure ⟨_, rfl, more, List.append_nil _⟩
          · refine map (last (nonterminals.forClauseTail _) (inside_map_nil inBrackets)
              (Nat.zero_le _) ?_)
            rintro clause _ mentions ⟨rest, mentionsEq⟩
            exact ⟨_, rfl, by omega, mentionsEq⟩
  · rintro state final value _ mentions taken lexeme behind behind' other _ ⟨reached, rfl, -⟩ _ _
      nested stateAhead _ isFollower otherAhead
    have sameSearch : other.occurBefore .lBrace [.kwRange]
        = state.cursor.occurBefore .lBrace [.kwRange] := by
      rw [Cursor.occurBefore, Cursor.occurBefore, stateAhead, otherAhead]
      exact Cursor.occurIn_append nested (isFollower _ follows)
    rw [Cursor.token_congr stateAhead otherAhead, sameSearch]

theorem forStmt : ReadsTree machine InBrackets 0 Production.forStmt := by
  intro frame credit inBrackets _
  refine mark rfl rfl fun keyword _ => ?_
  refine bind_leading (some .lBrace)
    (nonterminals.forHeader ⟨frame.outer, none, some .lBrace⟩ rfl inBrackets _ (by omega)) ?_ ?_
  · rintro iteration _ _ ⟨reached, rfl, more, rfl⟩
    refine map (last nonterminals.block trivial (by omega) ?_)
    rintro body _ _ ⟨gains, rfl, -⟩
    exact ⟨_, rfl, by omega, rfl, trivial⟩
  · rintro token isFollower iteration state result final lexeme behind run _ _
    obtain rfl := Option.some.inj isFollower
    obtain ⟨body, middle, bodyRun, -⟩ := run_bind_done run
    exact nonterminals.blockBrace state middle body bodyRun

/-! ## Case clauses -/

/-- A label behind its keyword, in front of the colon. -/
def ReadsLabel
    {kind : ClauseKind}
    (machine : Machine P)
    (label : Mark P -> Production P (Tree P (.one (.caseLabel kind)))) : Prop :=
  ∀ (keyword : Mark P) (frame : Frame) (credit : Nat), frame.follower = some .colon ->
    4 ≤ credit -> Reads machine frame (label keyword) ⟨[], credit⟩ fun value after mentions =>
      ∃ reached, after = ⟨[], reached⟩ ∧ Completing [keyword.mention] value credit reached mentions

omit nonterminals in
theorem ReadsLabel.of_phrase
    {kind : ClauseKind}
    {label : Mark P -> Production P (Tree P (.one (.caseLabel kind)))}
    (reads : ∀ keyword, ReadsPhrase machine Anywhere 4 (label keyword)
      (Completing [keyword.mention])) :
    ReadsLabel machine label :=
  fun keyword frame credit _ enough => reads keyword frame credit trivial enough

/-- The colon and the statements behind a label. -/
theorem clauseEnd
    {kind : ClauseKind}
    (frame : Frame)
    (credit : Nat)
    (resumes : Resumes .stmt frame.outer)
    (label : Tree P (.one (.caseLabel kind))) :
    Reads machine frame ((Production.mark .colon).bind fun colon => Production.stmtList.bind fun body =>
        .pure (Tree.caseClause label colon body, true)) ⟨[], credit⟩ fun value after mentions =>
      ∃ reached, after = ⟨[], reached⟩ ∧ credit ≤ reached
        ∧ label.outline ++ mentions = value.1.outline := by
  refine mark rfl rfl fun colon _ => ?_
  refine phrase nonterminals.stmtList (inside_map_nil resumes) (by omega) ?_
  rintro body _ _ ⟨rfl, rfl⟩
  refine Reads.pure ⟨_, rfl, by omega, ?_⟩
  rw [List.append_nil]
  rfl

/-- A clause with its keyword, its label and its statements. -/
theorem caseClause
    {kind : ClauseKind}
    {label : Mark P -> Production P (Tree P (.one (.caseLabel kind)))}
    (labels : ReadsLabel machine label) :
    ReadsItem machine (Resumes .stmt) 0 Tree.outline (fun _ => True) fun _ =>
      Production.look.bind fun cursor =>
        match cursor.token with
        | .kwCase => (Production.mark .kwCase).bind fun keyword => (label keyword).bind fun label =>
            (Production.mark .colon).bind fun colon => Production.stmtList.bind fun body =>
              .pure (Tree.caseClause label colon body, true)
        | .kwDefault => (Production.mark .kwDefault).bind fun keyword =>
            (Production.pure (Tree.defaultCase keyword)).bind fun label =>
              (Production.mark .colon).bind fun colon => Production.stmtList.bind fun body =>
                .pure (Tree.caseClause label colon body, true)
        | token => (Production.refuse (.caseExpected token)).bind fun label =>
            (Production.mark .colon).bind fun colon => Production.stmtList.bind fun body =>
              .pure (Tree.caseClause label colon body, true) := by
  intro _ frame credit resumes _
  refine look (fun first second same _ => ?_) fun cursor _ => ?_
  · rw [same]
  · split
    · refine mark rfl rfl fun keyword _ => ?_
      refine bind_leading (some .colon) (labels keyword _ _ rfl (by omega)) ?_ ?_
      · rintro label _ mentions ⟨reached, rfl, more, mentionsEq⟩
        refine weaken (nonterminals.clauseEnd ⟨frame.outer, none, frame.follower⟩ _ resumes label) ?_
        rintro ⟨clause, _⟩ _ others ⟨_, rfl, rest, restEq⟩
        refine ⟨_, .refl _, _, rfl, by omega, ?_, fun _ => trivial⟩
        change keyword.mention :: (mentions ++ others) = clause.outline
        rw [← restEq, ← mentionsEq]
        rfl
      · rintro token isFollower label state result final lexeme behind run _ _
        obtain rfl := Option.some.inj isFollower
        exact token_of_mark run
    · refine mark rfl rfl fun keyword _ => pure_bind ?_
      refine weaken (nonterminals.clauseEnd ⟨frame.outer, none, frame.follower⟩ _ resumes _) ?_
      rintro ⟨clause, _⟩ _ others ⟨_, rfl, rest, restEq⟩
      exact ⟨_, .refl _, _, rfl, by omega, restEq, fun _ => trivial⟩
    · exact refuse_bind

theorem caseClauses
    {kind : ClauseKind}
    {label : Mark P -> Production P (Tree P (.one (.caseLabel kind)))}
    {frame : Frame}
    {due : List Token}
    {credit : Nat}
    (labels : ReadsLabel machine label)
    (resumes : Resumes .stmt (frame.outer.map (due ++ ·)))
    (positive : 1 ≤ credit) :
    Reads machine frame (Production.caseClauses label) ⟨due, credit⟩ fun clauses after mentions =>
      after = ⟨due, credit⟩ ∧ mentions = clauses.outline := by
  refine map (weaken (itemsUntil (nonterminals.caseClause labels) resumes positive (Nat.zero_le _)) ?_)
  rintro clauses _ _ ⟨rfl, rfl, -⟩
  exact ⟨_, .refl _, rfl, (Tree.outline_ofList clauses).symm⟩

/-! ## Switch statements -/

/-- What the subject of a switch mentions. -/
def Subject.outline : Production.SwitchSubject P -> List (Mention P)
  | .values tag => (Tree.ofOption tag).outline
  | .types guard => guard.outline

omit nonterminals in
/-- The subject of a switch is its last statement. -/
theorem switchSubject
    (frame : Frame)
    (before : Progress)
    (last : Option (SimpleStmt P)) :
    Reads machine frame (Production.switchSubject last) before fun subject after mentions =>
      after = before ∧ mentions = [] ∧ Subject.outline subject = (Tree.ofOption last).outline := by
  unfold Production.switchSubject
  split
  · exact Reads.pure ⟨rfl, rfl, rfl⟩
  · split
    · next value single =>
        split
        · refine Reads.pure ⟨rfl, rfl, ?_⟩
          change _ = _ :: _ :: Tree.outline _
          rw [outline_of_exprs single]
          rfl
        · exact refuse
    · exact refuse
  · refine Reads.bind (headerExpr _ _ _ _) ?_
    rintro tag _ _ ⟨rfl, rfl, rfl⟩
    split
    · exact Reads.pure ⟨rfl, rfl, rfl⟩
    · exact Reads.pure ⟨rfl, rfl, rfl⟩

theorem switchHeader :
    ReadsPhrase machine InBrackets 4 Production.switchHeader fun value credit reached mentions =>
      credit ≤ reached
        ∧ mentions = (Tree.ofOption value.1).outline ++ Subject.outline value.2 := by
  refine readsInHeader fun frame credit inBrackets enough => ?_
  refine phrase nonterminals.headerStmts (inside_map_nil inBrackets) enough ?_
  rintro ⟨init, last⟩ reached _ ⟨more, rfl⟩
  refine Reads.bind (switchSubject _ _ last) ?_
  rintro subject _ _ ⟨rfl, rfl, subjectEq⟩
  refine Reads.pure ⟨_, rfl, more, ?_⟩
  rw [subjectEq]
  exact List.append_nil _

theorem switchStmt : ReadsTree machine InBrackets 0 Production.switchStmt := by
  intro frame credit inBrackets _
  refine mark rfl rfl fun keyword _ => ?_
  refine phrase nonterminals.switchHeader (inside_map_nil inBrackets) (by omega) ?_
  rintro ⟨init, subject⟩ reached _ ⟨more, rfl⟩
  refine mark rfl rfl fun lBrace _ => ?_
  cases subject with
  | values tag =>
      have labels : ReadsLabel machine fun keyword =>
          Production.exprList.bind fun exprs => .pure (Tree.exprCase keyword exprs) := by
        refine .of_phrase fun keyword frame credit _ enough => ?_
        refine map (last nonterminals.exprList trivial enough ?_)
        rintro exprs _ _ ⟨gains, rfl, -⟩
        exact ⟨_, rfl, by omega, rfl⟩
      refine Reads.bind (nonterminals.caseClauses labels (resumes_of_due _ _) (by omega)) ?_
      rintro clauses _ _ ⟨rfl, rfl⟩
      refine mark rfl rfl fun rBrace _ => Reads.pure ⟨_, rfl, by omega, ?_, trivial⟩
      rw [List.append_assoc]
      rfl
  | types guard =>
      have labels : ReadsLabel machine fun keyword =>
          Production.typeList.bind fun types => .pure (Tree.typeCase keyword types) := by
        refine .of_phrase fun keyword frame credit _ enough => ?_
        refine map (last nonterminals.typeList trivial (by omega) ?_)
        rintro types _ _ ⟨gains, rfl, -⟩
        exact ⟨_, rfl, by omega, rfl⟩
      refine Reads.bind (nonterminals.caseClauses labels (resumes_of_due _ _) (by omega)) ?_
      rintro clauses _ _ ⟨rfl, rfl⟩
      refine mark rfl rfl fun rBrace _ => Reads.pure ⟨_, rfl, by omega, ?_, trivial⟩
      rw [List.append_assoc]
      rfl

/-! ## Select statements -/

/-- What follows the binding of a communication. -/
theorem communicationEnd
    (bound : Option (Tree P (.one .bindingList) × Mark P)) :
    ReadsPhrase machine Anywhere 4 (Production.expr.bind fun expr =>
        match bound with
        | some (list, op) => .pure (Tree.receive (.present (.binding list op)) expr)
        | none => (Production.mark? .arrow).bind fun arrow =>
            match arrow with
            | some arrow => Production.expr.bind fun value => .pure (Tree.send expr arrow value)
            | none => .pure (Tree.receive .absent expr))
      (Completing ((bound.map fun bound => bound.1.outline ++ [bound.2.mention]).getD [])) := by
  intro frame credit _ enough
  refine phrase nonterminals.expr trivial enough ?_
  rintro expr reached _ ⟨gains, rfl, -⟩
  cases bound with
  | some bound =>
      refine Reads.pure ⟨_, rfl, by omega, ?_⟩
      rw [List.append_nil]
      rfl
  | none =>
      refine mark? rfl rfl (fun arrow _ => ?_) ?_
      · refine map (last nonterminals.expr trivial (by omega) ?_)
        rintro value _ _ ⟨more, rfl, -⟩
        exact ⟨_, rfl, by omega, rfl⟩
      · exact Reads.pure ⟨_, rfl, by omega, List.append_nil _⟩

/-- A communication, in front of the colon. -/
theorem communication
    (frame : Frame)
    (follows : frame.follower = some .colon)
    (credit : Nat)
    (enough : 4 ≤ credit) :
    Reads machine frame Production.communication ⟨[], credit⟩ fun stmt after mentions =>
      ∃ reached, after = ⟨[], reached⟩ ∧ credit ≤ reached ∧ mentions = stmt.outline := by
  have searched : Reads machine frame (Production.look.bind fun cursor =>
      (if cursor.occurBefore .colon [.assign] then
        Production.boundExprs.bind fun bound => .pure (some bound)
      else if cursor.occurBefore .colon [.define] then
        Production.boundNames.bind fun bound => .pure (some bound)
      else .pure none).bind fun bound => Production.expr.bind fun expr =>
        match bound with
        | some (list, op) => .pure (Tree.receive (.present (.binding list op)) expr)
        | none => (Production.mark? .arrow).bind fun arrow =>
            match arrow with
            | some arrow => Production.expr.bind fun value => .pure (Tree.send expr arrow value)
            | none => .pure (Tree.receive .absent expr)) ⟨[], credit⟩ fun stmt after mentions =>
      ∃ reached, after = ⟨[], reached⟩ ∧ credit ≤ reached ∧ mentions = stmt.outline := by
    refine look_further (fun _ stmt after mentions => ∃ reached, after = ⟨[], reached⟩
      ∧ credit ≤ reached ∧ mentions = stmt.outline) (fun cursor _ => ?_)
      (fun _ _ _ _ holds => holds) ?_
    · have binding : ReadsPhrase machine Anywhere 4
          (if cursor.occurBefore .colon [.assign] then
            Production.boundExprs.bind fun bound => .pure (some bound)
          else if cursor.occurBefore .colon [.define] then
            Production.boundNames.bind fun bound => .pure (some bound)
          else .pure none) OptionalBinding := by
        intro frame credit _ enough
        split
        · refine map (last nonterminals.boundExprs trivial enough ?_)
          rintro bound reached _ ⟨more, rfl⟩
          exact ⟨_, rfl, more, rfl⟩
        · split
          · refine map (last boundNames trivial (Nat.zero_le _) ?_)
            rintro bound reached _ ⟨more, rfl⟩
            exact ⟨_, rfl, more, rfl⟩
          · exact Reads.pure ⟨_, rfl, Nat.le_refl _, rfl⟩
      refine phrase binding trivial enough ?_
      rintro bound reached _ ⟨more, rfl⟩
      refine last (nonterminals.communicationEnd bound) trivial (by omega) ?_
      rintro stmt _ mentions ⟨rest, mentionsEq⟩
      exact ⟨_, rfl, by omega, mentionsEq⟩
    · rintro state final stmt _ mentions taken lexeme behind behind' other _ ⟨reached, rfl, -⟩ _ _
        nested stateAhead _ isFollower otherAhead
      have sameSearch (needles : List Token) :
          other.occurBefore .colon needles = state.cursor.occurBefore .colon needles := by
        rw [Cursor.occurBefore, Cursor.occurBefore, stateAhead, otherAhead]
        exact Cursor.occurIn_append nested (isFollower _ follows)
      rw [sameSearch, sameSearch]
  refine congr_run ?_ searched
  intro state
  rfl

theorem selectStmt : ReadsTree machine InBrackets 0 Production.selectStmt := by
  intro frame credit inBrackets _
  have labels : ReadsLabel machine fun keyword =>
      Production.communication.bind fun stmt => .build (Tree.commCase? keyword stmt) := by
    intro keyword frame credit follows enough
    refine bind_leading (some .colon) (nonterminals.communication _ rfl credit enough) ?_ ?_
    · rintro stmt _ _ ⟨reached, rfl, more, rfl⟩
      refine built fun label fits => ⟨_, rfl, more, ?_⟩
      rw [List.append_nil]
      cases stmt with
      | send channel arrow value =>
          obtain rfl := Except.ok.inj fits
          rfl
      | receive binding expr =>
          obtain rfl := Except.ok.inj fits
          rfl
      | _ => cases fits
    · rintro token isFollower stmt state label final lexeme behind run finalAhead isColon
      obtain rfl := Option.some.inj isFollower
      have sameState : final = state := by
        cases parts : Tree.commCase? keyword stmt with
        | error reason =>
            rw [parts] at run
            cases run
        | ok node =>
            rw [parts] at run
            exact (Outcome.done.inj run).2.symm
      rw [← sameState, Cursor.token_of_ahead finalAhead]
      exact isColon _ follows
  refine mark rfl rfl fun keyword _ => mark rfl rfl fun lBrace _ => ?_
  refine Reads.bind (nonterminals.caseClauses labels (resumes_of_due _ _) (by omega)) ?_
  rintro clauses _ _ ⟨rfl, rfl⟩
  exact mark rfl rfl fun rBrace _ => Reads.pure ⟨_, rfl, by omega, rfl, trivial⟩

/-! ## Statements -/

/-- A labelled statement from behind its label. -/
theorem labeledTail (label : ExprList P) :
    ReadsPhrase machine InBrackets 0 (Production.labeledTail label) (Completing label.outline) := by
  intro frame credit inBrackets _
  unfold Production.labeledTail
  split
  · next name single =>
      rw [outline_of_exprs single]
      refine mark rfl rfl fun colon _ => look (fun first second same samePos => ?_) fun cursor _ => ?_
      · rw [same, samePos]
      · split
        · exact pure_bind (Reads.pure ⟨_, rfl, by omega, rfl⟩)
        · refine map (last (readsNested nonterminals.stmt) (inside_map_nil inBrackets)
            (by omega) ?_)
          rintro stmt reached _ ⟨gains, rfl, -⟩
          exact ⟨_, rfl, by omega, rfl⟩
  · exact refuse

theorem exprLedStmt : ReadsTree machine InBrackets 4 Production.exprLedStmt := by
  intro frame credit inBrackets enough
  refine phrase nonterminals.exprList trivial enough ?_
  rintro exprs reached _ ⟨gains, rfl, -⟩
  refine look (fun first second same _ => ?_) fun cursor _ => ?_
  · rw [same]
  · split
    · refine last (nonterminals.labeledTail exprs) (inside_map_nil inBrackets) (Nat.zero_le _) ?_
      rintro stmt _ mentions ⟨more, mentionsEq⟩
      exact ⟨_, rfl, by omega, mentionsEq, trivial⟩
    · refine phrase (nonterminals.simpleTail exprs) trivial (Nat.zero_le _) ?_
      rintro stmt _ mentions ⟨more, mentionsEq⟩
      refine semicolon (inside_map_nil inBrackets) ?_
      refine Reads.pure ⟨_, rfl, by omega, ?_, trivial⟩
      rw [List.append_nil]
      exact mentionsEq

theorem results? :
    ReadsPhrase machine Anywhere 4 Production.results? fun results credit reached mentions =>
      credit ≤ reached ∧ mentions = results.outline := by
  intro frame credit _ enough
  refine look (fun first second same _ => ?_) fun cursor _ => ?_
  · rw [Cursor.atAny_congr _ same]
  · split
    · exact Reads.pure ⟨_, rfl, Nat.le_refl _, rfl⟩
    · refine map (last nonterminals.exprList trivial enough ?_)
      rintro results reached _ ⟨gains, rfl, -⟩
      exact ⟨_, rfl, by omega, rfl⟩

/-- The keywords of the statements whose headers or cases contain semicolons. -/
def hasHeader : Token -> Bool
  | .kwIf | .kwFor | .kwSwitch | .kwSelect => true
  | _ => false

/-- A statement that its keyword introduces can stand anywhere unless it has a header or cases. -/
theorem keywordStmt_anywhere
    (token : Token)
    (stmt : Production P (Stmt P))
    (found : Production.keywordStmt token = some stmt)
    (plain : hasHeader token = false) :
    ReadsTree machine Anywhere 2 stmt := by
  intro frame credit _ enough
  unfold Production.keywordStmt at found
  split at found
  all_goals cases found
  · refine map (last nonterminals.block trivial enough ?_)
    rintro body reached _ ⟨gains, rfl, -⟩
    exact ⟨_, rfl, gains, rfl, trivial⟩
  · cases plain
  · cases plain
  · cases plain
  · cases plain
  · refine mark rfl rfl fun keyword _ => map (last nonterminals.callOnly trivial (by omega) ?_)
    rintro call reached _ ⟨gains, rfl, -⟩
    exact ⟨_, rfl, by omega, rfl, trivial⟩
  · refine mark rfl rfl fun keyword _ => map (last nonterminals.callOnly trivial (by omega) ?_)
    rintro call reached _ ⟨gains, rfl, -⟩
    exact ⟨_, rfl, by omega, rfl, trivial⟩
  · refine mark rfl rfl fun keyword _ => map (last nonterminals.results? trivial (by omega) ?_)
    rintro results reached _ ⟨more, rfl⟩
    exact ⟨_, rfl, by omega, rfl, trivial⟩
  · refine mark rfl rfl fun keyword _ => ident fun label => ?_
    exact Reads.pure ⟨_, rfl, by omega, rfl, trivial⟩
  · refine mark rfl rfl fun keyword _ => ident? fun label => ?_
    refine Reads.pure ⟨_, rfl, by omega, ?_, trivial⟩
    rw [List.append_nil]
    rfl
  · refine mark rfl rfl fun keyword _ => ident? fun label => ?_
    refine Reads.pure ⟨_, rfl, by omega, ?_, trivial⟩
    rw [List.append_nil]
    rfl
  · exact mark rfl rfl fun keyword _ => Reads.pure ⟨_, rfl, by omega, rfl, trivial⟩

omit nonterminals in
/-- The statements with headers or cases. -/
theorem eq_of_hasHeader
    {token : Token}
    {stmt : Production P (Stmt P)}
    (found : Production.keywordStmt token = some stmt)
    (isHeader : hasHeader token = true) :
    stmt = (Production.call .ifStmt).bind (fun stmt : IfStmt P => .pure (.conditional stmt))
      ∨ stmt = Production.forStmt ∨ stmt = Production.switchStmt
      ∨ stmt = Production.selectStmt := by
  unfold Production.keywordStmt at found
  split at found
  all_goals cases found
  · cases isHeader
  · exact .inl rfl
  · exact .inr (.inl rfl)
  · exact .inr (.inr (.inl rfl))
  · exact .inr (.inr (.inr rfl))
  all_goals cases isHeader

theorem keywordStmt
    (token : Token)
    (stmt : Production P (Stmt P))
    (found : Production.keywordStmt token = some stmt) :
    ReadsTree machine InBrackets 2 stmt := by
  cases isHeader : hasHeader token with
  | false => exact (nonterminals.keywordStmt_anywhere token stmt found isHeader).inBrackets
  | true =>
      intro frame credit inBrackets enough
      obtain rfl | rfl | rfl | rfl := eq_of_hasHeader found isHeader
      · refine map (last nonterminals.ifStmt (inside_map_nil inBrackets) enough ?_)
        rintro stmt reached _ ⟨gains, rfl, -⟩
        exact ⟨_, rfl, gains, rfl, trivial⟩
      · exact nonterminals.forStmt frame credit inBrackets (Nat.zero_le _)
      · exact nonterminals.switchStmt frame credit inBrackets (Nat.zero_le _)
      · exact nonterminals.selectStmt frame credit inBrackets (Nat.zero_le _)

theorem declStmt :
    ReadsTree machine InBrackets 0 (Production.decl.bind fun decl => .pure (Tree.declStmt decl)) := by
  intro frame credit inBrackets enough
  refine map (last nonterminals.decl (inside_map_nil inBrackets) enough ?_)
  rintro decl reached _ ⟨gains, rfl, -⟩
  exact ⟨_, rfl, gains, rfl, trivial⟩

theorem stmtRule : ReadsTree machine InBrackets 4 Production.stmtRule := by
  intro frame credit inBrackets enough
  refine look (fun first second same _ => ?_) fun cursor _ => ?_
  · rw [same]
  · split
    · next stmt found =>
        exact line (nonterminals.keywordStmt _ stmt found) _ credit inBrackets (by omega)
    · split
      · exact nonterminals.declStmt _ credit inBrackets (Nat.zero_le _)
      · exact nonterminals.declStmt _ credit inBrackets (Nat.zero_le _)
      · exact nonterminals.declStmt _ credit inBrackets (Nat.zero_le _)
      · next isSemi =>
          refine map (advance (congrArg some isSemi) (by decide) rfl (fun _ _ => inBrackets) ?_)
          intro lexeme isToken _
          exact ⟨[], ⟨_, rfl, Nat.le_refl _, rfl, trivial⟩, .separator lexeme (.inr isToken) .nil⟩
      · split
        · exact nonterminals.exprLedStmt _ credit inBrackets enough
        · exact refuse

end ReadsNonterminals
end GoFront
