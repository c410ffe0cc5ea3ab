import GoFront.Session
import GoFront.Proofs.Reading.Accounts

/-!
# Sessions forget

A session carries its place in the text, its depth and header flag, the comments and the complaints
from one call to the next. Whatever calls came before, a reading starts over: its answer, the
complaints that it leaves and what the listener hears are those of a session that has not been used.
-/

namespace GoFront
namespace Session

variable {α : Type}

/-! ## Calls -/

/-- What a session can be asked. -/
inductive Call
  | parseFile
  | parseDecl
  | errors
  | hasErrors
  | takeErrors
  deriving DecidableEq, Repr

/-- What a session answers. -/
inductive Answer
  | file (tree : Except ModeError (Option (File Position)))
  | decl (tree : Except ModeError (Option (Decl Position)))
  | diagnostics (diagnostics : List Diagnostic)
  | flag (flag : Bool)

namespace Reply

/-- A reply with a changed answer. -/
def map {β : Type} (change : α -> β) (reply : Reply α) : Reply β :=
  ⟨change reply.value, reply.heard, reply.session⟩

end Reply

namespace Call

/-- The mode of the reading that a call asks for, if it asks for one. -/
def requested : Call -> Option ParseMode
  | parseFile => some .file
  | parseDecl => some .singleDecl
  | errors | hasErrors | takeErrors => none

/-- The reply of a session to a call. -/
def perform (session : Session) : Call -> Reply Answer
  | parseFile => session.parseFile.map .file
  | parseDecl => session.parseDecl.map .decl
  | errors => ⟨.diagnostics session.diagnostics, [], session⟩
  | hasErrors => ⟨.flag session.hasErrors, [], session⟩
  | takeErrors => session.takeErrors.map .diagnostics

end Call

/-- The session behind some calls, in their order. -/
def after (session : Session) : List Call -> Session
  | [] => session
  | call :: calls => (call.perform session).session.after calls

/-- What the listener hears in the course of some calls. -/
def heardOver (session : Session) : List Call -> List Diagnostic
  | [] => []
  | call :: calls =>
      (call.perform session).heard ++ (call.perform session).session.heardOver calls

/-! ## What calls leave alone -/

/-- Whether two sessions differ in nothing but what readings leave behind. -/
structure SameText (first second : Session) : Prop where
  source : first.source = second.source
  filename : first.filename = second.filename
  mode : first.mode = second.mode
  listening : first.listening = second.listening

namespace SameText

theorem refl (session : Session) : session.SameText session :=
  ⟨rfl, rfl, rfl, rfl⟩

theorem trans
    {first second third : Session}
    (start : first.SameText second)
    (rest : second.SameText third) :
    first.SameText third :=
  ⟨start.source.trans rest.source, start.filename.trans rest.filename, start.mode.trans rest.mode,
    start.listening.trans rest.listening⟩

end SameText

theorem sameText_start (session : Session) : session.start.2.SameText session := by
  unfold start
  dsimp only
  split <;> exact ⟨rfl, rfl, rfl, rfl⟩

theorem sameText_run
    (session : Session)
    (production : Production Position α) :
    (session.run production).2.SameText session := by
  unfold run
  dsimp only
  split <;> exact ⟨rfl, rfl, rfl, rfl⟩

theorem sameText_runFile (session : Session) : session.runFile.2.SameText session := by
  unfold runFile
  dsimp only
  split
  · exact (sameText_run _ _).trans ⟨session.sameText_start.source, session.sameText_start.filename,
      session.sameText_start.mode, session.sameText_start.listening⟩
  · exact session.sameText_start

theorem sameText_runDecl (session : Session) : session.runDecl.2.SameText session := by
  unfold runDecl
  dsimp only
  split
  · exact (sameText_run _ _).trans session.sameText_start
  · exact session.sameText_start

theorem sameText_read
    (session : Session)
    (requested : ParseMode)
    (reading : Session -> Option α × Session)
    (keeps : (reading session).2.SameText session) :
    (session.read requested reading).session.SameText session := by
  unfold read
  split
  · exact keeps
  · exact .refl session

/-- A call changes neither the text nor how it is read. -/
theorem sameText_perform
    (session : Session)
    (call : Call) :
    (call.perform session).session.SameText session := by
  cases call with
  | parseFile => exact sameText_read _ _ _ session.sameText_runFile
  | parseDecl => exact sameText_read _ _ _ session.sameText_runDecl
  | errors => exact .refl session
  | hasErrors => exact .refl session
  | takeErrors => exact ⟨rfl, rfl, rfl, rfl⟩

/-- Calls change neither the text nor how it is read. -/
theorem sameText_after
    (session : Session)
    (calls : List Call) :
    (session.after calls).SameText session := by
  induction calls generalizing session with
  | nil => exact .refl session
  | cons call calls inductionHypothesis =>
      exact (inductionHypothesis _).trans (session.sameText_perform call)

/-! ## Readings start over -/

/-- Starting over leaves nothing of what readings have left behind. -/
theorem SameText.start_eq
    {first second : Session}
    (same : first.SameText second) :
    first.start = second.start := by
  obtain ⟨source, filename, mode, listening⟩ := first
  obtain ⟨rfl, rfl, rfl, rfl⟩ := same
  rfl

theorem SameText.runFile_eq
    {first second : Session}
    (same : first.SameText second) :
    first.runFile = second.runFile := by
  rw [runFile, same.start_eq, runFile]

theorem SameText.runDecl_eq
    {first second : Session}
    (same : first.SameText second) :
    first.runDecl = second.runDecl := by
  rw [runDecl, same.start_eq, runDecl]

/-- Two sessions with the same text reply alike to a request to read it in their mode. -/
theorem SameText.read_eq
    {first second : Session}
    {reading : Session -> Option α × Session}
    {requested : ParseMode}
    (same : first.SameText second)
    (readsAlike : reading first = reading second)
    (granted : second.mode = requested) :
    first.read requested reading = second.read requested reading := by
  rw [read, read, if_pos granted, if_pos (same.mode.trans granted), readsAlike]

/-! ## Readings are those of the text -/

/-- A production reads the text ahead of a session that has started over. -/
theorem run_of_started
    {β : Type}
    {session : Session}
    {lexemes : List (Lexeme Position)}
    {stop : Position}
    (production : Production Position α)
    (finish : α -> Option β)
    (started : session.readState = .start lexemes stop)
    (noDiagnostics : session.diagnostics = []) :
    (session.run production).1.bind finish
        = (Parsed.ofOutcome finish (production.readFrom nestingLimit lexemes stop)).tree
      ∧ (session.run production).2.diagnostics
        = (Parsed.ofOutcome finish (production.readFrom nestingLimit lexemes stop)).diagnostics := by
  have aheadEq : session.cursor.ahead = lexemes :=
    congrArg (fun state => state.cursor.ahead) started
  unfold run Production.readFrom
  dsimp only
  rw [started, aheadEq]
  split
  · next value final outcomeEq =>
      rw [outcomeEq]
      simp [Parsed.ofOutcome, afterState, noDiagnostics]
  · next final outcomeEq =>
      rw [outcomeEq]
      simp [Parsed.ofOutcome, afterState, noDiagnostics]
  · next outcomeEq =>
      rw [outcomeEq]
      simp [Parsed.ofOutcome, noDiagnostics]

/-- A session reads its text as a file as the text is read without a session. -/
theorem runFile_eq_parseFile (session : Session) :
    session.runFile.1 = (GoFront.parseFile session.source session.filename).tree
      ∧ session.runFile.2.diagnostics
        = (GoFront.parseFile session.source session.filename).diagnostics := by
  unfold runFile start GoFront.parseFile parseFileWithin Parsed.ofLexed
  dsimp only
  cases hasErrors : (lex session.source session.filename).hasErrors with
  | true => exact ⟨rfl, rfl⟩
  | false =>
      simp only [Bool.false_eq_true, if_false, if_true, takeComments]
      rw [(sameText_run _ _).filename]
      exact run_of_started _ _ rfl rfl

/-- A session reads its text as a declaration as the text is read without a session. -/
theorem runDecl_eq_parseDecl (session : Session) :
    session.runDecl.1 = (GoFront.parseDecl session.source session.filename).tree
      ∧ session.runDecl.2.diagnostics
        = (GoFront.parseDecl session.source session.filename).diagnostics := by
  unfold runDecl start GoFront.parseDecl parseDeclWithin Parsed.ofLexed
  dsimp only
  cases hasErrors : (lex session.source session.filename).hasErrors with
  | true => exact ⟨rfl, rfl⟩
  | false =>
      simp only [Bool.false_eq_true, if_false, if_true]
      simpa using run_of_started Production.singleDecl some rfl rfl

/-! ## Between calls -/

/-- Between calls a session is at no depth and in no header. -/
structure AtRest (session : Session) : Prop where
  depth : session.depth = 0
  inHeader : session.inHeader = false

theorem atRest_start (session : Session) : session.start.2.AtRest := by
  unfold start
  dsimp only
  split <;> exact ⟨rfl, rfl⟩

/-- Wherever a production stops, it restores the depth and the header flag. -/
theorem AtRest.run
    {session : Session}
    (atRest : session.AtRest)
    (production : Production Position α) :
    (session.run production).2.AtRest := by
  have restores {taken : List (Lexeme Position)} {final : ReadState Position}
      (reaches : session.readState.Reaches taken final) : (session.afterState final).AtRest :=
    ⟨reaches.depth.trans atRest.depth, reaches.inHeader.trans atRest.inHeader⟩
  have sound : (production.run nestingLimit (Production.allowance session.cursor.ahead.length)
      (Nonterminal.read nestingLimit (Production.allowance session.cursor.ahead.length))
      session.readState).Sound session.readState :=
    production.run_sound (Nonterminal.read_sound nestingLimit _) session.readState
  unfold Session.run
  dsimp only
  split
  · next value final outcomeEq =>
      rw [outcomeEq] at sound
      obtain ⟨_, reaches⟩ := sound
      exact restores reaches
  · next final outcomeEq =>
      rw [outcomeEq] at sound
      obtain ⟨_, reaches, -⟩ := sound
      exact restores reaches
  · exact atRest

theorem atRest_runFile (session : Session) : session.runFile.2.AtRest := by
  have started := session.atRest_start
  unfold runFile
  dsimp only
  split
  · have atStart : session.start.2.takeComments.2.AtRest := ⟨started.depth, started.inHeader⟩
    exact atStart.run Production.file
  · exact started

theorem atRest_runDecl (session : Session) : session.runDecl.2.AtRest := by
  have started := session.atRest_start
  unfold runDecl
  dsimp only
  split
  · exact started.run _
  · exact started

theorem AtRest.read
    {session : Session}
    {reading : Session -> Option α × Session}
    (atRest : session.AtRest)
    (requested : ParseMode)
    (rests : (reading session).2.AtRest) :
    (session.read requested reading).session.AtRest := by
  unfold Session.read
  split
  · exact rests
  · exact atRest

theorem AtRest.perform
    {session : Session}
    (atRest : session.AtRest)
    (call : Call) :
    (call.perform session).session.AtRest := by
  cases call with
  | parseFile => exact atRest.read _ session.atRest_runFile
  | parseDecl => exact atRest.read _ session.atRest_runDecl
  | errors => exact atRest
  | hasErrors => exact atRest
  | takeErrors => exact ⟨atRest.depth, atRest.inHeader⟩

theorem AtRest.after
    {session : Session}
    (atRest : session.AtRest)
    (calls : List Call) :
    (session.after calls).AtRest := by
  induction calls generalizing session with
  | nil => exact atRest
  | cons call calls inductionHypothesis => exact inductionHypothesis (atRest.perform call)

/-! ## Replies -/

/-- Whether a session answers a request to read its text in some mode from the text alone: what it
answers and complains about is what the text comes to, the listener hears just these complaints, and a
request for another mode than its own is refused without any effect. -/
structure AnswersFromText
    (session : Session)
    (request : Session -> Reply (Except ModeError (Option α)))
    (requested : ParseMode)
    (parsed : Parsed α) : Prop where
  tree : session.mode = requested -> (request session).value = .ok parsed.tree
  diagnostics : session.mode = requested ->
    (request session).session.diagnostics = parsed.diagnostics
  heard : session.mode = requested ->
    (request session).heard = if session.listening then parsed.diagnostics else []
  refused : session.mode ≠ requested ->
    request session = ⟨.error ⟨session.mode, requested⟩, [], session⟩

theorem answersFromText_read
    {session : Session}
    {reading : Session -> Option α × Session}
    {parsed : Parsed α}
    (requested : ParseMode)
    (same : (reading session).2.SameText session)
    (treeEq : (reading session).1 = parsed.tree)
    (diagnosticsEq : (reading session).2.diagnostics = parsed.diagnostics) :
    session.AnswersFromText (fun session => session.read requested reading) requested parsed := by
  have grantedEq (granted : session.mode = requested) :
      session.read requested reading = (reading session).2.finish (.ok (reading session).1) :=
    if_pos granted
  refine ⟨fun granted => ?_, fun granted => ?_, fun granted => ?_, fun denied => if_neg denied⟩
  · rw [grantedEq granted, ← treeEq]
    rfl
  · rw [grantedEq granted, ← diagnosticsEq]
    rfl
  · rw [grantedEq granted, ← diagnosticsEq, ← same.listening]
    rfl

theorem answersFromText_parseFile (session : Session) :
    session.AnswersFromText parseFile .file
      (GoFront.parseFile session.source session.filename) :=
  have ⟨treeEq, diagnosticsEq⟩ := session.runFile_eq_parseFile
  answersFromText_read _ session.sameText_runFile treeEq diagnosticsEq

theorem answersFromText_parseDecl (session : Session) :
    session.AnswersFromText parseDecl .singleDecl
      (GoFront.parseDecl session.source session.filename) :=
  have ⟨treeEq, diagnosticsEq⟩ := session.runDecl_eq_parseDecl
  answersFromText_read _ session.sameText_runDecl treeEq diagnosticsEq

/-! ## What the listener hears -/

/-- The complaints about a text that is read in some mode. -/
def complaints
    (source : String)
    (filename : Option String) : ParseMode -> List Diagnostic
  | .file => (GoFront.parseFile source filename).diagnostics
  | .singleDecl => (GoFront.parseDecl source filename).diagnostics

/-- The complaints that the listener of a session hears in the course of a call: those about the text
if the call has it read in the session's mode, and else none. -/
def audible (session : Session) (call : Call) : List Diagnostic :=
  if session.listening ∧ call.requested = some session.mode then
    complaints session.source session.filename session.mode
  else []

theorem SameText.audible_eq
    {first second : Session}
    (same : first.SameText second)
    (call : Call) :
    first.audible call = second.audible call := by
  rw [audible, audible, same.listening, same.mode, same.source, same.filename]

theorem heard_perform
    (session : Session)
    (call : Call) :
    (call.perform session).heard = session.audible call := by
  have quiet {heard : List Diagnostic} {requested : ParseMode}
      (granted : session.mode = requested) :
      (if session.listening then heard else [])
        = if session.listening ∧ some requested = some session.mode then heard else [] := by
    simp [granted]
  have silent {requested : ParseMode} (denied : session.mode ≠ requested) :
      ¬(session.listening = true ∧ some requested = some session.mode) :=
    fun ⟨_, granted⟩ => denied (Option.some.inj granted).symm
  cases call with
  | parseFile =>
      have answers := session.answersFromText_parseFile
      by_cases granted : session.mode = .file
      · refine (answers.heard granted).trans ((quiet granted).trans ?_)
        rw [audible, granted]
        rfl
      · refine (congrArg Reply.heard (answers.refused granted)).trans ?_
        exact (if_neg (silent granted)).symm
  | parseDecl =>
      have answers := session.answersFromText_parseDecl
      by_cases granted : session.mode = .singleDecl
      · refine (answers.heard granted).trans ((quiet granted).trans ?_)
        rw [audible, granted]
        rfl
      · refine (congrArg Reply.heard (answers.refused granted)).trans ?_
        exact (if_neg (silent granted)).symm
  | errors | hasErrors | takeErrors => simp [Call.perform, Call.requested, audible, takeErrors, Reply.map]

/-- In the course of some calls the listener hears the complaints of each reading once, in their
order, and nothing else. -/
theorem heardOver_eq
    (session : Session)
    (calls : List Call) :
    session.heardOver calls = calls.flatMap session.audible := by
  induction calls generalizing session with
  | nil => rfl
  | cons call calls inductionHypothesis =>
      rw [heardOver, heard_perform, inductionHypothesis, List.flatMap_cons]
      exact congrArg _ (List.flatMap_congr
        fun other _ => (session.sameText_perform call).audible_eq other)

/-- A session has no memory between readings. Whatever calls came before, a request in its mode is
answered as by a session that has not been used, and as the text is read without a session; a request
in the other mode is refused without any effect; and the listener hears the complaints of each reading
once, in their order. -/
theorem readings_start_over
    (source : String)
    (filename : Option String)
    (mode : ParseMode)
    (listening : Bool)
    (calls : List Call) :
    let fresh := Session.new source mode filename listening
    let session := fresh.after calls
    session.SameText fresh
      ∧ session.AtRest
      ∧ (mode = .file -> session.parseFile = fresh.parseFile)
      ∧ (mode = .singleDecl -> session.parseDecl = fresh.parseDecl)
      ∧ session.AnswersFromText Session.parseFile .file (GoFront.parseFile source filename)
      ∧ session.AnswersFromText Session.parseDecl .singleDecl (GoFront.parseDecl source filename)
      ∧ fresh.heardOver calls = calls.flatMap fresh.audible := by
  intro fresh session
  have same : session.SameText fresh := fresh.sameText_after calls
  have fileAnswers := session.answersFromText_parseFile
  have declAnswers := session.answersFromText_parseDecl
  rw [same.source, same.filename] at fileAnswers declAnswers
  exact ⟨same, AtRest.after ⟨rfl, rfl⟩ calls, same.read_eq same.runFile_eq,
    same.read_eq same.runDecl_eq, fileAnswers, declAnswers, fresh.heardOver_eq calls⟩

/-- A session that was asked for a declaration, has read its file and has given its complaints away. -/
theorem readings_start_over_misused :
    let fresh := Session.new "package p\nvar = 1" .file none true
    let session := fresh.after [.parseDecl, .parseFile, .takeErrors]
    session.parseFile = fresh.parseFile
      ∧ session.parseFile.heard = (GoFront.parseFile "package p\nvar = 1" none).diagnostics
      ∧ session.parseFile.heard ≠ []
      ∧ session.parseDecl = ⟨.error ⟨.file, .singleDecl⟩, [], session⟩ := by
  intro fresh session
  have complains : (GoFront.parseFile "package p\nvar = 1" none).diagnostics ≠ [] := by decide +kernel
  obtain ⟨same, -, fileEq, -, fileAnswers, declAnswers, -⟩ := readings_start_over
    "package p\nvar = 1" none .file true [.parseDecl, .parseFile, .takeErrors]
  have isFile : session.mode = .file := same.mode
  have listens : session.listening = true := same.listening
  have heardEq : session.parseFile.heard = (GoFront.parseFile "package p\nvar = 1" none).diagnostics :=
    (fileAnswers.heard isFile).trans (if_pos listens)
  have refused := declAnswers.refused (by rw [isFile]; decide)
  rw [isFile] at refused
  exact ⟨fileEq rfl, heardEq, heardEq ▸ complains, refused⟩

end Session
end GoFront
