import GoFront.Parse

/-!
# Parsing sessions

A session holds a source text and reads it as often as asked, either as a file or as a single
declaration. Behind a reading it keeps its place in the text, the comments that no file has taken and
the complaints; the next reading starts over. A listener hears each complaint once, when the reading is
over.
-/

namespace GoFront

/-- What a session reads its text as. -/
inductive ParseMode
  | file
  | singleDecl
  deriving DecidableEq, Repr

namespace ParseMode

/-- The name of a mode. -/
def name : ParseMode -> String
  | file => "File"
  | singleDecl => "SingleDecl"

end ParseMode

/-- A session was asked to read in another mode than its own. -/
structure ModeError where
  configured : ParseMode
  requested : ParseMode
  deriving DecidableEq, Repr

namespace ModeError

/-- The wording of a refusal. -/
def message (error : ModeError) : String :=
  s!"parser was configured for {error.configured.name} mode, "
    ++ s!"cannot parse in {error.requested.name} mode"

end ModeError

/-- A cursor with nothing ahead. -/
def Cursor.empty : Cursor Position :=
  .start [] ⟨0, 0, none⟩

/-- A source text, what is left over from reading it, and the complaints of the last reading. -/
structure Session where
  source : String
  filename : Option String
  mode : ParseMode
  listening : Bool
  cursor : Cursor Position
  inHeader : Bool
  depth : Nat
  comments : List (Comment Position)
  diagnostics : List Diagnostic

namespace Session

variable {α : Type}

/-- A session that has not read its text. -/
def new
    (source : String)
    (mode : ParseMode)
    (filename : Option String)
    (listening : Bool) : Session :=
  { source, filename, mode, listening
    cursor := .empty
    inHeader := false
    depth := 0
    comments := []
    diagnostics := [] }

/-! ## Readings -/

/-- Starts over. Only a text without lexical errors can be read; else there is nothing ahead. -/
def start (session : Session) : Bool × Session :=
  let cleared := { session with inHeader := false, depth := 0, comments := [], diagnostics := [] }
  let lexed := lex session.source session.filename
  if lexed.hasErrors then
    (false, { cleared with cursor := .empty, diagnostics := lexed.errors.map .lexical })
  else
    (true, { cleared with
      cursor := .start lexed.significant lexed.stop
      comments := lexed.comments.map Comment.ofLexeme })

/-- The state in which a production finds a session. -/
def readState (session : Session) : ReadState Position :=
  ⟨session.cursor, session.depth, session.inHeader, []⟩

/-- The session that a production leaves behind. -/
def afterState (session : Session) (state : ReadState Position) : Session :=
  { session with
    cursor := state.cursor
    inHeader := state.inHeader
    depth := state.depth
    diagnostics := session.diagnostics ++ state.errors.reverse.map .grammatical }

/-- Reads a phrase, if it can be read. -/
def run (session : Session) (production : Production Position α) : Option α × Session :=
  let allowance := Production.allowance session.cursor.ahead.length
  match production.run nestingLimit allowance (Nonterminal.read nestingLimit allowance)
      session.readState with
  | .done value state => (some value, session.afterState state)
  | .gaveUp state => (none, session.afterState state)
  | .exhausted => (none, session)

/-- The comments, which are then forgotten. -/
def takeComments (session : Session) : List (Comment Position) × Session :=
  (session.comments, { session with comments := [] })

/-- Reads a file. -/
def runFile (session : Session) : Option (File Position) × Session :=
  let (ready, session) := session.start
  if ready then
    let (comments, session) := session.takeComments
    let (parts, session) := session.run .file
    (parts.bind (Production.FileParts.file? session.filename comments), session)
  else (none, session)

/-- Reads a single declaration. -/
def runDecl (session : Session) : Option (Decl Position) × Session :=
  let (ready, session) := session.start
  if ready then session.run .singleDecl else (none, session)

/-! ## Calls -/

/-- An answer, what the listener heard meanwhile, and the session behind it. -/
structure Reply (α : Type) where
  value : α
  heard : List Diagnostic
  session : Session

/-- Ends a reading: the listener hears the complaints. -/
def finish (session : Session) (value : α) : Reply α :=
  ⟨value, if session.listening then session.diagnostics else [], session⟩

/-- Reads the text if the mode is the session's own. -/
def read
    (session : Session)
    (requested : ParseMode)
    (reading : Session -> Option α × Session) : Reply (Except ModeError (Option α)) :=
  if session.mode = requested then
    let (tree, session) := reading session
    session.finish (.ok tree)
  else ⟨.error ⟨session.mode, requested⟩, [], session⟩

/-- Reads the text as a file. -/
def parseFile (session : Session) : Reply (Except ModeError (Option (File Position))) :=
  session.read .file runFile

/-- Reads the text as a single declaration. -/
def parseDecl (session : Session) : Reply (Except ModeError (Option (Decl Position))) :=
  session.read .singleDecl runDecl

/-- Whether there are complaints. -/
def hasErrors (session : Session) : Bool :=
  !session.diagnostics.isEmpty

/-- The complaints, which are then forgotten. -/
def takeErrors (session : Session) : Reply (List Diagnostic) :=
  ⟨session.diagnostics, [], { session with diagnostics := [] }⟩

/-- A short description of the session. -/
def summary (session : Session) : String :=
  let filename :=
    match session.filename with
    | some name => "Some(" ++ Text.quotedString name ++ ")"
    | none => "None"
  "Parser \x7b filename: " ++ filename ++ ", mode: " ++ session.mode.name
    ++ ", errors: " ++ toString session.diagnostics.length ++ ", .. \x7d"

end Session
end GoFront
