import GoFront.Directory
import GoFront.Parse
import GoFront.Tree.Dump

/-!
# The command line

The command reads one file, shows its tree and reports the complaints about it. The exit code tells
whether there were any. The file system is a parameter.
-/

namespace GoFront

/-- What a command leaves behind. -/
structure CommandResult where
  code : UInt32
  output : String
  errors : String
  deriving DecidableEq, Repr

namespace CommandLine

/-- The text of a file. -/
def decode (bytes : ByteArray) : Except FileError String :=
  match String.fromUTF8? bytes with
  | some text => .ok text
  | none => .error .notText

/-- The reminder of how the command is used. -/
def usage : String :=
  "usage: cargo run --example parse -- <file.go>\n"

/-- Shows the tree of a file and the complaints about it. -/
def describe (path source : String) : CommandResult :=
  let parsed := parseFile source (some path)
  { code := if parsed.diagnostics.isEmpty then 0 else 1
    output := (parsed.tree.map fun file => file.node.dump ⟨"  ", true, false⟩).getD ""
    errors := Diagnostic.report parsed.diagnostics }

/-- Runs the command with the given arguments. Only the first one counts. -/
def run
    {m : Type -> Type} [Monad m]
    (readFile : String -> m (Except FileError ByteArray)) :
    (args : List String) -> m CommandResult
  | [] => pure ⟨2, "", usage⟩
  | path :: _ => do
      let content ← readFile path
      match content >>= decode with
      | .ok source => pure (describe path source)
      | .error error => pure ⟨2, "", s!"{path}: {error.message}\n"⟩

/-- Runs the command in a directory in memory. -/
def runIn (directory : Directory) (args : List String) : CommandResult :=
  run (fun path => (pure (directory.read path) : Id _)) args

end CommandLine
end GoFront
