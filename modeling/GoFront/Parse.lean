import GoFront.Diagnostic
import GoFront.Grammar.Rules
import GoFront.Lexer.Stream

/-!
# Reading source texts

A source text is lexed first. Only a text without lexical errors is read by the grammar. A file is
returned as long as its package clause could be read, whatever errors its declarations have; a single
declaration is returned if it could be read.
-/

namespace GoFront

/-- The number of levels to which phrases may nest. -/
def nestingLimit : Nat := 100

/-- A tree, if there is one, and the complaints about its text. -/
structure Parsed (α : Type) where
  tree : Option α
  diagnostics : List Diagnostic

namespace Parsed

variable {α β : Type}

/-- The result of running a production. -/
def ofOutcome
    (finish : α -> Option β) : Outcome Position α -> Parsed β
  | .done value state => ⟨finish value, state.errors.reverse.map .grammatical⟩
  | .gaveUp state => ⟨none, state.errors.reverse.map .grammatical⟩
  | .exhausted => ⟨none, []⟩

/-- The result of reading lexemes by a production. -/
def ofLexed
    (limit : Nat)
    (production : Production Position α)
    (finish : α -> Option β)
    (lexed : Lexed Position) : Parsed β :=
  if lexed.hasErrors then ⟨none, lexed.errors.map .lexical⟩
  else ofOutcome finish (production.readFrom limit lexed.significant lexed.stop)

end Parsed

/-- A comment lexeme as a leaf of the tree. -/
def Comment.ofLexeme {P : Type} (lexeme : Lexeme P) : Comment P :=
  ⟨lexeme.token, lexeme.text, lexeme.pos⟩

namespace Production.FileParts

/-- The file with the given parts, if its package clause was read. -/
def file? {P : Type}
    (filename : Option String)
    (comments : List (Comment P))
    (parts : FileParts P) : Option (File P) :=
  parts.package.map fun package =>
    { filename, package, imports := .ofList parts.imports, decls := .ofList parts.decls, comments }

end Production.FileParts

/-- Reads a file, with phrases nested up to a limit. -/
def parseFileWithin
    (limit : Nat)
    (source : String)
    (filename : Option String) : Parsed (File Position) :=
  let lexed := lex source filename
  let comments := lexed.comments.map Comment.ofLexeme
  .ofLexed limit .file (Production.FileParts.file? filename comments) lexed

/-- Reads a single declaration, with phrases nested up to a limit. -/
def parseDeclWithin
    (limit : Nat)
    (source : String)
    (filename : Option String) : Parsed (Decl Position) :=
  .ofLexed limit .singleDecl some (lex source filename)

/-- Reads a file. -/
def parseFile (source : String) (filename : Option String) : Parsed (File Position) :=
  parseFileWithin nestingLimit source filename

/-- Reads a single declaration. -/
def parseDecl (source : String) (filename : Option String) : Parsed (Decl Position) :=
  parseDeclWithin nestingLimit source filename

/-! ## All or nothing -/

/-- A file that could not be read without complaints. -/
structure ParseFailure where
  partialFile : Option (File Position)
  diagnostics : List Diagnostic

namespace ParseFailure

/-- The wording of a failure. -/
def message (failure : ParseFailure) : String :=
  s!"parsing failed with {failure.diagnostics.length} diagnostic(s)"

end ParseFailure

/-- Reads an unnamed file, about which there must be no complaint. -/
def parseSource (source : String) : Except ParseFailure (File Position) :=
  let parsed := parseFile source none
  match parsed.tree, parsed.diagnostics with
  | some file, [] => .ok file
  | tree, diagnostics => .error ⟨tree, diagnostics⟩

end GoFront
