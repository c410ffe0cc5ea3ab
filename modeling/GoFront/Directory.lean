/-!
# Directories in memory

A working directory is given by the files that it holds, so that a command can run without a file
system. A path is followed one component at a time. Of what lies above the working directory, nothing
is known but that the way there leads through directories.
-/

namespace GoFront

/-- Why a file cannot be read as text. -/
inductive FileError
  | missing
  | notDirectory
  | isDirectory
  | nameTooLong
  | notText
  | system (description : String) (code : Nat)
  deriving DecidableEq, Repr

namespace FileError

/-- The wording of an error. -/
def message : FileError -> String
  | missing => "No such file or directory (os error 2)"
  | notDirectory => "Not a directory (os error 20)"
  | isDirectory => "Is a directory (os error 21)"
  | nameTooLong => "File name too long (os error 36)"
  | notText => "stream did not contain valid UTF-8"
  | system description code => s!"{description} (os error {code})"

end FileError

/-- A working directory: the contents of the files in it, each with the components of its path. -/
structure Directory where
  files : List (List String × ByteArray)

/-- Where a path has led: into a directory, given by its components with the innermost first, to a
place above the working directory, or to a file. -/
inductive Directory.Spot
  | inside (components : List String)
  | above
  | file (content : ByteArray)

namespace Directory

/-- The largest number of bytes in a component of a path. -/
def longestName : Nat := 255

/-- The largest number of bytes in a path. -/
def longestPath : Nat := 4095

/-- The components of a path. -/
def components (path : String) : List String :=
  path.splitOn "/"

/-- The directory that holds the given files, each with its path. -/
def ofFiles (files : List (String × ByteArray)) : Directory :=
  ⟨files.map fun (path, content) => (components path, content)⟩

/-- The file or directory of a name within a directory. -/
def descend
    (directory : Directory)
    (parents : List String)
    (name : String) : Except FileError Spot :=
  let path := (name :: parents).reverse
  match directory.files.find? fun (other, _) => other == path with
  | some (_, content) => .ok (.file content)
  | none =>
      if directory.files.any fun (other, _) => path.isPrefixOf other then
        .ok (.inside (name :: parents))
      else .error .missing

/-- Follows one component of a path. An empty component stays in a directory, as a single point does,
but nothing can be followed from a file. -/
def step (directory : Directory) (spot : Spot) (name : String) : Except FileError Spot :=
  match spot with
  | .file _ => .error .notDirectory
  | .above =>
      if ["", ".", ".."].contains name then .ok .above
      else if longestName < name.utf8ByteSize then .error .nameTooLong
      else .error .missing
  | .inside parents =>
      if ["", "."].contains name then .ok (.inside parents)
      else if name = ".." then
        match parents with
        | [] => .ok .above
        | _ :: parents => .ok (.inside parents)
      else if longestName < name.utf8ByteSize then .error .nameTooLong
      else directory.descend parents name

/-- The content of the file to which a path leads. -/
def read (directory : Directory) (path : String) : Except FileError ByteArray := do
  if path.isEmpty then throw .missing
  if longestPath < path.utf8ByteSize then throw .nameTooLong
  let start := if path.startsWith "/" then Spot.above else Spot.inside []
  match ← (components path).foldlM directory.step start with
  | .file content => return content
  | .inside _ | .above => throw .isDirectory

end Directory
end GoFront
