import GoFront.CommandLine

/-!
# The program

Connects the command line to the file system and the standard streams.
-/

namespace GoFront

/-- The number of a failed access to the file system. Some failures carry it with its sign turned. -/
def errorNumber (code : UInt32) : Nat :=
  min code.toNat (0 - code).toNat

/-- The cause of a failed file access. -/
def fileError : IO.Error -> FileError
  | .noFileOrDirectory .. => .missing
  | .permissionDenied .. => .system "Permission denied" 13
  | .inappropriateType _ code _ =>
      if errorNumber code = 20 then .notDirectory else .isDirectory
  | .invalidArgument _ code _ =>
      if errorNumber code = 36 then .nameTooLong
      else .system "Invalid argument" (errorNumber code)
  | error => .system (toString error) 5

/-- The bytes of a file. -/
def readBytes (path : String) : IO (Except FileError ByteArray) := do
  try
    let bytes ← IO.FS.readBinFile path
    return .ok bytes
  catch error =>
    return .error (fileError error)

end GoFront

def main (args : List String) : IO UInt32 := do
  let result ← GoFront.CommandLine.run GoFront.readBytes args
  IO.print result.output
  IO.eprint result.errors
  return result.code
