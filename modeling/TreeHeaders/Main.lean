import TreeHeaders.CommandLine.Run

set_option autoImplicit false

/-!
# The command

The disk of the machine, and the entry point that prints the outcome of a run.
-/

namespace TreeHeaders

/-- The cause of a failed operation of the system, whose codes come with either sign. -/
def DiskError.ofSystem : IO.Error → DiskError
  | .noFileOrDirectory .. => .notFound
  | .alreadyExists .. => .alreadyExists
  | .inappropriateType _ code _ => if code = 20 ∨ 0 - code = 20 then .notDirectory else .isDirectory
  | .invalidArgument _ code text =>
    if code = 36 ∨ 0 - code = 36 then .nameTooLong else .other text
  | e => .other (toString e)

/-- Run an operation of the system on a path and keep the cause if it fails. -/
def attempt {α : Type} (path : String) (action : IO α) : IO (Except DiskError α) :=
  match Path.accepted path with
  | .error e => return .error e
  | .ok _ => do
    try
      let x ← action
      return .ok x
    catch e => return .error (.ofSystem e)

/-- Does the path lead to a directory? -/
def isDirectory (path : String) : IO Bool := do
  try
    (← IO.FS.realPath path).isDir
  catch _ => return false

/-- Make one directory, unless it is there; if one on the way is missing, make those first. -/
def makeDirectory (path : String) (parents : IO Unit) : IO Unit := do
  try IO.FS.createDir path
  catch
    | .noFileOrDirectory .. =>
      parents
      try IO.FS.createDir path
      catch e => unless ← isDirectory path do throw e
    | e => unless ← isDirectory path do throw e

/-- The path with those pieces. -/
def pathOf : List String → String
  | [""] => "/"
  | pieces => "/".intercalate pieces

/-- Make the directories for pieces that are given from the last one up. -/
def makeUpwards : List String → IO Unit
  | [] => return
  | piece :: up => makeDirectory (pathOf (piece :: up).reverse) (makeUpwards up)

/-- Make a directory and all those on the way to it. -/
def makeDirectories (path : String) : IO Unit :=
  let parents := (Path.significant (Path.pieces path)).reverse.tail
  makeDirectory path (makeUpwards parents)

/-- The disk of the machine. -/
instance : Disk IO where
  createDirectories path :=
    if path = "" then return .ok () else attempt path (makeDirectories path)
  write path contents := attempt path (IO.FS.writeBinFile path contents)
  read path := attempt path (IO.FS.readBinFile path)

end TreeHeaders

/-- Run the command, print what it has to say, and return its exit status. -/
def main (args : List String) : IO UInt32 := do
  let outcome ← TreeHeaders.CommandLine.run args
  (← IO.getStdout).putStr outcome.stdout
  (← IO.getStderr).putStr outcome.stderr
  return outcome.exit.code.toUInt32
