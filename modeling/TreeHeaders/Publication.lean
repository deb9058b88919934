import TreeHeaders.Disk
import TreeHeaders.Header

set_option autoImplicit false

/-!
# Publishing headers

Writing headers into a directory, and finding out which of the headers in a directory are no
longer the generated ones.
-/

namespace TreeHeaders

/-- Why headers could not be published or inspected. -/
inductive PublishError where
  /-- the directory could not be made -/
  | createDirectory (path : String) (cause : DiskError)
  /-- a header could not be written -/
  | write (path : String) (cause : DiskError)
  /-- a published header could not be read -/
  | read (path : String) (cause : DiskError)
  deriving DecidableEq, Repr, Inhabited

namespace PublishError

/-- The directory or header that is concerned. -/
def path : PublishError → String
  | .createDirectory path _ | .write path _ | .read path _ => path

/-- The error in one sentence. -/
def message : PublishError → String
  | .createDirectory path cause =>
    "could not create directory `" ++ path ++ "`: " ++ cause.message
  | .write path cause => "could not write `" ++ path ++ "`: " ++ cause.message
  | .read path cause => "could not read `" ++ path ++ "`: " ++ cause.message

/-- The title over the sentence. -/
def title : PublishError → String
  | .createDirectory .. => "Cannot Create Directory"
  | .write .. => "Cannot Write Header"
  | .read .. => "Cannot Read Header"

end PublishError

/-- The path of a file in a directory. -/
def joinPath (directory file : String) : String :=
  if directory = "" || directory.toList.getLast? = some '/' then directory ++ file
  else directory ++ "/" ++ file

/-- The path to which a header is published. -/
def Header.path (directory : String) (header : Header) : String :=
  joinPath directory header.fileName

/-! ## Writing -/

/-- What publishing has done: the headers written, and what stopped it. -/
structure Publication where
  written : List String
  failure : Option PublishError
  deriving DecidableEq, Repr, Inhabited

/-- The headers written, if all of them were. -/
def Publication.result (p : Publication) : Except PublishError (List String) :=
  match p.failure with
  | none => .ok p.written
  | some e => .error e

section

variable {m : Type → Type} [Monad m] [Disk m]

/-- Write headers in order into a directory that is there, up to the first failure. -/
def writeHeaders (directory : String) : List Header → m Publication
  | [] => pure { written := [], failure := none }
  | header :: rest => do
    let path := header.path directory
    match ← Disk.write path header.contents.toUTF8 with
    | .error e => pure { written := [], failure := some (.write path e) }
    | .ok () =>
      let done ← writeHeaders directory rest
      pure { done with written := path :: done.written }

/-- Write headers into a directory, which is made if needed. If one fails, those
before it stay. -/
def publish (directory : String) (headers : List Header) : m Publication := do
  match ← Disk.createDirectories directory with
  | .error e => pure { written := [], failure := some (.createDirectory directory e) }
  | .ok () => writeHeaders directory headers

end

/-! ## Inspecting -/

/-- How a published header relates to the generated one. -/
inductive Status where
  /-- the same contents -/
  | upToDate
  /-- there is no such file -/
  | missing
  /-- other contents, which may be no text at all -/
  | modified
  deriving DecidableEq, Repr, Inhabited

/-- What inspecting has found: the status of each header, and what stopped it. -/
structure Inspection where
  statuses : List (String × Status)
  failure : Option PublishError
  deriving DecidableEq, Repr, Inhabited

namespace Inspection

/-- The headers that are not up to date. -/
def stale (i : Inspection) : List (String × Status) :=
  i.statuses.filter fun s => s.2 != .upToDate

/-- The headers that are not up to date, if all could be inspected. -/
def result (i : Inspection) : Except PublishError (List (String × Status)) :=
  match i.failure with
  | none => .ok i.stale
  | some e => .error e

end Inspection

/-- The status of a header, given what reading its file gave. A file that holds no
text is a modified one. -/
def Header.status (header : Header) : Except DiskError ByteArray → Except DiskError Status
  | .ok contents =>
    .ok (if String.fromUTF8? contents = some header.contents then .upToDate else .modified)
  | .error .notFound => .ok .missing
  | .error e => .error e

/-- Compare the headers in a directory with the generated ones, in order, up to the first one
that cannot be read. Nothing is written. -/
def inspect {m : Type → Type} [Monad m] [Disk m] (directory : String) :
    List Header → m Inspection
  | [] => pure { statuses := [], failure := none }
  | header :: rest => do
    let path := header.path directory
    match header.status (← Disk.read path) with
    | .error e => pure { statuses := [], failure := some (.read path e) }
    | .ok status =>
      let found ← inspect directory rest
      pure { found with statuses := (path, status) :: found.statuses }

end TreeHeaders
