import TreeHeaders.FileSystem.Spot

set_option autoImplicit false

/-!
# Operations on files and directories

Reading, writing and removing by path. An operation that fails changes nothing, but for making a
directory after those on the way to it.
-/

namespace TreeHeaders.FileSystem

/-! ## Files -/

/-- The contents of a file. -/
def read (fs : FileSystem) (path : String) : Except DiskError ByteArray := do
  let spot ← fs.locate (← Path.accepted path)
  match spot.entry with
  | .file contents => .ok contents
  | .directory _ => .error .isDirectory

/-- Write a file, new or in the stead of an old one. -/
def write (fs : FileSystem) (path : String) (contents : ByteArray) :
    Except DiskError FileSystem := do
  let path ← Path.accepted path
  let site ← fs.site path
  if path.getLastD "" = "" || !Path.isName site.name then .error .isDirectory
  else if Path.isTooLong site.name then .error .nameTooLong
  else
    match site.occupant? with
    | some (.directory _) => .error .isDirectory
    | _ => .ok (fs.put site.place (.file contents))

/-- Add to the end of a file that is there. -/
def append (fs : FileSystem) (path : String) (contents : ByteArray) :
    Except DiskError FileSystem := do
  let spot ← fs.locate (← Path.accepted path)
  match spot.entry with
  | .file old => .ok (fs.put spot.place (.file (old ++ contents)))
  | .directory _ => .error .isDirectory

/-- Remove a file, or a directory with all it holds. -/
def remove (fs : FileSystem) (path : String) : Except DiskError FileSystem := do
  let spot ← fs.locate (← Path.accepted path)
  .ok (fs.erase spot.place)

/-! ## Directories -/

/-- Make one directory. -/
def makeDirectory (fs : FileSystem) (path : List String) : Except DiskError FileSystem := do
  let site ← fs.site path
  if !Path.isName site.name then .error .alreadyExists
  else if Path.isTooLong site.name then .error .nameTooLong
  else if site.occupant?.isSome then .error .alreadyExists
  else .ok (fs.put site.place (.directory []))

/-- Make one directory, unless it is there. -/
def ensureDirectory (fs : FileSystem) (path : List String) : Except DiskError FileSystem :=
  match fs.makeDirectory path with
  | .ok fs => .ok fs
  | .error e => if fs.leadsToDirectory path then .ok fs else .error e

/-- Make a directory after those on the way to it, which `parents` makes. What was made stays
even if a later step fails. -/
def makeAfter (parents : FileSystem → Except DiskError Unit × FileSystem) (fs : FileSystem)
    (path : List String) : Except DiskError Unit × FileSystem :=
  match fs.ensureDirectory path with
  | .ok fs => (.ok (), fs)
  | .error .notFound =>
    match parents fs with
    | (.error e, fs) => (.error e, fs)
    | (.ok (), fs) =>
      match fs.ensureDirectory path with
      | .ok fs => (.ok (), fs)
      | .error e => (.error e, fs)
  | .error e => (.error e, fs)

/-- Make the directories for pieces that are given from the last one up. -/
def makeUpwards : List String → FileSystem → Except DiskError Unit × FileSystem
  | [], fs => (.ok (), fs)
  | piece :: up, fs => makeAfter (makeUpwards up) fs (piece :: up).reverse

/-- Make a directory and all those on the way to it. An empty path is the working directory. -/
def createDirectories (fs : FileSystem) (path : String) : Except DiskError Unit × FileSystem :=
  if path = "" then (.ok (), fs)
  else
    match Path.accepted path with
    | .error e => (.error e, fs)
    | .ok path => makeAfter (makeUpwards (Path.significant path).reverse.tail) fs path

end TreeHeaders.FileSystem
