import TreeHeaders.FileSystem.Operation

set_option autoImplicit false

/-!
# Disks

What publishing headers needs of the place they are published to. A file system as a value is
one such place, which makes every statement about publishing one about values.
-/

namespace TreeHeaders

/-- A monad in which files can be read and written. -/
class Disk (m : Type → Type) where
  /-- make a directory and all those on the way to it -/
  createDirectories : String → m (Except DiskError Unit)
  /-- write a whole file -/
  write : String → ByteArray → m (Except DiskError Unit)
  /-- the contents of a file -/
  read : String → m (Except DiskError ByteArray)

/-- A file system that is handed on from step to step. -/
instance : Disk (StateM FileSystem) where
  createDirectories path := fun fs => fs.createDirectories path
  write path contents := fun fs =>
    match fs.write path contents with
    | .ok fs => (.ok (), fs)
    | .error e => (.error e, fs)
  read path := fun fs => (fs.read path, fs)

end TreeHeaders
