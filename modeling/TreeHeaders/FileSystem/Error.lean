set_option autoImplicit false

/-!
# Disk errors

Why an operation on files or directories fails.
-/

namespace TreeHeaders

/-- The cause of a failed operation on files or directories. -/
inductive DiskError where
  /-- a file or a directory on the way to it is missing -/
  | notFound
  /-- something of that name is already there -/
  | alreadyExists
  /-- something on the way is not a directory -/
  | notDirectory
  /-- a file is needed, and it is a directory -/
  | isDirectory
  /-- a name or the whole path is longer than the system allows -/
  | nameTooLong
  /-- the path holds a NUL character -/
  | nulCharacter
  /-- the contents are no text -/
  | notText
  /-- any other cause, in the words of the system -/
  | other (text : String)
  deriving DecidableEq, Repr, Inhabited

namespace DiskError

/-- The cause in the words of the system. -/
def message : DiskError → String
  | .notFound => "No such file or directory (os error 2)"
  | .alreadyExists => "File exists (os error 17)"
  | .notDirectory => "Not a directory (os error 20)"
  | .isDirectory => "Is a directory (os error 21)"
  | .nameTooLong => "File name too long (os error 36)"
  | .nulCharacter => "file name contained an unexpected NUL byte"
  | .notText => "stream did not contain valid UTF-8"
  | .other text => text

end DiskError

end TreeHeaders
