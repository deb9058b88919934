import TreeHeaders.FileSystem.Error
import TreeHeaders.Text.Split

set_option autoImplicit false

/-!
# Paths

A path is a text with `/` between its pieces. A piece is the name of an entry, or `..` for the
directory above; `.` and an empty piece stay where they are. A path that begins with `/` has an
empty piece in front, and starts at the top of the file system.
-/

namespace TreeHeaders.Path

/-- The pieces of a path, empty ones included. -/
def pieces (path : String) : List String :=
  (Text.splitAt '/' path.toList).map String.ofList

/-- The longest name, in bytes. -/
def longestName : Nat := 255

/-- The longest path, in bytes. -/
def longestPath : Nat := 4095

/-- The pieces of a path that the system accepts. -/
def accepted (path : String) : Except DiskError (List String) :=
  if path.toList.contains '\x00' then .error .nulCharacter
  else if path = "" then .error .notFound
  else if longestPath < path.utf8ByteSize then .error .nameTooLong
  else .ok (pieces path)

/-- Do the pieces start at the top of the file system? -/
def isAbsolute (path : List String) : Bool :=
  path.head? == some ""

/-- Does a piece stay where it is? -/
def staysPut (piece : String) : Bool :=
  piece == "" || piece == "."

/-- Does a piece name an entry of the directory, rather than a way to walk? -/
def isName (piece : String) : Bool :=
  !staysPut piece && piece != ".."

/-- Is a name longer than the system allows? -/
def isTooLong (name : String) : Bool :=
  longestName < name.utf8ByteSize

/-- The pieces up to the last one that is not empty. -/
def withoutTrailing (path : List String) : List String :=
  (path.reverse.dropWhile (· == "")).reverse

/-- The pieces that count: an empty one and a `.` only do in front. -/
def significant : List String → List String
  | [] => []
  | piece :: rest => piece :: rest.filter fun piece => !staysPut piece

end TreeHeaders.Path
