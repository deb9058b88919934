set_option autoImplicit false

/-!
# Places

Where an entry of a file system is, seen from a working directory. A place is reached by going
up some levels, or to the top, and then down by names. The name of the working directory is not
known, nor are those of the directories above it, so no way down leads back to it, and a place
is reached in one way only.
-/

namespace TreeHeaders

/-- A directory from which the way goes down. -/
inductive Place.Base where
  /-- the top of the file system -/
  | top
  /-- the directory that many levels above the working directory -/
  | above (levels : Nat)
  deriving DecidableEq, Repr, Inhabited

/-- A place: where the way down starts, and the names on it. -/
structure Place where
  base : Place.Base
  names : List String
  deriving DecidableEq, Repr, Inhabited

namespace Place

/-- The working directory. -/
def here : Place :=
  { base := .above 0, names := [] }

/-- The top of the file system. -/
def top : Place :=
  { base := .top, names := [] }

/-- Does the way down end where it starts? Such a place is always a directory. -/
def isBase (place : Place) : Bool :=
  place.names.isEmpty

/-- The place of that name in the directory at this place. -/
def child (place : Place) (name : String) : Place :=
  { place with names := place.names ++ [name] }

/-- The directory above a base. The top has itself above it. -/
def Base.parent : Base → Base
  | .top => .top
  | .above levels => .above (levels + 1)

/-- The directory that holds a place. -/
def parent (place : Place) : Place :=
  if place.isBase then { place with base := place.base.parent }
  else { place with names := place.names.dropLast }

/-- Is the first base the second one, or above it? -/
def Base.isAtOrAbove : Base → Base → Bool
  | .top, _ => true
  | .above m, .above n => n ≤ m
  | .above _, .top => false

@[simp]
theorem parent_child (place : Place) (name : String) : (place.child name).parent = place := by
  simp [parent, child, isBase]

@[simp]
theorem isBase_child (place : Place) (name : String) : (place.child name).isBase = false := by
  simp [child, isBase]

end Place

end TreeHeaders
