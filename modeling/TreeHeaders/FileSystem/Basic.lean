import TreeHeaders.FileSystem.Entry
import TreeHeaders.FileSystem.Place

set_option autoImplicit false

/-!
# File systems

Files and directories as a value, seen from a working directory. There are no links and no
permissions. Of the directories above the working directory nothing is known but that they are
there: they hold what has been put there, and no more.
-/

namespace TreeHeaders

/-- The files and directories: for each base in use, what is below it. -/
structure FileSystem where
  roots : List (Place.Base × Listing)
  deriving Inhabited

namespace FileSystem

/-- An empty working directory. -/
def empty : FileSystem :=
  { roots := [] }

/-- What is in the directory at a base, which is always there. -/
def root (fs : FileSystem) (base : Place.Base) : Listing :=
  (fs.roots.lookup base).getD []

/-- What is at a place. -/
def get? (fs : FileSystem) (place : Place) : Option Entry :=
  Listing.get? place.names (fs.root place.base)

/-- The file system with an entry at a place, if that is in a directory. -/
def put (fs : FileSystem) (place : Place) (entry : Entry) : FileSystem :=
  { roots := putEntry place.base (Listing.put entry place.names (fs.root place.base)) fs.roots }

/-- The file system without what is at a place and below it. Bases stay, but hold nothing. -/
def erase (fs : FileSystem) (place : Place) : FileSystem :=
  if place.isBase then
    { roots := fs.roots.filter fun r => !place.base.isAtOrAbove r.1 }
  else
    { roots := putEntry place.base (Listing.erase place.names (fs.root place.base)) fs.roots }

theorem root_put (fs : FileSystem) (place : Place) (entry : Entry) (base : Place.Base) :
    (fs.put place entry).root base =
      if base = place.base then Listing.put entry place.names (fs.root place.base)
      else fs.root base := by
  by_cases h : base = place.base
  · simp [root, put, lookup_putEntry, h]
  · simp [root, put, lookup_putEntry, h]

/-- An entry that is put into a directory is there. -/
theorem get?_put {fs : FileSystem} {place : Place} {below : Listing} (entry : Entry)
    (name : String) (h : fs.get? place = some (.directory below)) :
    (fs.put (place.child name) entry).get? (place.child name) = some entry := by
  rw [get?, root_put, if_pos rfl]
  exact Listing.get?_put (by simp [Place.child]) (by simpa [get?, Place.child] using h)

/-- Putting what is already there changes nothing. -/
theorem put_self {fs : FileSystem} {place : Place} {name : String} {entry : Entry}
    (h : fs.get? (place.child name) = some entry) : fs.put (place.child name) entry = fs := by
  have hroot : Listing.put entry (place.child name).names (fs.root place.base) =
      fs.root place.base := Listing.put_self h
  cases hl : fs.roots.lookup place.base with
  | some entries =>
    have hr : fs.root place.base = entries := by simp [root, hl]
    have hput : putEntry place.base (fs.root place.base) fs.roots = fs.roots :=
      putEntry_self (by rw [hl, hr])
    simp only [put]
    rw [show (place.child name).base = place.base from rfl, hroot, hput]
  | none =>
    rw [get?, show fs.root (place.child name).base = [] by simp [root, Place.child, hl]] at h
    cases hn : (place.child name).names with
    | nil => simp [Place.child] at hn
    | cons first rest => simp [hn, Listing.get?] at h

/-- The entries below the working directory with the names on the way to them, each directory
sorted by name and directly followed by what it holds. -/
def tree (fs : FileSystem) : List (List String × Entry) :=
  (Listing.descendants (fs.root Place.here.base)).mergeSort fun a b => !(b.1 < a.1)

end FileSystem

end TreeHeaders
