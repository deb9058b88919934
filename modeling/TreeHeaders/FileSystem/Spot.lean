import TreeHeaders.FileSystem.Basic
import TreeHeaders.FileSystem.Path

set_option autoImplicit false

/-!
# Spots

Following the pieces of a path through a file system. Where one stands is a spot: a place, what
is there, and the directories on the way to it, so that each piece takes one step.
-/

namespace TreeHeaders

/-- Where the pieces of a path have led. -/
structure Spot where
  base : Place.Base
  /-- the names from the base on and the directories they are in, the last one first -/
  way : List (String × Listing)
  entry : Entry
  deriving Inhabited

/-- The place of a spot. -/
def Spot.place (spot : Spot) : Place :=
  { base := spot.base, names := (spot.way.map (·.1)).reverse }

/-- Where a new entry is to be made: the directory, what it holds, and the name. -/
structure Site where
  directory : Place
  entries : Listing
  name : String
  deriving Inhabited

namespace Site

/-- The place of the new entry. -/
def place (site : Site) : Place :=
  site.directory.child site.name

/-- What is already there. -/
def occupant? (site : Site) : Option Entry :=
  site.entries.lookup site.name

end Site

namespace FileSystem

/-- The spot at a base. -/
def spotAt (fs : FileSystem) (base : Place.Base) : Spot :=
  { base, way := [], entry := .directory (fs.root base) }

/-- The spot of the directory that holds this one. -/
def above (fs : FileSystem) (spot : Spot) : Spot :=
  match spot.way with
  | [] => fs.spotAt spot.base.parent
  | (_, entries) :: way => { spot with way, entry := .directory entries }

theorem place_above (fs : FileSystem) (spot : Spot) :
    (fs.above spot).place = spot.place.parent := by
  obtain ⟨base, way, entry⟩ := spot
  cases way with
  | nil => simp [above, spotAt, Spot.place, Place.parent, Place.isBase]
  | cons step way => simp [above, Spot.place, Place.parent, Place.isBase]

/-- Follow one piece. This needs a directory to start from. -/
def step (fs : FileSystem) (spot : Spot) (piece : String) : Except DiskError Spot :=
  match spot.entry with
  | .file _ => .error .notDirectory
  | .directory entries =>
    if Path.staysPut piece then .ok spot
    else if piece = ".." then .ok (fs.above spot)
    else if Path.isTooLong piece then .error .nameTooLong
    else
      match entries.lookup piece with
      | some entry => .ok { spot with way := (piece, entries) :: spot.way, entry }
      | none => .error .notFound

/-- Follow pieces to something that is there. -/
def follow (fs : FileSystem) : Spot → List String → Except DiskError Spot
  | spot, [] => .ok spot
  | spot, piece :: rest => do
    let spot ← fs.step spot piece
    fs.follow spot rest

/-- Where the pieces of a path are followed from: the top, or the working directory. -/
def start (fs : FileSystem) (path : List String) : Spot :=
  fs.spotAt (if Path.isAbsolute path then Place.top else Place.here).base

/-- Follow a path to something that is there. -/
def locate (fs : FileSystem) (path : List String) : Except DiskError Spot :=
  fs.follow (fs.start path) path

/-- Does the path lead to a directory? -/
def leadsToDirectory (fs : FileSystem) (path : List String) : Bool :=
  match fs.locate path with
  | .ok spot => spot.entry.isDirectory
  | .error _ => false

/-- Where the new entry at the end of a path is to be made. Its directory has to be there. -/
def site (fs : FileSystem) (path : List String) : Except DiskError Site := do
  let pieces := Path.withoutTrailing path
  let spot ← fs.follow (fs.start path) pieces.dropLast
  match spot.entry with
  | .file _ => .error .notDirectory
  | .directory entries => .ok { directory := spot.place, entries, name := pieces.getLastD "" }

end FileSystem

end TreeHeaders
