import TreeHeaders.FileSystem.Operation
import TreeHeaders.Proofs.Loading
import TreeHeaders.Proofs.Places

set_option autoImplicit false

/-!
# Following paths

Where a path leads can be told from its pieces alone, since there are no links: every piece goes
one step from place to place (`Path.place`). What the file system adds is whether the way is
there. `FileSystem.Leads` says that all places on it are directories, `FileSystem.Admits` that
this holds of all but the last one. A file system that keeps its directories keeps its ways
(`FileSystem.Leads.mono`).
-/

namespace TreeHeaders

/-! ## Places of paths -/

namespace Place

/-- The place to which a piece of a path leads. -/
def next (place : Place) (piece : String) : Place :=
  if Path.staysPut piece then place
  else if piece = ".." then place.parent
  else place.child piece

/-- The place to which the pieces of a path lead. -/
def follow (place : Place) (pieces : List String) : Place :=
  pieces.foldl next place

theorem next_of_isName {piece : String} (h : Path.isName piece = true) (place : Place) :
    place.next piece = place.child piece := by
  simp only [Path.isName, Bool.and_eq_true, Bool.not_eq_true', bne_iff_ne] at h
  rw [next, h.1, if_neg (by simp), if_neg h.2]

theorem follow_concat (place : Place) (pieces : List String) (piece : String) :
    place.follow (pieces ++ [piece]) = (place.follow pieces).next piece := by
  simp [follow]

theorem child_injective (place : Place) : Function.Injective place.child := by
  intro left right h
  simpa [child] using h

end Place

namespace Path

/-- The place from which the pieces of a path are followed. -/
def origin (path : List String) : Place :=
  if isAbsolute path then Place.top else Place.here

/-- The place to which the pieces of a path lead. -/
def place (path : List String) : Place :=
  (origin path).follow path

theorem ne_empty_of_isName {name : String} (h : isName name = true) : name ≠ "" := by
  rintro rfl
  exact absurd h (by decide)

/-- The first piece alone tells where a path starts, and a name never does. -/
theorem origin_concat {name : String} (h : name ≠ "") (pieces : List String) :
    origin (pieces ++ [name]) = origin pieces := by
  cases pieces with
  | nil => simp [origin, isAbsolute, h]
  | cons first rest => rfl

theorem place_concat {name : String} (h : isName name = true) (pieces : List String) :
    place (pieces ++ [name]) = (place pieces).child name := by
  rw [place, origin_concat (ne_empty_of_isName h), Place.follow_concat, Place.next_of_isName h]
  rfl

end Path

/-! ## Spots are places -/

/-- The spot is as the file system has it. -/
inductive Spot.Stands (fs : FileSystem) : Spot → Prop where
  | base (base : Place.Base) : Stands fs (fs.spotAt base)
  | child {spot : Spot} {entries : Listing} {name : String} {entry : Entry} (h : Stands fs spot)
      (hentries : spot.entry = .directory entries) (hentry : entries.lookup name = some entry) :
      Stands fs { spot with way := (name, entries) :: spot.way, entry }

namespace Spot.Stands

variable {fs : FileSystem} {spot : Spot}

theorem get?_place (h : Stands fs spot) : fs.get? spot.place = some spot.entry := by
  induction h with
  | base base => rfl
  | @child spot entries name entry h hentries hentry ih =>
    have hplace : Spot.place { spot with way := (name, entries) :: spot.way, entry } =
        spot.place.child name := by
      simp [Spot.place, Place.child]
    rw [hentries] at ih
    rw [hplace, FileSystem.get?_child_of_directory ih, hentry]

theorem isDirectory_iff (h : Stands fs spot) :
    fs.IsDirectory spot.place ↔ ∃ entries, spot.entry = .directory entries := by
  rw [FileSystem.isDirectory_iff, h.get?_place]
  simp only [Option.some.injEq]

theorem above (h : Stands fs spot) : Stands fs (fs.above spot) := by
  cases h with
  | base base => exact .base base.parent
  | @child spot entries name entry h hentries hentry =>
    obtain ⟨base, way, entry⟩ := spot
    subst hentries
    exact h

end Spot.Stands

namespace FileSystem

variable {fs : FileSystem} {spot : Spot}

/-- Following a piece from a directory leads to the next place. -/
theorem step_eq_ok {piece : String} {spot' : Spot} (h : spot.Stands fs)
    (hstep : fs.step spot piece = .ok spot') :
    spot'.Stands fs ∧ spot'.place = spot.place.next piece ∧ fs.IsDirectory spot.place ∧
      (Path.isName piece = true → Path.isTooLong piece = false) := by
  unfold step at hstep
  cases hentry : spot.entry with
  | file contents =>
    rw [hentry] at hstep
    exact absurd hstep (by simp)
  | directory entries =>
    have hdirectory : fs.IsDirectory spot.place := h.isDirectory_iff.2 ⟨entries, hentry⟩
    simp only [hentry] at hstep
    split at hstep
    · next hstays =>
      obtain rfl := Except.ok.inj hstep
      exact ⟨h, by simp [Place.next, hstays], hdirectory, by simp [Path.isName, hstays]⟩
    · next hstays =>
      split at hstep
      · next hup =>
        obtain rfl := Except.ok.inj hstep
        refine ⟨h.above, ?_, hdirectory, by simp [Path.isName, hup]⟩
        rw [place_above, Place.next, if_neg hstays, if_pos hup]
      · next hup =>
        split at hstep
        · exact absurd hstep (by simp)
        · next hlong =>
          split at hstep
          · next entry hlookup =>
            obtain rfl := Except.ok.inj hstep
            refine ⟨h.child hentry hlookup, ?_, hdirectory, fun _ => by simpa using hlong⟩
            rw [Place.next, if_neg hstays, if_neg hup]
            simp [Spot.place, Place.child]
          · exact absurd hstep (by simp)

/-- From a directory, a name leads to what is there, and a missing one is noticed as such. -/
theorem step_of_isName {piece : String} (h : spot.Stands fs)
    (hdirectory : fs.IsDirectory spot.place) (hname : Path.isName piece = true)
    (hshort : Path.isTooLong piece = false) :
    match fs.get? (spot.place.child piece) with
    | some entry => ∃ spot', fs.step spot piece = .ok spot' ∧ spot'.entry = entry ∧
        spot'.place = spot.place.child piece
    | none => fs.step spot piece = .error .notFound := by
  obtain ⟨entries, hentries⟩ := h.isDirectory_iff.1 hdirectory
  have hget := h.get?_place
  rw [hentries] at hget
  simp only [Path.isName, Bool.and_eq_true, Bool.not_eq_true', bne_iff_ne] at hname
  rw [get?_child_of_directory hget]
  unfold step
  simp only [hentries, hname.1, hname.2, hshort, if_false, Bool.false_eq_true]
  cases entries.lookup piece with
  | none => rfl
  | some entry => exact ⟨_, rfl, rfl, by simp [Spot.place, Place.child]⟩

/-! ## Ways -/

/-- The pieces lead from directory to directory. -/
def Leads (fs : FileSystem) : Place → List String → Prop
  | place, [] => fs.IsDirectory place
  | place, piece :: rest =>
    fs.IsDirectory place ∧ (Path.isName piece = true → Path.isTooLong piece = false) ∧
      fs.Leads (place.next piece) rest

theorem Leads.isDirectory {place : Place} {pieces : List String} (h : fs.Leads place pieces) :
    fs.IsDirectory (place.follow pieces) := by
  induction pieces generalizing place with
  | nil => exact h
  | cons piece rest ih => exact ih h.2.2

/-- What keeps the directories of a file system keeps its ways. -/
theorem Leads.mono {after : FileSystem} (hkeep : ∀ place, fs.IsDirectory place →
    after.IsDirectory place) {place : Place} {pieces : List String} (h : fs.Leads place pieces) :
    after.Leads place pieces := by
  induction pieces generalizing place with
  | nil => exact hkeep place h
  | cons piece rest ih => exact ⟨hkeep place h.1, h.2.1, ih h.2.2⟩

theorem leads_append {place : Place} {pieces rest : List String} :
    fs.Leads place (pieces ++ rest) ↔
      fs.Leads place pieces ∧ fs.Leads (place.follow pieces) rest := by
  induction pieces generalizing place with
  | nil =>
    refine ⟨fun h => ⟨?_, h⟩, fun h => h.2⟩
    cases rest with
    | nil => exact h
    | cons piece rest => exact h.1
  | cons piece pieces ih =>
    simp only [List.cons_append, Leads, ih, Place.follow, List.foldl_cons, and_assoc]

theorem isDirectory_parent {place : Place} (h : fs.IsDirectory place) :
    fs.IsDirectory place.parent := by
  obtain ⟨base, names⟩ := place
  rcases List.eq_nil_or_concat names with rfl | ⟨way, name, rfl⟩
  · exact fs.isDirectory_base _
  · have hchild : (⟨base, way ++ [name]⟩ : Place) = Place.child ⟨base, way⟩ name := rfl
    rw [List.concat_eq_append, hchild] at h ⊢
    rw [Place.parent_child]
    exact isDirectory_of_child (by rw [h]; simp)

/-- One more piece leads on if it leads to a directory. -/
theorem leads_concat {place : Place} {pieces : List String} {piece : String} :
    fs.Leads place (pieces ++ [piece]) ↔
      fs.Leads place pieces ∧ (Path.isName piece = true → Path.isTooLong piece = false) ∧
        fs.IsDirectory ((place.follow pieces).next piece) := by
  rw [leads_append]
  constructor
  · rintro ⟨h, -, hshort, hnext⟩
    exact ⟨h, hshort, hnext⟩
  · rintro ⟨h, hshort, hnext⟩
    exact ⟨h, h.isDirectory, hshort, hnext⟩

/-- Pieces that stay put lead nowhere else. -/
theorem leads_append_of_staysPut {place : Place} {pieces rest : List String}
    (hrest : ∀ piece ∈ rest, Path.staysPut piece = true) :
    fs.Leads place (pieces ++ rest) ↔ fs.Leads place pieces := by
  induction rest generalizing pieces with
  | nil => rw [List.append_nil]
  | cons piece rest ih =>
    obtain ⟨hpiece, hrest⟩ := List.forall_mem_cons.1 hrest
    rw [List.append_cons, ih hrest, leads_concat, Place.next, if_pos hpiece]
    refine ⟨fun h => h.1, fun h => ⟨h, ?_, h.isDirectory⟩⟩
    simp [Path.isName, hpiece]

theorem follow_stands {pieces : List String} {spot' : Spot} (h : spot.Stands fs)
    (hfollow : fs.follow spot pieces = .ok spot') :
    spot'.Stands fs ∧ spot'.place = spot.place.follow pieces := by
  induction pieces generalizing spot with
  | nil =>
    obtain rfl := Except.ok.inj hfollow
    exact ⟨h, rfl⟩
  | cons piece rest ih =>
    obtain ⟨middle, hstep, hrest⟩ := bind_eq_ok_iff.1 hfollow
    obtain ⟨hmiddle, hplace, -⟩ := step_eq_ok h hstep
    obtain ⟨hspot', hplace'⟩ := ih hmiddle hrest
    refine ⟨hspot', ?_⟩
    rw [hplace', hplace]
    rfl

/-- Whoever arrives at a directory came by directories. -/
theorem leads_of_follow {pieces : List String} {spot' : Spot} (h : spot.Stands fs)
    (hfollow : fs.follow spot pieces = .ok spot') (hdirectory : fs.IsDirectory spot'.place) :
    fs.Leads spot.place pieces := by
  induction pieces generalizing spot with
  | nil =>
    obtain rfl := Except.ok.inj hfollow
    exact hdirectory
  | cons piece rest ih =>
    obtain ⟨middle, hstep, hrest⟩ := bind_eq_ok_iff.1 hfollow
    obtain ⟨hmiddle, hplace, hfrom, hshort⟩ := step_eq_ok h hstep
    exact ⟨hfrom, hshort, hplace ▸ ih hmiddle hrest⟩

/-- A way by directories can be followed. -/
theorem Leads.exists_follow {pieces : List String} (h : spot.Stands fs)
    (hleads : fs.Leads spot.place pieces) : ∃ spot', fs.follow spot pieces = .ok spot' := by
  induction pieces generalizing spot with
  | nil => exact ⟨spot, rfl⟩
  | cons piece rest ih =>
    obtain ⟨hdirectory, hshort, hrest⟩ := hleads
    obtain ⟨middle, hstep⟩ : ∃ middle, fs.step spot piece = .ok middle := by
      obtain ⟨entries, hentries⟩ := h.isDirectory_iff.1 hdirectory
      -- a name needs an entry to lead to, and any other piece only the directory it starts from
      by_cases hname : Path.isName piece = true
      · have hnext : fs.IsDirectory (spot.place.child piece) := by
          rw [← Place.next_of_isName hname]
          cases rest with
          | nil => exact hrest
          | cons _ _ => exact hrest.1
        obtain ⟨below, hbelow⟩ := isDirectory_iff.1 hnext
        have hstep := step_of_isName h hdirectory hname (hshort hname)
        rw [hbelow] at hstep
        obtain ⟨middle, hstep, -⟩ := hstep
        exact ⟨middle, hstep⟩
      · unfold step
        simp only [hentries]
        by_cases hstays : Path.staysPut piece = true
        · exact ⟨_, if_pos hstays⟩
        · have hup : piece = ".." := by simpa [Path.isName, hstays] using hname
          exact ⟨_, by rw [if_neg hstays, if_pos hup]⟩
    obtain ⟨hmiddle, hplace, -⟩ := step_eq_ok h hstep
    obtain ⟨spot', hspot'⟩ := ih hmiddle (hplace ▸ hrest)
    exact ⟨spot', bind_eq_ok_iff.2 ⟨middle, hstep, hspot'⟩⟩

theorem follow_concat (fs : FileSystem) (spot : Spot) (pieces : List String) (piece : String) :
    fs.follow spot (pieces ++ [piece]) =
      fs.follow spot pieces >>= fun spot => fs.step spot piece := by
  induction pieces generalizing spot with
  | nil =>
    change (fs.step spot piece >>= fun spot => Except.ok spot) = fs.step spot piece
    cases fs.step spot piece <;> rfl
  | cons first rest ih =>
    simp only [List.cons_append, follow, ih]
    cases fs.step spot first <;> rfl

/-! ## Paths -/

theorem start_stands (fs : FileSystem) (path : List String) : (fs.start path).Stands fs :=
  .base _

theorem place_start (fs : FileSystem) (path : List String) :
    (fs.start path).place = Path.origin path := by
  unfold start Path.origin
  split <;> rfl

/-- A path leads to a directory if all places on its way are directories. -/
theorem leadsToDirectory_iff {path : List String} :
    fs.leadsToDirectory path = true ↔ fs.Leads (Path.origin path) path := by
  rw [← place_start fs path]
  unfold leadsToDirectory locate
  constructor
  · intro h
    cases hfollow : fs.follow (fs.start path) path with
    | error e => simp [hfollow] at h
    | ok spot =>
      obtain ⟨hspot, -⟩ := follow_stands (fs.start_stands path) hfollow
      refine leads_of_follow (fs.start_stands path) hfollow (hspot.isDirectory_iff.2 ?_)
      simp only [hfollow] at h
      cases hentry : spot.entry with
      | file contents => simp [hentry, Entry.isDirectory] at h
      | directory entries => exact ⟨entries, rfl⟩
  · intro h
    obtain ⟨spot, hspot⟩ := h.exists_follow (fs.start_stands path)
    obtain ⟨hstands, hplace⟩ := follow_stands (fs.start_stands path) hspot
    have hdirectory := h.isDirectory
    rw [← hplace] at hdirectory
    obtain ⟨entries, hentries⟩ := hstands.isDirectory_iff.1 hdirectory
    simp [hspot, hentries, Entry.isDirectory]

/-- A new entry can be made at the end of a path if all places before are directories. -/
theorem site_eq_ok_iff {path : List String} {site : Site} :
    fs.site path = .ok site ↔
      fs.Leads (Path.origin path) (Path.withoutTrailing path).dropLast ∧
      site.directory = (Path.origin path).follow (Path.withoutTrailing path).dropLast ∧
      site.name = (Path.withoutTrailing path).getLastD "" ∧
      fs.get? site.directory = some (.directory site.entries) := by
  obtain ⟨directory, entries, name⟩ := site
  rw [← place_start fs path]
  unfold site
  rw [bind_eq_ok_iff]
  constructor
  · rintro ⟨spot, hfollow, hsite⟩
    obtain ⟨hstands, hplace⟩ := follow_stands (fs.start_stands path) hfollow
    cases hentry : spot.entry with
    | file contents => simp [hentry] at hsite
    | directory below =>
      simp only [hentry, Except.ok.injEq, Site.mk.injEq] at hsite
      obtain ⟨rfl, rfl, rfl⟩ := hsite
      refine ⟨?_, hplace, rfl, by rw [hstands.get?_place, hentry]⟩
      exact leads_of_follow (fs.start_stands path) hfollow (hstands.isDirectory_iff.2 ⟨_, hentry⟩)
  · rintro ⟨hleads, hdirectory, hname, hget⟩
    simp only at hdirectory hname hget
    obtain ⟨spot, hspot⟩ := hleads.exists_follow (fs.start_stands path)
    obtain ⟨hstands, hplace⟩ := follow_stands (fs.start_stands path) hspot
    rw [hdirectory, ← hplace, hstands.get?_place, Option.some.injEq] at hget
    exact ⟨spot, hspot, by simp only [hget, hname, hdirectory, hplace]⟩

end FileSystem

end TreeHeaders
