import TreeHeaders.FileSystem.Basic
import Mathlib.Tactic.Common

set_option autoImplicit false

/-!
# What is where

A file system as a map from places to what is there: nothing, a file with its contents, or a
directory (`FileSystem.kind?`). This is all that can be told of a file system by its paths, and
it is the form in which changes are stated. Putting a file or an empty directory where no
directory is, and erasing a file, change the map at one place only (`FileSystem.kind?_put`,
`FileSystem.kind?_erase`).
-/

namespace TreeHeaders

/-- What is at a place, without what a directory holds. -/
inductive Kind where
  | file (contents : ByteArray)
  | directory
  deriving Inhabited

namespace Entry

/-- What the entry is, without what a directory holds. -/
def kind : Entry → Kind
  | .file contents => .file contents
  | .directory _ => .directory

/-- There is nothing below the entry. -/
def IsBare (entry : Entry) : Prop :=
  ∀ entries, entry = .directory entries → entries = []

theorem isBare_file (contents : ByteArray) : (file contents).IsBare := by
  intro entries h
  exact absurd h (by simp)

theorem isBare_directory_nil : (directory []).IsBare := by
  intro entries h
  exact (Entry.directory.inj h).symm

end Entry

/-! ## Listings -/

namespace Listing

/-- What is at the end of a way. -/
def kind? (names : List String) (entries : Listing) : Option Kind :=
  (get? names entries).map Entry.kind

theorem get?_cons_of_directory {name : String} {entries below : Listing}
    (h : entries.lookup name = some (.directory below)) (rest : List String) :
    get? (name :: rest) entries = get? rest below := by
  rw [get?, h]

theorem get?_cons_congr {name : String} {left right : Listing}
    (h : left.lookup name = right.lookup name) (rest : List String) :
    get? (name :: rest) left = get? (name :: rest) right := by
  rw [get?, get?, h]

/-- Nothing is below what is no directory, or a directory that holds nothing. -/
theorem get?_cons_cons_of_isBare {name next : String} {rest : List String} {entries : Listing}
    (h : ∀ entry, entries.lookup name = some entry → entry.IsBare) :
    get? (name :: next :: rest) entries = none := by
  cases hlookup : entries.lookup name with
  | none => rw [get?, hlookup]
  | some entry =>
    cases entry with
    | file contents => rw [get?, hlookup]; rfl
    | directory below =>
      have hbelow : below = [] := h _ hlookup below rfl
      rw [get?_cons_of_directory hlookup, hbelow]
      rfl

/-- One more name leads to an entry of the directory that the names before lead to. -/
theorem get?_concat (way : List String) (name : String) (entries : Listing) :
    get? (way ++ [name]) entries =
      match get? way entries with
      | some (.directory below) => below.lookup name
      | _ => none := by
  induction way generalizing entries with
  | nil => exact get?_singleton name entries
  | cons first way ih =>
    cases hlookup : entries.lookup first with
    | none => simp [get?, hlookup]
    | some entry =>
      cases entry with
      | file contents => cases way <;> simp [get?, hlookup]
      | directory below =>
        rw [List.cons_append, get?_cons_of_directory hlookup, get?_cons_of_directory hlookup, ih]

/-- Change the directory at the end of a way. -/
def alter (change : Listing → Listing) : List String → Listing → Listing
  | [], entries => change entries
  | name :: rest, entries =>
    match entries.lookup name with
    | some (.directory below) => putEntry name (.directory (alter change rest below)) entries
    | _ => entries

theorem put_concat (entry : Entry) (way : List String) (name : String) (entries : Listing) :
    put entry (way ++ [name]) entries = alter (putEntry name entry) way entries := by
  induction way generalizing entries with
  | nil => rfl
  | cons first way ih =>
    obtain ⟨next, rest, hrest⟩ : ∃ next rest, way ++ [name] = next :: rest :=
      List.exists_cons_of_ne_nil (by simp)
    rw [List.cons_append, alter, hrest, put, ← hrest]
    · cases entries.lookup first with
      | none => rfl
      | some found =>
        cases found with
        | file contents => rfl
        | directory below =>
          exact congrArg (fun changed => putEntry first (.directory changed) entries) (ih below)
    · simp

theorem erase_concat (way : List String) (name : String) (entries : Listing) :
    erase (way ++ [name]) entries = alter (List.filter fun e => e.1 != name) way entries := by
  induction way generalizing entries with
  | nil => rfl
  | cons first way ih =>
    obtain ⟨next, rest, hrest⟩ : ∃ next rest, way ++ [name] = next :: rest :=
      List.exists_cons_of_ne_nil (by simp)
    rw [List.cons_append, alter, hrest, erase, ← hrest]
    · cases entries.lookup first with
      | none => rfl
      | some found =>
        cases found with
        | file contents => rfl
        | directory below =>
          exact congrArg (fun changed => putEntry first (.directory changed) entries) (ih below)
    · simp

/-- The way to a directory goes through directories. -/
theorem exists_directory_of_get?_cons {head : String} {way : List String} {entries below : Listing}
    (h : get? (head :: way) entries = some (.directory below)) :
    ∃ sub, entries.lookup head = some (.directory sub) ∧
      get? way sub = some (.directory below) := by
  cases hlookup : entries.lookup head with
  | none => simp [get?, hlookup] at h
  | some entry =>
    cases entry with
    | file contents =>
      simp only [get?, hlookup] at h
      split at h <;> exact absurd h (by simp)
    | directory sub =>
      rw [get?_cons_of_directory hlookup] at h
      exact ⟨sub, rfl, h⟩

/-- A change to one name in a directory is a change at one place, if nothing is below the
name before and after. -/
theorem kind?_alter {change : Listing → Listing} {way : List String} {name : String}
    {entries below : Listing} (h : get? way entries = some (.directory below))
    (hold : ∀ entry, below.lookup name = some entry → entry.IsBare)
    (hnew : ∀ entry, (change below).lookup name = some entry → entry.IsBare)
    (hother : ∀ other, other ≠ name → (change below).lookup other = below.lookup other)
    (names : List String) :
    kind? names (alter change way entries) =
      if names = way ++ [name] then ((change below).lookup name).map Entry.kind
      else kind? names entries := by
  induction way generalizing entries names with
  | nil =>
    obtain rfl : entries = below := Entry.directory.inj (Option.some.inj h)
    match names with
    | [] => simp [alter, kind?, get?, Entry.kind]
    | first :: rest =>
      by_cases hfirst : first = name
      · subst hfirst
        cases rest with
        | nil => simp [alter, kind?, get?_singleton]
        | cons next rest =>
          -- nothing is below the name, neither before the change nor after it
          simp only [alter, kind?, get?_cons_cons_of_isBare hold, get?_cons_cons_of_isBare hnew]
          simp
      · rw [if_neg (by simp [hfirst]), alter, kind?, kind?,
          get?_cons_congr (hother first hfirst)]
  | cons head way ih =>
    obtain ⟨sub, hsub, hway⟩ := exists_directory_of_get?_cons h
    rw [alter, hsub]
    match names with
    | [] => simp [kind?, get?, Entry.kind]
    | first :: rest =>
      by_cases hfirst : first = head
      · subst hfirst
        have hput : (putEntry first (.directory (alter change way sub)) entries).lookup first =
            some (.directory (alter change way sub)) := by
          rw [lookup_putEntry, if_pos rfl]
        have hrest := ih hway rest
        simp only [kind?] at hrest ⊢
        rw [get?_cons_of_directory hput, get?_cons_of_directory hsub, hrest]
        simp
      · have hput : (putEntry head (.directory (alter change way sub)) entries).lookup first =
            entries.lookup first := by
          rw [lookup_putEntry, if_neg hfirst]
        rw [if_neg (by simp [hfirst]), kind?, kind?, get?_cons_congr hput]

end Listing

theorem lookup_filter_ne {name other : String} (entries : Listing) :
    (entries.filter fun e => e.1 != name).lookup other =
      if other = name then none else entries.lookup other := by
  induction entries with
  | nil => simp
  | cons e rest ih =>
    obtain ⟨key, entry⟩ := e
    by_cases hkey : key = name
    · subst hkey
      rw [List.filter_cons_of_neg (by simp), ih, List.lookup_cons]
      split
      · rfl
      · next hother => rw [beq_eq_false_iff_ne.2 hother]
    · rw [List.filter_cons_of_pos (by simpa using hkey), List.lookup_cons, List.lookup_cons, ih]
      by_cases hother : other = key
      · simp [hother, hkey]
      · simp [beq_eq_false_iff_ne.2 hother]

/-! ## File systems -/

namespace FileSystem

/-- What is at a place, without what a directory holds. -/
def kind? (fs : FileSystem) (place : Place) : Option Kind :=
  (fs.get? place).map Entry.kind

/-- There is a directory at the place. -/
def IsDirectory (fs : FileSystem) (place : Place) : Prop :=
  fs.kind? place = some .directory

theorem isDirectory_iff {fs : FileSystem} {place : Place} :
    fs.IsDirectory place ↔ ∃ entries, fs.get? place = some (.directory entries) := by
  rw [IsDirectory, kind?, Option.map_eq_some_iff]
  constructor
  · rintro ⟨entry, hentry, hkind⟩
    cases entry with
    | file contents => exact absurd hkind (by simp [Entry.kind])
    | directory entries => exact ⟨entries, hentry⟩
  · rintro ⟨entries, hentries⟩
    exact ⟨_, hentries, rfl⟩

theorem isDirectory_base (fs : FileSystem) (base : Place.Base) : fs.IsDirectory ⟨base, []⟩ := rfl

theorem get?_child (fs : FileSystem) (place : Place) (name : String) :
    fs.get? (place.child name) =
      match fs.get? place with
      | some (.directory entries) => entries.lookup name
      | _ => none :=
  Listing.get?_concat place.names name (fs.root place.base)

/-- What is in a directory, under a name. -/
theorem get?_child_of_directory {fs : FileSystem} {place : Place} {entries : Listing}
    (h : fs.get? place = some (.directory entries)) (name : String) :
    fs.get? (place.child name) = entries.lookup name := by
  rw [get?_child, h]

/-- What is somewhere is in a directory. -/
theorem isDirectory_of_child {fs : FileSystem} {place : Place} {name : String}
    (h : fs.kind? (place.child name) ≠ none) : fs.IsDirectory place := by
  rw [isDirectory_iff]
  cases hget : fs.get? place with
  | none =>
    rw [kind?, get?_child, hget] at h
    exact absurd rfl h
  | some entry =>
    cases entry with
    | file contents =>
      rw [kind?, get?_child, hget] at h
      exact absurd rfl h
    | directory entries => exact ⟨entries, rfl⟩

theorem isBare_of_kind? {fs : FileSystem} {place : Place} (h : ¬ fs.IsDirectory place)
    (entry : Entry) (hentry : fs.get? place = some entry) : entry.IsBare := by
  rintro entries rfl
  exact absurd (isDirectory_iff.2 ⟨entries, hentry⟩) h

/-- A change of one directory is a change below its base only. -/
theorem kind?_of_root {fs after : FileSystem} {place : Place} {name : String} {entries : Listing}
    (change : Listing → Listing)
    (hroot : ∀ base, after.root base =
      if base = place.base then Listing.alter change place.names (fs.root place.base)
      else fs.root base)
    (h : fs.get? place = some (.directory entries)) (hold : ¬ fs.IsDirectory (place.child name))
    (hnew : ∀ entry, (change entries).lookup name = some entry → entry.IsBare)
    (hother : ∀ other, other ≠ name → (change entries).lookup other = entries.lookup other)
    (q : Place) :
    after.kind? q =
      if q = place.child name then ((change entries).lookup name).map Entry.kind
      else fs.kind? q := by
  obtain ⟨base, names⟩ := q
  by_cases hbase : base = place.base
  · subst hbase
    have hold' : ∀ entry, entries.lookup name = some entry → entry.IsBare := by
      intro entry hentry
      rw [← get?_child_of_directory h name] at hentry
      exact isBare_of_kind? hold entry hentry
    have halter := Listing.kind?_alter h hold' hnew hother names
    have hplace : (⟨place.base, names⟩ : Place) = place.child name ↔
        names = place.names ++ [name] := by
      simp [Place.child]
    simp only [hplace]
    rw [kind?, get?, hroot, if_pos rfl]
    exact halter
  · have hplace : (⟨base, names⟩ : Place) ≠ place.child name := by
      intro heq
      exact hbase (congrArg Place.base heq)
    rw [if_neg hplace, kind?, get?, hroot, if_neg hbase]
    rfl

/-- Putting an entry with nothing below it where no directory is changes what is
at that place only. -/
theorem kind?_put {fs : FileSystem} {place : Place} {name : String} {entry : Entry}
    (h : fs.IsDirectory place) (hold : ¬ fs.IsDirectory (place.child name))
    (hentry : entry.IsBare) (q : Place) :
    (fs.put (place.child name) entry).kind? q =
      if q = place.child name then some entry.kind else fs.kind? q := by
  obtain ⟨entries, hentries⟩ := isDirectory_iff.1 h
  have hself : (putEntry name entry entries).lookup name = some entry := by
    rw [lookup_putEntry, if_pos rfl]
  rw [kind?_of_root (putEntry name entry) ?_ hentries hold ?_ ?_ q, hself]
  · rfl
  · intro base
    rw [root_put]
    exact if_congr Iff.rfl (Listing.put_concat entry place.names name _) rfl
  · rw [hself]
    rintro _ ⟨⟩
    exact hentry
  · intro other hother
    rw [lookup_putEntry, if_neg hother]

/-- Erasing a file changes what is at its place only. -/
theorem kind?_erase {fs : FileSystem} {place : Place} {name : String} {contents : ByteArray}
    (h : fs.kind? (place.child name) = some (.file contents)) (q : Place) :
    (fs.erase (place.child name)).kind? q =
      if q = place.child name then none else fs.kind? q := by
  have hsome : fs.kind? (place.child name) ≠ none := by simp [h]
  obtain ⟨entries, hentries⟩ := isDirectory_iff.1 (isDirectory_of_child hsome)
  have hself : (entries.filter fun e => e.1 != name).lookup name = none := by
    rw [lookup_filter_ne, if_pos rfl]
  rw [kind?_of_root (List.filter fun e => e.1 != name) ?_ hentries ?_ ?_ ?_ q, hself]
  · rfl
  · intro base
    rw [erase, if_neg (by simp)]
    by_cases hbase : base = place.base
    · simp [root, lookup_putEntry, hbase, Place.child, Listing.erase_concat]
    · simp [root, lookup_putEntry, hbase, Place.child]
  · rw [IsDirectory, h]
    simp
  · rw [hself]
    simp
  · intro other hother
    rw [lookup_filter_ne, if_neg hother]

end FileSystem

end TreeHeaders
