import TreeHeaders.Proofs.Walking

set_option autoImplicit false

/-!
# Files at places

Reading, writing and removing a file by its path, said of the place to which the path leads. A
path admits a place if all directories on the way are there (`FileSystem.Admits`); then what is
at the place decides how an operation ends, and the place is all that it changes. In turn an
operation that succeeds has found its way.
-/

namespace TreeHeaders

namespace Path

theorem accepted_eq_ok_iff {path : String} {pieces : List String} :
    accepted path = .ok pieces ↔
      '\x00' ∉ path.toList ∧ path ≠ "" ∧ path.utf8ByteSize ≤ longestPath ∧
        pieces = Path.pieces path := by
  unfold accepted
  split
  · next hnul => simp_all
  · next hnul =>
    split
    · next hempty => simp [hempty]
    · next hempty =>
      split
      · next hlong => simp [Nat.not_le.2 hlong]
      · next hlong =>
        simp only [Except.ok.injEq, eq_comm, Nat.not_lt.1 hlong, true_and]
        simp_all

theorem pieces_ne_nil (path : String) : pieces path ≠ [] := by
  rw [pieces, ne_eq, List.map_eq_nil_iff]
  exact Text.splitAt_ne_nil '/' path.toList

/-- A last piece that is not empty is kept. -/
theorem withoutTrailing_concat {name : String} (h : name ≠ "") (pieces : List String) :
    withoutTrailing (pieces ++ [name]) = pieces ++ [name] := by
  rw [withoutTrailing, List.reverse_append, List.reverse_singleton, List.singleton_append,
    List.dropWhile_cons_of_neg (by simpa using h), List.reverse_cons, List.reverse_reverse]

end Path

namespace FileSystem

variable {fs : FileSystem} {path : String} {place : Place}

/-- The path leads by directories to the place, where there may be nothing. -/
def Admits (fs : FileSystem) (path : String) (place : Place) : Prop :=
  ∃ pieces name, Path.accepted path = .ok (pieces ++ [name]) ∧ Path.isName name = true ∧
    Path.isTooLong name = false ∧ fs.Leads (Path.origin pieces) pieces ∧
    place = (Path.place pieces).child name

namespace Admits

theorem mono {after : FileSystem} (hkeep : ∀ place, fs.IsDirectory place → after.IsDirectory place)
    (h : fs.Admits path place) : after.Admits path place := by
  obtain ⟨pieces, name, haccepted, hname, hshort, hleads, hplace⟩ := h
  exact ⟨pieces, name, haccepted, hname, hshort, hleads.mono hkeep, hplace⟩

/-- The place is the one of the path. -/
theorem eq_place (h : fs.Admits path place) : place = Path.place (Path.pieces path) := by
  obtain ⟨pieces, name, haccepted, hname, -, -, rfl⟩ := h
  obtain ⟨-, -, -, hpieces⟩ := Path.accepted_eq_ok_iff.1 haccepted
  rw [← hpieces, Path.place_concat hname]

theorem exists_child (h : fs.Admits path place) :
    ∃ directory name, fs.IsDirectory directory ∧ place = directory.child name := by
  obtain ⟨pieces, name, -, -, -, hleads, rfl⟩ := h
  exact ⟨_, name, hleads.isDirectory, rfl⟩

/-- Putting a file at the place changes what is there and nothing else. -/
theorem kind?_put (h : fs.Admits path place) (hold : ¬ fs.IsDirectory place)
    (contents : ByteArray) (q : Place) :
    (fs.put place (.file contents)).kind? q =
      if q = place then some (.file contents) else fs.kind? q := by
  obtain ⟨directory, name, hdirectory, rfl⟩ := h.exists_child
  exact FileSystem.kind?_put hdirectory hold (Entry.isBare_file contents) q

/-- Erasing a file at the place changes what is there and nothing else. -/
theorem kind?_erase (h : fs.Admits path place) {contents : ByteArray}
    (hold : fs.kind? place = some (.file contents)) (q : Place) :
    (fs.erase place).kind? q = if q = place then none else fs.kind? q := by
  obtain ⟨directory, name, -, rfl⟩ := h.exists_child
  exact FileSystem.kind?_erase hold q

/-- Putting there what is there already changes nothing. -/
theorem put_self (h : fs.Admits path place) {contents : ByteArray}
    (hold : fs.kind? place = some (.file contents)) : fs.put place (.file contents) = fs := by
  obtain ⟨directory, name, -, rfl⟩ := h.exists_child
  obtain ⟨entry, hentry, hkind⟩ := Option.map_eq_some_iff.1 hold
  cases entry with
  | file old =>
    obtain rfl : old = contents := Kind.file.inj hkind
    exact FileSystem.put_self hentry
  | directory entries => exact absurd hkind (by simp [Entry.kind])

end Admits

/-- A place that is no directory is so after a file is put there, and other directories stay. -/
theorem isDirectory_iff_of_kind? {after : FileSystem} {kind : Option Kind}
    (h : ∀ q, after.kind? q = if q = place then kind else fs.kind? q)
    (hkind : kind ≠ some .directory) (hold : ¬ fs.IsDirectory place) (q : Place) :
    after.IsDirectory q ↔ fs.IsDirectory q := by
  rw [IsDirectory, h q]
  split
  · next hq => exact iff_of_false hkind (hq ▸ hold)
  · rfl

/-! ## Reading and removing -/

/-- Following a path to a place that it admits. -/
theorem Admits.locate (h : fs.Admits path place) :
    ∃ pieces, Path.accepted path = .ok pieces ∧
      match fs.get? place with
      | some entry => ∃ spot, fs.locate pieces = .ok spot ∧ spot.entry = entry ∧ spot.place = place
      | none => fs.locate pieces = .error .notFound := by
  obtain ⟨pieces, name, haccepted, hname, hshort, hleads, rfl⟩ := h
  refine ⟨_, haccepted, ?_⟩
  have horigin : (fs.start (pieces ++ [name])).place = Path.origin pieces := by
    rw [place_start, Path.origin_concat (Path.ne_empty_of_isName hname)]
  rw [← horigin] at hleads
  obtain ⟨spot, hspot⟩ := hleads.exists_follow (fs.start_stands _)
  obtain ⟨hstands, hplace⟩ := follow_stands (fs.start_stands _) hspot
  have hdirectory := hleads.isDirectory
  rw [← hplace] at hdirectory
  have hlocate : fs.locate (pieces ++ [name]) = fs.step spot name := by
    rw [FileSystem.locate, follow_concat, hspot]
    rfl
  have hstep := step_of_isName hstands hdirectory hname hshort
  rw [hplace, horigin] at hstep
  rw [hlocate]
  exact hstep

/-- What is read along a path is what is at its place. -/
theorem Admits.read (h : fs.Admits path place) :
    fs.read path =
      match fs.kind? place with
      | some (.file contents) => .ok contents
      | some .directory => .error .isDirectory
      | none => .error .notFound := by
  obtain ⟨pieces, haccepted, hlocate⟩ := h.locate
  rw [FileSystem.read, haccepted, kind?]
  cases hget : fs.get? place with
  | none =>
    rw [hget] at hlocate
    change (fs.locate pieces >>= _) = _
    rw [hlocate]
    rfl
  | some entry =>
    rw [hget] at hlocate
    obtain ⟨⟨base, way, entry⟩, hspot, rfl, -⟩ := hlocate
    change (fs.locate pieces >>= _) = _
    rw [hspot]
    cases entry with
    | file contents => rfl
    | directory entries => rfl

/-- What can be read is a file at the place of the path. -/
theorem exists_admits_of_read {contents : ByteArray} (h : fs.read path = .ok contents) :
    ∃ place, fs.Admits path place ∧ fs.kind? place = some (.file contents) := by
  obtain ⟨pieces, haccepted, hread⟩ := bind_eq_ok_iff.1 h
  obtain ⟨spot, hlocate, hentry⟩ := bind_eq_ok_iff.1 hread
  obtain hentry : spot.entry = .file contents := by
    cases hspot : spot.entry with
    | file old => simpa [hspot] using hentry
    | directory entries => simp [hspot] at hentry
  obtain ⟨-, -, -, hpieces⟩ := Path.accepted_eq_ok_iff.1 haccepted
  obtain ⟨way, name, rfl⟩ := (List.eq_nil_or_concat' pieces).resolve_left
    (hpieces ▸ Path.pieces_ne_nil path)
  rw [FileSystem.locate, follow_concat] at hlocate
  obtain ⟨middle, hfollow, hstep⟩ := bind_eq_ok_iff.1 hlocate
  obtain ⟨hmiddle, hplace⟩ := follow_stands (fs.start_stands _) hfollow
  obtain ⟨hspot, hnext, hdirectory, hshort⟩ := step_eq_ok hmiddle hstep
  have hget := hspot.get?_place
  have hkind : fs.kind? spot.place = some (.file contents) := by
    rw [kind?, hget, hentry]
    rfl
  -- from a directory, any piece but a name leads to a directory again
  have hname : Path.isName name = true := by
    by_contra hname
    have hstill : fs.IsDirectory (middle.place.next name) := by
      unfold Place.next
      split
      · exact hdirectory
      · next hstays =>
        have hup : name = ".." := by simpa [Path.isName, hstays] using hname
        rw [if_pos hup]
        exact isDirectory_parent hdirectory
    rw [← hnext, IsDirectory, hkind] at hstill
    exact absurd hstill (by simp)
  have horigin : (fs.start (way ++ [name])).place = Path.origin way := by
    rw [place_start, Path.origin_concat (Path.ne_empty_of_isName hname)]
  have hleads := leads_of_follow (fs.start_stands _) hfollow hdirectory
  rw [horigin] at hleads hplace
  refine ⟨spot.place, ⟨way, name, haccepted, hname, hshort hname, hleads, ?_⟩, hkind⟩
  rw [hnext, Place.next_of_isName hname, hplace]
  rfl

/-- Removing a file along a path erases what is at its place. -/
theorem Admits.remove (h : fs.Admits path place) {contents : ByteArray}
    (hold : fs.kind? place = some (.file contents)) : fs.remove path = .ok (fs.erase place) := by
  obtain ⟨pieces, haccepted, hlocate⟩ := h.locate
  obtain ⟨entry, hentry, -⟩ := Option.map_eq_some_iff.1 hold
  rw [hentry] at hlocate
  obtain ⟨spot, hspot, -, rfl⟩ := hlocate
  rw [FileSystem.remove, haccepted]
  change (fs.locate pieces >>= _) = _
  rw [hspot]
  rfl

/-- There is nothing to remove at a place where there is nothing. -/
theorem Admits.remove_of_none (h : fs.Admits path place) (hold : fs.kind? place = none) :
    fs.remove path = .error .notFound := by
  obtain ⟨pieces, haccepted, hlocate⟩ := h.locate
  have hget : fs.get? place = none := Option.map_eq_none_iff.1 hold
  rw [hget] at hlocate
  rw [FileSystem.remove, haccepted]
  change (fs.locate pieces >>= _) = _
  rw [hlocate]
  rfl

/-! ## Writing -/

/-- What is already at a site is what is at its place. -/
theorem occupant?_eq {site : Site}
    (h : fs.get? site.directory = some (.directory site.entries)) :
    site.occupant? = fs.get? site.place := by
  rw [Site.place, get?_child_of_directory h, Site.occupant?]

/-- A file can be written where no directory is. -/
theorem Admits.write (h : fs.Admits path place) (hold : ¬ fs.IsDirectory place)
    (contents : ByteArray) : fs.write path contents = .ok (fs.put place (.file contents)) := by
  obtain ⟨way, name, haccepted, hname, hshort, hleads, rfl⟩ := h
  have hne := Path.ne_empty_of_isName hname
  obtain ⟨entries, hentries⟩ := isDirectory_iff.1 hleads.isDirectory
  have hsite : fs.site (way ++ [name]) = .ok { directory := Path.place way, entries, name } := by
    rw [site_eq_ok_iff, Path.withoutTrailing_concat hne, Path.origin_concat hne,
      List.dropLast_concat]
    exact ⟨hleads, rfl, by simp, hentries⟩
  have hoccupant : entries.lookup name = fs.get? ((Path.place way).child name) :=
    (get?_child_of_directory hentries name).symm
  rw [FileSystem.write, haccepted]
  change (fs.site (way ++ [name]) >>= _) = _
  rw [hsite]
  change (if _ then _ else if _ then _ else _) = _
  rw [if_neg (by simp [hne, hname]), if_neg (by simp [hshort]), Site.occupant?, hoccupant]
  cases hget : fs.get? ((Path.place way).child name) with
  | none => rfl
  | some entry =>
    cases entry with
    | file old => rfl
    | directory below => exact absurd (isDirectory_iff.2 ⟨below, hget⟩) hold

/-- What can be written is a file where no directory is, at the place of the path. -/
theorem exists_admits_of_write {contents : ByteArray} {after : FileSystem}
    (h : fs.write path contents = .ok after) :
    ∃ place, fs.Admits path place ∧ ¬ fs.IsDirectory place ∧
      after = fs.put place (.file contents) := by
  obtain ⟨pieces, haccepted, hrest⟩ := bind_eq_ok_iff.1 h
  obtain ⟨site, hsite, hwrite⟩ := bind_eq_ok_iff.1 hrest
  clear h hrest
  obtain ⟨-, -, -, hpieces⟩ := Path.accepted_eq_ok_iff.1 haccepted
  obtain ⟨way, name, rfl⟩ := (List.eq_nil_or_concat' pieces).resolve_left
    (hpieces ▸ Path.pieces_ne_nil path)
  split at hwrite
  · exact absurd hwrite (by simp)
  next hlast =>
  split at hwrite
  · exact absurd hwrite (by simp)
  next hshort =>
  have hne : name ≠ "" := by
    rintro rfl
    exact hlast (by simp)
  obtain ⟨hleads, hdirectory, hname, hget⟩ := site_eq_ok_iff.1 hsite
  rw [Path.withoutTrailing_concat hne, Path.origin_concat hne, List.dropLast_concat] at hleads
  rw [Path.withoutTrailing_concat hne, Path.origin_concat hne, List.dropLast_concat] at hdirectory
  rw [Path.withoutTrailing_concat hne] at hname
  obtain rfl : site.name = name := by simpa using hname
  rw [occupant?_eq hget] at hwrite
  have hadmits : fs.Admits path site.place := by
    refine ⟨way, site.name, haccepted, by simpa [hne] using hlast, by simpa using hshort, hleads,
      ?_⟩
    rw [Site.place, hdirectory]
    rfl
  refine ⟨site.place, hadmits, ?_, ?_⟩
  · intro hold
    obtain ⟨below, hbelow⟩ := isDirectory_iff.1 hold
    simp [hbelow] at hwrite
  · split at hwrite
    · exact absurd hwrite (by simp)
    · exact (Except.ok.inj hwrite).symm

/-- Whether a file can be written depends on the directories alone. -/
theorem exists_write_congr {after : FileSystem}
    (h : ∀ q, after.IsDirectory q ↔ fs.IsDirectory q) (path : String) (contents : ByteArray) :
    (∃ done, after.write path contents = .ok done) ↔ ∃ done, fs.write path contents = .ok done := by
  constructor
  · rintro ⟨done, hdone⟩
    obtain ⟨place, hadmits, hold, -⟩ := exists_admits_of_write hdone
    have hbefore : fs.Admits path place := hadmits.mono fun q hq => (h q).1 hq
    exact ⟨_, hbefore.write (mt (h place).2 hold) contents⟩
  · rintro ⟨done, hdone⟩
    obtain ⟨place, hadmits, hold, -⟩ := exists_admits_of_write hdone
    have hafter : after.Admits path place := hadmits.mono fun q hq => (h q).2 hq
    exact ⟨_, hafter.write (mt (h place).1 hold) contents⟩

end FileSystem

end TreeHeaders
