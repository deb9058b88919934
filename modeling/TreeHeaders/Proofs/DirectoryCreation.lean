import TreeHeaders.Proofs.FileAccess

set_option autoImplicit false

/-!
# Making directories

Making a directory and those on the way to it puts directories where nothing was, at places
along the path, and changes nothing else, whether it succeeds or not
(`FileSystem.createDirectories_growsBy`). When it succeeds, the path leads to a directory
(`FileSystem.leads_of_createDirectories`), and when the path does so already, there is nothing
to do (`FileSystem.createDirectories_of_leads`).
-/

namespace TreeHeaders

/-! ## Trailing pieces, and pieces that do not count -/

theorem Place.follow_append (place : Place) (pieces rest : List String) :
    place.follow (pieces ++ rest) = (place.follow pieces).follow rest :=
  List.foldl_append

/-- Pieces that stay put can be left out. -/
theorem Place.follow_filter (place : Place) (pieces : List String) :
    place.follow (pieces.filter fun piece => !Path.staysPut piece) = place.follow pieces := by
  induction pieces generalizing place with
  | nil => rfl
  | cons piece rest ih =>
    by_cases hstays : Path.staysPut piece = true
    · have hnext : place.next piece = place := if_pos hstays
      rw [List.filter_cons_of_neg (by simp [hstays]), ih]
      simp [follow, hnext]
    · rw [List.filter_cons_of_pos (by simp [hstays])]
      exact ih (place.next piece)

theorem Place.follow_append_of_staysPut (place : Place) (pieces : List String)
    {rest : List String} (h : ∀ piece ∈ rest, Path.staysPut piece = true) :
    place.follow (pieces ++ rest) = place.follow pieces := by
  have hrest : rest.filter (fun piece => !Path.staysPut piece) = [] := by
    simpa [List.filter_eq_nil_iff] using h
  rw [follow_append, ← follow_filter _ rest, hrest]
  rfl

namespace Path

theorem exists_eq_withoutTrailing_append (path : List String) :
    ∃ rest, path = withoutTrailing path ++ rest ∧ ∀ piece ∈ rest, staysPut piece = true := by
  refine ⟨(path.reverse.takeWhile (· == "")).reverse, ?_, ?_⟩
  · rw [withoutTrailing, ← List.reverse_append, List.takeWhile_append_dropWhile,
      List.reverse_reverse]
  · intro piece hpiece
    have hempty := List.all_eq_true.1 List.all_takeWhile piece (List.mem_reverse.1 hpiece)
    simp [staysPut, hempty]

/-- The place is one to which an initial part of the path leads. -/
def Along (path : String) (place : Place) : Prop :=
  ∃ pieces, pieces <+: Path.pieces path ∧ place = (origin (Path.pieces path)).follow pieces

theorem along_self (path : String) : Along path (place (pieces path)) :=
  ⟨_, List.prefix_rfl, rfl⟩

/-- The pieces that count lead along the path. -/
theorem along_of_prefix_significant {path : String} {part : List String} (hne : part ≠ [])
    (h : part <+: significant (pieces path)) : Along path (place part) := by
  obtain ⟨piece, rest, hpieces⟩ := List.exists_cons_of_ne_nil (pieces_ne_nil path)
  obtain ⟨first, part, rfl⟩ := List.exists_cons_of_ne_nil hne
  rw [hpieces, significant, List.cons_prefix_cons] at h
  obtain ⟨rfl, tail, htail⟩ := h
  obtain ⟨front, back, rfl, rfl, -⟩ := List.filter_eq_append_iff.1 htail.symm
  refine ⟨first :: front, ?_, ?_⟩
  · rw [hpieces, List.cons_prefix_cons]
    exact ⟨rfl, List.prefix_append front back⟩
  · rw [hpieces]
    exact Place.follow_filter _ front

end Path

namespace FileSystem

/-! ## Growing -/

/-- Nothing changes but that directories appear where nothing was, at certain places. -/
def GrowsBy (fs after : FileSystem) (places : Place → Prop) : Prop :=
  ∀ q, after.kind? q = fs.kind? q ∨
    fs.kind? q = none ∧ after.kind? q = some .directory ∧ places q

namespace GrowsBy

variable {fs middle after : FileSystem} {places more : Place → Prop}

theorem refl (fs : FileSystem) (places : Place → Prop) : fs.GrowsBy fs places :=
  fun _ => Or.inl rfl

theorem trans (first : fs.GrowsBy middle places) (last : middle.GrowsBy after places) :
    fs.GrowsBy after places := by
  intro q
  rcases last q with hlast | ⟨hnone, hdirectory, hq⟩
  · rw [hlast]
    exact first q
  · rcases first q with hfirst | ⟨-, hmiddle, -⟩
    · exact Or.inr ⟨hfirst ▸ hnone, hdirectory, hq⟩
    · rw [hmiddle] at hnone
      exact absurd hnone (by simp)

theorem mono (h : fs.GrowsBy after places) (hsub : ∀ q, places q → more q) :
    fs.GrowsBy after more := by
  intro q
  rcases h q with hsame | ⟨hnone, hdirectory, hq⟩
  · exact Or.inl hsame
  · exact Or.inr ⟨hnone, hdirectory, hsub q hq⟩

theorem isDirectory (h : fs.GrowsBy after places) {q : Place} (hq : fs.IsDirectory q) :
    after.IsDirectory q := by
  rcases h q with hsame | ⟨-, hdirectory, -⟩
  · exact hsame.trans hq
  · exact hdirectory

end GrowsBy

/-! ## One directory -/

variable {fs after : FileSystem} {path : List String}

/-- A site with a name is at the end of its path, but for pieces that stay put. -/
theorem exists_way_of_site {site : Site} (h : fs.site path = .ok site)
    (hname : Path.isName site.name = true) :
    ∃ way rest, path = way ++ [site.name] ++ rest ∧
      (∀ piece ∈ rest, Path.staysPut piece = true) ∧ fs.Leads (Path.origin path) way ∧
      site.directory = (Path.origin path).follow way ∧
      fs.get? site.directory = some (.directory site.entries) := by
  obtain ⟨hleads, hdirectory, hlast, hget⟩ := site_eq_ok_iff.1 h
  obtain ⟨rest, hpath, hrest⟩ := Path.exists_eq_withoutTrailing_append path
  refine ⟨(Path.withoutTrailing path).dropLast, rest, ?_, hrest, hleads, hdirectory, hget⟩
  rcases List.eq_nil_or_concat' (Path.withoutTrailing path) with hnil | ⟨way, name, hway⟩
  · rw [hnil] at hlast
    exact absurd hlast (Path.ne_empty_of_isName hname)
  · obtain rfl : site.name = name := by simpa [hway] using hlast
    rw [hway] at hpath ⊢
    simpa using hpath

/-- Making a directory puts one at a site where nothing was. -/
theorem exists_site_of_makeDirectory (h : fs.makeDirectory path = .ok after) :
    ∃ site, fs.site path = .ok site ∧ Path.isName site.name = true ∧
      Path.isTooLong site.name = false ∧ site.occupant? = none ∧
      after = fs.put site.place (.directory []) := by
  obtain ⟨site, hsite, hmake⟩ := bind_eq_ok_iff.1 h
  refine ⟨site, hsite, ?_⟩
  split at hmake
  · exact absurd hmake (by simp)
  next hname =>
  split at hmake
  · exact absurd hmake (by simp)
  next hshort =>
  split at hmake
  · exact absurd hmake (by simp)
  next hfree =>
  exact ⟨by simpa using hname, by simpa using hshort, by simpa using hfree,
    (Except.ok.inj hmake).symm⟩

/-- A directory is made where nothing was, and then the path leads to it. -/
theorem makeDirectory_eq_ok (h : fs.makeDirectory path = .ok after) :
    fs.kind? (Path.place path) = none ∧ after.Leads (Path.origin path) path ∧
      fs.GrowsBy after (· = Path.place path) := by
  obtain ⟨site, hsite, hname, hshort, hfree, rfl⟩ := exists_site_of_makeDirectory h
  obtain ⟨way, rest, hpath, hrest, hleads, hdirectory, hget⟩ := exists_way_of_site hsite hname
  have hplace : Path.place path = site.place := by
    have hfollow : (Path.origin path).follow (way ++ [site.name] ++ rest) = site.place := by
      rw [Place.follow_append_of_staysPut _ _ hrest, Place.follow_concat,
        Place.next_of_isName hname, ← hdirectory]
      rfl
    rwa [← hpath] at hfollow
  have hnone : fs.kind? site.place = none := by
    rw [occupant?_eq hget] at hfree
    rw [kind?, hfree]
    rfl
  have hkind : ∀ q, (fs.put site.place (.directory [])).kind? q =
      if q = site.place then some .directory else fs.kind? q := by
    refine kind?_put (isDirectory_iff.2 ⟨_, hget⟩) ?_ Entry.isBare_directory_nil
    rw [IsDirectory, ← Site.place, hnone]
    simp
  have hgrows : fs.GrowsBy (fs.put site.place (.directory [])) (· = Path.place path) := by
    intro q
    rw [hkind q, hplace]
    split
    · next hq => exact Or.inr ⟨hq ▸ hnone, rfl, hq⟩
    · exact Or.inl rfl
  refine ⟨hplace ▸ hnone, ?_, hgrows⟩
  have hway : (fs.put site.place (.directory [])).Leads (Path.origin path)
      (way ++ [site.name] ++ rest) := by
    rw [leads_append_of_staysPut hrest, leads_concat, Place.next_of_isName hname, ← hdirectory]
    refine ⟨hleads.mono fun _ => hgrows.isDirectory, fun _ => hshort, ?_⟩
    rw [IsDirectory, hkind, ← Site.place, if_pos rfl]
  rwa [← hpath] at hway

theorem ensureDirectory_eq_ok (h : fs.ensureDirectory path = .ok after) :
    after.Leads (Path.origin path) path ∧ fs.GrowsBy after (· = Path.place path) := by
  unfold ensureDirectory at h
  split at h
  · next made hmake =>
    obtain rfl := Except.ok.inj h
    exact (makeDirectory_eq_ok hmake).2
  · split at h
    · next hleads =>
      obtain rfl := Except.ok.inj h
      exact ⟨leadsToDirectory_iff.1 hleads, .refl _ _⟩
    · exact absurd h (by simp)

/-- A directory that is there is not made again. -/
theorem ensureDirectory_of_leads (h : fs.Leads (Path.origin path) path) :
    fs.ensureDirectory path = .ok fs := by
  unfold ensureDirectory
  split
  · next made hmake =>
    have hnone := (makeDirectory_eq_ok hmake).1
    have hdirectory : fs.kind? (Path.place path) = some .directory := h.isDirectory
    rw [hnone] at hdirectory
    exact absurd hdirectory (by simp)
  · exact if_pos (leadsToDirectory_iff.2 h)

/-! ## Directories on the way -/

variable {parents : FileSystem → Except DiskError Unit × FileSystem} {places : Place → Prop}

theorem makeAfter_growsBy (hparents : ∀ fs : FileSystem, fs.GrowsBy (parents fs).2 places)
    (hpath : places (Path.place path)) (fs : FileSystem) :
    fs.GrowsBy (makeAfter parents fs path).2 places := by
  have hensure : ∀ {fs after : FileSystem}, fs.ensureDirectory path = .ok after →
      fs.GrowsBy after places := by
    intro fs after h
    refine (ensureDirectory_eq_ok h).2.mono ?_
    rintro _ rfl
    exact hpath
  unfold makeAfter
  split
  · next made hmade => exact hensure hmade
  · have hfirst := hparents fs
    split
    · next e middle hfail =>
      rw [hfail] at hfirst
      exact hfirst
    · next middle hmiddle =>
      rw [hmiddle] at hfirst
      split
      · next made hmade => exact hfirst.trans (hensure hmade)
      · exact hfirst
  · exact .refl _ _

theorem leads_of_makeAfter (h : (makeAfter parents fs path).1 = .ok ()) :
    (makeAfter parents fs path).2.Leads (Path.origin path) path := by
  unfold makeAfter at h ⊢
  split
  · next made hmade => exact (ensureDirectory_eq_ok hmade).1
  · next hmissing =>
    rw [hmissing] at h
    simp only at h
    split
    · next e middle hfail => simp [hfail] at h
    · next middle hmiddle =>
      simp only [hmiddle] at h
      split
      · next made hmade => exact (ensureDirectory_eq_ok hmade).1
      · next e hfail => simp [hfail] at h
  · next e he hfail => simp_all

theorem makeUpwards_growsBy (up : List String) (fs : FileSystem) :
    fs.GrowsBy (makeUpwards up fs).2 fun q =>
      ∃ part, part ≠ [] ∧ part <+: up.reverse ∧ q = Path.place part := by
  induction up generalizing fs with
  | nil => exact .refl _ _
  | cons piece up ih =>
    refine makeAfter_growsBy ?_ ?_ fs
    · intro fs
      refine (ih fs).mono ?_
      rintro q ⟨part, hne, hpart, rfl⟩
      refine ⟨part, hne, hpart.trans ?_, rfl⟩
      rw [List.reverse_cons]
      exact List.prefix_append _ _
    · exact ⟨_, by simp, List.prefix_rfl, rfl⟩

variable {directory : String}

/-- Making a directory changes nothing but that directories appear along its path. -/
theorem createDirectories_growsBy (fs : FileSystem) (directory : String) :
    fs.GrowsBy (fs.createDirectories directory).2 (Path.Along directory) := by
  unfold createDirectories
  split
  · exact .refl _ _
  · split
    · exact .refl _ _
    · next pieces haccepted =>
      obtain ⟨-, -, -, rfl⟩ := Path.accepted_eq_ok_iff.1 haccepted
      refine makeAfter_growsBy ?_ (Path.along_self directory) fs
      intro fs
      refine (makeUpwards_growsBy _ fs).mono ?_
      rintro q ⟨part, hne, hpart, rfl⟩
      refine Path.along_of_prefix_significant hne (hpart.trans ?_)
      rw [← List.dropLast_reverse, List.reverse_reverse]
      exact List.dropLast_prefix _

/-- After a directory is made, its path leads to it. -/
theorem leads_of_createDirectories (hne : directory ≠ "")
    (h : (fs.createDirectories directory).1 = .ok ()) :
    (fs.createDirectories directory).2.Leads (Path.origin (Path.pieces directory))
      (Path.pieces directory) := by
  unfold createDirectories at h ⊢
  rw [if_neg hne] at h ⊢
  cases haccepted : Path.accepted directory with
  | error e => simp [haccepted] at h
  | ok pieces =>
    obtain ⟨-, -, -, rfl⟩ := Path.accepted_eq_ok_iff.1 haccepted
    rw [haccepted] at h
    exact leads_of_makeAfter h

/-- Where a path leads to a directory, there is nothing to make. -/
theorem createDirectories_of_leads {pieces : List String}
    (haccepted : Path.accepted directory = .ok pieces)
    (h : fs.Leads (Path.origin pieces) pieces) :
    fs.createDirectories directory = (.ok (), fs) := by
  obtain ⟨-, hne, -, -⟩ := Path.accepted_eq_ok_iff.1 haccepted
  rw [createDirectories, if_neg hne, haccepted]
  simp only [makeAfter, ensureDirectory_of_leads h]

end FileSystem

end TreeHeaders
