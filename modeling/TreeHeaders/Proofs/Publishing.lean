import TreeHeaders.Proofs.HeaderPaths
import TreeHeaders.Proofs.Inspection

set_option autoImplicit false

/-!
# Publishing headers

What publishing does to a file system: it makes directories along the path of the directory and
puts headers at their places, and changes nothing else, even if it is stopped
(`published_changes`). If it succeeds, every header is where it belongs (`FileSystem.Holds`).
Publishing what an inspection finds up to date changes nothing, and an inspection finds nothing
only then (`Catalogue.upToDate_iff_published_unchanged`).
-/

namespace TreeHeaders

namespace FileSystem

variable {fs : FileSystem} {directory : String} {headers : List Header}

/-- What writing headers into a directory does. -/
def written (fs : FileSystem) (directory : String) (headers : List Header) :
    Publication × FileSystem :=
  (writeHeaders directory headers : StateM FileSystem Publication).run fs

/-- What publishing headers in a directory does. -/
def published (fs : FileSystem) (directory : String) (headers : List Header) :
    Publication × FileSystem :=
  (publish directory headers : StateM FileSystem Publication).run fs

theorem run_write_of_ok {path : String} {bytes : ByteArray} {after : FileSystem}
    (h : fs.write path bytes = .ok after) :
    (Disk.write path bytes : StateM FileSystem (Except DiskError Unit)).run fs =
      (.ok (), after) := by
  simp only [Disk.write, StateT.run, h]

theorem run_write_of_error {path : String} {bytes : ByteArray} {e : DiskError}
    (h : fs.write path bytes = .error e) :
    (Disk.write path bytes : StateM FileSystem (Except DiskError Unit)).run fs =
      (.error e, fs) := by
  simp only [Disk.write, StateT.run, h]

/-- One header is written after the other, until one cannot be. -/
theorem written_cons (fs : FileSystem) (directory : String) (header : Header)
    (rest : List Header) :
    fs.written directory (header :: rest) =
      match fs.write (header.path directory) header.contents.toUTF8 with
      | .error e => ({ written := [], failure := some (.write (header.path directory) e) }, fs)
      | .ok after =>
        let done := after.written directory rest
        ({ done.1 with written := header.path directory :: done.1.written }, done.2) := by
  rw [written, writeHeaders, StateT.run_bind]
  cases hwrite : fs.write (header.path directory) header.contents.toUTF8 with
  | error e =>
    rw [run_write_of_error hwrite]
    rfl
  | ok after =>
    rw [run_write_of_ok hwrite]
    rfl

/-- Headers are written once their directory is made. -/
theorem published_eq (fs : FileSystem) (directory : String) (headers : List Header) :
    fs.published directory headers =
      match fs.createDirectories directory with
      | (.error e, after) =>
        ({ written := [], failure := some (.createDirectory directory e) }, after)
      | (.ok (), after) => after.written directory headers := by
  rw [published, publish, StateT.run_bind]
  have hdisk : (Disk.createDirectories directory :
      StateM FileSystem (Except DiskError Unit)).run fs = fs.createDirectories directory := rfl
  rw [hdisk]
  obtain ⟨result, after⟩ := fs.createDirectories directory
  cases result with
  | error e => rfl
  | ok _ => rfl

/-! ## What changes -/

/-- Writing a header changes what is at its place, where no directory was. -/
theorem write_header {header : Header} {bytes : ByteArray} {after : FileSystem}
    (h : fs.write (header.path directory) bytes = .ok after) :
    fs.Admits (header.path directory) (header.place directory) ∧
      ¬ fs.IsDirectory (header.place directory) ∧
      ∀ q, after.kind? q =
        if q = header.place directory then some (.file bytes) else fs.kind? q := by
  obtain ⟨place, hadmits, hold, rfl⟩ := exists_admits_of_write h
  obtain rfl : place = header.place directory := hadmits.eq_place
  exact ⟨hadmits, hold, hadmits.kind?_put hold bytes⟩

/-- Writing headers puts headers at their places, and changes nothing else. -/
theorem written_changes (fs : FileSystem) (directory : String) (headers : List Header) (q : Place) :
    (fs.written directory headers).2.kind? q = fs.kind? q ∨
      ∃ header ∈ headers, q = header.place directory ∧ ¬ fs.IsDirectory q ∧
        (fs.written directory headers).2.kind? q = some (.file header.contents.toUTF8) := by
  induction headers generalizing fs with
  | nil => exact Or.inl rfl
  | cons header rest ih =>
    rw [written_cons]
    cases hwrite : fs.write (header.path directory) header.contents.toUTF8 with
    | error e => exact Or.inl rfl
    | ok after =>
      obtain ⟨-, hold, hkind⟩ := write_header hwrite
      rcases ih after with hsame | ⟨other, hother, hq, hfree, hfile⟩
      · by_cases hq : q = header.place directory
        · refine Or.inr ⟨header, List.mem_cons_self, hq, hq ▸ hold, hsame.trans ?_⟩
          rw [hkind, if_pos hq]
        · refine Or.inl (hsame.trans ?_)
          rw [hkind, if_neg hq]
      · refine Or.inr ⟨other, List.mem_cons_of_mem _ hother, hq, ?_, hfile⟩
        rwa [isDirectory_iff_of_kind? hkind (by simp) hold] at hfree

theorem isDirectory_written {q : Place} (h : fs.IsDirectory q) :
    (fs.written directory headers).2.IsDirectory q := by
  rcases written_changes fs directory headers q with hsame | ⟨-, -, -, hfree, -⟩
  · exact hsame.trans h
  · exact absurd h hfree

/-- Publishing makes directories along the path of the directory, puts headers at their places,
and changes nothing else. -/
theorem published_changes (fs : FileSystem) (directory : String) (headers : List Header)
    (q : Place) :
    (fs.published directory headers).2.kind? q = fs.kind? q ∨
      fs.kind? q = none ∧ (fs.published directory headers).2.kind? q = some .directory ∧
        Path.Along directory q ∨
      ∃ header ∈ headers, q = header.place directory ∧ ¬ fs.IsDirectory q ∧
        (fs.published directory headers).2.kind? q = some (.file header.contents.toUTF8) := by
  have hgrows := fs.createDirectories_growsBy directory
  rw [published_eq]
  generalize fs.createDirectories directory = created at hgrows ⊢
  obtain ⟨result, middle⟩ := created
  cases result with
  | error e =>
    rcases hgrows q with hsame | hnew
    · exact Or.inl hsame
    · exact Or.inr (Or.inl hnew)
  | ok _ =>
    rcases written_changes middle directory headers q with
      hsame | ⟨header, hheader, hq, hfree, hfile⟩
    · rcases hgrows q with hmiddle | ⟨hnone, hdirectory, halong⟩
      · exact Or.inl (hsame.trans hmiddle)
      · exact Or.inr (Or.inl ⟨hnone, hsame.trans hdirectory, halong⟩)
    · exact Or.inr (Or.inr
        ⟨header, hheader, hq, fun hold => hfree (hgrows.isDirectory hold), hfile⟩)

/-! ## What a success tells -/

/-- Every header has its place in the directory, and there is a file with the given contents, or
nothing. -/
def Holds (fs : FileSystem) (directory : String) (headers : List Header)
    (contents : Header → Option ByteArray) : Prop :=
  ∀ header ∈ headers, fs.Admits (header.path directory) (header.place directory) ∧
    fs.kind? (header.place directory) = (contents header).map .file

/-- If writing is not stopped, all headers are written. -/
theorem holds_written (hp : Publishable headers)
    (h : (fs.written directory headers).1.failure = none) :
    (fs.written directory headers).1.written = headers.map (Header.path directory) ∧
      (fs.written directory headers).2.Holds directory headers
        fun header => some header.contents.toUTF8 := by
  induction headers generalizing fs with
  | nil => exact ⟨rfl, fun _ hmem => absurd hmem List.not_mem_nil⟩
  | cons header rest ih =>
    rw [written_cons] at h ⊢
    cases hwrite : fs.write (header.path directory) header.contents.toUTF8 with
    | error e =>
      rw [hwrite] at h
      exact absurd h (Option.some_ne_none _)
    | ok after =>
      rw [hwrite] at h
      obtain ⟨hadmits, hold, hkind⟩ := write_header hwrite
      obtain ⟨hwritten, hholds⟩ := ih hp.of_cons h
      refine ⟨congrArg _ hwritten, List.forall_mem_cons.2 ⟨⟨?_, ?_⟩, hholds⟩⟩
      · refine hadmits.mono fun q hq => isDirectory_written ?_
        exact (isDirectory_iff_of_kind? hkind (by simp) hold q).2 hq
      · -- the headers after it are put at other places
        rcases written_changes after directory rest (header.place directory) with
          hsame | ⟨other, hother, hplace, -⟩
        · refine hsame.trans ?_
          rw [hkind, if_pos rfl]
          rfl
        · obtain rfl := hp.place_inj List.mem_cons_self (List.mem_cons_of_mem _ hother) hplace
          exact absurd (List.mem_map_of_mem hother) (List.nodup_cons.1 hp.nodup).1

/-- If publishing is not stopped, all headers are published. -/
theorem holds_published (hp : Publishable headers)
    (h : (fs.published directory headers).1.failure = none) :
    (fs.published directory headers).1.written = headers.map (Header.path directory) ∧
      (fs.published directory headers).2.Holds directory headers
        fun header => some header.contents.toUTF8 := by
  rw [published_eq] at h ⊢
  generalize fs.createDirectories directory = created at h ⊢
  obtain ⟨result, middle⟩ := created
  cases result with
  | error e => exact absurd h (Option.some_ne_none _)
  | ok _ => exact holds_written hp h

/-- What a header holds can be read. -/
theorem Holds.read {contents : Header → Option ByteArray}
    (h : fs.Holds directory headers contents) {header : Header} (hmem : header ∈ headers) :
    fs.read (header.path directory) = (contents header).elim (.error .notFound) .ok := by
  obtain ⟨hadmits, hkind⟩ := h header hmem
  rw [hadmits.read, hkind]
  cases contents header with
  | none => rfl
  | some bytes => rfl

/-! ## What stops publishing -/

/-- Writing is stopped by a header that cannot be written, whatever the headers
before it are. -/
theorem failure_written_eq_none_iff :
    (fs.written directory headers).1.failure = none ↔ ∀ header ∈ headers,
      ∃ done, fs.write (header.path directory) header.contents.toUTF8 = .ok done := by
  induction headers generalizing fs with
  | nil => exact iff_of_true rfl fun _ hmem => absurd hmem List.not_mem_nil
  | cons header rest ih =>
    rw [written_cons, List.forall_mem_cons]
    cases hwrite : fs.write (header.path directory) header.contents.toUTF8 with
    | error e => simp
    | ok after =>
      -- the first header does not change which directories there are, and only they matter
      obtain ⟨-, hold, hkind⟩ := write_header hwrite
      have hdirectories := isDirectory_iff_of_kind? hkind (by simp) hold
      have hrest : (∀ other ∈ rest, ∃ done,
          after.write (other.path directory) other.contents.toUTF8 = .ok done) ↔
            ∀ other ∈ rest, ∃ done,
              fs.write (other.path directory) other.contents.toUTF8 = .ok done :=
        forall₂_congr fun other _ => exists_write_congr hdirectories _ _
      rw [← hrest, ← ih]
      simp

/-- Publishing is stopped if the directory cannot be made, or some header cannot be written. -/
theorem failure_published_eq_none_iff :
    (fs.published directory headers).1.failure = none ↔
      (fs.createDirectories directory).1 = .ok () ∧ ∀ header ∈ headers, ∃ done,
        (fs.createDirectories directory).2.write (header.path directory)
          header.contents.toUTF8 = .ok done := by
  rw [published_eq]
  generalize fs.createDirectories directory = created
  obtain ⟨result, middle⟩ := created
  cases result with
  | error e => simp
  | ok _ => simp [failure_written_eq_none_iff]

/-! ## Publishing what is there -/

/-- Writing the headers that are there changes nothing. -/
theorem written_of_read
    (h : ∀ header ∈ headers, fs.read (header.path directory) = .ok header.contents.toUTF8) :
    fs.written directory headers =
      ({ written := headers.map (Header.path directory), failure := none }, fs) := by
  induction headers with
  | nil => rfl
  | cons header rest ih =>
    obtain ⟨hread, hrest⟩ := List.forall_mem_cons.1 h
    obtain ⟨place, hadmits, hkind⟩ := exists_admits_of_read hread
    have hold : ¬ fs.IsDirectory place := by
      rw [IsDirectory, hkind]
      simp
    rw [written_cons, hadmits.write hold, hadmits.put_self hkind]
    simp only [ih hrest, List.map_cons]

/-- Publishing headers that are there changes nothing. -/
theorem published_of_read (hp : Publishable headers) (hne : headers ≠ [])
    (h : ∀ header ∈ headers, fs.read (header.path directory) = .ok header.contents.toUTF8) :
    fs.published directory headers =
      ({ written := headers.map (Header.path directory), failure := none }, fs) := by
  obtain ⟨header, hmem⟩ := List.exists_mem_of_ne_nil headers hne
  obtain ⟨place, hadmits, -⟩ := exists_admits_of_read (h header hmem)
  obtain rfl : place = header.place directory := hadmits.eq_place
  rw [published_eq, Header.createDirectories_of_admits (hp.isNamed header hmem) hadmits]
  exact written_of_read h

end FileSystem

theorem FileSystem.kind?_empty_child (place : Place) (name : String) :
    empty.kind? (place.child name) = none := by
  obtain ⟨base, names⟩ := place
  cases names with
  | nil => rfl
  | cons first rest => rfl

theorem Publication.result_eq_ok_iff {p : Publication} {paths : List String} :
    p.result = .ok paths ↔ p.failure = none ∧ p.written = paths := by
  unfold result
  cases p.failure with
  | none => simp
  | some e => simp

namespace Catalogue

/-- Inspecting the headers of a catalogue finds nothing exactly when publishing them succeeds
and leaves every file and every directory as it was. -/
theorem upToDate_iff_published_unchanged {ds : List FamilyDeclaration} {c : Catalogue}
    (h : load ds = .ok c) (hne : c.families ≠ []) {config : Config}
    (he : CommandLine.isExtension config.extension = true) (directory : String)
    (fs : FileSystem) :
    (fs.inspected directory (c.headers config)).result = .ok [] ↔
      (∃ paths, (fs.published directory (c.headers config)).1.result = .ok paths) ∧
        ∀ place, (fs.published directory (c.headers config)).2.kind? place = fs.kind? place := by
  have hp := publishable_headers h he
  rw [FileSystem.result_inspected_eq_nil_iff]
  constructor
  · intro hread
    have hheaders : c.headers config ≠ [] := by
      rwa [headers, ne_eq, List.map_eq_nil_iff]
    rw [FileSystem.published_of_read hp hheaders hread]
    exact ⟨⟨_, rfl⟩, fun _ => rfl⟩
  · rintro ⟨⟨paths, hpaths⟩, hsame⟩ header hheader
    obtain ⟨hfailure, -⟩ := Publication.result_eq_ok_iff.1 hpaths
    obtain ⟨hadmits, hkind⟩ := (FileSystem.holds_published hp hfailure).2 header hheader
    -- what is published is found in the first file system as well, as nothing has changed
    have hbefore : fs.Admits (header.path directory) (header.place directory) :=
      hadmits.mono fun q hq => (hsame q).symm.trans hq
    rw [hbefore.read, ← hsame, hkind]
    rfl

/-- The headers of expressions and statements can be published again without a change, but not
into an empty directory. -/
theorem republished_unchanged :
    ∃ (c : Catalogue) (fs : FileSystem), load (expressionsAndStatements false) = .ok c ∧
      c.families ≠ [] ∧ CommandLine.isExtension ({} : Config).extension = true ∧
      ((∃ paths, (fs.published "out" (c.headers {})).1.result = .ok paths) ∧
        ∀ place, (fs.published "out" (c.headers {})).2.kind? place = fs.kind? place) ∧
      ¬ ((∃ paths, (FileSystem.empty.published "out" (c.headers {})).1.result = .ok paths) ∧
        ∀ place, (FileSystem.empty.published "out" (c.headers {})).2.kind? place =
          FileSystem.empty.kind? place) := by
  obtain ⟨c, hc, hnames⟩ := exists_load_of_isOk (isOk_load_expressionsAndStatements false)
  obtain ⟨fs, hup⟩ := exists_upToDate hnames
  have hextension : CommandLine.isExtension ({} : Config).extension = true := by decide
  have hne : c.families ≠ [] := by
    intro hnil
    rw [hnil] at hnames
    exact absurd hnames (by decide)
  refine ⟨c, fs, hc, hne, hextension, ?_, ?_⟩
  · exact (upToDate_iff_published_unchanged hc hne hextension "out" fs).1 hup
  · rw [← upToDate_iff_published_unchanged hc hne hextension "out" FileSystem.empty,
      FileSystem.result_inspected_eq_nil_iff]
    intro hread
    obtain ⟨family, hfamily⟩ := List.exists_mem_of_ne_nil c.families hne
    obtain ⟨place, hadmits, hkind⟩ := FileSystem.exists_admits_of_read
      (hread (family.header {}) (List.mem_map_of_mem hfamily))
    obtain ⟨directory, name, -, rfl⟩ := hadmits.exists_child
    rw [FileSystem.kind?_empty_child] at hkind
    exact absurd hkind (by simp)

end Catalogue

end TreeHeaders
