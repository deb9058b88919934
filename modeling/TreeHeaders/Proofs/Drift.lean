import TreeHeaders.Proofs.Publishing

set_option autoImplicit false

/-!
# Drift

After headers are published, their files may be overwritten and removed. An inspection then
finds exactly the headers whose files do not hold what was published, whatever the edits were
and however many (`Catalogue.inspected_after_edits`). One edit changes what is held for one
header (`Edit.holds_apply`), and that is all a run of edits does (`Edit.holds_foldl`).
-/

namespace TreeHeaders

/-! ## Edits -/

/-- An edit to the file of a header: the contents that it is given, or none if it is removed. -/
structure Edit where
  header : Header
  contents : Option ByteArray

namespace Edit

/-- The file system after an edit in the directory. An edit that fails changes nothing. -/
def apply (directory : String) (fs : FileSystem) (edit : Edit) : FileSystem :=
  let edited :=
    match edit.contents with
    | some bytes => fs.write (edit.header.path directory) bytes
    | none => fs.remove (edit.header.path directory)
  edited.toOption.getD fs

/-- The contents of the files after the edits, if what is published is in them before. -/
def current (edits : List Edit) : Header → Option ByteArray :=
  edits.foldl (fun contents edit => Function.update contents edit.header edit.contents)
    fun header => some header.contents.toUTF8

variable {fs : FileSystem} {directory : String} {headers : List Header}
  {contents : Header → Option ByteArray}

/-- An edit changes what is at the place of the header, and nothing else. -/
theorem kind?_apply (edit : Edit)
    (hadmits : fs.Admits (edit.header.path directory) (edit.header.place directory))
    (hold : ¬ fs.IsDirectory (edit.header.place directory)) (q : Place) :
    (edit.apply directory fs).kind? q =
      if q = edit.header.place directory then edit.contents.map .file else fs.kind? q := by
  unfold apply
  cases edit.contents with
  | some bytes =>
    simp only [hadmits.write hold]
    exact hadmits.kind?_put hold bytes q
  | none =>
    cases hkind : fs.kind? (edit.header.place directory) with
    | none =>
      simp only [hadmits.remove_of_none hkind]
      split
      · next hq => rw [hq]; exact hkind
      · rfl
    | some kind =>
      cases kind with
      | directory => exact absurd hkind hold
      | file old =>
        simp only [hadmits.remove hkind]
        exact hadmits.kind?_erase hkind q

/-- An edit to the file of one header leaves those of the others. -/
theorem holds_apply (hp : Publishable headers) {edit : Edit} (hmem : edit.header ∈ headers)
    (h : fs.Holds directory headers contents) :
    (edit.apply directory fs).Holds directory headers
      (Function.update contents edit.header edit.contents) := by
  obtain ⟨hadmits, hheld⟩ := h edit.header hmem
  have hold : ¬ fs.IsDirectory (edit.header.place directory) := by
    rw [FileSystem.IsDirectory, hheld]
    cases contents edit.header with
    | none => simp
    | some bytes => simp
  have hkind := edit.kind?_apply hadmits hold
  have hfile : edit.contents.map Kind.file ≠ some .directory := by
    cases edit.contents with
    | none => simp
    | some bytes => simp
  intro header hheader
  obtain ⟨hother, hothers⟩ := h header hheader
  refine ⟨hother.mono fun q hq => ?_, ?_⟩
  · exact (FileSystem.isDirectory_iff_of_kind? hkind hfile hold q).2 hq
  · rw [hkind]
    by_cases hsame : header = edit.header
    · rw [hsame, if_pos rfl, Function.update_self]
    · -- the files of other headers are at other places
      have hplace : header.place directory ≠ edit.header.place directory :=
        fun heq => hsame (hp.place_inj hheader hmem heq)
      rw [if_neg hplace, Function.update_of_ne hsame]
      exact hothers

/-- Edits to the files of headers change what is held for these headers, one after the other. -/
theorem holds_foldl (hp : Publishable headers) {edits : List Edit}
    (hmem : ∀ edit ∈ edits, edit.header ∈ headers) (h : fs.Holds directory headers contents) :
    (edits.foldl (apply directory) fs).Holds directory headers
      (edits.foldl (fun contents edit => Function.update contents edit.header edit.contents)
        contents) := by
  induction edits generalizing fs contents with
  | nil => exact h
  | cons edit rest ih =>
    obtain ⟨hfirst, hrest⟩ := List.forall_mem_cons.1 hmem
    exact ih hrest (holds_apply hp hfirst h)

end Edit

/-! ## What an inspection finds -/

-- the instance of the core library, so that nothing here depends on which others are imported
local instance instDecidableEqContents : DecidableEq ByteArray :=
  ByteArray.instDecidableEq

/-- The headers whose files do not hold what is generated, in order: those without a file are
missing, and the others are modified. -/
def Header.drifted (directory : String) (contents : Header → Option ByteArray)
    (headers : List Header) : List (String × Status) :=
  (headers.filter fun header => contents header ≠ some header.contents.toUTF8).map fun header =>
    (header.path directory, if contents header = none then .missing else .modified)

/-- The status of a header whose file has the given contents, or is not there. -/
def Header.standing (header : Header) (contents : Option ByteArray) : Status :=
  if contents = some header.contents.toUTF8 then .upToDate
  else if contents = none then .missing else .modified

theorem Header.standing_eq_upToDate_iff {header : Header} {contents : Option ByteArray} :
    header.standing contents = .upToDate ↔ contents = some header.contents.toUTF8 := by
  unfold standing
  split
  · next heq => exact iff_of_true rfl heq
  · next hne =>
    refine iff_of_false ?_ hne
    split
    · exact Status.noConfusion
    · exact Status.noConfusion

theorem Header.status_eq_standing (header : Header) (contents : Option ByteArray) :
    header.status (contents.elim (.error .notFound) .ok) = .ok (header.standing contents) := by
  cases contents with
  | none => rfl
  | some bytes =>
    simp only [Option.elim_some, status, standing, Text.fromUTF8?_eq_some_iff, Option.some.injEq,
      reduceCtorEq, if_false]

theorem Header.status_of_error (header : Header) {e : DiskError} (h : e ≠ .notFound) :
    header.status (.error e) = .error e := by
  cases e with
  | notFound => exact absurd rfl h
  | _ => rfl

theorem Inspection.result_eq_error_iff {inspection : Inspection} {e : PublishError} :
    inspection.result = .error e ↔ inspection.failure = some e := by
  unfold result
  cases inspection.failure with
  | none => simp
  | some cause => simp

namespace FileSystem

variable {fs : FileSystem} {directory : String} {headers : List Header}
  {contents : Header → Option ByteArray}

/-- An inspection tells the status of every header, if each of them has one. -/
theorem inspected_of_status {status : Header → Status}
    (h : ∀ header ∈ headers,
      header.status (fs.read (header.path directory)) = .ok (status header)) :
    fs.inspected directory headers =
      { statuses := headers.map fun header => (header.path directory, status header)
        failure := none } := by
  induction headers with
  | nil => rfl
  | cons header rest ih =>
    obtain ⟨hfirst, hrest⟩ := List.forall_mem_cons.1 h
    rw [inspected_cons, hfirst, ih hrest]
    rfl

/-- An inspection of headers of which the contents are known is not stopped, and finds
those that have drifted. -/
theorem result_inspected_of_read (h : ∀ header ∈ headers, fs.read (header.path directory) =
      (contents header).elim (.error .notFound) .ok) :
    (fs.inspected directory headers).result = .ok (Header.drifted directory contents headers) := by
  have hstatus : ∀ header ∈ headers, header.status (fs.read (header.path directory)) =
      .ok (header.standing (contents header)) := by
    intro header hheader
    rw [h header hheader, header.status_eq_standing]
  have hfilter : (headers.filter fun header => header.standing (contents header) != .upToDate) =
      headers.filter fun header => contents header ≠ some header.contents.toUTF8 := by
    refine List.filter_congr fun header _ => ?_
    rw [Bool.eq_iff_iff, bne_iff_ne, decide_eq_true_iff, ne_eq, Header.standing_eq_upToDate_iff]
  have hmodified : ∀ header ∈ headers.filter fun header =>
      contents header ≠ some header.contents.toUTF8, header.standing (contents header) =
        if contents header = none then .missing else .modified := by
    intro header hheader
    rw [Header.standing, if_neg (by simpa using (List.mem_filter.1 hheader).2)]
  rw [inspected_of_status hstatus]
  refine congrArg Except.ok ?_
  calc
    (headers.map fun header =>
        (header.path directory, header.standing (contents header))).filter (·.2 != .upToDate)
    _ = (headers.filter fun header => header.standing (contents header) != .upToDate).map
        fun header => (header.path directory, header.standing (contents header)) :=
      List.filter_map
    _ = Header.drifted directory contents headers := by
      rw [hfilter]
      exact List.map_congr_left fun header hheader => by rw [hmodified header hheader]

/-! ## What stops an inspection -/

/-- Reading fails, and not because there is no file. -/
def Unreadable (fs : FileSystem) (path : String) : Prop :=
  ∃ e, fs.read path = .error e ∧ e ≠ .notFound

theorem read_of_not_unreadable {path : String} (h : ¬ fs.Unreadable path) :
    fs.read path = (fs.read path).toOption.elim (.error .notFound) .ok := by
  cases hread : fs.read path with
  | ok bytes => rfl
  | error e =>
    have he : e = .notFound := by
      by_contra hne
      exact h ⟨e, hread, hne⟩
    rw [he]
    rfl

/-- An inspection is stopped by a header that cannot be read, and by nothing else. -/
theorem result_inspected_eq_error_iff :
    (∃ e, (fs.inspected directory headers).result = .error e) ↔
      ∃ header ∈ headers, fs.Unreadable (header.path directory) := by
  constructor
  · rintro ⟨e, he⟩
    by_contra hnone
    have hread : ∀ header ∈ headers, ¬ fs.Unreadable (header.path directory) :=
      fun header hheader hunreadable => hnone ⟨header, hheader, hunreadable⟩
    rw [result_inspected_of_read fun header hheader =>
      read_of_not_unreadable (hread header hheader)] at he
    exact absurd he (by simp)
  · rintro ⟨header, hheader, hunreadable⟩
    obtain ⟨e, hread, hne⟩ := hunreadable
    have hstatus := header.status_of_error hne
    rw [← hread] at hstatus
    induction headers with
    | nil => exact absurd hheader List.not_mem_nil
    | cons first rest ih =>
      rw [inspected_cons]
      cases hfirst : first.status (fs.read (first.path directory)) with
      | error e => exact ⟨_, rfl⟩
      | ok status =>
        rcases List.mem_cons.1 hheader with rfl | hrest
        · exact absurd (hfirst.symm.trans hstatus) (by simp)
        · obtain ⟨cause, hcause⟩ := ih hrest
          have hfailure : (fs.inspected directory rest).failure = some cause :=
            Inspection.result_eq_error_iff.1 hcause
          exact ⟨cause, Inspection.result_eq_error_iff.2 hfailure⟩

end FileSystem

namespace Catalogue

/-- If publishing the headers of a catalogue succeeds, it gives their paths in order, and
an inspection finds nothing. After edits to their files it finds exactly the headers
whose files do not hold what is generated, in order: those that are removed as missing,
and the others as modified. -/
theorem inspected_after_edits {ds : List FamilyDeclaration} {c : Catalogue}
    (h : load ds = .ok c) {config : Config}
    (he : CommandLine.isExtension config.extension = true) {directory : String} {fs : FileSystem}
    {paths : List String}
    (hpublished : (fs.published directory (c.headers config)).1.result = .ok paths) :
    paths = (c.headers config).map (Header.path directory) ∧
      ((fs.published directory (c.headers config)).2.inspected directory
        (c.headers config)).result = .ok [] ∧
      ∀ edits : List Edit, (∀ edit ∈ edits, edit.header ∈ c.headers config) →
        ((edits.foldl (Edit.apply directory)
            (fs.published directory (c.headers config)).2).inspected directory
          (c.headers config)).result =
          .ok (Header.drifted directory (Edit.current edits) (c.headers config)) := by
  have hp := publishable_headers h he
  obtain ⟨hfailure, rfl⟩ := Publication.result_eq_ok_iff.1 hpublished
  obtain ⟨hwritten, hholds⟩ := FileSystem.holds_published hp hfailure
  refine ⟨hwritten, ?_, ?_⟩
  · rw [FileSystem.result_inspected_eq_nil_iff]
    exact fun header hheader => hholds.read hheader
  · intro edits hedits
    exact FileSystem.result_inspected_of_read fun header hheader =>
      (Edit.holds_foldl hp hedits hholds).read hheader

/-- The headers of expressions and statements can be published in an empty directory. -/
theorem published_empty {first second : Header} (hfirst : first.path "out" = "out/Expr.h")
    (hsecond : second.path "out" = "out/Stmt.h") :
    (FileSystem.empty.published "out" [first, second]).1.result =
      .ok ["out/Expr.h", "out/Stmt.h"] := by
  obtain ⟨made, hmade, hwrite⟩ : ∃ made, FileSystem.empty.createDirectories "out" = (.ok (), made) ∧
      ∀ bytes, ∃ after, made.write "out/Expr.h" bytes = .ok after ∧
        ∀ bytes, ∃ last, after.write "out/Stmt.h" bytes = .ok last :=
    ⟨_, rfl, fun _ => ⟨_, rfl, fun _ => ⟨_, rfl⟩⟩⟩
  obtain ⟨after, hafter, hwrite⟩ := hwrite first.contents.toUTF8
  obtain ⟨last, hlast⟩ := hwrite second.contents.toUTF8
  simp only [FileSystem.published_eq, hmade, FileSystem.written_cons, hfirst, hafter, hsecond,
    hlast]
  rfl

/-- The headers of expressions and statements, and where they are published in `out`. -/
theorem exists_headers_expressionsAndStatements :
    ∃ (c : Catalogue) (first second : Header), load (expressionsAndStatements false) = .ok c ∧
      c.headers {} = [first, second] ∧ first.path "out" = "out/Expr.h" ∧
      second.path "out" = "out/Stmt.h" := by
  obtain ⟨c, hc, hnames⟩ := exists_load_of_isOk (isOk_load_expressionsAndStatements false)
  obtain ⟨first, rest, hfamilies, hfirst, hrest⟩ := List.map_eq_cons_iff.1 hnames
  obtain ⟨second, tail, rfl, hsecond, htail⟩ := List.map_eq_cons_iff.1 hrest
  obtain rfl : tail = [] := List.map_eq_nil_iff.1 htail
  have hheaders : c.headers {} = [first.header {}, second.header {}] := by
    rw [headers, hfamilies]
    rfl
  refine ⟨c, _, _, hc, hheaders, ?_⟩
  simp only [Header.path, Family.header, hfirst, hsecond]
  decide

/-- A published header that is removed is found missing, and one whose file is given contents
that are no text is found modified. -/
theorem missing_and_modified_found :
    ∃ (c : Catalogue) (first second : Header), load (expressionsAndStatements false) = .ok c ∧
      c.headers {} = [first, second] ∧ CommandLine.isExtension ({} : Config).extension = true ∧
      (FileSystem.empty.published "out" (c.headers {})).1.result =
        .ok ["out/Expr.h", "out/Stmt.h"] ∧
      (([⟨first, none⟩, ⟨second, some ⟨#[0xff]⟩⟩].foldl (Edit.apply "out")
          (FileSystem.empty.published "out" (c.headers {})).2).inspected "out"
        (c.headers {})).result =
        .ok [("out/Expr.h", .missing), ("out/Stmt.h", .modified)] := by
  obtain ⟨c, first, second, hc, hheaders, hpaths⟩ := exists_headers_expressionsAndStatements
  have hextension : CommandLine.isExtension ({} : Config).extension = true := by decide
  have hpublished := published_empty hpaths.1 hpaths.2
  have hne : second ≠ first := by
    intro heq
    rw [← heq] at hpaths
    exact absurd (hpaths.1.symm.trans hpaths.2) (by decide)
  have hbytes : (⟨#[0xff]⟩ : ByteArray) ≠ second.contents.toUTF8 := by
    intro heq
    have hvalid := second.contents.isValidUTF8
    rw [show second.contents.toByteArray = ⟨#[0xff]⟩ from heq.symm] at hvalid
    exact absurd hvalid (by decide +kernel)
  refine ⟨c, _, _, hc, hheaders, hextension, by rw [hheaders, hpublished], ?_⟩
  rw [← hheaders] at hpublished
  obtain ⟨-, -, hedits⟩ := inspected_after_edits hc hextension hpublished
  rw [hedits _ (by simp [hheaders]), hheaders]
  generalize hcurrent : Edit.current _ = current
  have hremoved : current first = none := by
    simp [← hcurrent, Edit.current, hne.symm]
  have hchanged : current second = some ⟨#[0xff]⟩ := by
    simp [← hcurrent, Edit.current]
  rw [Header.drifted, List.filter_cons_of_pos (by simp [hremoved]),
    List.filter_cons_of_pos (by simpa [hchanged] using hbytes)]
  simp [hremoved, hchanged, hpaths]

end Catalogue

end TreeHeaders
