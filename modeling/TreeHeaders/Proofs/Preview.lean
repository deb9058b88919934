import TreeHeaders.Proofs.Execution
import TreeHeaders.Proofs.HeaderLines

set_option autoImplicit false

/-!
# Previews

A preview shows every header in a frame. It can be read back: no line of a header looks like a
line of a frame, and every header ends with a line feed, so the frames show where each file
starts and stops. What is read back are the files that the same command writes when it is not
asked for a preview, in the order in which it writes them (`CommandLine.preview_read_back`).
-/

namespace TreeHeaders

open Text

/-! ## Line feeds -/

namespace Text

/-- What stands between the line feeds of a text, carriage returns included. -/
def feedLines (text : String) : List String :=
  (text.toList.splitOn '\n').map String.ofList

theorem feedLines_empty : feedLines "" = [""] := by
  decide

theorem feedLines_append_feed {line : String} (h : ∀ c ∈ line.toList, c ≠ '\n') (rest : String) :
    feedLines (line ++ "\n" ++ rest) = line :: feedLines rest := by
  have hfeed : ∀ c ∈ line.toList, (c == '\n') = false := fun c hc => beq_eq_false_iff_ne.2 (h c hc)
  have hchars : (line ++ "\n" ++ rest).toList = line.toList ++ '\n' :: rest.toList := by simp
  rw [feedLines, hchars, List.splitOn_eq_splitOnP,
    List.splitOnP_append_cons_of_forall_mem hfeed _ (by decide), List.map_cons,
    String.ofList_toList, ← List.splitOn_eq_splitOnP]
  rfl

end Text

/-! ## Reading frames -/

namespace Frame

/-- The file that a line announces, if it opens a frame. -/
def opened? (line : String) : Option String :=
  between? "╭─[" "]" line

/-- The files in the frames that the lines show, with the file whose frame is open. Nothing
stands outside of frames, no frame is opened in another one, and all are closed. -/
def files? : Option (String × String) → List String → Option (List (String × String))
  | _, [] => none
  | none, line :: rest =>
    if line = "" ∧ rest = [] then some []
    else (opened? line).bind fun name => files? (some (name, "")) rest
  | some (name, contents), line :: rest =>
    if line = "╯" then (files? none rest).map ((name, contents) :: ·)
    else if (opened? line).isSome then none
    else files? (some (name, contents ++ line ++ "\n")) rest

/-- The files, each with its contents, that a text shows in frames. -/
def files (text : String) : Option (List (String × String)) :=
  files? none (feedLines text)

/-- The line can stand in a frame. -/
def Fits (line : String) : Prop :=
  ∀ c ∈ line.toList, c ≠ '\n' ∧ c ≠ '╭' ∧ c ≠ '╯'

theorem Fits.append {left right : String} (hl : Fits left) (hr : Fits right) :
    Fits (left ++ right) := by
  rw [Fits, String.toList_append, List.forall_mem_append]
  exact ⟨hl, hr⟩

theorem Fits.opened?_eq_none {line : String} (h : Fits line) : opened? line = none := by
  rw [opened?, between?_eq_none_iff]
  rintro inside rfl
  exact (h '╭' (by simp)).2.1 rfl

/-- A line that fits in an open frame is a line of its file. -/
theorem files?_cons_of_fits {line : String} (h : Fits line) (name contents : String)
    (rest : List String) :
    files? (some (name, contents)) (line :: rest) =
      files? (some (name, contents ++ line ++ "\n")) rest := by
  have hclose : line ≠ "╯" := by
    rintro rfl
    exact (h '╯' (by simp)).2.2 rfl
  simp [files?, hclose, h.opened?_eq_none]

/-- Lines that fit are the contents of the file whose frame is open, up to where
it is closed. -/
theorem files?_of_fits {lines : List String} (h : ∀ line ∈ lines, Fits line)
    (name contents rest : String) :
    files? (some (name, contents))
        (feedLines (String.join (lines.map (· ++ "\n")) ++ ("╯\n" ++ rest))) =
      (files rest).map ((name, contents ++ String.join (lines.map (· ++ "\n"))) :: ·) := by
  induction lines generalizing contents with
  | nil =>
    have hfeed : ∀ c ∈ "╯".toList, c ≠ '\n' := by simp
    have hclose : feedLines ("╯\n" ++ rest) = "╯" :: feedLines rest :=
      feedLines_append_feed hfeed rest
    simp [hclose, files?, files]
  | cons line lines ih =>
    obtain ⟨hline, hlines⟩ := List.forall_mem_cons.1 h
    rw [List.map_cons, String.join_cons, String.append_assoc,
      feedLines_append_feed fun c hc => (hline c hc).1, files?_cons_of_fits hline, ih hlines]
    simp only [String.append_assoc]

end Frame

namespace CommandLine

/-- The headers that can be shown in frames: the name is on one line, and so is each line of the
contents, which end with a line feed. -/
structure Framable (header : Header) : Prop where
  fileName : ∀ c ∈ header.fileName.toList, c ≠ '\n'
  contents : ∃ lines : List String, (∀ line ∈ lines, Frame.Fits line) ∧
    header.contents = String.join (lines.map (· ++ "\n"))

/-- A preview is read back frame by frame. -/
theorem files_preview {headers : List Header} (h : ∀ header ∈ headers, Framable header) :
    Frame.files (preview headers) =
      some (headers.map fun header => (header.fileName, header.contents)) := by
  induction headers with
  | nil =>
    have hempty : preview [] = "" := by simp [preview]
    simp [hempty, Frame.files, feedLines_empty, Frame.files?]
  | cons header headers ih =>
    obtain ⟨hheader, hheaders⟩ := List.forall_mem_cons.1 h
    obtain ⟨lines, hlines, hcontents⟩ := hheader.contents
    have htext : preview (header :: headers) = "╭─[" ++ header.fileName ++ "]" ++ "\n" ++
        (String.join (lines.map (· ++ "\n")) ++ ("╯\n" ++ preview headers)) := by
      apply String.toList_injective
      simp [preview, previewText, hcontents]
    have hopening : ∀ c ∈ ("╭─[" ++ header.fileName ++ "]").toList, c ≠ '\n' := by
      have hsides : (∀ c ∈ "╭─[".toList, c ≠ '\n') ∧ ∀ c ∈ "]".toList, c ≠ '\n' := by simp
      rw [String.toList_append, String.toList_append, List.forall_mem_append,
        List.forall_mem_append]
      exact ⟨⟨hsides.1, hheader.fileName⟩, hsides.2⟩
    have hname : Frame.opened? ("╭─[" ++ header.fileName ++ "]") = some header.fileName :=
      between?_eq_some_iff.2 rfl
    have hne : "╭─[" ++ header.fileName ++ "]" ≠ "" := by
      intro hempty
      simpa using congrArg String.toList hempty
    rw [htext, Frame.files, feedLines_append_feed hopening, Frame.files?, if_neg fun h => hne h.1,
      hname, Option.bind_some, Frame.files?_of_fits hlines, ih hheaders, ← hcontents]
    simp

end CommandLine

/-! ## Headers in frames -/

namespace Line

/-- A rendered line ends with a line feed, and it fits if its text does. -/
theorem exists_render_eq (config : Config) {line : Line} (h : Frame.Fits line.text) :
    ∃ shown, Frame.Fits shown ∧
      render config.indentation.text config.lineEnding.text line = shown ++ "\n" := by
  have hending : ∃ before : String,
      Frame.Fits before ∧ config.lineEnding.text = before ++ "\n" := by
    cases config.lineEnding with
    | lineFeed => exact ⟨"", by simp [Frame.Fits], rfl⟩
    | native => exact ⟨"", by simp [Frame.Fits], rfl⟩
    | carriageReturnLineFeed => exact ⟨"\r", by simp [Frame.Fits], rfl⟩
  obtain ⟨before, hbefore, hending⟩ := hending
  rw [hending, render]
  split
  · exact ⟨before, hbefore, rfl⟩
  · refine ⟨margin config.indentation.text line.depth ++ line.text ++ before, ?_, by
      simp only [String.append_assoc]⟩
    refine Frame.Fits.append (Frame.Fits.append ?_ h) hbefore
    intro c hc
    rcases mem_margin hc with rfl | rfl
    · decide
    · decide

/-- A rendered text shows one line that fits for each of its lines. -/
theorem exists_renderAll_eq (config : Config) {lines : List Line}
    (h : ∀ line ∈ lines, Frame.Fits line.text) :
    ∃ shown : List String, (∀ line ∈ shown, Frame.Fits line) ∧
      renderAll config lines = String.join (shown.map (· ++ "\n")) := by
  induction lines with
  | nil => exact ⟨[], by simp, by simp⟩
  | cons line lines ih =>
    obtain ⟨hline, hlines⟩ := List.forall_mem_cons.1 h
    obtain ⟨first, hfirst, hrender⟩ := exists_render_eq config hline
    obtain ⟨rest, hrest, hall⟩ := ih hlines
    refine ⟨first :: rest, List.forall_mem_cons.2 ⟨hfirst, hrest⟩, ?_⟩
    have hcons : renderAll config (line :: lines) =
        render config.indentation.text config.lineEnding.text line ++ renderAll config lines := by
      simp [renderAll]
    rw [hcons, hrender, hall, List.map_cons, String.join_cons]

end Line

namespace Text

theorem Inked.fits {text : String} (h : Inked text) : Frame.Fits text :=
  fun _ hc => ⟨h.ne_of_mem hc (by decide), h.ne_of_mem hc (by decide), h.ne_of_mem hc (by decide)⟩

end Text

namespace Family

variable {family : Family} {config : Config}

theorem fits_localIncludeLines (h : family.WellNamed) (hc : config.Accepted) :
    ∀ line ∈ family.localIncludeLines config, Frame.Fits line.text := by
  intro line hline
  rcases mem_localIncludeLines h hline with rfl | ⟨name, hname, rfl⟩
  · exact Line.inked_blank.fits
  · have hquotes : Frame.Fits "#include \"" ∧ Frame.Fits "\"" := by
      simp [Frame.Fits]
    exact (hquotes.1.append (hc.inked_headerFile hname).fits).append hquotes.2

/-- The header of a family can be shown in a frame. -/
theorem framable_header (h : family.WellNamed) (hc : config.Accepted) :
    CommandLine.Framable (family.header config) := by
  have hlines : ∀ line ∈ family.headerLines config, Frame.Fits line.text := by
    rw [headerLines_eq, List.forall_mem_append, List.forall_mem_append]
    exact ⟨⟨fun line hline => (allInked_linesBeforeIncludes family config line hline).fits,
      fits_localIncludeLines h hc⟩,
      fun line hline => (allInked_linesAfterIncludes h hc line hline).fits⟩
  constructor
  · intro c hmem
    exact ((hc.inked_headerFile h.basename).fits c hmem).1
  · simp only [header]
    exact Line.exists_renderAll_eq config hlines

end Family

/-! ## What is written instead -/

/-- The directory can be made, and each of the files can be written in it. -/
def FileSystem.Receives (fs : FileSystem) (directory : String) (files : List (String × String)) :
    Prop :=
  (fs.createDirectories directory).1 = .ok () ∧ ∀ file ∈ files, ∃ done,
    (fs.createDirectories directory).2.write (joinPath directory file.1) file.2.toUTF8 = .ok done

/-- If writing headers is not stopped, they are written one after the other. -/
theorem FileSystem.foldlM_write_of_written {fs : FileSystem} {directory : String}
    {headers : List Header} (h : (fs.written directory headers).1.failure = none) :
    headers.foldlM (fun after header => after.write (header.path directory) header.contents.toUTF8)
      fs = .ok (fs.written directory headers).2 := by
  induction headers generalizing fs with
  | nil => rfl
  | cons header rest ih =>
    rw [written_cons] at h ⊢
    rw [List.foldlM_cons]
    cases hwrite : fs.write (header.path directory) header.contents.toUTF8 with
    | error e =>
      rw [hwrite] at h
      exact absurd h (Option.some_ne_none _)
    | ok after =>
      rw [hwrite] at h
      exact ih h

namespace CommandLine

variable {fs : FileSystem} {args : List String} {options : Options} {c : Catalogue}

/-- A run stores files in a directory: it makes the directory and writes the files one after the
other. All are there in the end, and nothing else has changed but for directories on the way. -/
structure Stores (directory : String) (files : List (String × String)) (fs : FileSystem)
    (ran : Outcome × FileSystem) : Prop where
  success : ran.1.exit.code = 0
  inOrder : files.foldlM
    (fun after file => after.write (joinPath directory file.1) file.2.toUTF8)
    (fs.createDirectories directory).2 = .ok ran.2
  stored : ∀ file ∈ files, ran.2.read (joinPath directory file.1) = .ok file.2.toUTF8
  unchanged : ∀ place, ran.2.kind? place = fs.kind? place ∨
    fs.kind? place = none ∧ ran.2.kind? place = some .directory ∧ Path.Along directory place ∨
    ∃ file ∈ files, place = Path.place (Path.pieces (joinPath directory file.1)) ∧
      ran.2.kind? place = some (.file file.2.toUTF8)

/-- The headers of a catalogue as files: the name and the contents of each. -/
def Options.files (options : Options) (c : Catalogue) : List (String × String) :=
  (c.headers options.config).map fun header => (header.fileName, header.contents)

theorem Options.mem_files_iff {file : String × String} :
    file ∈ options.files c ↔ ∃ family ∈ c.families,
      ((family.header options.config).fileName, (family.header options.config).contents) =
        file := by
  simp [files, Catalogue.headers]

/-- A run that publishes stores the headers of the catalogue in a directory that
receives them. -/
theorem stores_of_publish (h : parse args = .ok options) (hc : fs.Supplies options.schema c)
    (hdryrun : options.dryrun = false) (hcheck : options.check = false)
    (hreceives : fs.Receives options.directory (options.files c)) :
    Stores options.directory (options.files c) fs (fs.ran args) := by
  have hran : (fs.ran args).2 = (fs.published options.directory (c.headers options.config)).2 := by
    rw [ran_of_supplies h hc, generate, if_neg (by simp [hdryrun]), if_neg (by simp [hcheck]),
      StateT.run_bind]
    rfl
  have hpublishes := publishes_of_publish h hc hdryrun hcheck
  obtain ⟨hcreated, hwritable⟩ := hreceives
  have hnone : (fs.published options.directory (c.headers options.config)).1.failure = none := by
    refine FileSystem.failure_published_eq_none_iff.2 ⟨hcreated, ?_⟩
    intro header hheader
    exact hwritable (header.fileName, header.contents) (List.mem_map.2 ⟨header, hheader, rfl⟩)
  have hcode : (fs.ran args).1.exit.code = 0 := by
    refine hpublishes.otherwise.resolve_left fun htwo => ?_
    exact failure_published_ne_none_iff.2 (hpublishes.failure.1 htwo) hnone
  refine ⟨hcode, ?_, ?_, ?_⟩
  · rw [hran, Options.files, List.foldlM_map]
    rw [FileSystem.published_eq] at hnone ⊢
    generalize fs.createDirectories options.directory = created at hcreated hnone ⊢
    obtain ⟨result, middle⟩ := created
    obtain rfl : result = .ok () := hcreated
    exact FileSystem.foldlM_write_of_written hnone
  · intro file hfile
    obtain ⟨family, hfamily, rfl⟩ := Options.mem_files_iff.1 hfile
    dsimp only
    exact hpublishes.published hcode family hfamily
  · intro place
    rcases hpublishes.changes place with hsame | hmade | ⟨family, hfamily, hplace, -, hfile⟩
    · exact Or.inl hsame
    · exact Or.inr (Or.inl hmade)
    · refine Or.inr (Or.inr ⟨_, Options.mem_files_iff.2 ⟨family, hfamily, rfl⟩, ?_⟩)
      dsimp only
      exact ⟨hplace, hfile⟩

/-- A preview of the headers of a catalogue prints them in frames, in the order of the families,
and changes nothing. What is printed determines the files in the frames, and these are what a
run with the same configuration that does not ask for a preview stores, in the same order. -/
theorem preview_read_back (h : parse args = .ok options) (hdryrun : options.dryrun = true)
    (hc : fs.Supplies options.schema c) :
    (fs.ran args).1.exit.code = 0 ∧
    (fs.ran args).1.stdout = String.join ((options.files c).map fun file =>
      "╭─[" ++ file.1 ++ "]\n" ++ file.2 ++ "╯\n") ∧
    Frame.files (fs.ran args).1.stdout = some (options.files c) ∧
    (fs.ran args).2 = fs ∧
    ∀ (args' : List String) (options' : Options) (fs' : FileSystem),
      parse args' = .ok options' → options'.dryrun = false → options'.check = false →
      options'.config = options.config → fs'.Supplies options'.schema c →
      fs'.Receives options'.directory (options.files c) →
        Stores options'.directory (options.files c) fs' (fs'.ran args') := by
  obtain ⟨hcode, hsame⟩ := ran_of_dryrun h hc hdryrun
  obtain ⟨ds, hload⟩ := hc.exists_load
  have hstdout : (fs.ran args).1.stdout = preview (c.headers options.config) := by
    rw [ran_of_supplies h hc, generate, if_pos hdryrun]
    rfl
  have hframable : ∀ header ∈ c.headers options.config, Framable header := by
    rw [Catalogue.headers, List.forall_mem_map]
    intro family hfamily
    exact Family.framable_header (Catalogue.wellNamed_of_mem hload hfamily) (accepted_of_parse h)
  refine ⟨hcode, ?_, ?_, hsame, ?_⟩
  · rw [hstdout, Options.files, List.map_map]
    rfl
  · rw [hstdout, files_preview hframable]
    rfl
  · intro args' options' fs' h' hdryrun' hcheck' hconfig hc' hreceives
    have hfiles : options'.files c = options.files c := by
      rw [Options.files, hconfig, Options.files]
    rw [← hfiles] at hreceives ⊢
    exact stores_of_publish h' hc' hdryrun' hcheck' hreceives

/-- To preview the headers of Lox. -/
def loxPreview : Options :=
  { loxOptions false with dryrun := true }

/-- The preview of the headers of Lox shows two files, which are stored if it is
not asked for. -/
theorem lox_preview_stored :
    ∃ (c : Catalogue) (files : List (String × String)),
      parse ["out", "--dryrun"] = .ok loxPreview ∧
      FileSystem.empty.Supplies none c ∧
      Frame.files (FileSystem.empty.ran ["out", "--dryrun"]).1.stdout = some files ∧
      files.map (·.1) = ["Expr.h", "Stmt.h"] ∧
      FileSystem.empty.Receives "out" files ∧
      Stores "out" files FileSystem.empty (FileSystem.empty.ran ["out"]) := by
  obtain ⟨c, hload, hnames⟩ := Catalogue.exists_load_of_isOk Lox.catalogue_isOk
  have hc : FileSystem.empty.Supplies none c := .lox hload
  have hpreview : parse ["out", "--dryrun"] = .ok loxPreview := by decide
  have hpublish : parse ["out"] = .ok (loxOptions false) := by decide
  have hreceives : FileSystem.empty.Receives "out" (loxPreview.files c) := by
    refine ⟨rfl, ?_⟩
    intro file hfile
    obtain ⟨family, hfamily, rfl⟩ := Options.mem_files_iff.1 hfile
    exact exists_write_lox hload hfamily _
  have hfileNames : (loxPreview.files c).map (·.1) =
      (c.families.map (·.basename)).map (Naming.headerFile {}) := by
    simp only [Options.files, Catalogue.headers, List.map_map]
    rfl
  rw [hnames] at hfileNames
  obtain ⟨-, -, hfiles, -, hstores⟩ := preview_read_back hpreview rfl hc
  refine ⟨c, loxPreview.files c, hpreview, hc, hfiles, hfileNames.trans (by decide), hreceives, ?_⟩
  exact hstores ["out"] _ FileSystem.empty hpublish rfl rfl rfl hc hreceives

end CommandLine

end TreeHeaders
