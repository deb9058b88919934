import TreeHeaders.CommandLine.Run
import TreeHeaders.Proofs.Arguments
import TreeHeaders.Proofs.Drift

set_option autoImplicit false

/-!
# Runs of the command

What a run of the command does to files and directories, and with which status it ends, for all
arguments and file systems (`CommandLine.status_and_changes`). Nothing changes before there is a
catalogue to generate headers from, and only a run that publishes them changes anything at all.
-/

namespace TreeHeaders

/-! ## The catalogue -/

/-- The schema gives the catalogue: that of Lox if there is no schema file, and otherwise that
of the document in the file. -/
inductive FileSystem.Supplies (fs : FileSystem) : Option String → Catalogue → Prop where
  | lox {c : Catalogue} (hload : Catalogue.load Lox.declarations = .ok c) : fs.Supplies none c
  | document {path text : String} {ds : List FamilyDeclaration} {c : Catalogue}
      (hread : fs.read path = .ok text.toUTF8) (hparse : Document.parse text = .ok ds)
      (hload : Catalogue.load ds = .ok c) : fs.Supplies (some path) c

theorem FileSystem.Supplies.exists_load {fs : FileSystem} {schema : Option String} {c : Catalogue}
    (h : fs.Supplies schema c) : ∃ ds, Catalogue.load ds = .ok c := by
  cases h with
  | lox hload => exact ⟨_, hload⟩
  | document _ _ hload => exact ⟨_, hload⟩

theorem mapError_eq_ok_iff {ε δ α : Type} {f : ε → δ} {x : Except ε α} {a : α} :
    x.mapError f = .ok a ↔ x = .ok a := by
  cases x with
  | error e => simp [Except.mapError]
  | ok b => simp [Except.mapError]

theorem exists_error_iff {ε α : Type} {x : Except ε α} :
    (∃ e, x = .error e) ↔ ¬ ∃ a, x = .ok a := by
  cases x with
  | error e => simp
  | ok a => simp

theorem Catalogue.ofDocument_eq_ok_iff {text : String} {c : Catalogue} :
    ofDocument text = .ok c ↔ ∃ ds, Document.parse text = .ok ds ∧ load ds = .ok c := by
  unfold ofDocument
  cases Document.parse text with
  | error m => simp
  | ok ds => simp [ofDeclarations, mapError_eq_ok_iff]

namespace CommandLine

theorem catalogueOf_eq_ok_iff {fs : FileSystem} {path : String} {c : Catalogue} :
    catalogueOf path (fs.read path) = .ok c ↔ fs.Supplies (some path) c := by
  constructor
  · intro h
    cases hread : fs.read path with
    | error e => simp [catalogueOf, hread] at h
    | ok bytes =>
      cases htext : String.fromUTF8? bytes with
      | none => simp [catalogueOf, hread, htext] at h
      | some text =>
        simp only [catalogueOf, hread, htext, mapError_eq_ok_iff,
          Catalogue.ofDocument_eq_ok_iff] at h
        obtain ⟨ds, hparse, hload⟩ := h
        rw [Text.fromUTF8?_eq_some_iff] at htext
        exact .document (htext ▸ hread) hparse hload
  · intro h
    cases h with
    | @document _ text ds _ hread hparse hload =>
      have htext : String.fromUTF8? text.toUTF8 = some text := Text.fromUTF8?_eq_some_iff.2 rfl
      simp only [catalogueOf, hread, htext, mapError_eq_ok_iff, Catalogue.ofDocument_eq_ok_iff]
      exact ⟨ds, hparse, hload⟩

/-- Loading the catalogue only reads, and gives the one that the schema gives. -/
theorem run_loadCatalogue (fs : FileSystem) (schema : Option String) :
    ∃ result, (loadCatalogue schema : StateM FileSystem (Except Message Catalogue)).run fs =
      (result, fs) ∧ ∀ c, result = .ok c ↔ fs.Supplies schema c := by
  cases schema with
  | none =>
    refine ⟨_, rfl, fun c => ?_⟩
    rw [mapError_eq_ok_iff, Catalogue.ofDeclarations, mapError_eq_ok_iff]
    refine ⟨.lox, ?_⟩
    rintro ⟨hload⟩
    exact hload
  | some path => exact ⟨_, rfl, fun c => catalogueOf_eq_ok_iff⟩

end CommandLine

/-! ## Runs -/

/-- What a run of the command with the arguments does. -/
def FileSystem.ran (fs : FileSystem) (args : List String) : CommandLine.Outcome × FileSystem :=
  (CommandLine.run args : StateM FileSystem CommandLine.Outcome).run fs

namespace CommandLine

variable {fs : FileSystem} {args : List String} {options : Options} {c : Catalogue}

theorem ran_of_stop {stop : Stop} (h : parse args = .error stop) :
    fs.ran args = (Outcome.ofStop stop, fs) := by
  rw [FileSystem.ran, run, h]
  rfl

/-- Without a catalogue, a run fails before anything is written. -/
theorem ran_of_not_supplies (h : parse args = .ok options)
    (hc : ¬ ∃ c, fs.Supplies options.schema c) :
    (fs.ran args).1.exit = .failure ∧ (fs.ran args).2 = fs := by
  obtain ⟨result, hresult, hiff⟩ := run_loadCatalogue fs options.schema
  rw [FileSystem.ran, run, h]
  simp only [execute, StateT.run_bind, hresult]
  cases result with
  | error message => exact ⟨rfl, rfl⟩
  | ok c => exact absurd ⟨c, (hiff c).1 rfl⟩ hc

/-- With a catalogue, a run previews, inspects or publishes its headers. -/
theorem ran_of_supplies (h : parse args = .ok options) (hc : fs.Supplies options.schema c) :
    fs.ran args = (generate options c : StateM FileSystem Outcome).run fs := by
  obtain ⟨result, hresult, hiff⟩ := run_loadCatalogue fs options.schema
  obtain rfl := (hiff c).2 hc
  rw [FileSystem.ran, run, h]
  simp only [execute, StateT.run_bind, hresult]
  rfl

/-! ## What a run does -/

/-- The path of the header of a family. -/
def Options.headerPath (options : Options) (family : Family) : String :=
  joinPath options.directory (family.basename ++ "." ++ options.config.extension)

/-- The headers of a catalogue that have drifted in the directory. -/
def Options.drift (options : Options) (c : Catalogue) (fs : FileSystem) : List (String × Status) :=
  Header.drifted options.directory
    (fun header => (fs.read (header.path options.directory)).toOption) (c.headers options.config)

/-- A run that checks the headers of a catalogue changes nothing. Its status is two if some
header cannot be read, and otherwise one if some have drifted. -/
structure Checks (options : Options) (c : Catalogue) (fs : FileSystem)
    (ran : Outcome × FileSystem) : Prop where
  unchanged : ran.2 = fs
  unreadable : ran.1.exit.code = 2 ↔
    ∃ family ∈ c.families, fs.Unreadable (options.headerPath family)
  outOfDate : ran.1.exit.code = 1 ↔
    (¬ ∃ family ∈ c.families, fs.Unreadable (options.headerPath family)) ∧ options.drift c fs ≠ []
  upToDate : ran.1.exit.code = 0 ↔
    (¬ ∃ family ∈ c.families, fs.Unreadable (options.headerPath family)) ∧ options.drift c fs = []

/-- A run that publishes the headers of a catalogue makes directories along the path of the
directory, gives the files of families the texts of their headers, and changes nothing else. Its
status is two if the directory cannot be made or some header cannot be written. Otherwise it is
zero, and every header is published. -/
structure Publishes (options : Options) (c : Catalogue) (fs : FileSystem)
    (ran : Outcome × FileSystem) : Prop where
  changes : ∀ place, ran.2.kind? place = fs.kind? place ∨
    fs.kind? place = none ∧ ran.2.kind? place = some .directory ∧
      Path.Along options.directory place ∨
    ∃ family ∈ c.families, place = Path.place (Path.pieces (options.headerPath family)) ∧
      ¬ fs.IsDirectory place ∧
      ran.2.kind? place = some (.file (family.header options.config).contents.toUTF8)
  failure : ran.1.exit.code = 2 ↔
    (∃ e, (fs.createDirectories options.directory).1 = .error e) ∨
      ∃ family ∈ c.families, ∃ e, (fs.createDirectories options.directory).2.write
        (options.headerPath family) (family.header options.config).contents.toUTF8 = .error e
  otherwise : ran.1.exit.code = 2 ∨ ran.1.exit.code = 0
  published : ran.1.exit.code = 0 → ∀ family ∈ c.families,
    ran.2.read (options.headerPath family) =
      .ok (family.header options.config).contents.toUTF8

/-- A run that previews headers succeeds and changes nothing. -/
theorem ran_of_dryrun (h : parse args = .ok options) (hc : fs.Supplies options.schema c)
    (hdryrun : options.dryrun = true) : (fs.ran args).1.exit.code = 0 ∧ (fs.ran args).2 = fs := by
  rw [ran_of_supplies h hc, generate, if_pos hdryrun]
  exact ⟨rfl, rfl⟩

/-- An inspection is stopped by a family whose header cannot be read. -/
theorem exists_error_of_unreadable {family : Family} (hfamily : family ∈ c.families)
    (h : fs.Unreadable (options.headerPath family)) :
    ∃ e, (fs.inspected options.directory (c.headers options.config)).result = .error e := by
  rw [FileSystem.result_inspected_eq_error_iff]
  exact ⟨family.header options.config, List.mem_map.2 ⟨family, hfamily, rfl⟩, h⟩

/-- An inspection that is not stopped finds the headers that have drifted. -/
theorem result_inspected_eq_drift
    (h : ¬ ∃ family ∈ c.families, fs.Unreadable (options.headerPath family)) :
    (fs.inspected options.directory (c.headers options.config)).result =
      .ok (options.drift c fs) := by
  apply FileSystem.result_inspected_of_read
  intro header hheader
  obtain ⟨family, hfamily, rfl⟩ := List.mem_map.1 hheader
  exact FileSystem.read_of_not_unreadable fun hpath => h ⟨family, hfamily, hpath⟩

theorem code_inspectionOutcome (verbosity : Nat) (events : List Event) (i : Inspection) :
    (inspectionOutcome verbosity events i).exit.code =
      match i.result with
      | .error _ => 2
      | .ok [] => 0
      | .ok (_ :: _) => 1 := by
  unfold inspectionOutcome
  cases i.result with
  | error e => rfl
  | ok stale =>
    cases stale with
    | nil => rfl
    | cons first rest => rfl

theorem checks_of_check (h : parse args = .ok options) (hc : fs.Supplies options.schema c)
    (hcheck : options.check = true) : Checks options c fs (fs.ran args) := by
  have hdryrun : ¬ options.dryrun = true := by simp [not_dryrun_of_check h hcheck]
  have hran : fs.ran args = (inspectionOutcome options.verbosity (catalogueEvents c)
      (fs.inspected options.directory (c.headers options.config)), fs) := by
    rw [ran_of_supplies h hc, generate, if_neg hdryrun, if_pos hcheck, StateT.run_bind,
      FileSystem.run_inspect]
    rfl
  have hcode := code_inspectionOutcome options.verbosity (catalogueEvents c)
    (fs.inspected options.directory (c.headers options.config))
  rw [hran]
  by_cases hunreadable : ∃ family ∈ c.families, fs.Unreadable (options.headerPath family)
  · obtain ⟨family, hfamily, hpath⟩ := hunreadable
    obtain ⟨e, he⟩ := exists_error_of_unreadable hfamily hpath
    rw [he] at hcode
    have hsome : ∃ family ∈ c.families, fs.Unreadable (options.headerPath family) :=
      ⟨family, hfamily, hpath⟩
    refine ⟨rfl, iff_of_true hcode hsome, ?_, ?_⟩
    · exact iff_of_false (by simp [hcode]) fun hnone => hnone.1 hsome
    · exact iff_of_false (by simp [hcode]) fun hnone => hnone.1 hsome
  · rw [result_inspected_eq_drift hunreadable] at hcode
    cases hdrift : options.drift c fs with
    | nil =>
      rw [hdrift] at hcode
      refine ⟨rfl, iff_of_false (by simp [hcode]) hunreadable, ?_, ?_⟩
      · exact iff_of_false (by simp [hcode]) fun hnone => hnone.2 hdrift
      · exact iff_of_true hcode ⟨hunreadable, hdrift⟩
    | cons first rest =>
      rw [hdrift] at hcode
      have hne : options.drift c fs ≠ [] := by simp [hdrift]
      refine ⟨rfl, iff_of_false (by simp [hcode]) hunreadable, ?_, ?_⟩
      · exact iff_of_true hcode ⟨hunreadable, hne⟩
      · exact iff_of_false (by simp [hcode]) fun hnone => hne hnone.2

theorem code_publicationOutcome (verbosity : Nat) (events : List Event) (p : Publication) :
    (publicationOutcome verbosity events p).exit.code = if p.failure = none then 0 else 2 := by
  unfold publicationOutcome
  cases p.failure with
  | none => rfl
  | some e => rfl

/-- Publishing is stopped if the directory cannot be made, or the header of a family cannot be
written. -/
theorem failure_published_ne_none_iff :
    (fs.published options.directory (c.headers options.config)).1.failure ≠ none ↔
      (∃ e, (fs.createDirectories options.directory).1 = .error e) ∨
        ∃ family ∈ c.families, ∃ e, (fs.createDirectories options.directory).2.write
          (options.headerPath family) (family.header options.config).contents.toUTF8 =
            .error e := by
  rw [ne_eq, FileSystem.failure_published_eq_none_iff, not_and_or, Catalogue.headers,
    List.forall_mem_map]
  refine or_congr ?_ ?_
  · rw [exists_error_iff, Unique.exists_iff]
  · simp only [exists_error_iff, not_forall, exists_prop]
    rfl

theorem publishes_of_publish (h : parse args = .ok options) (hc : fs.Supplies options.schema c)
    (hdryrun : options.dryrun = false) (hcheck : options.check = false) :
    Publishes options c fs (fs.ran args) := by
  have hran : fs.ran args = (publicationOutcome options.verbosity (catalogueEvents c)
      (fs.published options.directory (c.headers options.config)).1,
        (fs.published options.directory (c.headers options.config)).2) := by
    rw [ran_of_supplies h hc, generate, if_neg (by simp [hdryrun]), if_neg (by simp [hcheck]),
      StateT.run_bind]
    rfl
  have hcode := code_publicationOutcome options.verbosity (catalogueEvents c)
    (fs.published options.directory (c.headers options.config)).1
  obtain ⟨ds, hload⟩ := hc.exists_load
  have hp := Catalogue.publishable_headers hload (accepted_of_parse h).extension
  rw [hran]
  refine ⟨?_, ?_, ?_, ?_⟩
  · intro place
    rcases fs.published_changes options.directory (c.headers options.config) place with
      hsame | hmade | ⟨header, hheader, hplace, hfree, hfile⟩
    · exact Or.inl hsame
    · exact Or.inr (Or.inl hmade)
    · obtain ⟨family, hfamily, rfl⟩ := List.mem_map.1 hheader
      exact Or.inr (Or.inr ⟨family, hfamily, hplace, hfree, hfile⟩)
  · rw [← failure_published_ne_none_iff, hcode]
    split
    · next hnone => simp [hnone]
    · next hsome => simp [hsome]
  · rw [hcode]
    split
    · exact Or.inr rfl
    · exact Or.inl rfl
  · intro hzero family hfamily
    have hnone : (fs.published options.directory (c.headers options.config)).1.failure = none := by
      by_contra hsome
      rw [hcode, if_neg hsome] at hzero
      exact absurd hzero (by decide)
    obtain ⟨-, hholds⟩ := FileSystem.holds_published hp hnone
    have hmem : family.header options.config ∈ c.headers options.config :=
      List.mem_map.2 ⟨family, hfamily, rfl⟩
    have hread := hholds.read hmem
    rw [Option.elim_some] at hread
    exact hread

/-- A request for help or for the version succeeds, and all other arguments that ask for no run
fail, without a change to any file. So do arguments with a schema that gives no catalogue.
Otherwise the headers of the catalogue are previewed, which changes nothing and succeeds, or
they are checked or published.

The file systems have no permissions and no links. A place in them is known by one spelling
of its path, so a run that names one file both from the top and from the working directory is
not among those meant. -/
theorem status_and_changes (args : List String) (fs : FileSystem) :
    (∀ stop, parse args = .error stop →
      (fs.ran args).2 = fs ∧
        (fs.ran args).1.exit.code =
          match stop with
          | .help _ => 0
          | .version => 0
          | .usage _ => 2) ∧
    ∀ options, parse args = .ok options →
      ((¬ ∃ c, fs.Supplies options.schema c) →
        (fs.ran args).1.exit.code = 2 ∧ (fs.ran args).2 = fs) ∧
      ∀ c, fs.Supplies options.schema c →
        (options.dryrun = true → (fs.ran args).1.exit.code = 0 ∧ (fs.ran args).2 = fs) ∧
        (options.check = true → Checks options c fs (fs.ran args)) ∧
        (options.dryrun = false → options.check = false →
          Publishes options c fs (fs.ran args)) := by
  refine ⟨?_, ?_⟩
  · intro stop hstop
    rw [ran_of_stop hstop]
    cases stop with
    | usage e => exact ⟨rfl, rfl⟩
    | help full => exact ⟨rfl, rfl⟩
    | version => exact ⟨rfl, rfl⟩
  · intro options hoptions
    refine ⟨?_, ?_⟩
    · intro hnone
      obtain ⟨hexit, hsame⟩ := ran_of_not_supplies hoptions hnone
      exact ⟨congrArg ExitStatus.code hexit, hsame⟩
    · intro c hc
      exact ⟨ran_of_dryrun hoptions hc, checks_of_check hoptions hc,
        publishes_of_publish hoptions hc⟩

/-! ## From nothing -/

/-- To publish or to check the headers of Lox in `out`. -/
def loxOptions (check : Bool) : Options where
  directory := "out"
  schema := none
  dryrun := false
  check := check
  verbosity := 0
  config := {}

theorem headerPath_lox {c : Catalogue} (h : Catalogue.load Lox.declarations = .ok c) (check : Bool)
    {family : Family} (hfamily : family ∈ c.families) :
    (loxOptions check).headerPath family = "out/Expr.h" ∨
      (loxOptions check).headerPath family = "out/Stmt.h" := by
  obtain ⟨c', hload, hnames⟩ := Catalogue.exists_load_of_isOk Lox.catalogue_isOk
  obtain rfl : c = c' := Except.ok.inj (h.symm.trans hload)
  have hname : family.basename ∈ Lox.declarations.map (·.basename) := by
    rw [← hnames]
    exact List.mem_map.2 ⟨family, hfamily, rfl⟩
  have hcases : family.basename = "Expr" ∨ family.basename = "Stmt" := by
    simpa [Lox.declarations, Lox.expressions, Lox.statements] using hname
  refine hcases.imp ?_ ?_
  · intro hbasename
    simp only [Options.headerPath, loxOptions, hbasename]
    decide
  · intro hbasename
    simp only [Options.headerPath, loxOptions, hbasename]
    decide

theorem read_empty_lox {c : Catalogue} (h : Catalogue.load Lox.declarations = .ok c)
    {family : Family} (hfamily : family ∈ c.families) :
    FileSystem.empty.read ((loxOptions true).headerPath family) = .error .notFound := by
  rcases headerPath_lox h true hfamily with hpath | hpath
  · rw [hpath]
    rfl
  · rw [hpath]
    rfl

theorem exists_write_lox {c : Catalogue} (h : Catalogue.load Lox.declarations = .ok c)
    {family : Family} (hfamily : family ∈ c.families) (bytes : ByteArray) :
    ∃ done, (FileSystem.empty.createDirectories "out").2.write
      ((loxOptions false).headerPath family) bytes = .ok done := by
  rcases headerPath_lox h false hfamily with hpath | hpath
  · rw [hpath]
    exact ⟨_, rfl⟩
  · rw [hpath]
    exact ⟨_, rfl⟩

/-- With no schema, the headers of Lox are published in an empty directory, while a check finds
that they are missing there. -/
theorem lox_published_or_missing :
    ∃ c, FileSystem.empty.Supplies none c ∧
      (FileSystem.empty.ran ["out"]).1.exit.code = 0 ∧
      (∀ family ∈ c.families,
        (FileSystem.empty.ran ["out"]).2.read ((loxOptions false).headerPath family) =
          .ok (family.header {}).contents.toUTF8) ∧
      (FileSystem.empty.ran ["out", "--check"]).1.exit.code = 1 ∧
      (FileSystem.empty.ran ["out", "--check"]).2 = FileSystem.empty := by
  obtain ⟨c, hload, hnames⟩ := Catalogue.exists_load_of_isOk Lox.catalogue_isOk
  have hc : FileSystem.empty.Supplies none c := .lox hload
  have hpublish : parse ["out"] = .ok (loxOptions false) := by decide
  have hcheck : parse ["out", "--check"] = .ok (loxOptions true) := by decide
  obtain ⟨-, -, hpublishes⟩ := ((status_and_changes ["out"] FileSystem.empty).2 _ hpublish).2 c hc
  obtain ⟨-, hchecks, -⟩ :=
    ((status_and_changes ["out", "--check"] FileSystem.empty).2 _ hcheck).2 c hc
  have hpublishes := hpublishes rfl rfl
  have hchecks := hchecks rfl
  have hwritten : (FileSystem.empty.ran ["out"]).1.exit.code = 0 := by
    refine hpublishes.otherwise.resolve_left ?_
    rw [hpublishes.failure]
    rintro (⟨e, he⟩ | ⟨family, hfamily, he⟩)
    · exact exists_error_iff.1 ⟨e, he⟩ ⟨(), rfl⟩
    · exact exists_error_iff.1 he (exists_write_lox hload hfamily _)
  refine ⟨c, hc, hwritten, hpublishes.published hwritten, hchecks.outOfDate.2 ⟨?_, ?_⟩,
    hchecks.unchanged⟩
  · rintro ⟨family, hfamily, e, he, hne⟩
    rw [read_empty_lox hload hfamily] at he
    exact hne (Except.error.inj he).symm
  · intro hdrift
    rw [Options.drift, Header.drifted, List.map_eq_nil_iff, List.filter_eq_nil_iff] at hdrift
    obtain ⟨family, hfamily⟩ : ∃ family, family ∈ c.families := by
      refine List.exists_mem_of_ne_nil _ fun hnil => ?_
      rw [hnil] at hnames
      exact absurd hnames (by decide)
    refine hdrift (family.header {}) (List.mem_map.2 ⟨family, hfamily, rfl⟩) ?_
    have hread : FileSystem.empty.read ((family.header {}).path "out") = .error .notFound :=
      read_empty_lox hload hfamily
    simp [loxOptions, hread, Except.toOption]

end CommandLine

end TreeHeaders
