import TreeHeaders.Proofs.Recovery
import TreeHeaders.Publication

set_option autoImplicit false

/-!
# Inspecting headers

Inspecting finds nothing exactly when every header that is generated is in the directory as it
is generated (`FileSystem.result_inspected_eq_nil_iff`). Since the text of a header determines
its family, this tells which changes to a catalogue an inspection can notice. It looks at the
headers of the catalogue that is given and at nothing else: a family that is changed or added is
noticed, but a header that no family accounts for any more is not.
-/

namespace TreeHeaders

/-! ## What inspecting finds -/

/-- Adding a status adds nothing to the headers that are not up to date only if it says so. -/
theorem Inspection.result_cons_eq_nil_iff {inspection : Inspection} {path : String}
    {status : Status} :
    { inspection with statuses := (path, status) :: inspection.statuses }.result = .ok [] ↔
      status = .upToDate ∧ inspection.result = .ok [] := by
  unfold result
  cases inspection.failure with
  | some e => simp
  | none =>
    by_cases hstatus : status = .upToDate
    · simp [stale, hstatus]
    · simp [stale, hstatus]

/-- A text is read from the bytes that it is written as, and from no others. -/
theorem Text.fromUTF8?_eq_some_iff {bytes : ByteArray} {text : String} :
    String.fromUTF8? bytes = some text ↔ bytes = text.toUTF8 := by
  unfold String.fromUTF8?
  split
  · next hvalid =>
    rw [Option.some.injEq, ← String.toByteArray_inj]
    rfl
  · next hinvalid =>
    refine iff_of_false (by simp) ?_
    rintro rfl
    exact hinvalid text.isValidUTF8

theorem Header.status_eq_upToDate_iff {header : Header} {read : Except DiskError ByteArray} :
    header.status read = .ok .upToDate ↔ read = .ok header.contents.toUTF8 := by
  cases read with
  | error e => cases e <;> simp [status]
  | ok contents =>
    rw [status, Except.ok.injEq, Except.ok.injEq, ← Text.fromUTF8?_eq_some_iff]
    split
    · next heq => simp [heq]
    · next hne => simpa using hne

namespace FileSystem

/-- What inspecting headers in a directory of the file system finds. -/
def inspected (fs : FileSystem) (directory : String) (headers : List Header) : Inspection :=
  ((inspect directory headers : StateM FileSystem Inspection).run fs).1

/-- One header is inspected after the other, and nothing is written in between. -/
theorem inspected_cons (fs : FileSystem) (directory : String) (header : Header)
    (rest : List Header) :
    fs.inspected directory (header :: rest) =
      match header.status (fs.read (header.path directory)) with
      | .error e => { statuses := [], failure := some (.read (header.path directory) e) }
      | .ok status =>
        let found := fs.inspected directory rest
        { found with statuses := (header.path directory, status) :: found.statuses } := by
  rw [inspected, inspect, StateT.run_bind]
  change ((match header.status (fs.read (header.path directory)) with
    | .error e => _
    | .ok status => _ : StateM FileSystem Inspection).run fs).1 = _
  cases header.status (fs.read (header.path directory)) with
  | error e => rfl
  | ok status => rfl

/-- An inspection leaves all as it is. -/
theorem run_inspect (fs : FileSystem) (directory : String) (headers : List Header) :
    (inspect directory headers : StateM FileSystem Inspection).run fs =
      (fs.inspected directory headers, fs) := by
  refine Prod.ext rfl ?_
  induction headers with
  | nil => rfl
  | cons header rest ih =>
    rw [inspect, StateT.run_bind]
    change ((match header.status (fs.read (header.path directory)) with
      | .error e => _
      | .ok status => _ : StateM FileSystem Inspection).run fs).2 = _
    cases header.status (fs.read (header.path directory)) with
    | error e => rfl
    | ok status => exact ih

/-- Inspecting finds nothing exactly when every file holds the text of its header. -/
theorem result_inspected_eq_nil_iff {fs : FileSystem} {directory : String} {headers : List Header} :
    (fs.inspected directory headers).result = .ok [] ↔
      ∀ header ∈ headers, fs.read (header.path directory) = .ok header.contents.toUTF8 := by
  induction headers with
  | nil =>
    have hnil : (fs.inspected directory []).result = .ok [] := rfl
    simp [hnil]
  | cons header rest ih =>
    rw [List.forall_mem_cons, ← Header.status_eq_upToDate_iff, inspected_cons, ← ih]
    cases header.status (fs.read (header.path directory)) with
    | error e => simp [Inspection.result]
    | ok status => simp only [Inspection.result_cons_eq_nil_iff, Except.ok.injEq]

end FileSystem

/-! ## Which changes are noticed -/

namespace Catalogue

/-- Inspecting the headers of the catalogue in a directory finds nothing. -/
def UpToDate (c : Catalogue) (config : Config) (directory : String) (fs : FileSystem) : Prop :=
  (fs.inspected directory (c.headers config)).result = .ok []

variable {ds₁ ds₂ : List FamilyDeclaration} {c c₁ c₂ : Catalogue} {config : Config}
  {directory : String} {fs : FileSystem}

theorem upToDate_iff :
    c.UpToDate config directory fs ↔ ∀ family ∈ c.families,
      fs.read ((family.header config).path directory) =
        .ok (family.header config).contents.toUTF8 := by
  rw [UpToDate, FileSystem.result_inspected_eq_nil_iff, headers, List.forall_mem_map]

/-- Families of one name, of which the same text is in the directory, are the same. -/
theorem eq_of_upToDate (h₁ : load ds₁ = .ok c₁) (h₂ : load ds₂ = .ok c₂) (hc : config.Accepted)
    (hup₁ : c₁.UpToDate config directory fs) (hup₂ : c₂.UpToDate config directory fs)
    {left right : Family} (hl : left ∈ c₁.families) (hr : right ∈ c₂.families)
    (hname : left.basename = right.basename) : left = right := by
  have hpath : (left.header config).path directory = (right.header config).path directory := by
    rw [Header.path, Header.path, Family.header, Family.header, hname]
  have hleft := upToDate_iff.1 hup₁ left hl
  have hright := upToDate_iff.1 hup₂ right hr
  rw [hpath, hright, Except.ok.injEq] at hleft
  have hcontents : (right.header config).contents = (left.header config).contents :=
    String.toByteArray_inj.1 hleft
  calc
    left = Family.ofText left.basename (left.header config).contents :=
      (ofText_contents h₁ hc hl).symm
    _ = Family.ofText right.basename (right.header config).contents := by rw [hname, hcontents]
    _ = right := ofText_contents h₂ hc hr

/-- Loaded catalogues with headers of the same names and texts are the same. -/
theorem eq_of_texts_eq (h₁ : load ds₁ = .ok c₁) (h₂ : load ds₂ = .ok c₂) (hc : config.Accepted)
    (heq : (c₁.headers config).map (fun header => (header.family, header.contents)) =
      (c₂.headers config).map (fun header => (header.family, header.contents))) : c₁ = c₂ := by
  have hread := congrArg (List.map fun entry => Family.ofText entry.1 entry.2) heq
  rw [List.map_map, List.map_map] at hread
  have hfamilies : c₁.families = c₂.families :=
    ((map_ofText_headers h₁ hc).symm.trans hread).trans (map_ofText_headers h₂ hc)
  exact congrArg Catalogue.mk hfamilies

/-- The texts of its headers determine a loaded catalogue. Where they are up to date, those of
another catalogue are up to date as well exactly if each of its families is one of the first
catalogue, or is called like none of them and happens to have its header in the directory. So a
family that is changed is noticed, and so is one that is added, unless its header is there
already; the families that are left out, and the order of those that are kept, are not. -/
theorem headers_determine_catalogue (h₁ : load ds₁ = .ok c₁) (h₂ : load ds₂ = .ok c₂)
    (hc : config.Accepted) :
    ((c₁.headers config).map (fun header => (header.family, header.contents)) =
        (c₂.headers config).map (fun header => (header.family, header.contents)) → c₁ = c₂) ∧
      ∀ (directory : String) (fs : FileSystem), c₁.UpToDate config directory fs →
        (c₂.UpToDate config directory fs ↔ ∀ family ∈ c₂.families,
          family ∈ c₁.families ∨
            family.basename ∉ c₁.families.map (·.basename) ∧
              fs.read ((family.header config).path directory) =
                .ok (family.header config).contents.toUTF8) := by
  refine ⟨eq_of_texts_eq h₁ h₂ hc, ?_⟩
  intro directory fs hup₁
  constructor
  · intro hup₂ family hfamily
    by_cases hmem : family.basename ∈ c₁.families.map (·.basename)
    · obtain ⟨other, hother, hname⟩ := List.mem_map.1 hmem
      rw [← eq_of_upToDate h₁ h₂ hc hup₁ hup₂ hother hfamily hname]
      exact Or.inl hother
    · exact Or.inr ⟨hmem, upToDate_iff.1 hup₂ family hfamily⟩
  · intro hall
    rw [upToDate_iff]
    intro family hfamily
    rcases hall family hfamily with hmem | ⟨-, hread⟩
    · exact upToDate_iff.1 hup₁ family hmem
    · exact hread

end Catalogue

/-! ## Two families -/

/-- Expressions, rendered as text or not, and statements that print them. -/
def expressionsAndStatements (render : Bool) : List FamilyDeclaration :=
  [{ basename := "Expr", render,
     variants := [{ name := "Literal", fields := [{ type := "number", name := "value" }] }] },
   { basename := "Stmt",
     variants := [{ name := "Print", fields := [{ type := "Expr", name := "value" }] }] }]

namespace Catalogue

/-- A working directory in which `out` holds the two headers. -/
def published (expressions statements : ByteArray) : FileSystem where
  roots := [(Place.here.base,
    [("out", .directory [("Expr.h", .file expressions), ("Stmt.h", .file statements)])])]

theorem isOk_load_expressionsAndStatements (render : Bool) :
    (load (expressionsAndStatements render)).isOk = true := by
  cases render with
  | false => decide +kernel
  | true => decide +kernel

/-- The headers of expressions and statements can be up to date. -/
theorem exists_upToDate {c : Catalogue} (h : c.families.map (·.basename) = ["Expr", "Stmt"]) :
    ∃ fs, c.UpToDate {} "out" fs := by
  obtain ⟨first, rest, hfamilies, hfirst, hrest⟩ := List.map_eq_cons_iff.1 h
  obtain ⟨second, tail, rfl, hsecond, htail⟩ := List.map_eq_cons_iff.1 hrest
  obtain rfl : tail = [] := List.map_eq_nil_iff.1 htail
  have hpaths : (first.header {}).path "out" = "out/Expr.h" ∧
      (second.header {}).path "out" = "out/Stmt.h" := by
    simp only [Header.path, Family.header, hfirst, hsecond]
    decide
  refine ⟨published (first.header {}).contents.toUTF8 (second.header {}).contents.toUTF8, ?_⟩
  rw [upToDate_iff, hfamilies, List.forall_mem_cons, List.forall_mem_singleton, hpaths.1, hpaths.2]
  exact ⟨rfl, rfl⟩

/-- If the expressions are to be rendered, their header is another one, and an
inspection tells. -/
theorem changed_family_noticed :
    ∃ c c' fs, load (expressionsAndStatements false) = .ok c ∧
      load (expressionsAndStatements true) = .ok c' ∧ Config.Accepted {} ∧
      c.headers {} ≠ c'.headers {} ∧ c.UpToDate {} "out" fs ∧ ¬ c'.UpToDate {} "out" fs := by
  obtain ⟨c, hc, hnames⟩ := exists_load_of_isOk (isOk_load_expressionsAndStatements false)
  obtain ⟨c', hc', family, hfamily, hdenotes⟩ := exists_denotes_of_isOk (i := 0)
    (isOk_load_expressionsAndStatements true) rfl
  obtain ⟨fs, hup⟩ := exists_upToDate hnames
  have hconfig : Config.Accepted {} := ⟨by decide, by decide⟩
  obtain ⟨hinjective, hnoticed⟩ := headers_determine_catalogue hc hc' hconfig
  have hmem : family ∈ c'.families := List.mem_of_getElem? hfamily
  have hnew : family ∉ c.families := by
    intro hold
    obtain ⟨i, d, hd, -, hdenotes'⟩ := exists_denotes_of_mem hc hold
    have hrender : ∀ d ∈ expressionsAndStatements false, d.render = false := by decide
    have hfalse := hdenotes'.rendersText.trans (hrender d (List.mem_of_getElem? hd))
    exact absurd (hfalse.symm.trans hdenotes.rendersText) (by decide)
  refine ⟨c, c', fs, hc, hc', hconfig, ?_, hup, ?_⟩
  · intro heq
    rw [hinjective (by rw [heq])] at hnew
    exact hnew hmem
  · rw [hnoticed "out" fs hup]
    intro hall
    rcases hall family hmem with hold | ⟨hother, -⟩
    · exact hnew hold
    · rw [hnames, hdenotes.basename] at hother
      exact hother (by decide)

/-- Loading the expressions alone gives the first of the two families. -/
theorem load_expressions :
    (load (expressionsAndStatements false)).toOption.map (·.families.take 1) =
      (load ((expressionsAndStatements false).take 1)).toOption.map (·.families) := by
  decide +kernel

/-- If the statements are left out, the catalogue is another one, but no inspection tells: the
header of the expressions is still what it was, and that of the statements is not looked at. -/
theorem dropped_family_unnoticed :
    ∃ c c' fs, load (expressionsAndStatements false) = .ok c ∧
      load ((expressionsAndStatements false).take 1) = .ok c' ∧ c ≠ c' ∧
      c.UpToDate {} "out" fs ∧ c'.UpToDate {} "out" fs := by
  obtain ⟨c, hc, hnames⟩ := exists_load_of_isOk (isOk_load_expressionsAndStatements false)
  obtain ⟨c', hc', hnames'⟩ := exists_load_of_isOk
    (show (load ((expressionsAndStatements false).take 1)).isOk = true by decide +kernel)
  obtain ⟨fs, hup⟩ := exists_upToDate hnames
  have hkept := load_expressions
  rw [hc, hc'] at hkept
  simp only [Except.toOption, Option.map_some, Option.some.injEq] at hkept
  refine ⟨c, c', fs, hc, hc', ?_, hup, ?_⟩
  · rintro rfl
    exact absurd (hnames.symm.trans hnames') (by decide)
  · rw [upToDate_iff, ← hkept]
    exact fun family hfamily => upToDate_iff.1 hup family (List.mem_of_mem_take hfamily)

end Catalogue

end TreeHeaders
