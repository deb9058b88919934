import TreeHeaders.CommandLine.Value
import TreeHeaders.Publication
import TreeHeaders.Proofs.DirectoryCreation
import TreeHeaders.Proofs.Inclusion

set_option autoImplicit false

/-!
# Where headers are published

The path of a header is that of the directory and one more piece, its file name. So all headers
of a catalogue lie in one directory, under different names (`Header.place_eq`,
`Catalogue.publishable_headers`), and where one of them can be read or written, the directory is
there. The names stay different where case is ignored
(`Catalogue.fileNames_differ_without_case`).
-/

namespace TreeHeaders

/-! ## Joining paths -/

namespace Text

theorem splitAt_of_notMem {sep : Char} {cs : List Char} (h : sep ∉ cs) : splitAt sep cs = [cs] := by
  induction cs with
  | nil => rfl
  | cons c cs ih =>
    rw [List.mem_cons, not_or] at h
    rw [splitAt, if_neg (Ne.symm h.1), ih h.2]
    rfl

/-- Characters are split at a separator for themselves on both sides of it. -/
theorem splitAt_append_cons (sep : Char) (left right : List Char) :
    splitAt sep (left ++ sep :: right) = splitAt sep left ++ splitAt sep right := by
  induction left with
  | nil => simp [splitAt]
  | cons c left ih =>
    rw [List.cons_append, splitAt, splitAt, ih]
    split
    · rfl
    · cases hleft : splitAt sep left with
      | nil => exact absurd hleft (splitAt_ne_nil sep left)
      | cons piece pieces => rfl

end Text

namespace Path

theorem pieces_append_slash (left right : String) :
    pieces (left ++ "/" ++ right) = pieces left ++ pieces right := by
  have hchars : (left ++ "/" ++ right).toList = left.toList ++ '/' :: right.toList := by simp
  rw [pieces, hchars, Text.splitAt_append_cons, List.map_append]
  rfl

theorem pieces_of_notMem {name : String} (h : '/' ∉ name.toList) : pieces name = [name] := by
  rw [pieces, Text.splitAt_of_notMem h]
  simp

/-- The pieces that lead to the files in a directory. -/
def within (directory : String) : List String :=
  if directory = "" then []
  else if directory.toList.getLast? = some '/' then (pieces directory).dropLast
  else pieces directory

theorem exists_eq_append_slash {directory : String} (h : directory.toList.getLast? = some '/') :
    ∃ front, directory = front ++ "/" := by
  obtain ⟨front, hfront⟩ := List.getLast?_eq_some_iff.1 h
  refine ⟨String.ofList front, ?_⟩
  apply String.toList_injective
  simp [hfront]

theorem pieces_append_slash_empty (front : String) :
    pieces (front ++ "/") = pieces front ++ [""] := by
  have hslash := pieces_append_slash front ""
  rwa [String.append_empty] at hslash

/-- The path of a file in a directory. -/
theorem pieces_joinPath (directory : String) {file : String} (h : '/' ∉ file.toList) :
    pieces (joinPath directory file) = within directory ++ [file] := by
  unfold joinPath within
  by_cases hempty : directory = ""
  · simp [hempty, pieces_of_notMem h]
  · by_cases hslash : directory.toList.getLast? = some '/'
    · obtain ⟨front, rfl⟩ := exists_eq_append_slash hslash
      rw [if_pos (by simp), if_neg hempty, if_pos hslash, pieces_append_slash,
        pieces_of_notMem h, pieces_append_slash_empty, List.dropLast_concat]
    · rw [if_neg (by simp [hempty, hslash]), if_neg hempty, if_neg hslash, pieces_append_slash,
        pieces_of_notMem h]

/-- The path of a file in a directory starts with that of the directory. -/
theorem exists_joinPath_eq (directory file : String) :
    ∃ middle, joinPath directory file = directory ++ middle := by
  unfold joinPath
  split
  · exact ⟨file, rfl⟩
  · exact ⟨"/" ++ file, String.append_assoc⟩

end Path

namespace FileSystem

variable {fs : FileSystem} {directory : String}

/-- A trailing `/` does not change where the path of a directory leads. -/
theorem leads_within_iff (hne : directory ≠ "") :
    fs.Leads (Path.origin (Path.within directory)) (Path.within directory) ↔
      fs.Leads (Path.origin (Path.pieces directory)) (Path.pieces directory) := by
  unfold Path.within
  rw [if_neg hne]
  split
  · next hslash =>
    obtain ⟨front, rfl⟩ := Path.exists_eq_append_slash hslash
    obtain ⟨first, rest, hfront⟩ := List.exists_cons_of_ne_nil (Path.pieces_ne_nil front)
    have horigin : Path.origin (Path.pieces front ++ [""]) = Path.origin (Path.pieces front) := by
      rw [hfront]
      rfl
    rw [Path.pieces_append_slash_empty, List.dropLast_concat, horigin,
      leads_append_of_staysPut (by simp [Path.staysPut])]
  · rfl

/-- A directory that has been made is there for the files in it. -/
theorem leads_within_of_createDirectories (h : (fs.createDirectories directory).1 = .ok ()) :
    (fs.createDirectories directory).2.Leads (Path.origin (Path.within directory))
      (Path.within directory) := by
  by_cases hne : directory = ""
  · rw [Path.within, if_pos hne]
    exact isDirectory_base _ _
  · exact (leads_within_iff hne).2 (leads_of_createDirectories hne h)

end FileSystem

/-! ## Places of headers -/

namespace Header

/-- The place to which a header is published. -/
def place (directory : String) (header : Header) : Place :=
  Path.place (Path.pieces (header.path directory))

/-- The file name is that of an entry of a directory. -/
structure IsNamed (header : Header) : Prop where
  notMem : '/' ∉ header.fileName.toList
  isName : Path.isName header.fileName = true

variable {header : Header} {directory : String} {fs : FileSystem}

theorem pieces_path (h : header.IsNamed) (directory : String) :
    Path.pieces (header.path directory) = Path.within directory ++ [header.fileName] :=
  Path.pieces_joinPath directory h.notMem

theorem place_eq (h : header.IsNamed) (directory : String) :
    header.place directory = (Path.place (Path.within directory)).child header.fileName := by
  rw [place, pieces_path h, Path.place_concat h.isName]

/-- A header can be looked for where its directory is, if its path is not too long. -/
theorem admits_iff (h : header.IsNamed) :
    fs.Admits (header.path directory) (header.place directory) ↔
      (∃ pieces, Path.accepted (header.path directory) = .ok pieces) ∧
        Path.isTooLong header.fileName = false ∧
        fs.Leads (Path.origin (Path.within directory)) (Path.within directory) := by
  constructor
  · rintro ⟨way, name, haccepted, -, hshort, hleads, -⟩
    obtain ⟨-, -, -, hpieces⟩ := Path.accepted_eq_ok_iff.1 haccepted
    rw [pieces_path h] at hpieces
    obtain ⟨rfl, hname⟩ := List.append_inj' hpieces rfl
    obtain rfl : name = header.fileName := by simpa using hname
    exact ⟨⟨_, haccepted⟩, hshort, hleads⟩
  · rintro ⟨⟨pieces, haccepted⟩, hshort, hleads⟩
    obtain ⟨-, -, -, rfl⟩ := Path.accepted_eq_ok_iff.1 haccepted
    rw [pieces_path h] at haccepted
    exact ⟨_, _, haccepted, h.isName, hshort, hleads, place_eq h directory⟩

/-- Where a header can be looked for, its directory is there and need not be made. -/
theorem createDirectories_of_admits (h : header.IsNamed)
    (hadmits : fs.Admits (header.path directory) (header.place directory)) :
    fs.createDirectories directory = (.ok (), fs) := by
  obtain ⟨⟨pieces, haccepted⟩, -, hleads⟩ := (admits_iff h).1 hadmits
  by_cases hne : directory = ""
  · simp [FileSystem.createDirectories, hne]
  · obtain ⟨hnul, -, hlong, -⟩ := Path.accepted_eq_ok_iff.1 haccepted
    obtain ⟨middle, hpath⟩ := Path.exists_joinPath_eq directory header.fileName
    rw [path, hpath] at hnul hlong
    refine FileSystem.createDirectories_of_leads (Path.accepted_eq_ok_iff.2 ⟨?_, hne, ?_, rfl⟩)
      ((FileSystem.leads_within_iff hne).1 hleads)
    · intro hmem
      exact hnul (by simp [hmem])
    · rw [String.utf8ByteSize_append] at hlong
      omega

end Header

/-- The headers can be published in one directory: they have file names, and different ones. -/
structure Publishable (headers : List Header) : Prop where
  isNamed : ∀ header ∈ headers, header.IsNamed
  nodup : (headers.map (·.fileName)).Nodup

namespace Publishable

variable {headers : List Header}

theorem of_cons {header : Header} (h : Publishable (header :: headers)) : Publishable headers :=
  ⟨fun other hother => h.isNamed other (List.mem_cons_of_mem _ hother),
    (List.nodup_cons.1 h.nodup).2⟩

/-- No two headers are published to one place. -/
theorem place_inj (h : Publishable headers) {directory : String} {left right : Header}
    (hl : left ∈ headers) (hr : right ∈ headers)
    (heq : left.place directory = right.place directory) : left = right := by
  rw [Header.place_eq (h.isNamed left hl), Header.place_eq (h.isNamed right hr)] at heq
  exact List.inj_on_of_nodup_map h.nodup hl hr (Place.child_injective _ heq)

end Publishable

/-! ## Headers of a catalogue -/

/-- The file of a family is the name of an entry, whatever the family is called. -/
theorem Family.isNamed_header {family : Family} {config : Config} (h : family.WellNamed)
    (he : CommandLine.isExtension config.extension = true) : (family.header config).IsNamed := by
  have hfile : (family.header config).fileName.toList =
      family.basename.toList ++ '.' :: config.extension.toList := by
    simp [header, Naming.headerFile]
  have hbasename := Identifier.isPart_of_isIdentifier h.basename
  constructor
  · rw [hfile, List.mem_append, List.mem_cons]
    rintro (hmem | hdot | hmem)
    · exact absurd (hbasename _ hmem) (by decide)
    · exact absurd hdot (by decide)
    · simp only [CommandLine.isExtension, Bool.and_eq_true, List.all_eq_true] at he
      exact absurd (he.2 _ hmem) (by decide)
  · -- a basename does not start with a dot, so the file is none of the pieces that are no names
    obtain ⟨c, cs, hc⟩ : ∃ c cs, family.basename.toList = c :: cs := by
      refine List.exists_cons_of_ne_nil fun hnil => ?_
      exact Identifier.ne_empty_of_isIdentifier h.basename (String.toList_eq_nil_iff.1 hnil)
    have hstart : ∀ text : String, text.toList.head? = some '.' ∨ text.toList.head? = none →
        (family.header config).fileName ≠ text := by
      rintro text htext rfl
      rw [hfile, hc] at htext
      have hpart := hbasename c (by simp [hc])
      rcases htext with hdot | hnone
      · obtain rfl : c = '.' := by simpa using hdot
        exact absurd hpart (by decide)
      · simp at hnone
    have hempty := hstart "" (by decide)
    have hdot := hstart "." (by decide)
    have hup := hstart ".." (by decide)
    simp [Path.isName, Path.staysPut, hempty, hdot, hup]

theorem Catalogue.publishable_headers {ds : List FamilyDeclaration} {c : Catalogue}
    (h : load ds = .ok c) {config : Config}
    (he : CommandLine.isExtension config.extension = true) : Publishable (c.headers config) := by
  refine ⟨?_, fileNames_nodup h config⟩
  intro header hheader
  obtain ⟨family, hfamily, rfl⟩ := List.mem_map.1 hheader
  exact Family.isNamed_header (wellNamed_of_mem h hfamily) he

/-! ## Headers where case is ignored -/

namespace Naming

theorem lower_append (left right : String) : lower (left ++ right) = lower left ++ lower right := by
  simp [lower, String.ofList_append]

/-- Two headers are called the same without regard to case exactly when their families are. -/
theorem lower_headerFile_inj {config : Config} {left right : String} :
    lower (headerFile config left) = lower (headerFile config right) ↔
      lower left = lower right := by
  simp only [headerFile, lower_append, String.append_left_inj]

end Naming

namespace Catalogue

/-- The headers of a catalogue have different file names, even without regard to case, and none
of them is called like the header of the token type, whatever the extension is. -/
theorem fileNames_differ_without_case {ds : List FamilyDeclaration} {c : Catalogue}
    (h : load ds = .ok c) (config : Config) :
    ((c.headers config).map fun header => Naming.lower header.fileName).Nodup ∧
      ∀ header ∈ c.headers config, header.fileName ≠ Naming.headerFile config tokenName := by
  constructor
  · rw [headers, List.map_map, List.Nodup, List.pairwise_map]
    refine (List.pairwise_map.1 (lower_basenames_nodup h)).imp fun hne heq => hne ?_
    exact Naming.lower_headerFile_inj.1 heq
  · intro header hheader heq
    obtain ⟨family, hfamily, rfl⟩ := List.mem_map.1 hheader
    exact (isNodeName_of_mem h hfamily).ne_token (Naming.headerFile_injective config heq)

/-- Families whose names differ by a `_` only, and one that is called like the token
type but for the case. -/
def nearNames : List FamilyDeclaration :=
  [{ basename := "Expr", variants := [{ name := "Literal" }] },
   { basename := "Expr_", variants := [{ name := "Wrapper" }] },
   { basename := "TOKEN", variants := [{ name := "Word" }] }]

theorem isOk_load_nearNames : (load nearNames).isOk = true := by decide +kernel

/-- The files of the three are different, and none is that of the token type. -/
theorem nearNames_files_differ :
    ∃ c, load nearNames = .ok c ∧
      ((c.headers { extension := "H" }).map fun header => Naming.lower header.fileName) =
        ["expr.h", "expr_.h", "token.h"] ∧
      ["expr.h", "expr_.h", "token.h"].Nodup ∧
      ∀ header ∈ c.headers { extension := "H" }, header.fileName ≠ "Token.H" := by
  obtain ⟨c, hc, hnames⟩ := exists_load_of_isOk isOk_load_nearNames
  obtain ⟨hnodup, htoken⟩ := fileNames_differ_without_case hc { extension := "H" }
  have hfiles : ((c.headers { extension := "H" }).map fun header => Naming.lower header.fileName) =
      ["expr.h", "expr_.h", "token.h"] := by
    have hlower := congrArg (List.map fun name =>
      Naming.lower (Naming.headerFile { extension := "H" } name)) hnames
    rw [List.map_map] at hlower
    rw [headers, List.map_map]
    exact hlower.trans (by decide)
  exact ⟨c, hc, hfiles, hfiles ▸ hnodup, htoken⟩

/-- Where case is ignored, the file of a family can be that of the token type. -/
example : Naming.lower (Naming.headerFile {} "TOKEN") =
    Naming.lower (Naming.headerFile {} tokenName) := by
  decide

end Catalogue

end TreeHeaders
