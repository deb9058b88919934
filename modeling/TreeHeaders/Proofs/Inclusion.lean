import TreeHeaders.Proofs.HeaderClauses
import Mathlib.Data.List.Nodup

set_option autoImplicit false

/-!
# Includes

Which headers of the project a header includes, read off its text, and why that is enough and
not too much: the includes are the headers of the families that fields refer to, and that of
the token type if there is a field for a token. A family refers to earlier families only, so
each of these headers is generated, and including them cannot go round in circles. In turn
every type of a member is known in the header: it is built in, or declared by a header that is
included or by the header itself.
-/

namespace TreeHeaders

open Text Line

/-! ## Reading includes -/

/-- The headers of the project that the text includes, in order. -/
def Header.includes (header : Header) : List String :=
  (Text.lines header.contents).filterMap (between? "#include \"" "\"")

/-- A line without quotation marks includes no header of the project. -/
theorem Line.between?_shown_eq_none {line : Line} (h : Inked line.text) (config : Config) :
    between? "#include \"" "\"" (line.shown config) = none := by
  refine between?_eq_none_iff.2 fun inside hshown => ?_
  obtain ⟨blanks, hblanks, heq⟩ := line.exists_shown_eq config
  have hquote : '"' ∈ (blanks ++ line.text).toList := by
    rw [← heq, hshown]
    simp
  rw [String.toList_append, List.mem_append] at hquote
  rcases hquote with hblank | htext
  · exact absurd (hblanks _ hblank) (by decide)
  · exact absurd (h _ htext) (by decide)

namespace Family

variable {family : Family} {config : Config}

/-- The includes that are read off the text of a header are those that were written. -/
theorem includes_header (h : family.WellNamed) (hc : config.Accepted) :
    (family.header config).includes = family.localHeaders config := by
  have hnone : ∀ {lines : List Line}, AllInked lines →
      (lines.map (Line.shown config)).filterMap (between? "#include \"" "\"") = [] := by
    intro lines hlines
    rw [List.filterMap_eq_nil_iff, List.forall_mem_map]
    exact fun line hline => between?_shown_eq_none (hlines line hline) config
  have hincludes : ((family.localIncludeLines config).map (Line.shown config)).filterMap
      (between? "#include \"" "\"") = family.localHeaders config := by
    have hline : ∀ file,
        between? "#include \"" "\"" ((includeLine file).shown config) = some file := by
      intro file
      rw [includeLine, shown_flat]
      exact between?_eq_some_iff.2 rfl
    unfold localIncludeLines
    split
    · next hnil => rw [hnil]; rfl
    · have hblank : AllInked [blank] := by simp
      rw [List.map_append, List.filterMap_append, hnone hblank, List.append_nil, List.map_map,
        List.filterMap_map]
      simp [Function.comp_def, hline]
  have hrest : [""].filterMap (between? "#include \"" "\"") = [] := by decide
  rw [Header.includes, lines_contents h hc, headerLines_eq, List.map_append, List.map_append,
    List.filterMap_append, List.filterMap_append, List.filterMap_append,
    hnone (allInked_linesBeforeIncludes family config),
    hnone (allInked_linesAfterIncludes h hc), hincludes, hrest, List.nil_append, List.append_nil,
    List.append_nil]

end Family

/-! ## References -/

namespace Naming

theorem headerFile_injective (config : Config) : Function.Injective (headerFile config) := by
  intro left right h
  have hchars := congrArg String.toList h
  simp only [headerFile, String.toList_append, List.append_left_inj] at hchars
  exact String.toList_injective hchars

end Naming

namespace Family

variable {family : Family} {config : Config}

theorem mem_dependencies_iff {name : String} :
    Naming.headerFile config name ∈ family.dependencies config ↔
      ∃ variant ∈ family.variants, ∃ field ∈ variant.fields, field.type = .foreignChild name := by
  rw [dependencies, List.mem_map_of_injective (Naming.headerFile_injective config),
    mem_references_iff]

theorem usesToken_iff :
    family.usesToken = true ↔
      ∃ variant ∈ family.variants, ∃ field ∈ variant.fields, field.type = .token := by
  simp only [usesToken, List.any_eq_true, beq_iff_eq]
  exact exists_mem_fields_iff

/-- No header is included twice, if no family that is referred to is called like
the token type. -/
theorem localHeaders_nodup (htoken : tokenName ∉ family.references) :
    (family.localHeaders config).Nodup := by
  have hdependencies : (family.dependencies config).Nodup :=
    (nodup_firstUses _).map (Naming.headerFile_injective config)
  have hnotMem : Naming.headerFile config tokenName ∉ family.dependencies config := by
    rw [dependencies, List.mem_map_of_injective (Naming.headerFile_injective config)]
    exact htoken
  unfold localHeaders
  split
  · rw [List.nodup_append]
    refine ⟨hdependencies, by simp, ?_⟩
    intro file hfile other hother heq
    rw [List.mem_singleton.1 hother] at heq
    exact hnotMem (heq ▸ hfile)
  · simpa using hdependencies

end Family

namespace Catalogue

variable {ds : List FamilyDeclaration} {c : Catalogue}

theorem isNodeName_of_mem (h : load ds = .ok c) {family : Family} (hf : family ∈ c.families) :
    TypeText.IsNodeName family.basename := by
  obtain ⟨i, d, hd, -, hdenotes⟩ := exists_denotes_of_mem h hf
  obtain ⟨hadmissible, -⟩ := load_eq_ok_iff.1 h
  rw [hdenotes.basename]
  exact hadmissible.isNodeName_basename (List.mem_of_getElem? hd)

theorem basenames_nodup (h : load ds = .ok c) : (c.families.map (·.basename)).Nodup := by
  have hlower := lower_basenames_nodup h
  have hmap : (c.families.map fun family => Naming.lower family.basename) =
      (c.families.map (·.basename)).map Naming.lower := by
    simp
  rw [hmap] at hlower
  exact hlower.of_map Naming.lower

/-- A family whose nodes are held by another one stands before it. -/
theorem exists_earlier_of_foreignChild (h : load ds = .ok c) {i : Nat} {family : Family}
    (hi : c.families[i]? = some family) {variant : Variant} (hv : variant ∈ family.variants)
    {field : Field} (hf : field ∈ variant.fields) {name : String}
    (ht : field.type = .foreignChild name) :
    ∃ (j : Nat) (other : Family), j < i ∧ c.families[j]? = some other ∧ other.basename = name := by
  obtain ⟨-, hall⟩ := load_eq_ok_iff.1 h
  obtain ⟨d, hd, hdenotes⟩ := hall.exists_declaration hi
  obtain ⟨e, -, hvariant⟩ := exists_of_forall₂_right hdenotes.variants hv
  obtain ⟨f, -, hfield⟩ := exists_of_forall₂_right hvariant.fields hf
  have htype := hfield.type
  rw [ht, List.nil_append] at htype
  obtain ⟨g, hg, hname⟩ := List.mem_map.1 htype.1
  obtain ⟨j, hj⟩ := List.mem_iff_getElem?.1 hg
  rw [List.getElem?_take] at hj
  split at hj
  · next hlt =>
    obtain ⟨other, hother, hdenotes⟩ := hall.exists_getElem? hj
    exact ⟨j, other, hlt, hother, hdenotes.basename.trans hname⟩
  · exact absurd hj (by simp)

theorem tokenName_notMem_references (h : load ds = .ok c) {i : Nat} {family : Family}
    (hi : c.families[i]? = some family) : tokenName ∉ family.references := by
  intro hmem
  obtain ⟨variant, hvariant, field, hfield, htype⟩ := Family.mem_references_iff.1 hmem
  obtain ⟨j, other, -, hother, hname⟩ := exists_earlier_of_foreignChild h hi hvariant hfield htype
  exact (isNodeName_of_mem h (List.mem_of_getElem? hother)).ne_token hname

/-- The files of the headers of a catalogue, in order. -/
def fileNames (c : Catalogue) (config : Config) : List String :=
  (c.headers config).map (·.fileName)

theorem fileNames_eq (c : Catalogue) (config : Config) :
    c.fileNames config = (c.families.map (·.basename)).map (Naming.headerFile config) := by
  rw [fileNames, headers, List.map_map, List.map_map]
  rfl

theorem fileNames_nodup (h : load ds = .ok c) (config : Config) : (c.fileNames config).Nodup := by
  rw [fileNames_eq]
  exact (basenames_nodup h).map (Naming.headerFile_injective config)

/-- A dependency is the file of one header, which is generated before. -/
theorem exists_fileName_of_mem_dependencies (h : load ds = .ok c) (config : Config) {i : Nat}
    {family : Family} (hi : c.families[i]? = some family) {file : String}
    (hfile : file ∈ family.dependencies config) :
    ∃ j < i, (c.fileNames config)[j]? = some file ∧
      ∀ k, (c.fileNames config)[k]? = some file → k = j := by
  obtain ⟨name, hname, rfl⟩ := List.mem_map.1 hfile
  obtain ⟨variant, hvariant, field, hfield, htype⟩ := Family.mem_references_iff.1 hname
  obtain ⟨j, other, hlt, hother, rfl⟩ := exists_earlier_of_foreignChild h hi hvariant hfield htype
  have hj : (c.fileNames config)[j]? = some (Naming.headerFile config other.basename) := by
    rw [fileNames_eq, List.getElem?_map, List.getElem?_map, hother]
    rfl
  refine ⟨j, hlt, hj, ?_⟩
  intro k hk
  obtain ⟨hlength, -⟩ := List.getElem?_eq_some_iff.1 hk
  exact (List.getElem?_inj hlength (fileNames_nodup h config)).1 (hk.trans hj.symm)

end Catalogue

/-! ## Types of members -/

namespace Clause

/-- The members that are declared. -/
def members (clauses : List Clause) : List Member :=
  clauses.filterMap fun
    | .member type name => some ⟨type, name⟩
    | _ => none

theorem members_node (node : Node) : members node.clauses = node.members := by
  have hentries : members (node.entryPoints.flatMap Node.entryClauses) = [] := by
    rw [members, List.filterMap_flatMap]
    simp [Node.entryClauses]
  have hmembers : members (node.members.map fun member => .member member.type member.name) =
      node.members := by
    simp [members, List.filterMap_map]
  rw [members] at hentries hmembers
  rw [members, Node.clauses, List.filterMap_cons_none rfl, Node.innerClauses, List.filterMap_append,
    hmembers, hentries, List.append_nil]

/-- A header declares the members of its nodes and no others. -/
theorem members_family (family : Family) :
    members family.clauses = family.nodes.flatMap (·.members) := by
  have hvirtual : members (family.baseClauses ++ family.visitorClauses) = [] := by
    simp [members, Family.baseClauses, Family.visitorClauses, List.filterMap_map]
  have hnodes : members (family.nodes.flatMap Node.clauses) = family.nodes.flatMap (·.members) := by
    rw [members, List.filterMap_flatMap]
    exact List.flatMap_congr fun node _ => members_node node
  rw [members] at hvirtual hnodes
  rw [members, Family.clauses, List.filterMap_append, hvirtual, hnodes, List.nil_append]

end Clause

/-- The types that are known in the header of the family. -/
inductive Family.Knows (c : Catalogue) (config : Config) (family : Family) : String → Prop where
  | boolean : Knows c config family "bool"
  | number : Knows c config family "double"
  /-- the headers of the standard library are always included -/
  | standard (name : String) : Knows c config family ("std::" ++ name)
  | token (h : Naming.headerFile config tokenName ∈ (family.header config).includes) :
    Knows c config family tokenName
  | handle : Knows c config family (Naming.handle family.basename)
  | list : Knows c config family (Naming.list family.basename)
  | foreign {other : Family} (hmem : other ∈ c.families)
    (h : Naming.headerFile config other.basename ∈ (family.header config).dependencies) :
    Knows c config family (Naming.handle other.basename)

namespace Catalogue

variable {ds : List FamilyDeclaration} {c : Catalogue} {config : Config}

/-- Every field is stored as a type that is known in the header. -/
theorem knows_fieldType (h : load ds = .ok c) (hc : config.Accepted) {i : Nat} {family : Family}
    (hi : c.families[i]? = some family) {variant : Variant} (hv : variant ∈ family.variants)
    {field : Field} (hf : field ∈ variant.fields) :
    family.Knows c config (Naming.fieldType family.basename field.type) := by
  cases ht : field.type with
  | primitive p =>
    cases p with
    | boolean => exact .boolean
    | number => exact .number
    | text => exact .standard "string"
    | null => exact .standard "nullptr_t"
  | token =>
    refine .token ?_
    have huses : family.usesToken = true := Family.usesToken_iff.2 ⟨variant, hv, field, hf, ht⟩
    rw [Family.includes_header (wellNamed_of_mem h (List.mem_of_getElem? hi)) hc]
    simp [Family.localHeaders, huses]
  | child => exact .handle
  | foreignChild name =>
    obtain ⟨j, other, -, hother, rfl⟩ := exists_earlier_of_foreignChild h hi hv hf ht
    exact .foreign (List.mem_of_getElem? hother)
      (Family.mem_dependencies_iff.2 ⟨variant, hv, field, hf, ht⟩)
  | children => exact .list

/-- The text of a header includes its dependencies and then the header of the token type if a
field holds a token, nothing twice and nothing else. The dependencies are the headers of the
families that fields refer to; each of them is the file of one header, and that is generated
before. Every type of a member that the text declares is known in the header. -/
theorem includes_exact (h : load ds = .ok c) (hc : config.Accepted) {i : Nat} {family : Family}
    (hi : c.families[i]? = some family) :
    (c.headers config)[i]? = some (family.header config) ∧
      (family.header config).includes = (family.header config).dependencies ++
        (if family.usesToken then [Naming.headerFile config tokenName] else []) ∧
      (family.usesToken = true ↔
        ∃ variant ∈ family.variants, ∃ field ∈ variant.fields, field.type = .token) ∧
      (family.header config).includes.Nodup ∧
      (∀ name, Naming.headerFile config name ∈ (family.header config).dependencies ↔
        ∃ variant ∈ family.variants, ∃ field ∈ variant.fields, field.type = .foreignChild name) ∧
      (∀ file ∈ (family.header config).dependencies,
        ∃ j < i, (c.fileNames config)[j]? = some file ∧
          ∀ k, (c.fileNames config)[k]? = some file → k = j) ∧
      Clause.members (Clause.ofText (family.header config).contents) =
        family.nodes.flatMap (·.members) ∧
      ∀ node ∈ family.nodes, ∀ member ∈ node.members, family.Knows c config member.type := by
  have hnamed : family.WellNamed := wellNamed_of_mem h (List.mem_of_getElem? hi)
  have hincludes := Family.includes_header hnamed hc
  refine ⟨?_, hincludes, Family.usesToken_iff, ?_, fun name => Family.mem_dependencies_iff,
    fun file hfile => exists_fileName_of_mem_dependencies h config hi hfile, ?_, ?_⟩
  · rw [headers, List.getElem?_map, hi]
    rfl
  · rw [hincludes]
    exact Family.localHeaders_nodup (tokenName_notMem_references h hi)
  · rw [Family.clauses_contents hnamed hc, Clause.members_family]
  · intro node hnode member hmember
    obtain ⟨variant, hvariant, rfl⟩ := List.mem_map.1 hnode
    obtain ⟨field, hfield, rfl⟩ := List.mem_map.1 hmember
    exact knows_fieldType h hc hi hvariant hfield

end Catalogue

/-- What the second header of Lox depends on, and that it has tokens. -/
theorem Lox.statement_dependencies :
    ((Catalogue.load declarations).toOption.bind fun c => c.families[1]?).map
      (fun family => ((family.header {}).dependencies, family.usesToken)) =
        some (["Expr.h"], true) := by
  decide +kernel

/-- The second header of Lox includes that of the expressions, which is generated first, and
that of the token type. -/
theorem Lox.statement_includes_exact :
    ∃ c, Catalogue.load declarations = .ok c ∧ Config.Accepted {} ∧
      ∃ family, c.families[1]? = some family ∧
        (family.header {}).includes = ["Expr.h", "Token.h"] ∧
        (family.header {}).includes.Nodup ∧
        ∃ j < 1, (c.fileNames {})[j]? = some "Expr.h" ∧
          ∀ k, (c.fileNames {})[k]? = some "Expr.h" → k = j := by
  obtain ⟨c, hc, family, hfamily, -⟩ := Catalogue.exists_denotes_of_isOk catalogue_isOk
    (show declarations[1]? = some statements from rfl)
  have hconfig : Config.Accepted {} := ⟨by decide, by decide⟩
  obtain ⟨-, hincludes, -, hnodup, -, hfile, -⟩ := Catalogue.includes_exact hc hconfig hfamily
  have hfacts := statement_dependencies
  rw [hc] at hfacts
  simp only [Except.toOption, Option.bind_some, hfamily, Option.map_some, Option.some.injEq,
    Prod.mk.injEq] at hfacts
  obtain ⟨hdependencies, htoken⟩ := hfacts
  refine ⟨c, hc, hconfig, family, hfamily, ?_, hnodup, hfile "Expr.h" (by simp [hdependencies])⟩
  rw [hincludes, hdependencies, htoken]
  decide

end TreeHeaders
