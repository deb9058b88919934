import TreeHeaders.CommandLine.Value
import TreeHeaders.Proofs.DeclaredNames
import TreeHeaders.Proofs.Words

set_option autoImplicit false

/-!
# The characters of a header

A header is written with letters, digits, `_`, blanks and a few signs; quotation marks stand
around the names of included files only. So no name can break a line or make one look like an
include, and the lines of the text of a header are the lines that it was laid out in
(`Family.lines_contents`).

For the namespace and the extension this is a matter of the configuration: the statements ask
for those that the command line accepts.
-/

namespace TreeHeaders

/-! ## Ink -/

namespace Text

/-- The signs of a header, beside letters, digits, `_` and quotation marks. -/
def signs : List Char :=
  [' ', '#', '&', '(', ')', '*', '+', ',', '-', '.', '/', ':', ';', '<', '=', '>', '\x7b', '\x7d',
    '~']

/-- Can the character stand in a header outside of quotation marks? -/
def isInk (c : Char) : Bool :=
  Identifier.isPart c || signs.contains c

/-- Every character of the text can stand in a header outside of quotation marks. -/
def Inked (text : String) : Prop :=
  ∀ c ∈ text.toList, isInk c = true

instance (text : String) : Decidable (Inked text) :=
  decidable_of_iff (text.toList.all isInk = true) List.all_eq_true

@[simp]
theorem inked_append {left right : String} :
    Inked (left ++ right) ↔ Inked left ∧ Inked right := by
  simp only [Inked, String.toList_append, List.forall_mem_append]

theorem inked_of_isPart {text : String} (h : ∀ c ∈ text.toList, Identifier.isPart c = true) :
    Inked text := by
  intro c hc
  simp [isInk, h c hc]

theorem inked_of_isIdentifier {name : String} (h : isIdentifier name = true) : Inked name :=
  inked_of_isPart (Identifier.isPart_of_isIdentifier h)

theorem inked_intercalate {sep : String} (hsep : Inked sep) {texts : List String}
    (h : ∀ text ∈ texts, Inked text) : Inked (sep.intercalate texts) := by
  induction texts with
  | nil => simp [Inked]
  | cons text texts ih =>
    have htext : Inked text := h text (by simp)
    have htexts : Inked (sep.intercalate texts) :=
      ih fun other hother => h other (List.mem_cons_of_mem text hother)
    cases texts with
    | nil => simpa using htext
    | cons next rest =>
      rw [String.intercalate_cons_cons, inked_append, inked_append]
      exact ⟨⟨htext, hsep⟩, htexts⟩

theorem Inked.ne_of_mem {text : String} (h : Inked text) {c d : Char} (hc : c ∈ text.toList)
    (hd : isInk d = false) : c ≠ d := by
  rintro rfl
  rw [h c hc] at hd
  exact absurd hd (by decide)

/-- Ink does not break a line. -/
theorem Inked.unbroken {text : String} (h : Inked text) : Unbroken text :=
  fun _ hc => ⟨h.ne_of_mem hc (by decide), h.ne_of_mem hc (by decide)⟩

end Text

open Text

/-! ## Texts of the configuration -/

namespace CommandLine

theorem mem_joinPieces {sep : List Char} {pieces : List (List Char)} {c : Char}
    (h : c ∈ Text.joinPieces sep pieces) : c ∈ sep ∨ ∃ piece ∈ pieces, c ∈ piece := by
  fun_induction Text.joinPieces sep pieces with
  | case1 => exact absurd h List.not_mem_nil
  | case2 piece => exact Or.inr ⟨piece, by simp, h⟩
  | case3 piece next pieces ih =>
    rw [List.mem_append, List.mem_append] at h
    rcases h with (hpiece | hsep) | hrest
    · exact Or.inr ⟨piece, by simp, hpiece⟩
    · exact Or.inl hsep
    · rcases ih hrest with hsep | ⟨other, hother, hc⟩
      · exact Or.inl hsep
      · exact Or.inr ⟨other, List.mem_cons_of_mem piece hother, hc⟩

/-- Every character of a namespace is part of a name or stands between two names. -/
theorem isPart_of_mem_namespace {text : String} (h : isNamespace text = true) {c : Char}
    (hc : c ∈ text.toList) : Identifier.isPart c = true ∨ c = ':' := by
  rw [← Text.joinPieces_splitAtPair ':' text.toList] at hc
  rcases mem_joinPieces hc with hsep | ⟨piece, hpiece, hmem⟩
  · exact Or.inr (by simpa using hsep)
  · have hpart := List.all_eq_true.1 h piece hpiece
    simp only [isNamespacePart, Bool.and_eq_true] at hpart
    exact Or.inl (Identifier.isPart_of_isIdentifier hpart.1 c (by simpa using hmem))

theorem ne_empty_of_isNamespace {text : String} (h : isNamespace text = true) : text ≠ "" := by
  rintro rfl
  exact absurd h (by decide)

end CommandLine

/-- The command line accepts the namespace and the extension. -/
structure Config.Accepted (config : Config) : Prop where
  namespaceName : CommandLine.isNamespace config.namespaceName = true
  extension : CommandLine.isExtension config.extension = true

namespace Config.Accepted

variable {config : Config}

theorem inked_namespaceName (h : config.Accepted) : Inked config.namespaceName := by
  intro c hc
  rcases CommandLine.isPart_of_mem_namespace h.namespaceName hc with hpart | rfl
  · simp [isInk, hpart]
  · decide

theorem inked_extension (h : config.Accepted) : Inked config.extension := by
  intro c hc
  have hall := h.extension
  simp only [CommandLine.isExtension, Bool.and_eq_true, List.all_eq_true] at hall
  have hchar := hall.2 c hc
  simp only [CommandLine.isExtensionChar, Bool.or_eq_true, decide_eq_true_eq] at hchar
  rcases hchar with ((halphanum | rfl) | rfl) | rfl
  · simp [isInk, Identifier.isPart, halphanum]
  · decide
  · decide
  · decide

theorem inked_headerFile (h : config.Accepted) {family : String} (hf : isIdentifier family = true) :
    Inked (Naming.headerFile config family) := by
  rw [Naming.headerFile, inked_append, inked_append]
  exact ⟨⟨inked_of_isIdentifier hf, by decide⟩, h.inked_extension⟩

end Config.Accepted

/-! ## Derived names -/

namespace Naming

theorem isPart_guardWords (inWord : Bool) (cs : List Char) :
    ∀ c ∈ guardWords inWord cs, Identifier.isPart c = true := by
  fun_induction guardWords inWord cs with
  | case1 => simp [Identifier.isPart]
  | case2 => simp
  | case3 inWord c cs hc ih => exact List.forall_mem_cons.2 ⟨Identifier.isPart_toUpper hc, ih⟩
  | case4 c cs _ ih => exact List.forall_mem_cons.2 ⟨by decide, ih⟩
  | case5 _ _ _ _ _ ih => exact ih

/-- A guard is made of letters, digits and `_`, whatever the configuration. -/
theorem isPart_guard (config : Config) (family : String) :
    ∀ c ∈ (guard config family).toList, Identifier.isPart c = true := by
  unfold guard guardOf
  split
  · simp [Identifier.isPart]
  · rw [String.toList_ofList]
    exact isPart_guardWords _ _

theorem inked_guard (config : Config) (family : String) : Inked (guard config family) :=
  inked_of_isPart (isPart_guard config family)

theorem inked_visitor {family result : String} (hf : isIdentifier family = true)
    (hr : Inked result) : Inked (visitor family result) := by
  have hnamespace : Inked (visitorNamespace family) := inked_of_isPart (isPart_visitorNamespace hf)
  simp +decide [visitor, hnamespace, hr]

end Naming

/-! ## Lines -/

namespace Line

/-- All lines are written with ink. -/
def AllInked (lines : List Line) : Prop :=
  ∀ line ∈ lines, Inked line.text

@[simp]
theorem allInked_nil : AllInked [] := by
  simp [AllInked]

@[simp]
theorem allInked_cons {line : Line} {lines : List Line} :
    AllInked (line :: lines) ↔ Inked line.text ∧ AllInked lines := by
  simp [AllInked]

@[simp]
theorem allInked_append {xs ys : List Line} : AllInked (xs ++ ys) ↔ AllInked xs ∧ AllInked ys :=
  List.forall_mem_append

@[simp]
theorem allInked_indented {lines : List Line} : AllInked (indented lines) ↔ AllInked lines := by
  simp [AllInked, indented, deeper]

theorem allInked_map {α : Type} {items : List α} {f : α → Line}
    (h : ∀ item ∈ items, Inked (f item).text) : AllInked (items.map f) := by
  intro line hline
  obtain ⟨item, hitem, rfl⟩ := List.mem_map.1 hline
  exact h item hitem

theorem allInked_flatMap {α : Type} {items : List α} {f : α → List Line}
    (h : ∀ item ∈ items, AllInked (f item)) : AllInked (items.flatMap f) := by
  intro line hline
  obtain ⟨item, hitem, hmem⟩ := List.mem_flatMap.1 hline
  exact h item hitem line hmem

@[simp]
theorem inked_blank : Inked blank.text := by decide

@[simp]
theorem text_flat (text : String) : (flat text).text = text := rfl

@[simp]
theorem text_deeper (line : Line) : line.deeper.text = line.text := rfl

@[simp]
theorem text_continued (text : String) : (continued text).text = text := rfl

end Line

open Line

theorem Visitor.allInked_enclosed {visitor : Visitor} (h : Inked visitor.namespaceName)
    {body : List Line} (hbody : AllInked body) : AllInked (visitor.enclosed body) := by
  simp +decide [enclosed, h, hbody]

theorem Visitor.allInked_declarationLines {visitor : Visitor} (h : Inked visitor.namespaceName) :
    AllInked visitor.declarationLines := by
  refine allInked_enclosed h ?_
  simp +decide

theorem Visitor.allInked_lines {visitor : Visitor} (h : Inked visitor.namespaceName)
    (hmethods : ∀ method ∈ visitor.methods, Inked method.name ∧ Inked method.variant) :
    AllInked visitor.lines := by
  refine allInked_enclosed h ?_
  have hlines : AllInked (visitor.methods.map methodLine) := by
    refine allInked_map ?_
    intro method hmethod
    simp +decide [methodLine, hmethods method hmethod]
  simp +decide [hlines]

/-- Every text in the parts of the node is written with ink. -/
structure Node.AllInked (node : Node) : Prop where
  name : Inked node.name
  base : Inked node.base
  members : ∀ member ∈ node.members, Inked member.type ∧ Inked member.name
  parameters : ∀ parameter ∈ node.parameters,
    Inked parameter.type ∧ Inked parameter.name ∧ Inked parameter.member
  entryPoints : ∀ entry ∈ node.entryPoints,
    Inked entry.result ∧ Inked entry.visitor ∧ Inked entry.dispatch

namespace Parameter

variable {parameter : Parameter}

theorem inked_declaration (ht : Inked parameter.type) (hn : Inked parameter.name) :
    Inked parameter.declaration := by
  unfold declaration
  cases parameter.passing with
  | copy => simp +decide [ht, hn]
  | move => simp +decide [ht, hn]
  | moveWhole => simp +decide [ht, hn]

theorem inked_initialiser (hm : Inked parameter.member) (hn : Inked parameter.name) :
    Inked parameter.initialiser := by
  unfold initialiser
  cases parameter.passing with
  | copy => simp +decide [hm, hn]
  | move => simp +decide [hm, hn]
  | moveWhole => simp +decide [hm, hn]

theorem allInked_initialiserLines {leader : String} (hleader : Inked leader)
    {parameters : List Parameter} (h : ∀ parameter ∈ parameters, Inked parameter.initialiser) :
    AllInked (initialiserLines leader parameters) := by
  fun_induction initialiserLines leader parameters with
  | case1 => exact allInked_nil
  | case2 leader parameter => simp +decide [hleader, h parameter (by simp)]
  | case3 leader parameter rest _ ih =>
    have hrest : AllInked (initialiserLines "  " rest) :=
      ih (by decide) fun other hother => h other (List.mem_cons_of_mem parameter hother)
    simp +decide [hleader, hrest, h parameter (by simp)]

end Parameter

namespace Node

variable {node : Node}

theorem allInked_memberLines (h : node.AllInked) : Line.AllInked node.memberLines := by
  unfold memberLines
  split
  · exact allInked_nil
  · refine allInked_append.2 ⟨allInked_map ?_, by simp⟩
    intro member hmember
    simp +decide [h.members member hmember]

theorem allInked_constructorLines (h : node.AllInked) : Line.AllInked node.constructorLines := by
  have hdeclarations : ∀ text ∈ node.parameters.map Parameter.declaration, Inked text := by
    intro text htext
    obtain ⟨parameter, hparameter, rfl⟩ := List.mem_map.1 htext
    obtain ⟨htype, hname, -⟩ := h.parameters parameter hparameter
    exact Parameter.inked_declaration htype hname
  have hinitialisers : ∀ parameter ∈ node.parameters, Inked parameter.initialiser := by
    intro parameter hparameter
    obtain ⟨-, hname, hmember⟩ := h.parameters parameter hparameter
    exact Parameter.inked_initialiser hmember hname
  have hlist : Inked (", ".intercalate (node.parameters.map Parameter.declaration)) :=
    inked_intercalate (by decide) hdeclarations
  have hlines : Line.AllInked (Parameter.initialiserLines ": " node.parameters) :=
    Parameter.allInked_initialiserLines (by decide) hinitialisers
  unfold constructorLines
  split
  · simp +decide [h.name]
  · simp +decide [h.name, hlist, hlines]

theorem allInked_lines (h : node.AllInked) : Line.AllInked node.lines := by
  have hentries : Line.AllInked (node.entryPoints.flatMap entryPointLines) := by
    refine allInked_flatMap ?_
    intro entry hentry
    simp +decide [entryPointLines, h.entryPoints entry hentry]
  simp +decide [lines, h.name, h.base, allInked_memberLines h, allInked_constructorLines h,
    hentries]

end Node

/-! ## Lines of a family -/

namespace Family

variable {family : Family}

theorem inked_of_mem_results (h : family.WellNamed) {result : String}
    (hr : result ∈ family.results) : Inked result := by
  rcases mem_results hr with rfl | rfl | hvalue
  · decide
  · decide
  · exact inked_of_isIdentifier (h.result result hvalue)

theorem inked_fieldType (h : family.WellNamed) {variant : Variant} (hv : variant ∈ family.variants)
    {field : Field} (hf : field ∈ variant.fields) :
    Inked (Naming.fieldType family.basename field.type) := by
  have hbase : Inked family.basename := inked_of_isIdentifier h.basename
  cases ht : field.type with
  | primitive p =>
    have hprimitive : ∀ p : Primitive, Inked (Naming.primitive p) := by
      intro p
      cases p <;> decide
    exact hprimitive p
  | token => exact (by decide : Inked tokenName)
  | child => simp +decide [Naming.fieldType, Naming.handle, hbase]
  | foreignChild other =>
    have hother : Inked other := inked_of_isIdentifier (h.foreign variant hv field hf other ht)
    simp +decide [Naming.fieldType, Naming.handle, hother]
  | children => simp +decide [Naming.fieldType, Naming.list, hbase]

theorem inked_dispatchMethod (h : family.WellNamed) {variant : Variant}
    (hv : variant ∈ family.variants) :
    Inked (Naming.dispatchMethod variant.name family.basename) := by
  have hbase : Inked family.basename := inked_of_isIdentifier h.basename
  have hvariant : Inked variant.name := inked_of_isIdentifier (h.variants variant hv)
  simp +decide [Naming.dispatchMethod, hbase, hvariant]

theorem allInked_node (h : family.WellNamed) {variant : Variant} (hv : variant ∈ family.variants) :
    (family.node variant).AllInked := by
  have hmember : ∀ field ∈ variant.fields, Inked (Naming.member field.name) := by
    intro field hfield
    have hname : Inked field.name := inked_of_isIdentifier (h.fields variant hv field hfield)
    simp +decide [Naming.member, hname]
  refine ⟨inked_of_isIdentifier (h.variants variant hv), inked_of_isIdentifier h.basename,
    ?_, ?_, ?_⟩
  · intro member hmem
    obtain ⟨field, hfield, rfl⟩ := List.mem_map.1 hmem
    exact ⟨inked_fieldType h hv hfield, hmember field hfield⟩
  · intro parameter hmem
    obtain ⟨field, hfield, rfl⟩ := List.mem_map.1 hmem
    exact ⟨inked_fieldType h hv hfield, inked_of_isIdentifier (h.fields variant hv field hfield),
      hmember field hfield⟩
  · intro entry hmem
    obtain ⟨result, hresult, rfl⟩ := List.mem_map.1 hmem
    have hinked := inked_of_mem_results h hresult
    exact ⟨hinked, Naming.inked_visitor h.basename hinked, inked_dispatchMethod h hv⟩

/-- What stands between the braces of the namespace is written with ink. -/
theorem allInked_bodyLines (h : family.WellNamed) : AllInked family.bodyLines := by
  have hbase : Inked family.basename := inked_of_isIdentifier h.basename
  have hnamespace : Inked family.visitor.namespaceName :=
    inked_of_isPart (Naming.isPart_visitorNamespace h.basename)
  have hresult : AllInked family.resultLines := by
    unfold resultLines
    cases hc : family.contract with
    | effect => exact allInked_nil
    | value result =>
      have hname : Inked result := inked_of_isIdentifier (h.result result hc)
      simp +decide [hname]
  have hforward : AllInked family.forwardLines := by
    refine allInked_map ?_
    intro node hnode
    obtain ⟨variant, hvariant, rfl⟩ := List.mem_map.1 hnode
    have hname : Inked (family.node variant).name := (allInked_node h hvariant).name
    simp +decide [hname]
  have hbaseLines : AllInked family.baseLines := by
    have hentries : AllInked (family.results.map family.baseEntryLine) := by
      refine allInked_map ?_
      intro result hr
      have hinked := inked_of_mem_results h hr
      simp +decide [baseEntryLine, hinked, Naming.inked_visitor h.basename hinked]
    simp +decide [baseLines, hbase, hentries]
  have halias : AllInked family.aliasLines := by
    simp +decide [aliasLines, Naming.handle, Naming.list, hbase]
  have hvisitor : AllInked family.visitor.lines := by
    refine Visitor.allInked_lines hnamespace ?_
    intro method hmethod
    obtain ⟨variant, hvariant, rfl⟩ := List.mem_map.1 hmethod
    exact ⟨inked_dispatchMethod h hvariant, (allInked_node h hvariant).name⟩
  have hnodes : AllInked family.nodeLines := by
    refine allInked_flatMap ?_
    intro node hnode
    obtain ⟨variant, hvariant, rfl⟩ := List.mem_map.1 hnode
    simp [Node.allInked_lines (allInked_node h hvariant)]
  simp [bodyLines, hresult, Visitor.allInked_declarationLines hnamespace, hforward, hbaseLines,
    halias, hvisitor, hnodes]

end Family

/-! ## Lines of a header -/

theorem FieldType.foreignFamily?_eq_some_iff {type : FieldType} {other : String} :
    type.foreignFamily? = some other ↔ type = .foreignChild other := by
  cases type with
  | primitive p => simp [foreignFamily?]
  | token => simp [foreignFamily?]
  | child => simp [foreignFamily?]
  | foreignChild name => simp [foreignFamily?]
  | children => simp [foreignFamily?]

namespace Family

variable {family : Family} {config : Config}

/-- The lines of a header before those that include headers of the project. -/
def linesBeforeIncludes (family : Family) (config : Config) : List Line :=
  let guard := Naming.guard config family.basename
  [banner, flat ("#ifndef " ++ guard), flat ("#define " ++ guard), blank]

/-- The lines of a header after those that include headers of the project. -/
def linesAfterIncludes (family : Family) (config : Config) : List Line :=
  standardIncludeLines ++ [blank] ++
    [flat ("namespace " ++ config.namespaceName ++ " \x7b"), blank] ++ family.bodyLines ++
    [flat ("\x7d // namespace " ++ config.namespaceName), blank,
      flat ("#endif // " ++ Naming.guard config family.basename)]

theorem headerLines_eq (family : Family) (config : Config) :
    family.headerLines config = family.linesBeforeIncludes config ++
      family.localIncludeLines config ++ family.linesAfterIncludes config := by
  simp [headerLines, linesBeforeIncludes, linesAfterIncludes]

theorem allInked_linesBeforeIncludes (family : Family) (config : Config) :
    AllInked (family.linesBeforeIncludes config) := by
  simp +decide [linesBeforeIncludes, banner, Naming.inked_guard]

theorem allInked_linesAfterIncludes (h : family.WellNamed) (hc : config.Accepted) :
    AllInked (family.linesAfterIncludes config) := by
  have hstandard : AllInked standardIncludeLines := by
    simp +decide [standardIncludeLines, standardHeaders]
  simp +decide [linesAfterIncludes, hstandard, hc.inked_namespaceName, allInked_bodyLines h,
    Naming.inked_guard]

/-- A field of the family is a field of one of its variants. -/
theorem exists_mem_fields_iff {p : Field → Prop} :
    (∃ field ∈ family.fields, p field) ↔
      ∃ variant ∈ family.variants, ∃ field ∈ variant.fields, p field := by
  simp only [fields, List.mem_flatMap]
  constructor
  · rintro ⟨field, ⟨variant, hvariant, hfield⟩, hp⟩
    exact ⟨variant, hvariant, field, hfield, hp⟩
  · rintro ⟨variant, hvariant, field, hfield, hp⟩
    exact ⟨field, ⟨variant, hvariant, hfield⟩, hp⟩

/-- A family refers to the families whose nodes its fields hold. -/
theorem mem_references_iff {other : String} :
    other ∈ family.references ↔
      ∃ variant ∈ family.variants, ∃ field ∈ variant.fields, field.type = .foreignChild other := by
  rw [references, mem_firstUses, List.mem_filterMap]
  simp only [FieldType.foreignFamily?_eq_some_iff, exists_mem_fields_iff]

/-- The headers that are included are those of families and that of the token type. -/
theorem exists_of_mem_localHeaders (h : family.WellNamed) {file : String}
    (hf : file ∈ family.localHeaders config) :
    ∃ name, isIdentifier name = true ∧ file = Naming.headerFile config name := by
  unfold localHeaders at hf
  rcases List.mem_append.1 hf with hdependency | htoken
  · obtain ⟨other, hother, rfl⟩ := List.mem_map.1 hdependency
    obtain ⟨variant, hvariant, field, hfield, htype⟩ := mem_references_iff.1 hother
    exact ⟨other, h.foreign variant hvariant field hfield other htype, rfl⟩
  · split at htoken
    · exact ⟨tokenName, by decide, by simpa using htoken⟩
    · exact absurd htoken List.not_mem_nil

theorem mem_localIncludeLines (h : family.WellNamed) {line : Line}
    (hline : line ∈ family.localIncludeLines config) :
    line = blank ∨
      ∃ name, isIdentifier name = true ∧ line = includeLine (Naming.headerFile config name) := by
  unfold localIncludeLines at hline
  split at hline
  · exact absurd hline List.not_mem_nil
  · rcases List.mem_append.1 hline with hinclude | hblank
    · obtain ⟨file, hfile, rfl⟩ := List.mem_map.1 hinclude
      obtain ⟨name, hname, rfl⟩ := exists_of_mem_localHeaders h hfile
      exact Or.inr ⟨name, hname, rfl⟩
    · exact Or.inl (List.mem_singleton.1 hblank)

theorem unbroken_localIncludeLines (h : family.WellNamed) (hc : config.Accepted) :
    ∀ line ∈ family.localIncludeLines config, Unbroken line.text := by
  intro line hline
  rcases mem_localIncludeLines h hline with rfl | ⟨name, hname, rfl⟩
  · exact inked_blank.unbroken
  · have hquotes : Unbroken "#include \"" ∧ Unbroken "\"" := by
      simp [Unbroken]
    exact (hquotes.1.append (hc.inked_headerFile hname).unbroken).append hquotes.2

theorem unbroken_headerLines (h : family.WellNamed) (hc : config.Accepted) :
    ∀ line ∈ family.headerLines config, Unbroken line.text := by
  rw [headerLines_eq, List.forall_mem_append, List.forall_mem_append]
  exact ⟨⟨fun line hline => (allInked_linesBeforeIncludes family config line hline).unbroken,
    unbroken_localIncludeLines h hc⟩,
    fun line hline => (allInked_linesAfterIncludes h hc line hline).unbroken⟩

/-- The lines of the text of a header are the lines in which it is laid out. -/
theorem lines_contents (h : family.WellNamed) (hc : config.Accepted) :
    Text.lines (family.header config).contents =
      (family.headerLines config).map (Line.shown config) ++ [""] := by
  simp only [header, Line.lines_renderAll config (unbroken_headerLines h hc)]

end Family

end TreeHeaders
