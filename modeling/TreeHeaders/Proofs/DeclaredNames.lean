import TreeHeaders.Header
import TreeHeaders.Proofs.Faithfulness
import TreeHeaders.Proofs.LetterCase
import TreeHeaders.Proofs.LineScope

set_option autoImplicit false

/-!
# Declared names

The names that the headers of a catalogue declare in the namespace of the nodes: for
each family the base, the aliases for handles, lists and results, the namespace of
the visitor and the nodes.

The lines of a header declare these names and no others (`Family.yields_bodyLines`), and over
all headers they are the names that loading reserves, so no two of them clash.
-/

namespace TreeHeaders

/-! ## Names of a family -/

namespace Family

/-- The alias for the result type, if the family has one. -/
def resultAlias? (family : Family) : Option String :=
  match family.contract with
  | .effect => none
  | .value result => some result

/-- The names that the header of the family declares in the namespace of the nodes. -/
def declaredNames (family : Family) : List String :=
  [family.basename, Naming.handle family.basename, Naming.list family.basename,
    family.visitor.namespaceName] ++ family.resultAlias?.toList ++ family.nodes.map (·.name)

theorem map_name_nodes (family : Family) :
    family.nodes.map (·.name) = family.variants.map (·.name) := by
  simp [nodes, node, Function.comp_def]

end Family

/-- The names that the headers of all families declare, beside those that are taken anyway. -/
def Catalogue.declaredNames (catalogue : Catalogue) : List String :=
  tokenName :: "std" :: catalogue.families.flatMap Family.declaredNames

namespace FamilyDeclaration

/-- A family declares the names that are reserved for its declaration. -/
theorem Denotes.declaredNames_eq {earlier : List String} {d : FamilyDeclaration} {family : Family}
    (h : d.Denotes earlier family) : family.declaredNames = d.reservedNames := by
  have hvariants : family.variants.map (·.name) = d.variants.map (·.name) :=
    map_eq_of_forall₂ (fun _ _ hv => hv.name) h.variants
  have hresult : family.resultAlias? = d.result := by
    rw [Family.resultAlias?, h.contract]
    unfold FamilyDeclaration.contract
    cases d.result with
    | none => rfl
    | some name => rfl
  rw [Family.declaredNames, reservedNames, Family.map_name_nodes, hvariants, hresult, h.basename]
  simp [Family.visitor, Naming.handle, Naming.list, Naming.visitorNamespace, h.basename]

theorem DenotesAll.flatMap_declaredNames {earlier : List String} {ds : List FamilyDeclaration}
    {families : List Family} (h : DenotesAll earlier ds families) :
    families.flatMap Family.declaredNames = ds.flatMap reservedNames := by
  induction h with
  | nil => rfl
  | cons head _ ih => rw [List.flatMap_cons, List.flatMap_cons, head.declaredNames_eq, ih]

end FamilyDeclaration

/-! ## Characters of derived names -/

namespace Naming

open Identifier

variable {family : String}

theorem isPart_handle (h : isIdentifier family = true) :
    ∀ c ∈ (handle family).toList, isPart c = true := by
  have hsuffix : ∀ c ∈ "Ptr".toList, isPart c = true := by simp [isPart]
  rw [handle, String.toList_append, List.forall_mem_append]
  exact ⟨isPart_of_isIdentifier h, hsuffix⟩

theorem isPart_list (h : isIdentifier family = true) :
    ∀ c ∈ (list family).toList, isPart c = true := by
  have hsuffix : ∀ c ∈ "List".toList, isPart c = true := by simp [isPart]
  rw [list, String.toList_append, List.forall_mem_append]
  exact ⟨isPart_of_isIdentifier h, hsuffix⟩

theorem isPart_visitorNamespace (h : isIdentifier family = true) :
    ∀ c ∈ (visitorNamespace family).toList, isPart c = true := by
  intro c hc
  simp only [visitorNamespace, lower, String.toList_ofList, List.mem_map] at hc
  obtain ⟨d, hd, rfl⟩ := hc
  exact isPart_toLower (isPart_of_isIdentifier h d hd)

theorem visitorNamespace_ne_empty (h : isIdentifier family = true) :
    visitorNamespace family ≠ "" := by
  intro hempty
  refine ne_empty_of_isIdentifier h ?_
  simpa [visitorNamespace, lower, String.ofList_eq_empty_iff] using hempty

end Naming

/-! ## Lines of a visitor -/

namespace Visitor

open Line

variable {visitor : Visitor}

/-- What is enclosed in the namespace of the visitor adds the name of the namespace only. -/
theorem yields_enclosed (hne : visitor.namespaceName ≠ "")
    (hpart : ∀ c ∈ visitor.namespaceName.toList, Identifier.isPart c = true) {body : List Line}
    (h : Inert body) : Yields 0 (visitor.enclosed body) [visitor.namespaceName] := by
  have hinner : Inert ([blank] ++ body ++ [blank]) := (inert_blank.append h).append inert_blank
  have hlast : (flat ("\x7d // namespace " ++ visitor.namespaceName)).opens = false :=
    opens_of_trails (trails_append (trails_of_isPart hne hpart) _)
  have hblock : Yields 0
      ([flat ("namespace " ++ visitor.namespaceName ++ " \x7b")] ++ ([blank] ++ body ++ [blank]) ++
        [flat ("\x7d // namespace " ++ visitor.namespaceName)]) [visitor.namespaceName] :=
    Yields.definition (by simp [declarators]) hpart (by simp [Identifier.isPart]) rfl hlast
      (by simp [closes, flat]) (by simp [declaredName?, declarators, flat]) hinner
  simpa [enclosed] using hblock

theorem inert_template : Inert [flat "template <typename T>"] :=
  Inert.of_line ⟨rfl, rfl⟩

theorem neutral_methodLine (method : DispatchMethod) : Neutral (methodLine method) := by
  have hfront : leads ("virtual T " ++ method.name ++ "(" ++ method.variant) = true :=
    leads_append (leads_append (leads_append rfl method.name) "(") method.variant
  exact neutral_flat hfront rfl

theorem yields_declarationLines (hne : visitor.namespaceName ≠ "")
    (hpart : ∀ c ∈ visitor.namespaceName.toList, Identifier.isPart c = true) :
    Yields 0 visitor.declarationLines [visitor.namespaceName] := by
  have hstruct : Inert [flat "struct Visitor;"] := Inert.of_line ⟨rfl, rfl⟩
  exact yields_enclosed hne hpart (inert_template.append hstruct)

theorem yields_lines (hne : visitor.namespaceName ≠ "")
    (hpart : ∀ c ∈ visitor.namespaceName.toList, Identifier.isPart c = true) :
    Yields 0 visitor.lines [visitor.namespaceName] := by
  have hmethods : Inert (visitor.methods.map methodLine) := by
    refine Inert.of_neutral ?_
    intro line hline
    obtain ⟨method, -, rfl⟩ := List.mem_map.1 hline
    exact neutral_methodLine method
  have hdestructor : Inert [flat "virtual ~Visitor() = default;"] :=
    Inert.of_line ⟨rfl, rfl⟩
  have hstruct : Inert ([flat "struct Visitor \x7b"] ++
      indented (visitor.methods.map methodLine ++ [flat "virtual ~Visitor() = default;"]) ++
      [flat "\x7d;"]) :=
    Inert.block rfl rfl rfl rfl (hmethods.append hdestructor).indented
  have hbody := yields_enclosed hne hpart (inert_template.append hstruct)
  simpa [lines] using hbody

end Visitor

/-! ## Lines of a node -/

namespace Parameter

open Line

theorem inert_initialiserLines {leader : String} (hleader : leads leader = true)
    (parameters : List Parameter) : Inert (initialiserLines leader parameters) := by
  -- a line that continues another one differs from a flat one in its depth only
  have hcontinued : ∀ {text : String}, Neutral (flat text) → Neutral (continued text) :=
    fun h => ⟨h.opens, h.closes⟩
  fun_induction initialiserLines leader parameters with
  | case1 => exact Inert.nil
  | case2 leader parameter =>
    have hline : Neutral (flat (leader ++ parameter.initialiser ++ " \x7b\x7d")) :=
      neutral_flat (leads_append hleader parameter.initialiser) rfl
    exact Inert.of_line (hcontinued hline)
  | case3 leader parameter rest _ ih =>
    have hline : Neutral (flat (leader ++ parameter.initialiser ++ ",")) :=
      neutral_flat (leads_append hleader parameter.initialiser) rfl
    have hrest : Inert (initialiserLines "  " rest) := ih rfl
    exact (Inert.of_line (hcontinued hline)).append hrest

end Parameter

namespace Node

open Line

theorem inert_constructorLines {node : Node} (h : isIdentifier node.name = true) :
    Inert node.constructorLines := by
  have hlead : leads node.name = true := leads_of_isIdentifier h
  unfold constructorLines
  split
  · exact Inert.of_line (neutral_flat hlead rfl)
  · have hhead : Neutral (flat (node.name ++ "(" ++
        ", ".intercalate (node.parameters.map Parameter.declaration) ++ ")")) :=
      neutral_flat (leads_append (leads_append hlead "(") _) rfl
    have hrest : Inert (Parameter.initialiserLines ": " node.parameters) :=
      Parameter.inert_initialiserLines rfl node.parameters
    exact (Inert.of_line hhead).append hrest

theorem inert_memberLines {node : Node} (h : ∀ member ∈ node.members, leads member.type = true) :
    Inert node.memberLines := by
  unfold memberLines
  split
  · exact Inert.nil
  · refine Inert.append (Inert.of_neutral ?_) inert_blank
    intro line hline
    obtain ⟨member, hmember, rfl⟩ := List.mem_map.1 hline
    exact neutral_flat (leads_append (leads_append (h member hmember) " ") member.name) rfl

theorem inert_entryPointLines {entry : EntryPoint} (h : leads entry.result = true) :
    Inert (entryPointLines entry) := by
  have hfront : leads (entry.result ++ " accept(" ++ entry.visitor) = true :=
    leads_append (leads_append h " accept(") entry.visitor
  have hreturn : Neutral (deeper (flat ("return v." ++ entry.dispatch ++ "(*this);"))) := by
    have hflat : Neutral (flat ("return v." ++ entry.dispatch ++ "(*this);")) :=
      neutral_flat (leads_append rfl entry.dispatch) rfl
    exact ⟨hflat.opens, hflat.closes⟩
  have hblock : Inert
      ([flat (entry.result ++ " accept(" ++ entry.visitor ++ " &v) override \x7b")] ++
        [deeper (flat ("return v." ++ entry.dispatch ++ "(*this);"))] ++ [flat "\x7d"]) :=
    Inert.block (opens_append rfl _) (closes_of_leads (leads_append hfront _)) rfl rfl
      (Inert.of_line hreturn)
  exact inert_blank.append hblock

/-- The definition of a node declares its name only. -/
theorem yields_lines {node : Node} (hname : isIdentifier node.name = true)
    (hmembers : ∀ member ∈ node.members, leads member.type = true)
    (hentries : ∀ entry ∈ node.entryPoints, leads entry.result = true) :
    Yields 0 node.lines [node.name] := by
  have hbody : Inert (node.memberLines ++ node.constructorLines ++
      node.entryPoints.flatMap entryPointLines) :=
    ((inert_memberLines hmembers).append (inert_constructorLines hname)).append
      (Inert.flatMap fun entry hentry => inert_entryPointLines (hentries entry hentry))
  have hblock : Yields 0 ([flat ("struct " ++ node.name ++ (" : " ++ node.base ++ " \x7b"))] ++
      indented (node.memberLines ++ node.constructorLines ++
        node.entryPoints.flatMap entryPointLines) ++ [flat "\x7d;"]) [node.name] :=
    Yields.definition (by simp [declarators]) (Identifier.isPart_of_isIdentifier hname)
      (by simp [Identifier.isPart]) (opens_append rfl _) rfl rfl rfl hbody.indented
  simpa [lines, String.append_assoc] using hblock

end Node

/-! ## Lines of a header -/

namespace Family

open Line

variable {family : Family}

theorem yields_resultLines (h : family.WellNamed) :
    Yields 0 family.resultLines family.resultAlias?.toList := by
  unfold resultLines resultAlias?
  cases hc : family.contract with
  | effect => exact Yields.nil 0
  | value result =>
    have hpart := Identifier.isPart_of_isIdentifier (h.result result hc)
    have halias : Yields 0 [flat ("using " ++ result ++ (" = std::variant<" ++
        ", ".intercalate (Primitive.all.map Naming.primitive) ++ ">;"))] [result] :=
      Yields.declaration (by simp [declarators]) hpart (by simp [Identifier.isPart])
        (trails_append rfl _)
    have hlines := halias.append yields_blank
    simpa [String.append_assoc] using hlines

theorem yields_forwardLines (h : family.WellNamed) :
    Yields 0 family.forwardLines (family.nodes.map (·.name)) := by
  refine Yields.map ?_
  intro node hnode
  obtain ⟨variant, hvariant, rfl⟩ := List.mem_map.1 hnode
  have hpart := Identifier.isPart_of_isIdentifier (h.variants variant hvariant)
  exact Yields.declaration (by simp [declarators]) hpart (by simp [Identifier.isPart]) rfl

theorem yields_baseLines (h : family.WellNamed) :
    Yields 0 family.baseLines [family.basename] := by
  have hentries : Inert (family.results.map family.baseEntryLine) := by
    refine Inert.of_neutral ?_
    intro line hline
    obtain ⟨result, -, rfl⟩ := List.mem_map.1 hline
    exact neutral_flat (leads_append (leads_append (leads_append rfl result) " accept(") _) rfl
  have hdestructor : Inert [flat ("virtual ~" ++ family.basename ++ "() = default;")] :=
    Inert.of_line (neutral_flat (leads_append rfl family.basename) rfl)
  have hblock : Yields 0 ([flat ("struct " ++ family.basename ++ " \x7b")] ++
      indented (family.results.map family.baseEntryLine ++
        [flat ("virtual ~" ++ family.basename ++ "() = default;")]) ++ [flat "\x7d;"])
      [family.basename] :=
    Yields.definition (by simp [declarators]) (Identifier.isPart_of_isIdentifier h.basename)
      (by simp [Identifier.isPart]) rfl rfl rfl rfl (hentries.append hdestructor).indented
  exact hblock

theorem yields_aliasLines (h : family.WellNamed) :
    Yields 0 family.aliasLines
      [Naming.handle family.basename, Naming.list family.basename] := by
  -- both aliases are of one form; only the alias and what it stands for differ
  have halias : ∀ {name : String} (template type : String),
      (∀ c ∈ name.toList, Identifier.isPart c = true) →
      Yields 0 [flat ("using " ++ name ++ " = std::" ++ template ++ type ++ ">;")] [name] := by
    intro name template type hpart
    have hline : Yields 0 [flat ("using " ++ name ++ (" = std::" ++ template ++ type ++ ">;"))]
        [name] :=
      Yields.declaration (by simp [declarators]) hpart (by simp [Identifier.isPart])
        (trails_append rfl _)
    simpa [String.append_assoc] using hline
  have hhandle := halias "unique_ptr<" family.basename (Naming.isPart_handle h.basename)
  have hlist := halias "vector<" (Naming.handle family.basename) (Naming.isPart_list h.basename)
  simpa [aliasLines, String.append_assoc] using hhandle.append hlist

/-- A result type is one of the two that need no alias, or that of the contract. -/
theorem mem_results {result : String} (h : result ∈ family.results) :
    result = Naming.noResult ∨ result = Naming.renderedText ∨ family.contract = .value result := by
  have hprimary : ∀ primary : String,
      result ∈ (if family.rendersText then [primary, Naming.renderedText] else [primary]) →
        result = primary ∨ result = Naming.renderedText := by
    intro primary hmem
    split at hmem
    · simpa using hmem
    · exact Or.inl (by simpa using hmem)
  unfold results at h
  cases hc : family.contract with
  | effect =>
    simp only [hc] at h
    rcases hprimary _ h with hnone | htext
    · exact Or.inl hnone
    · exact Or.inr (Or.inl htext)
  | value other =>
    simp only [hc] at h
    rcases hprimary _ h with rfl | htext
    · exact Or.inr (Or.inr rfl)
    · exact Or.inr (Or.inl htext)

theorem leads_of_mem_results (h : family.WellNamed) {result : String}
    (hr : result ∈ family.results) : leads result = true := by
  rcases mem_results hr with rfl | rfl | hvalue
  · rfl
  · rfl
  · exact leads_of_isIdentifier (h.result result hvalue)

theorem leads_fieldType (h : family.WellNamed) {variant : Variant} (hv : variant ∈ family.variants)
    {field : Field} (hf : field ∈ variant.fields) :
    leads (Naming.fieldType family.basename field.type) = true := by
  have hbase : leads family.basename = true := leads_of_isIdentifier h.basename
  have hprimitive : ∀ p : Primitive, leads (Naming.primitive p) = true := by
    intro p
    cases p <;> decide
  have htoken : leads tokenName = true := rfl
  cases ht : field.type with
  | primitive p => exact hprimitive p
  | token => exact htoken
  | child => exact leads_append hbase "Ptr"
  | foreignChild other =>
    have hother : leads other = true :=
      leads_of_isIdentifier (h.foreign variant hv field hf other ht)
    exact leads_append hother "Ptr"
  | children => exact leads_append hbase "List"

theorem yields_nodeLines (h : family.WellNamed) :
    Yields 0 family.nodeLines (family.nodes.map (·.name)) := by
  rw [List.map_eq_flatMap]
  refine Yields.flatMap ?_
  intro node hnode
  obtain ⟨variant, hvariant, rfl⟩ := List.mem_map.1 hnode
  have hmembers : ∀ member ∈ (family.node variant).members, leads member.type = true := by
    intro member hmember
    obtain ⟨field, hfield, rfl⟩ := List.mem_map.1 hmember
    exact leads_fieldType h hvariant hfield
  have hentries : ∀ entry ∈ (family.node variant).entryPoints, leads entry.result = true := by
    intro entry hentry
    obtain ⟨result, hresult, rfl⟩ := List.mem_map.1 hentry
    exact leads_of_mem_results h hresult
  have hlines : Yields 0 (family.node variant).lines [(family.node variant).name] :=
    Node.yields_lines (h.variants variant hvariant) hmembers hentries
  exact hlines.append yields_blank

/-- The names that the lines of a header declare, in order. Visitor and nodes are declared
twice, ahead of their use and by their definition. -/
theorem yields_bodyLines (h : family.WellNamed) :
    Yields 0 family.bodyLines
      (family.resultAlias?.toList ++ [family.visitor.namespaceName] ++
        family.nodes.map (·.name) ++ [family.basename] ++
        [Naming.handle family.basename, Naming.list family.basename] ++
        [family.visitor.namespaceName] ++ family.nodes.map (·.name)) := by
  have hne : family.visitor.namespaceName ≠ "" := Naming.visitorNamespace_ne_empty h.basename
  have hpart : ∀ c ∈ family.visitor.namespaceName.toList, Identifier.isPart c = true :=
    Naming.isPart_visitorNamespace h.basename
  have hresult := yields_resultLines h
  have hahead := (Visitor.yields_declarationLines hne hpart).append yields_blank
  have hforward := (yields_forwardLines h).append yields_blank
  have hbase := (yields_baseLines h).append yields_blank
  have halias := (yields_aliasLines h).append yields_blank
  have hvisitor := (Visitor.yields_lines hne hpart).append yields_blank
  have hbody := (((((hresult.append hahead).append hforward).append hbase).append halias).append
    hvisitor).append (yields_nodeLines h)
  simpa [bodyLines] using hbody

/-- The lines of a header declare the names of the family and no others. -/
theorem mem_scopeNames_bodyLines_iff (h : family.WellNamed) (name : String) :
    name ∈ scopeNames 0 family.bodyLines ↔ name ∈ family.declaredNames := by
  rw [(yields_bodyLines h).names, declaredNames]
  simp only [List.mem_append, List.mem_cons, List.not_mem_nil, or_false]
  grind

end Family

/-! ## Names of a catalogue -/

/-- No two names that the headers of a catalogue declare are the same. They are the
names that are reserved for the declarations, and they are the names that stand in
the text of the headers. -/
theorem Catalogue.declaredNames_nodup {ds : List FamilyDeclaration} {c : Catalogue}
    (h : load ds = .ok c) :
    c.declaredNames.Nodup ∧ c.declaredNames = FamilyDeclaration.allReservedNames ds ∧
      ∀ family ∈ c.families, ∀ name,
        name ∈ Line.scopeNames 0 family.bodyLines ↔ name ∈ family.declaredNames := by
  obtain ⟨hadmissible, hdenotes⟩ := load_eq_ok_iff.1 h
  have hnames : c.declaredNames = FamilyDeclaration.allReservedNames ds := by
    rw [declaredNames, hdenotes.flatMap_declaredNames]
    rfl
  refine ⟨?_, hnames, ?_⟩
  · rw [hnames]
    exact hadmissible.reserved_nodup
  · intro family hfamily name
    exact Family.mem_scopeNames_bodyLines_iff (wellNamed_of_mem h hfamily) name

/-- The headers of Lox declare no name twice, and one of them declares the alias for lists of
statements. -/
theorem Lox.declaredNames_nodup_and_text :
    ∃ c, Catalogue.load declarations = .ok c ∧ c.declaredNames.Nodup ∧
      ∃ family ∈ c.families, "StmtList" ∈ Line.scopeNames 0 family.bodyLines := by
  obtain ⟨c, hc, hbasenames⟩ := Catalogue.exists_load_of_isOk catalogue_isOk
  obtain ⟨hnodup, -, htext⟩ := Catalogue.declaredNames_nodup hc
  obtain ⟨family, hfamily, hname⟩ : ∃ family ∈ c.families, family.basename = "Stmt" := by
    refine List.mem_map.1 ?_
    rw [hbasenames]
    decide
  refine ⟨c, hc, hnodup, family, hfamily, ?_⟩
  rw [htext family hfamily]
  simp [Family.declaredNames, hname, Naming.list]

end TreeHeaders
