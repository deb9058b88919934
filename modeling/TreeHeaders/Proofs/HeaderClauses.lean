import TreeHeaders.Proofs.Clause
import Mathlib.Data.List.Basic

set_option autoImplicit false

/-!
# What a header says

The clauses of each group of lines of a header, and from them the clauses of its text
(`Family.clauses_contents`): first the entry points of the base, then the methods of the
visitor, then each node with its members and its own entry points. Includes, forward
declarations, aliases and constructors say nothing.
-/

namespace TreeHeaders

open Text Line

/-! ## Lines of each kind -/

namespace Line

variable {line : Line}

theorem clause?_pureVirtual {result method parameter : String} (hr : IsWord result)
    (hm : IsWord method) (hp : IsWord parameter) (hopen : '(' ∉ method.toList)
    (htext : line.text.toList =
      ("virtual " ++ result ++ " " ++ method ++ "(" ++ parameter ++ " &) = 0;").toList) :
    line.clause? = some (.pureVirtual result method parameter) := by
  have hcall : IsWord (method ++ "(" ++ parameter) := (hm.append (by decide)).append hp
  have hwords : line.clause? = Clause.ofWords?
      ["virtual", result, method ++ "(" ++ parameter, "&)", "=", "0;"] := by
    refine clause?_eq_of_words (by simp +decide [hr, hcall]) ?_
    simp [htext]
  simp [hwords, Clause.ofWords?, Clause.call?_eq_some hopen]

theorem clause?_overriding {result method parameter : String} (hr : IsWord result)
    (hm : IsWord method) (hp : IsWord parameter) (hopen : '(' ∉ method.toList)
    (htext : line.text.toList =
      (result ++ " " ++ method ++ "(" ++ parameter ++ " &v) override \x7b").toList) :
    line.clause? = some (.overriding result method parameter) := by
  have hcall : IsWord (method ++ "(" ++ parameter) := (hm.append (by decide)).append hp
  have hwords : line.clause? = Clause.ofWords?
      [result, method ++ "(" ++ parameter, "&v)", "override", "\x7b"] := by
    refine clause?_eq_of_words (by simp +decide [hr, hcall]) ?_
    simp [htext]
  simp [hwords, Clause.ofWords?, Clause.call?_eq_some hopen]

theorem clause?_dispatch {method : String} (hm : IsWord method)
    (htext : line.text.toList = ("return v." ++ method ++ "(*this);").toList) :
    line.clause? = some (.dispatch method) := by
  have hcall : IsWord ("v." ++ method ++ "(*this);") :=
    (IsWord.append (by decide) hm).append (by decide)
  have hwords : line.clause? = Clause.ofWords? ["return", "v." ++ method ++ "(*this);"] := by
    refine clause?_eq_of_words (by simp +decide [hcall]) ?_
    simp [htext]
  have hbetween : between? "v." "(*this);" ("v." ++ method ++ "(*this);") = some method :=
    between?_eq_some_iff.2 rfl
  simp [hwords, Clause.ofWords?, hbetween]

theorem clause?_node {name base : String} (hn : IsWord name) (hb : IsWord base)
    (htext : line.text.toList = ("struct " ++ name ++ " : " ++ base ++ " \x7b").toList) :
    line.clause? = some (.node name base) := by
  have hwords : line.clause? = Clause.ofWords? ["struct", name, ":", base, "\x7b"] := by
    refine clause?_eq_of_words (by simp +decide [hn, hb]) ?_
    simp [htext]
  simp [hwords, Clause.ofWords?]

theorem clause?_member {type name : String} (ht : IsWord type) (hn : IsWord name)
    (hstruct : type ≠ "struct") (hreturn : type ≠ "return")
    (htext : line.text.toList = (type ++ " " ++ name ++ ";").toList) :
    line.clause? = some (.member type name) := by
  have hlast : IsWord (name ++ ";") := hn.append (by decide)
  have hwords : line.clause? = Clause.ofWords? [type, name ++ ";"] := by
    refine clause?_eq_of_words (by simp [ht, hlast]) ?_
    simp [htext]
  have hbetween : between? "" ";" (name ++ ";") = some name :=
    between?_eq_some_iff.2 (by rw [String.empty_append])
  simp [hwords, Clause.ofWords?, hstruct, hreturn, hbetween]

theorem clause?_forward (name : String) (hn : IsWord name)
    (htext : line.text.toList = ("struct " ++ name ++ ";").toList) : line.clause? = none := by
  have hlast : IsWord (name ++ ";") := hn.append (by decide)
  have hwords : line.clause? = Clause.ofWords? ["struct", name ++ ";"] := by
    refine clause?_eq_of_words (by simp +decide [hlast]) ?_
    simp [htext]
  simp [hwords, Clause.ofWords?]

/-- A word, a name and an opening brace say nothing. -/
theorem clause?_opening (word name : String) (hw : IsWord word) (hn : IsWord name)
    (htext : line.text.toList = (word ++ " " ++ name ++ " \x7b").toList) : line.clause? = none := by
  have hwords : line.clause? = Clause.ofWords? [word, name, "\x7b"] := by
    refine clause?_eq_of_words (by simp +decide [hw, hn]) ?_
    simp [htext]
  rw [hwords]
  rfl

/-- Four words say nothing. -/
theorem clause?_four (first second third last : String)
    (hw : ∀ w ∈ [first, second, third, last], IsWord w)
    (htext : line.text.toList = (first ++ " " ++ second ++ " " ++ third ++ " " ++ last).toList) :
    line.clause? = none := by
  have hwords : line.clause? = Clause.ofWords? [first, second, third, last] := by
    refine clause?_eq_of_words hw ?_
    simp [htext]
  rw [hwords]
  rfl

/-- The end of a type says nothing. -/
theorem clause?_closing : (flat "\x7d;").clause? = none := by decide

theorem clause?_template : (flat "template <typename T>").clause? = none :=
  clause?_eq_none_of_endsMute (by decide)

end Line

/-! ## Visitors -/

namespace Visitor

variable {visitor : Visitor}

/-- What is enclosed in the namespace of the visitor says what it says outside of it. -/
theorem clauses_enclosed (hword : IsWord visitor.namespaceName)
    (hpart : ∀ c ∈ visitor.namespaceName.toList, Identifier.isPart c = true) (body : List Line) :
    clauses (visitor.enclosed body) = clauses body := by
  have hopening : (flat ("namespace " ++ visitor.namespaceName ++ " \x7b")).clause? = none :=
    clause?_opening "namespace" visitor.namespaceName (by decide) hword (by simp)
  have hclosing : (flat ("\x7d // namespace " ++ visitor.namespaceName)).clause? = none :=
    clause?_eq_none_of_append
      (endsMute_of_isPart hword.ne_empty fun c hc => Or.inl (hpart c hc)) rfl
  simp [enclosed, clauses_cons_of_none, hopening, hclosing, clause?_blank]

theorem clauses_declarationLines (hword : IsWord visitor.namespaceName)
    (hpart : ∀ c ∈ visitor.namespaceName.toList, Identifier.isPart c = true) :
    clauses visitor.declarationLines = [] := by
  have hstruct : (flat "struct Visitor;").clause? = none :=
    clause?_forward "Visitor" (by decide) (by simp)
  rw [declarationLines, clauses_enclosed hword hpart]
  simp [clauses_cons_of_none, clause?_template, hstruct]

/-- The visitor says which methods it has. -/
theorem clauses_lines (hword : IsWord visitor.namespaceName)
    (hpart : ∀ c ∈ visitor.namespaceName.toList, Identifier.isPart c = true)
    (hmethods : ∀ method ∈ visitor.methods,
      IsWord method.name ∧ '(' ∉ method.name.toList ∧ IsWord method.variant) :
    clauses visitor.lines =
      visitor.methods.map fun method => .pureVirtual "T" method.name method.variant := by
  have hstruct : (flat "struct Visitor \x7b").clause? = none :=
    clause?_opening "struct" "Visitor" (by decide) (by decide) (by simp)
  have hdestructor : (flat "virtual ~Visitor() = default;").clause? = none :=
    clause?_four "virtual" "~Visitor()" "=" "default;" (by decide) (by simp)
  have hlines : clauses (visitor.methods.map methodLine) =
      visitor.methods.map fun method => .pureVirtual "T" method.name method.variant := by
    refine clauses_map ?_
    intro method hmethod
    obtain ⟨hname, hopen, hvariant⟩ := hmethods method hmethod
    exact clause?_pureVirtual (by decide) hname hvariant hopen (by simp [methodLine])
  rw [lines, clauses_enclosed hword hpart]
  simp [clauses_cons_of_none, clause?_template, hstruct, hdestructor, clause?_closing, hlines]

end Visitor

/-! ## Nodes -/

namespace Node

/-- What an entry point of a node says. -/
def entryClauses (entry : EntryPoint) : List Clause :=
  [.overriding entry.result "accept" entry.visitor, .dispatch entry.dispatch]

/-- What the node type says after its opening line: its members, and how it is visited. -/
def innerClauses (node : Node) : List Clause :=
  node.members.map (fun member => Clause.member member.type member.name) ++
    node.entryPoints.flatMap entryClauses

/-- What the node type says: its name and base, and what is in it. -/
def clauses (node : Node) : List Clause :=
  .node node.name node.base :: node.innerClauses

/-- Every text in the parts of the node that says something is one word. -/
structure AllWords (node : Node) : Prop where
  name : IsWord node.name
  base : IsWord node.base
  members : ∀ member ∈ node.members,
    IsWord member.type ∧ IsWord member.name ∧ member.type ≠ "struct" ∧ member.type ≠ "return"
  entryPoints : ∀ entry ∈ node.entryPoints,
    IsWord entry.result ∧ IsWord entry.visitor ∧ IsWord entry.dispatch

variable {node : Node}

theorem clauses_memberLines (h : node.AllWords) :
    Line.clauses node.memberLines =
      node.members.map fun member => .member member.type member.name := by
  have hlines : Line.clauses (node.members.map fun member =>
      .flat (member.type ++ " " ++ member.name ++ ";")) =
        node.members.map fun member => .member member.type member.name := by
    refine clauses_map ?_
    intro member hmember
    obtain ⟨htype, hname, hstruct, hreturn⟩ := h.members member hmember
    exact clause?_member htype hname hstruct hreturn rfl
  unfold memberLines
  split
  · next hnil => simp [hnil]
  · simp [clauses_cons_of_none, clause?_blank, hlines]

theorem clauses_initialiserLines (leader : String) (parameters : List Parameter) :
    Line.clauses (Parameter.initialiserLines leader parameters) = [] := by
  have hbraces : endsMute " \x7b\x7d" = true := by decide
  have hcomma : endsMute "," = true := by decide
  fun_induction Parameter.initialiserLines leader parameters with
  | case1 => rfl
  | case2 leader parameter =>
    rw [clauses_cons_of_none (clause?_eq_none_of_append hbraces rfl), clauses_nil]
  | case3 leader parameter rest _ ih =>
    rw [clauses_cons_of_none (clause?_eq_none_of_append hcomma rfl), ih]

/-- A constructor repeats what the members say. -/
theorem clauses_constructorLines (node : Node) : Line.clauses node.constructorLines = [] := by
  have hbraces : endsMute "() \x7b\x7d" = true := by decide
  have hparen : endsMute ")" = true := by decide
  unfold constructorLines
  split
  · rw [clauses_cons_of_none (clause?_eq_none_of_append hbraces rfl), clauses_nil]
  · rw [clauses_cons_of_none (clause?_eq_none_of_append hparen rfl), clauses_initialiserLines]

theorem clauses_entryPointLines {entry : EntryPoint} (hresult : IsWord entry.result)
    (hvisitor : IsWord entry.visitor) (hdispatch : IsWord entry.dispatch) :
    Line.clauses (entryPointLines entry) = entryClauses entry := by
  have hopening : (flat (entry.result ++ " accept(" ++ entry.visitor ++
      " &v) override \x7b")).clause? = some (.overriding entry.result "accept" entry.visitor) :=
    clause?_overriding hresult (by decide) hvisitor (by decide) (by simp)
  have hreturn : (deeper (flat ("return v." ++ entry.dispatch ++ "(*this);"))).clause? =
      some (.dispatch entry.dispatch) :=
    clause?_dispatch hdispatch rfl
  have hclosing : (flat "\x7d").clause? = none := by decide
  rw [entryPointLines, clauses_cons_of_none clause?_blank, clauses_cons_of_some hopening,
    clauses_cons_of_some hreturn, clauses_cons_of_none hclosing, clauses_nil, entryClauses]

theorem clauses_lines (h : node.AllWords) : Line.clauses node.lines = node.clauses := by
  have hopening : (flat ("struct " ++ node.name ++ " : " ++ node.base ++ " \x7b")).clause? =
      some (.node node.name node.base) :=
    clause?_node h.name h.base rfl
  have hentries : Line.clauses (node.entryPoints.flatMap entryPointLines) =
      node.entryPoints.flatMap entryClauses := by
    refine clauses_flatMap ?_
    intro entry hentry
    obtain ⟨hresult, hvisitor, hdispatch⟩ := h.entryPoints entry hentry
    exact clauses_entryPointLines hresult hvisitor hdispatch
  simp [lines, clauses, innerClauses, clauses_cons_of_some hopening,
    clauses_cons_of_none clause?_closing, clauses_memberLines h, clauses_constructorLines, hentries]

end Node

/-! ## Names of a family -/

namespace Naming

variable {family : String}

theorem guard_ne_empty (config : Config) (family : String) : guard config family ≠ "" := by
  unfold guard guardOf
  split
  · decide
  · next hne => simpa [String.ofList_eq_empty_iff] using hne

theorem endsMute_guard (config : Config) (family : String) :
    endsMute (guard config family) = true :=
  endsMute_of_isPart (guard_ne_empty config family)
    fun c hc => Or.inl (isPart_guard config family c hc)

theorem isPart_dispatchMethod {variant : String} (hv : isIdentifier variant = true)
    (hf : isIdentifier family = true) :
    ∀ c ∈ (dispatchMethod variant family).toList, Identifier.isPart c = true := by
  have hvisit : ∀ c ∈ "visit".toList, Identifier.isPart c = true := by simp [Identifier.isPart]
  simp only [dispatchMethod, String.toList_append, List.forall_mem_append]
  exact ⟨⟨hvisit, Identifier.isPart_of_isIdentifier hv⟩, Identifier.isPart_of_isIdentifier hf⟩

theorem isWord_dispatchMethod {variant : String} (hv : isIdentifier variant = true)
    (hf : isIdentifier family = true) : IsWord (dispatchMethod variant family) :=
  (IsWord.append (by decide) (isWord_of_isIdentifier hv)).append (isWord_of_isIdentifier hf)

theorem isWord_member {field : String} (h : isIdentifier field = true) : IsWord (member field) :=
  (isWord_of_isIdentifier h).append (by decide)

end Naming

namespace Family

variable {family : Family}

theorem isWord_of_mem_results (h : family.WellNamed) {result : String}
    (hr : result ∈ family.results) : IsWord result := by
  rcases mem_results hr with rfl | rfl | hvalue
  · decide
  · decide
  · exact isWord_of_isIdentifier (h.result result hvalue)

theorem isWord_fieldType (h : family.WellNamed) {variant : Variant} (hv : variant ∈ family.variants)
    {field : Field} (hf : field ∈ variant.fields) :
    IsWord (Naming.fieldType family.basename field.type) := by
  have hbase : IsWord family.basename := isWord_of_isIdentifier h.basename
  have hprimitive : ∀ p : Primitive, IsWord (Naming.primitive p) := by
    intro p
    cases p <;> decide
  cases ht : field.type with
  | primitive p => exact hprimitive p
  | token => exact (by decide : IsWord tokenName)
  | child => exact hbase.append (by decide)
  | foreignChild other =>
    exact (isWord_of_isIdentifier (h.foreign variant hv field hf other ht)).append (by decide)
  | children => exact hbase.append (by decide)

end Family

/-- No member has a type that is called like one of the words that lead other lines. -/
theorem Naming.fieldType_ne (family : String) (type : FieldType) :
    fieldType family type ≠ "struct" ∧ fieldType family type ≠ "return" := by
  have hprimitive : ∀ p : Primitive, primitive p ≠ "struct" ∧ primitive p ≠ "return" := by
    intro p
    cases p <;> decide
  cases type with
  | primitive p => exact hprimitive p
  | token => exact (by decide : tokenName ≠ "struct" ∧ tokenName ≠ "return")
  | child => exact ⟨append_ne (by decide), append_ne (by decide)⟩
  | foreignChild other => exact ⟨append_ne (by decide), append_ne (by decide)⟩
  | children => exact ⟨append_ne (by decide), append_ne (by decide)⟩

namespace Family

variable {family : Family}

theorem allWords_node (h : family.WellNamed) {variant : Variant} (hv : variant ∈ family.variants) :
    (family.node variant).AllWords := by
  refine ⟨isWord_of_isIdentifier (h.variants variant hv), isWord_of_isIdentifier h.basename, ?_, ?_⟩
  · intro member hmem
    obtain ⟨field, hfield, rfl⟩ := List.mem_map.1 hmem
    exact ⟨isWord_fieldType h hv hfield, Naming.isWord_member (h.fields variant hv field hfield),
      Naming.fieldType_ne family.basename field.type⟩
  · intro entry hmem
    obtain ⟨result, hresult, rfl⟩ := List.mem_map.1 hmem
    have hword := isWord_of_mem_results h hresult
    exact ⟨hword, Naming.isWord_visitor h.basename hword,
      Naming.isWord_dispatchMethod (h.variants variant hv) h.basename⟩

/-! ## Groups of lines of a family -/

/-- The pure virtual entry points of the base. -/
def baseClauses (family : Family) : List Clause :=
  family.results.map fun result =>
    .pureVirtual result "accept" (Naming.visitor family.basename result)

/-- The pure virtual methods of the visitor. -/
def visitorClauses (family : Family) : List Clause :=
  family.visitor.methods.map fun method => .pureVirtual "T" method.name method.variant

theorem clauses_resultLines (h : family.WellNamed) : clauses family.resultLines = [] := by
  unfold resultLines
  cases hc : family.contract with
  | effect => rfl
  | value result =>
    have hresult : IsWord result := isWord_of_isIdentifier (h.result result hc)
    have hwords : (flat ("using " ++ result ++ " = std::variant<" ++
        ", ".intercalate (Primitive.all.map Naming.primitive) ++ ">;")).clause? = Clause.ofWords?
          ["using", result, "=", "std::variant<bool,", "double,", "std::string,",
            "std::nullptr_t>;"] := by
      refine clause?_eq_of_words (by simp +decide [hresult]) ?_
      simp [Primitive.all, Naming.primitive]
    exact clauses_cons_of_none (hwords.trans rfl) _

theorem clauses_forwardLines (h : family.WellNamed) : clauses family.forwardLines = [] := by
  refine clauses_eq_nil ?_
  intro line hline
  obtain ⟨node, hnode, rfl⟩ := List.mem_map.1 hline
  obtain ⟨variant, hvariant, rfl⟩ := List.mem_map.1 hnode
  exact clause?_forward variant.name (allWords_node h hvariant).name rfl

/-- The base says which entry points a node has to override. -/
theorem clauses_baseLines (h : family.WellNamed) :
    clauses family.baseLines = family.baseClauses := by
  have hbase : IsWord family.basename := isWord_of_isIdentifier h.basename
  have hopening : (flat ("struct " ++ family.basename ++ " \x7b")).clause? = none :=
    clause?_opening "struct" family.basename (by decide) hbase (by simp)
  have hname : IsWord ("~" ++ family.basename ++ "()") :=
    (IsWord.append (by decide) hbase).append (by decide)
  have hdestructor : (flat ("virtual ~" ++ family.basename ++ "() = default;")).clause? = none :=
    clause?_four "virtual" ("~" ++ family.basename ++ "()") "=" "default;"
      (by simp +decide [hname]) (by simp)
  have hentries : clauses (family.results.map family.baseEntryLine) = family.baseClauses := by
    refine clauses_map ?_
    intro result hresult
    have hword := isWord_of_mem_results h hresult
    exact clause?_pureVirtual hword (by decide) (Naming.isWord_visitor h.basename hword) (by decide)
      (by simp [baseEntryLine])
  simp [baseLines, clauses_cons_of_none, hopening, hdestructor, clause?_closing, hentries]

theorem clauses_aliasLines (h : family.WellNamed) : clauses family.aliasLines = [] := by
  have hbase : IsWord family.basename := isWord_of_isIdentifier h.basename
  have hhandle : IsWord (Naming.handle family.basename) := hbase.append (by decide)
  have halias : ∀ (name target : String) {line : Line}, IsWord name → IsWord target →
      line.text.toList = ("using" ++ " " ++ name ++ " " ++ "=" ++ " " ++ target).toList →
        line.clause? = none := by
    intro name target line hname htarget htext
    exact clause?_four "using" name "=" target (by simp +decide [hname, htarget]) htext
  refine clauses_eq_nil ?_
  rw [aliasLines, List.forall_mem_cons, List.forall_mem_singleton]
  refine ⟨?_, ?_⟩
  · refine halias (Naming.handle family.basename) ("std::unique_ptr<" ++ family.basename ++ ">;")
      hhandle ?_ (by simp)
    exact (IsWord.append (by decide) hbase).append (by decide)
  · refine halias (Naming.list family.basename)
      ("std::vector<" ++ Naming.handle family.basename ++ ">;") ?_ ?_ (by simp)
    · exact hbase.append (by decide)
    · exact (IsWord.append (by decide) hhandle).append (by decide)

theorem clauses_visitor (h : family.WellNamed) :
    clauses family.visitor.declarationLines = [] ∧
      clauses family.visitor.lines = family.visitorClauses := by
  have hword : IsWord family.visitor.namespaceName := Naming.isWord_visitorNamespace h.basename
  have hpart := Naming.isPart_visitorNamespace h.basename
  refine ⟨Visitor.clauses_declarationLines hword hpart, Visitor.clauses_lines hword hpart ?_⟩
  intro method hmethod
  obtain ⟨variant, hvariant, rfl⟩ := List.mem_map.1 hmethod
  have hname := h.variants variant hvariant
  refine ⟨Naming.isWord_dispatchMethod hname h.basename, ?_, isWord_of_isIdentifier hname⟩
  intro hopen
  exact absurd (Naming.isPart_dispatchMethod hname h.basename _ hopen) (by decide)

theorem clauses_nodeLines (h : family.WellNamed) :
    clauses family.nodeLines = family.nodes.flatMap Node.clauses := by
  refine clauses_flatMap ?_
  intro node hnode
  obtain ⟨variant, hvariant, rfl⟩ := List.mem_map.1 hnode
  simp [Node.clauses_lines (allWords_node h hvariant), clauses_cons_of_none clause?_blank]

/-! ## Headers -/

/-- What the header of the family says. -/
def clauses (family : Family) : List Clause :=
  family.baseClauses ++ family.visitorClauses ++ family.nodes.flatMap Node.clauses

theorem clauses_bodyLines (h : family.WellNamed) :
    Line.clauses family.bodyLines = family.clauses := by
  obtain ⟨hdeclaration, hvisitor⟩ := clauses_visitor h
  simp [bodyLines, clauses, clauses_cons_of_none clause?_blank, clauses_resultLines h, hdeclaration,
    clauses_forwardLines h, clauses_baseLines h, clauses_aliasLines h, hvisitor,
    clauses_nodeLines h]

variable {config : Config}

theorem clauses_linesBeforeIncludes (family : Family) (config : Config) :
    Line.clauses (family.linesBeforeIncludes config) = [] := by
  have hguard := Naming.endsMute_guard config family.basename
  have hbanner : banner.clause? = none := clause?_eq_none_of_endsMute (by decide)
  rw [linesBeforeIncludes, clauses_cons_of_none hbanner,
    clauses_cons_of_none (clause?_eq_none_of_append hguard rfl),
    clauses_cons_of_none (clause?_eq_none_of_append hguard rfl),
    clauses_cons_of_none clause?_blank, clauses_nil]

theorem clauses_localIncludeLines (family : Family) (config : Config) :
    Line.clauses (family.localIncludeLines config) = [] := by
  have hquote : endsMute "\"" = true := by decide
  unfold localIncludeLines
  split
  · rfl
  · refine clauses_eq_nil ?_
    rw [List.forall_mem_append]
    refine ⟨?_, by simp [clause?_blank]⟩
    intro line hline
    obtain ⟨file, -, rfl⟩ := List.mem_map.1 hline
    exact clause?_eq_none_of_append hquote rfl

theorem clauses_linesAfterIncludes (h : family.WellNamed) (hc : config.Accepted) :
    Line.clauses (family.linesAfterIncludes config) = family.clauses := by
  have hguard := Naming.endsMute_guard config family.basename
  have hnamespace : endsMute config.namespaceName = true :=
    endsMute_of_isPart (CommandLine.ne_empty_of_isNamespace hc.namespaceName)
      fun _ hmem => CommandLine.isPart_of_mem_namespace hc.namespaceName hmem
  have hangle : endsMute ">" = true := by decide
  have hstandard : Line.clauses standardIncludeLines = [] := by
    refine clauses_eq_nil ?_
    intro line hline
    obtain ⟨file, -, rfl⟩ := List.mem_map.1 hline
    exact clause?_eq_none_of_append hangle rfl
  have hopening : (flat ("namespace " ++ config.namespaceName ++ " \x7b")).clause? = none :=
    clause?_opening "namespace" config.namespaceName (by decide) hc.isWord_namespaceName (by simp)
  have hclosing : (flat ("\x7d // namespace " ++ config.namespaceName)).clause? = none :=
    clause?_eq_none_of_append hnamespace rfl
  have hend : (flat ("#endif // " ++ Naming.guard config family.basename)).clause? = none :=
    clause?_eq_none_of_append hguard rfl
  simp [linesAfterIncludes, hstandard, clauses_cons_of_none, clause?_blank, hopening, hclosing,
    hend, clauses_bodyLines h]

theorem clauses_headerLines (h : family.WellNamed) (hc : config.Accepted) :
    Line.clauses (family.headerLines config) = family.clauses := by
  rw [headerLines_eq, clauses_append, clauses_append, clauses_linesBeforeIncludes,
    clauses_localIncludeLines, clauses_linesAfterIncludes h hc]
  rfl

end Family

/-- What a text says, line by line. -/
def Clause.ofText (text : String) : List Clause :=
  (Text.lines text).filterMap fun line => ofWords? (words line)

/-- The text of a header says what its family is made of, however it is indented. -/
theorem Family.clauses_contents {family : Family} {config : Config} (h : family.WellNamed)
    (hc : config.Accepted) : Clause.ofText (family.header config).contents = family.clauses := by
  have hshown : (family.headerLines config).filterMap
      (fun line => Clause.ofWords? (words (line.shown config))) =
        Line.clauses (family.headerLines config) := by
    simp only [words_shown]
    rfl
  have hrest : [""].filterMap (fun line => Clause.ofWords? (words line)) = [] := by decide
  rw [Clause.ofText, lines_contents h hc, List.filterMap_append, List.filterMap_map, hrest,
    List.append_nil]
  exact hshown.trans (clauses_headerLines h hc)

end TreeHeaders
