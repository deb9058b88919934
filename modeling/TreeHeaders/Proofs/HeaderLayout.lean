import TreeHeaders.Proofs.HeaderClauses
import Mathlib.Data.List.Basic

set_option autoImplicit false

/-!
# The order of a header

What the lines of a header declare, and in which order (`Catalogue.exists_laidOut`): the forward
declarations of the nodes, the base, its handle and list, the visitor with a method for each
node, and the nodes. The nodes are told by their lines: no other line of a header looks like the
opening line of a type that derives from the base, whatever names the family has. Most lines end
in another way, and the others are given by their words.
-/

namespace TreeHeaders

open Text Line

/-! ## Lines that open a node -/

namespace Text

/-- The name of the type that a line opens, if the type derives from the base. -/
def derived? (base line : String) : Option String :=
  between? "struct " (" : " ++ base ++ " \x7b") line

theorem derived?_eq_some_iff {base line name : String} :
    derived? base line = some name ↔ line = "struct " ++ name ++ " : " ++ base ++ " \x7b" := by
  rw [derived?, between?_eq_some_iff]
  simp only [String.append_assoc]

/-- A line that opens a type which derives from the base ends with the base and a brace. -/
theorem suffix_words_of_derived? {base line name : String} (hb : IsWord base)
    (h : derived? base line = some name) : [":", base, "\x7b"] <:+ words line := by
  have hline : line = String.ofList (("struct " ++ name).toList ++
      ' ' :: (" ".intercalate [":", base, "\x7b"]).toList) := by
    apply String.toList_injective
    rw [derived?_eq_some_iff.1 h]
    simp
  have hends : ∀ w ∈ [":", base, "\x7b"], IsWord w := by
    simp +decide [hb]
  rw [hline, words_append_blank (by decide), String.ofList_toList, String.ofList_toList,
    words_intercalate hends]
  exact List.suffix_append _ _

end Text

namespace Line

variable {base : String} {line : Line}

/-- The line may open a type that derives from the base. -/
def Opens (base : String) (line : Line) : Prop :=
  [":", base, "\x7b"] <:+ words line.text

/-- Does no line that ends with the text open a type? -/
def endsShut (text : String) : Bool :=
  text.toList.getLast?.any fun c => !c.isWhitespace && c != '\x7b'

theorem endsShut_append {back : String} (h : endsShut back = true) (front : String) :
    endsShut (front ++ back) = true :=
  any_getLast?_append h front

theorem endsShut_of_endsMute {text : String} (h : endsMute text = true) : endsShut text = true := by
  unfold endsMute at h
  unfold endsShut
  cases hlast : text.toList.getLast? with
  | none => simp [hlast] at h
  | some c =>
    rw [hlast, Option.any_some, Clause.isMute, Bool.and_eq_true, Bool.and_eq_true] at h
    rw [Option.any_some, Bool.and_eq_true]
    exact ⟨h.1.1, h.2⟩

/-- The last word of a line that ends in another way is no brace. -/
theorem not_opens_of_endsShut (h : endsShut line.text = true) : ¬ Opens base line := by
  rintro ⟨front, hwords⟩
  unfold endsShut at h
  cases hlast : line.text.toList.getLast? with
  | none => simp [hlast] at h
  | some c =>
    rw [hlast, Option.any_some, Bool.and_eq_true, Bool.not_eq_true', bne_iff_ne] at h
    obtain ⟨others, word, hothers, hword⟩ := exists_words_eq_append hlast h.1
    rw [hothers] at hwords
    have hbrace : "\x7b" = word := by
      simpa using congrArg List.getLast? hwords
    rw [← hbrace] at hword
    exact h.2 (by simpa using hword.symm)

theorem not_opens_of_append {front back : String} (h : endsShut back = true)
    (htext : line.text = front ++ back) : ¬ Opens base line :=
  not_opens_of_endsShut (htext ▸ endsShut_append h front)

theorem opens_iff_of_words {ws : List String} (hw : ∀ w ∈ ws, IsWord w)
    (htext : line.text.toList = (" ".intercalate ws).toList) :
    Opens base line ↔ [":", base, "\x7b"] <:+ ws := by
  rw [Opens, String.toList_injective htext, words_intercalate hw]

/-- A word, a name and an opening brace say nothing of a base. -/
theorem not_opens_opening {word name : String} (hw : IsWord word) (hn : IsWord name)
    (hne : word ≠ ":") (htext : line.text.toList = (word ++ " " ++ name ++ " \x7b").toList) :
    ¬ Opens base line := by
  have hwords : Opens base line ↔ [":", base, "\x7b"] <:+ [word, name, "\x7b"] :=
    opens_iff_of_words (by simp +decide [hw, hn]) (by simp [htext])
  simp [hwords, List.suffix_cons_iff, hne.symm]

theorem not_opens_overriding {result call : String} (hr : IsWord result) (hc : IsWord call)
    (htext : line.text.toList = (result ++ " " ++ call ++ " &v) override \x7b").toList) :
    ¬ Opens base line := by
  have hwords : Opens base line ↔
      [":", base, "\x7b"] <:+ [result, call, "&v)", "override", "\x7b"] :=
    opens_iff_of_words (by simp +decide [hr, hc]) (by simp [htext])
  simp [hwords, List.suffix_cons_iff]

theorem not_opens_blank : ¬ Opens base blank := by
  have hwords : words blank.text = [] := by decide
  simp [Opens, hwords]

theorem not_opens_template : ¬ Opens base (flat "template <typename T>") :=
  not_opens_of_endsShut (by decide)

theorem not_opens_closing : ¬ Opens base (flat "\x7d;") :=
  not_opens_of_endsShut (by decide)

/-- None of the lines opens a type that derives from the base. -/
def Shut (base : String) (lines : List Line) : Prop :=
  ∀ line ∈ lines, ¬ Opens base line

@[simp]
theorem shut_nil : Shut base [] := by
  simp [Shut]

@[simp]
theorem shut_cons {lines : List Line} :
    Shut base (line :: lines) ↔ ¬ Opens base line ∧ Shut base lines := by
  simp [Shut]

@[simp]
theorem shut_append {xs ys : List Line} : Shut base (xs ++ ys) ↔ Shut base xs ∧ Shut base ys :=
  List.forall_mem_append

@[simp]
theorem shut_indented {lines : List Line} : Shut base (indented lines) ↔ Shut base lines := by
  simp [Shut, indented, Opens]

theorem shut_map {α : Type} {items : List α} {f : α → Line}
    (h : ∀ item ∈ items, ¬ Opens base (f item)) : Shut base (items.map f) := by
  intro line hline
  obtain ⟨item, hitem, rfl⟩ := List.mem_map.1 hline
  exact h item hitem

end Line

/-! ## Lines that open no node -/

namespace Visitor

variable {visitor : Visitor} {base : String}

theorem shut_enclosed (hword : IsWord visitor.namespaceName)
    (hpart : ∀ c ∈ visitor.namespaceName.toList, Identifier.isPart c = true) {body : List Line}
    (hbody : Shut base body) : Shut base (visitor.enclosed body) := by
  have hopening : ¬ Opens base (flat ("namespace " ++ visitor.namespaceName ++ " \x7b")) :=
    not_opens_opening (by decide : IsWord "namespace") hword (by decide) (by simp)
  have hmute : endsMute visitor.namespaceName = true :=
    endsMute_of_isPart hword.ne_empty fun c hc => Or.inl (hpart c hc)
  have hclosing : ¬ Opens base (flat ("\x7d // namespace " ++ visitor.namespaceName)) :=
    not_opens_of_append (endsShut_of_endsMute hmute) rfl
  simp [enclosed, hopening, hclosing, not_opens_blank, hbody]

theorem shut_declarationLines (hword : IsWord visitor.namespaceName)
    (hpart : ∀ c ∈ visitor.namespaceName.toList, Identifier.isPart c = true) :
    Shut base visitor.declarationLines := by
  have hstruct : ¬ Opens base (flat "struct Visitor;") :=
    not_opens_of_endsShut (by decide)
  refine shut_enclosed hword hpart ?_
  simp [not_opens_template, hstruct]

theorem shut_lines (hword : IsWord visitor.namespaceName)
    (hpart : ∀ c ∈ visitor.namespaceName.toList, Identifier.isPart c = true) :
    Shut base visitor.lines := by
  have hstruct : ¬ Opens base (flat "struct Visitor \x7b") :=
    not_opens_opening (by decide : IsWord "struct") (by decide : IsWord "Visitor") (by decide)
      (by simp)
  have hmethods : Shut base (visitor.methods.map methodLine) := by
    refine shut_map fun method _ => ?_
    exact not_opens_of_append (by decide : endsShut " &) = 0;" = true) rfl
  have hdestructor : ¬ Opens base (flat "virtual ~Visitor() = default;") :=
    not_opens_of_endsShut (by decide)
  refine shut_enclosed hword hpart ?_
  simp [not_opens_template, hstruct, hmethods, hdestructor, not_opens_closing]

end Visitor

namespace Node

variable {node : Node} {base : String}

theorem shut_memberLines (node : Node) : Shut base node.memberLines := by
  unfold memberLines
  split
  · exact shut_nil
  · refine shut_append.2 ⟨shut_map fun member _ => ?_, by simp [not_opens_blank]⟩
    exact not_opens_of_append (by decide : endsShut ";" = true) rfl

theorem shut_initialiserLines (leader : String) (parameters : List Parameter) :
    Shut base (Parameter.initialiserLines leader parameters) := by
  have hbraces : endsShut " \x7b\x7d" = true := by decide
  have hcomma : endsShut "," = true := by decide
  fun_induction Parameter.initialiserLines leader parameters with
  | case1 => exact shut_nil
  | case2 leader parameter => exact shut_cons.2 ⟨not_opens_of_append hbraces rfl, shut_nil⟩
  | case3 leader parameter rest _ ih => exact shut_cons.2 ⟨not_opens_of_append hcomma rfl, ih⟩

theorem shut_constructorLines (node : Node) : Shut base node.constructorLines := by
  have hbraces : endsShut "() \x7b\x7d" = true := by decide
  have hparen : endsShut ")" = true := by decide
  unfold constructorLines
  split
  · exact shut_cons.2 ⟨not_opens_of_append hbraces rfl, shut_nil⟩
  · exact shut_cons.2 ⟨not_opens_of_append hparen rfl, shut_initialiserLines _ _⟩

theorem shut_entryPointLines {entry : EntryPoint} (hresult : IsWord entry.result)
    (hvisitor : IsWord entry.visitor) : Shut base (entryPointLines entry) := by
  have hcall : IsWord ("accept(" ++ entry.visitor) := IsWord.append (by decide) hvisitor
  have hopening : ¬ Opens base (flat (entry.result ++ " accept(" ++ entry.visitor ++
      " &v) override \x7b")) :=
    not_opens_overriding hresult hcall (by simp)
  have hreturn : ¬ Opens base (deeper (flat ("return v." ++ entry.dispatch ++ "(*this);"))) :=
    not_opens_of_append (by decide : endsShut "(*this);" = true) rfl
  have hclosing : ¬ Opens base (flat "\x7d") := not_opens_of_endsShut (by decide)
  simp [entryPointLines, not_opens_blank, hopening, hreturn, hclosing]

/-- Of the lines of a node, only the first one opens a type. -/
theorem exists_lines_eq_cons (h : node.AllWords) (base : String) :
    ∃ rest, Shut base rest ∧
      node.lines = flat ("struct " ++ node.name ++ " : " ++ node.base ++ " \x7b") :: rest := by
  have hentries : Shut base (node.entryPoints.flatMap entryPointLines) := by
    intro line hline
    obtain ⟨entry, hentry, hmem⟩ := List.mem_flatMap.1 hline
    obtain ⟨hresult, hvisitor, -⟩ := h.entryPoints entry hentry
    exact shut_entryPointLines hresult hvisitor line hmem
  refine ⟨_, ?_, rfl⟩
  simp [shut_memberLines, shut_constructorLines, hentries, not_opens_closing]

end Node

namespace Family

variable {family : Family} {config : Config}

/-- The lines of a header before the forward declarations. -/
def linesBeforeForward (family : Family) (config : Config) : List Line :=
  family.linesBeforeIncludes config ++ family.localIncludeLines config ++ standardIncludeLines ++
    [blank, flat ("namespace " ++ config.namespaceName ++ " \x7b"), blank] ++
    family.resultLines ++ family.visitor.declarationLines ++ [blank]

/-- The lines of a header before the base. -/
def linesBeforeBase (family : Family) (config : Config) : List Line :=
  family.linesBeforeForward config ++ family.forwardLines ++ [blank]

/-- The lines of a header before the aliases. -/
def linesBeforeAliases (family : Family) (config : Config) : List Line :=
  family.linesBeforeBase config ++ family.baseLines ++ [blank]

/-- The lines of a header before the definition of the visitor. -/
def linesBeforeVisitor (family : Family) (config : Config) : List Line :=
  family.linesBeforeAliases config ++ family.aliasLines ++
    [blank, flat ("namespace " ++ family.visitor.namespaceName ++ " \x7b"), blank,
      flat "template <typename T>"]

/-- The lines of a header before the nodes. -/
def linesBeforeNodes (family : Family) (config : Config) : List Line :=
  family.linesBeforeAliases config ++ family.aliasLines ++ [blank] ++ family.visitor.lines ++
    [blank]

/-- The lines of a header after the nodes. -/
def linesAfterNodes (family : Family) (config : Config) : List Line :=
  [flat ("\x7d // namespace " ++ config.namespaceName), blank,
    flat ("#endif // " ++ Naming.guard config family.basename)]

theorem headerLines_eq_nodes (family : Family) (config : Config) :
    family.headerLines config =
      family.linesBeforeNodes config ++ family.nodeLines ++ family.linesAfterNodes config := by
  simp [headerLines, bodyLines, linesBeforeNodes, linesBeforeAliases, linesBeforeBase,
    linesBeforeForward, linesBeforeIncludes, linesAfterNodes]

theorem shut_linesBeforeForward (h : family.WellNamed) (hc : config.Accepted) {base : String} :
    Shut base (family.linesBeforeForward config) := by
  have hguard := endsShut_of_endsMute (Naming.endsMute_guard config family.basename)
  have hbanner : ¬ Opens base banner := not_opens_of_endsShut (by decide)
  have hbefore : Shut base (family.linesBeforeIncludes config) := by
    simp only [linesBeforeIncludes, shut_cons, shut_nil, and_true]
    exact ⟨hbanner, not_opens_of_append hguard rfl, not_opens_of_append hguard rfl, not_opens_blank⟩
  have hlocal : Shut base (family.localIncludeLines config) := by
    intro line hline
    rcases mem_localIncludeLines h hline with rfl | ⟨name, -, rfl⟩
    · exact not_opens_blank
    · exact not_opens_of_append (by decide : endsShut "\"" = true) rfl
  have hstandard : Shut base standardIncludeLines :=
    shut_map fun file _ => not_opens_of_append (by decide : endsShut ">" = true) rfl
  have hnamespace : ¬ Opens base (flat ("namespace " ++ config.namespaceName ++ " \x7b")) :=
    not_opens_opening (by decide : IsWord "namespace") hc.isWord_namespaceName (by decide) (by simp)
  have hresult : Shut base family.resultLines := by
    unfold resultLines
    cases family.contract with
    | effect => exact shut_nil
    | value result =>
      simp only [shut_cons, shut_nil, and_true]
      exact ⟨not_opens_of_append (by decide : endsShut ">;" = true) rfl, not_opens_blank⟩
  have hdeclaration : Shut base family.visitor.declarationLines :=
    Visitor.shut_declarationLines (Naming.isWord_visitorNamespace h.basename)
      (Naming.isPart_visitorNamespace h.basename)
  simp [linesBeforeForward, hbefore, hlocal, hstandard, hnamespace, hresult, hdeclaration,
    not_opens_blank]

/-- No type that derives from the base is opened before the nodes. -/
theorem shut_linesBeforeNodes (h : family.WellNamed) (hc : config.Accepted) {base : String} :
    Shut base (family.linesBeforeNodes config) := by
  have hforward : Shut base family.forwardLines :=
    shut_map fun node _ => not_opens_of_append (by decide : endsShut ";" = true) rfl
  have hbase : Shut base family.baseLines := by
    have hopening : ¬ Opens base (flat ("struct " ++ family.basename ++ " \x7b")) :=
      not_opens_opening (by decide : IsWord "struct") (isWord_of_isIdentifier h.basename)
        (by decide) (by simp)
    have hentries : Shut base (family.results.map family.baseEntryLine) :=
      shut_map fun result _ => not_opens_of_append (by decide : endsShut " &) = 0;" = true) rfl
    have hdestructor : ¬ Opens base (flat ("virtual ~" ++ family.basename ++ "() = default;")) :=
      not_opens_of_append (by decide : endsShut "() = default;" = true) rfl
    simp [baseLines, hopening, hentries, hdestructor, not_opens_closing]
  have halias : Shut base family.aliasLines := by
    have hend : endsShut ">;" = true := by decide
    simp only [aliasLines, shut_cons, shut_nil, and_true]
    exact ⟨not_opens_of_append hend rfl, not_opens_of_append hend rfl⟩
  have hvisitor : Shut base family.visitor.lines :=
    Visitor.shut_lines (Naming.isWord_visitorNamespace h.basename)
      (Naming.isPart_visitorNamespace h.basename)
  simp [linesBeforeNodes, linesBeforeAliases, linesBeforeBase, shut_linesBeforeForward h hc,
    hforward, hbase, halias, hvisitor, not_opens_blank]

theorem shut_linesAfterNodes (family : Family) (hc : config.Accepted) {base : String} :
    Shut base (family.linesAfterNodes config) := by
  have hguard := Naming.endsMute_guard config family.basename
  have hnamespace : endsMute config.namespaceName = true :=
    endsMute_of_isPart (CommandLine.ne_empty_of_isNamespace hc.namespaceName)
      fun _ hmem => CommandLine.isPart_of_mem_namespace hc.namespaceName hmem
  simp only [linesAfterNodes, shut_cons, shut_nil, and_true]
  exact ⟨not_opens_of_append (endsShut_of_endsMute hnamespace) rfl, not_opens_blank,
    not_opens_of_append (endsShut_of_endsMute hguard) rfl⟩

end Family

/-! ## The nodes of a header -/

namespace Line

variable {base : String}

theorem derived?_shown_eq_none (hb : IsWord base) {line : Line} (h : ¬ Opens base line)
    (config : Config) : derived? base (line.shown config) = none := by
  cases hderived : derived? base (line.shown config) with
  | none => rfl
  | some name =>
    have hsuffix := suffix_words_of_derived? hb hderived
    rw [words_shown] at hsuffix
    exact absurd hsuffix h

theorem filterMap_derived?_eq_nil (hb : IsWord base) {lines : List Line} (h : Shut base lines)
    (config : Config) : (lines.map (shown config)).filterMap (derived? base) = [] := by
  rw [List.filterMap_eq_nil_iff, List.forall_mem_map]
  exact fun line hline => derived?_shown_eq_none hb (h line hline) config

/-- A line one level deep is shown after one unit of indentation. -/
theorem shown_deeper (config : Config) {line : Line} (h : line.text ≠ "") :
    line.deeper.shown config = margin config.indentation.text (line.depth + 1) ++ line.text := by
  simp [shown, render, deeper, h]

theorem shown_deeper_flat (config : Config) {text : String} (h : text ≠ "") :
    (deeper (flat text)).shown config = config.indentation.text ++ text := by
  rw [shown_deeper config (show (flat text).text ≠ "" from h)]
  simp [margin, flat]

end Line

namespace Family

variable {family : Family} {config : Config}

/-- The lines of the nodes open one type for each variant. -/
theorem filterMap_derived?_nodeLines (h : family.WellNamed) (config : Config) :
    (family.nodeLines.map (shown config)).filterMap (derived? family.basename) =
      family.variants.map (·.name) := by
  have hb : IsWord family.basename := isWord_of_isIdentifier h.basename
  have hnode : ∀ variant ∈ family.variants,
      (((family.node variant).lines ++ [blank]).map (shown config)).filterMap
        (derived? family.basename) = [variant.name] := by
    intro variant hvariant
    obtain ⟨rest, hrest, hlines⟩ :=
      Node.exists_lines_eq_cons (allWords_node h hvariant) family.basename
    have hfirst : derived? family.basename ((flat ("struct " ++ (family.node variant).name ++
        " : " ++ (family.node variant).base ++ " \x7b")).shown config) = some variant.name := by
      rw [shown_flat, derived?_eq_some_iff]
      rfl
    have hshut : Shut family.basename (rest ++ [blank]) := by
      simp [hrest, not_opens_blank]
    rw [hlines, List.cons_append, List.map_cons, List.filterMap_cons_some hfirst,
      filterMap_derived?_eq_nil hb hshut]
  rw [nodeLines, nodes, List.flatMap_map, List.map_flatMap, List.filterMap_flatMap,
    List.flatMap_congr hnode, List.map_eq_flatMap]

/-- The lines of the text of a header are those before the nodes, those of the nodes, and the
rest. -/
theorem lines_contents_eq (h : family.WellNamed) (hc : config.Accepted) :
    Text.lines (family.header config).contents =
      (family.linesBeforeNodes config).map (shown config) ++ family.nodeLines.map (shown config) ++
        ((family.linesAfterNodes config).map (shown config) ++ [""]) := by
  rw [lines_contents h hc, headerLines_eq_nodes]
  simp

/-- A header opens one type that derives from the base for each variant, in order. -/
theorem filterMap_derived?_contents (h : family.WellNamed) (hc : config.Accepted) :
    (Text.lines (family.header config).contents).filterMap (derived? family.basename) =
      family.variants.map (·.name) := by
  have hb : IsWord family.basename := isWord_of_isIdentifier h.basename
  have hrest : derived? family.basename "" = none :=
    derived?_shown_eq_none hb not_opens_blank config
  simp [lines_contents_eq h hc, filterMap_derived?_eq_nil hb (shut_linesBeforeNodes h hc),
    filterMap_derived?_nodeLines h, filterMap_derived?_eq_nil hb (shut_linesAfterNodes family hc),
    hrest]

/-- Such a type is opened only after the lines before the nodes. -/
theorem length_linesBeforeNodes_le (h : family.WellNamed) (hc : config.Accepted) {i : Nat}
    {name line : String} (hline : (Text.lines (family.header config).contents)[i]? = some line)
    (hname : derived? family.basename line = some name) :
    (family.linesBeforeNodes config).length ≤ i := by
  by_contra hlt
  rw [lines_contents_eq h hc, List.append_assoc, List.getElem?_append_left (by simpa using hlt),
    List.getElem?_map, Option.map_eq_some_iff] at hline
  obtain ⟨line, hmem, rfl⟩ := hline
  have hnone := derived?_shown_eq_none (isWord_of_isIdentifier h.basename)
    (shut_linesBeforeNodes h hc line (List.mem_of_getElem? hmem)) config
  rw [hnone] at hname
  exact absurd hname (by simp)

/-! ## Positions -/

/-- The methods of the visitor and its destructor. -/
def methodLines (family : Family) : List Line :=
  indented (family.visitor.methods.map Visitor.methodLine ++ [flat "virtual ~Visitor() = default;"])

theorem linesBeforeNodes_eq (family : Family) (config : Config) :
    family.linesBeforeNodes config =
      family.linesBeforeVisitor config ++ flat "struct Visitor \x7b" :: (family.methodLines ++
        [flat "\x7d;", blank, flat ("\x7d // namespace " ++ family.visitor.namespaceName),
          blank]) := by
  simp [linesBeforeNodes, linesBeforeVisitor, methodLines, Visitor.lines, Visitor.enclosed]

theorem prefix_methodLines (family : Family) (config : Config) :
    family.linesBeforeVisitor config ++ [flat "struct Visitor \x7b"] ++ family.methodLines <+:
      family.headerLines config := by
  rw [headerLines_eq_nodes, linesBeforeNodes_eq]
  simp only [List.append_assoc, List.prefix_append_right_inj, List.cons_append, List.nil_append,
    List.cons_prefix_cons, true_and]
  exact List.prefix_append _ _

theorem prefix_aliasLines (family : Family) (config : Config) :
    family.linesBeforeAliases config ++ family.aliasLines <+: family.headerLines config := by
  have hvisitor : family.linesBeforeAliases config ++ family.aliasLines <+:
      family.linesBeforeVisitor config :=
    List.prefix_append _ _
  refine hvisitor.trans (List.IsPrefix.trans ?_ (prefix_methodLines family config))
  rw [List.append_assoc]
  exact List.prefix_append _ _

theorem prefix_baseLines (family : Family) (config : Config) :
    family.linesBeforeBase config ++ family.baseLines <+: family.headerLines config := by
  have haliases : family.linesBeforeBase config ++ family.baseLines <+:
      family.linesBeforeAliases config :=
    List.prefix_append _ _
  exact (haliases.trans (List.prefix_append _ _)).trans (prefix_aliasLines family config)

theorem prefix_forwardLines (family : Family) (config : Config) :
    family.linesBeforeForward config ++ family.forwardLines <+: family.headerLines config := by
  have hbase : family.linesBeforeForward config ++ family.forwardLines <+:
      family.linesBeforeBase config :=
    List.prefix_append _ _
  exact (hbase.trans (List.prefix_append _ _)).trans (prefix_baseLines family config)

/-- Lines of a header stand in its text where they were laid out. -/
theorem take_drop_contents (h : family.WellNamed) (hc : config.Accepted) {front part : List Line}
    (hp : front ++ part <+: family.headerLines config) :
    ((Text.lines (family.header config).contents).drop front.length).take part.length =
      part.map (shown config) := by
  obtain ⟨back, hback⟩ := hp
  rw [lines_contents h hc, ← hback]
  simp

theorem getElem?_contents (h : family.WellNamed) (hc : config.Accepted) {front part : List Line}
    (hp : front ++ part <+: family.headerLines config) {i : Nat} {line : Line}
    (hline : part[i]? = some line) :
    (Text.lines (family.header config).contents)[front.length + i]? = some (line.shown config) := by
  have hpart := take_drop_contents h hc hp
  have hi : i < part.length := (List.getElem?_eq_some_iff.1 hline).1
  rw [← List.getElem?_drop, ← List.getElem?_take_of_lt hi, hpart, List.getElem?_map, hline]
  rfl

/-- The lines of a header have the forward declarations of the nodes before the base at `p`, the
aliases between the base and the visitor at `q`, and the nodes from `r` on. -/
structure LaidOut (family : Family) (unit : String) (lines : List String) (p q r : Nat) : Prop where
  base_lt_visitor : p < q
  visitor_lt_nodes : q < r
  forward : ∃ start, start + family.variants.length ≤ p ∧
    (lines.drop start).take family.variants.length =
      family.variants.map fun variant => "struct " ++ variant.name ++ ";"
  base : lines[p]? = some ("struct " ++ family.basename ++ " \x7b")
  handle : ∃ i, p < i ∧ i < q ∧ lines[i]? = some
    ("using " ++ family.basename ++ "Ptr = std::unique_ptr<" ++ family.basename ++ ">;")
  list : ∃ i, p < i ∧ i < q ∧ lines[i]? = some
    ("using " ++ family.basename ++ "List = std::vector<" ++ family.basename ++ "Ptr>;")
  visitor : lines[q]? = some "struct Visitor \x7b"
  methods : (lines.drop (q + 1)).take (family.variants.length + 1) =
    (family.variants.map fun variant => unit ++ "virtual T visit" ++ variant.name ++
      family.basename ++ "(" ++ variant.name ++ " &) = 0;") ++
      [unit ++ "virtual ~Visitor() = default;"]
  nodes_after : ∀ i name,
    lines[i]? = some ("struct " ++ name ++ " : " ++ family.basename ++ " \x7b") → r ≤ i
  nodes : lines.filterMap (derived? family.basename) = family.variants.map (·.name)

theorem map_shown_forwardLines (family : Family) (config : Config) :
    family.forwardLines.map (shown config) =
      family.variants.map fun variant => "struct " ++ variant.name ++ ";" := by
  simp only [forwardLines, nodes, List.map_map]
  exact List.map_congr_left fun variant _ => shown_flat config _

theorem handleAlias_eq (name : String) :
    "using " ++ Naming.handle name ++ " = std::unique_ptr<" ++ name ++ ">;" =
      "using " ++ name ++ "Ptr = std::unique_ptr<" ++ name ++ ">;" := by
  apply String.toList_injective
  simp [Naming.handle]

theorem listAlias_eq (name : String) :
    "using " ++ Naming.list name ++ " = std::vector<" ++ Naming.handle name ++ ">;" =
      "using " ++ name ++ "List = std::vector<" ++ name ++ "Ptr>;" := by
  apply String.toList_injective
  simp [Naming.handle, Naming.list]

theorem shown_methodLine (family : Family) (config : Config) (variant : Variant) :
    (deeper (Visitor.methodLine (family.dispatchMethod variant))).shown config =
      config.indentation.text ++ "virtual T visit" ++ variant.name ++ family.basename ++ "(" ++
        variant.name ++ " &) = 0;" := by
  have hne : "virtual T " ++ (family.dispatchMethod variant).name ++ "(" ++
      (family.dispatchMethod variant).variant ++ " &) = 0;" ≠ "" := by
    intro hempty
    simpa using congrArg String.toList hempty
  rw [Visitor.methodLine, shown_deeper_flat config hne]
  apply String.toList_injective
  simp [dispatchMethod, Naming.dispatchMethod]

theorem map_shown_methodLines (family : Family) (config : Config) :
    family.methodLines.map (shown config) =
      (family.variants.map fun variant => config.indentation.text ++ "virtual T visit" ++
        variant.name ++ family.basename ++ "(" ++ variant.name ++ " &) = 0;") ++
        [config.indentation.text ++ "virtual ~Visitor() = default;"] := by
  have hdestructor : (deeper (flat "virtual ~Visitor() = default;")).shown config =
      config.indentation.text ++ "virtual ~Visitor() = default;" :=
    shown_deeper_flat config (by decide)
  simp only [methodLines, indented, visitor, List.map_append, List.map_map, List.map_cons,
    List.map_nil, hdestructor]
  congr 1
  exact List.map_congr_left fun variant _ => shown_methodLine family config variant

/-- The header of a family is laid out in order. -/
theorem laidOut_contents (h : family.WellNamed) (hc : config.Accepted) :
    family.LaidOut config.indentation.text (Text.lines (family.header config).contents)
      (family.linesBeforeBase config).length (family.linesBeforeVisitor config).length
      (family.linesBeforeNodes config).length := by
  have hvariants : family.forwardLines.length = family.variants.length := by
    simp [forwardLines, nodes]
  have hmethods : family.methodLines.length = family.variants.length + 1 := by
    simp [methodLines, visitor, indented]
  have hbase :
      (family.linesBeforeBase config).length < (family.linesBeforeAliases config).length := by
    simp [linesBeforeAliases]
  have hvisitor :
      (family.linesBeforeAliases config).length + 1 <
        (family.linesBeforeVisitor config).length := by
    simp [linesBeforeVisitor, aliasLines]
  have hnodes :
      (family.linesBeforeVisitor config).length < (family.linesBeforeNodes config).length := by
    simp [linesBeforeNodes_eq]
  refine ⟨by omega, hnodes, ?_, ?_, ?_, ?_, ?_, ?_, ?_, filterMap_derived?_contents h hc⟩
  · refine ⟨(family.linesBeforeForward config).length, ?_, ?_⟩
    · simp [linesBeforeBase, hvariants]
    · rw [← hvariants, take_drop_contents h hc (prefix_forwardLines family config),
        map_shown_forwardLines]
  · have hopening := getElem?_contents h hc (prefix_baseLines family config) (i := 0) rfl
    rwa [shown_flat] at hopening
  · refine ⟨_, hbase, by omega, ?_⟩
    have hhandle := getElem?_contents h hc (prefix_aliasLines family config) (i := 0) rfl
    rwa [shown_flat, handleAlias_eq] at hhandle
  · refine ⟨_, by omega, hvisitor, ?_⟩
    have hlist := getElem?_contents h hc (prefix_aliasLines family config) (i := 1) rfl
    rwa [shown_flat, listAlias_eq] at hlist
  · have hprefix := (List.prefix_append _ _).trans (prefix_methodLines family config)
    have hopening := getElem?_contents h hc hprefix (i := 0) rfl
    rwa [shown_flat] at hopening
  · have hlines := take_drop_contents h hc (prefix_methodLines family config)
    rwa [hmethods, List.length_append, List.length_singleton, map_shown_methodLines] at hlines
  · intro i name hline
    exact length_linesBeforeNodes_le h hc hline (derived?_eq_some_iff.2 rfl)

end Family

/-- Every header is laid out in order: at `p` the base, after the forward declarations; at
`q` the visitor, after the aliases; and from `r` on the nodes, and no type that derives from
the base before them. -/
theorem Catalogue.exists_laidOut {ds : List FamilyDeclaration} {c : Catalogue} (h : load ds = .ok c)
    {config : Config} (hc : config.Accepted) {family : Family} (hfamily : family ∈ c.families) :
    ∃ p q r, family.LaidOut config.indentation.text
      (Text.lines (family.header config).contents) p q r :=
  ⟨_, _, _, Family.laidOut_contents (wellNamed_of_mem h hfamily) hc⟩

/-- A family that is called like the visitor of a family, with a variant that is called like the
result type of its methods. -/
def visitors : List FamilyDeclaration :=
  [{ basename := "Visitor",
     variants := [{ name := "T", fields := [{ type := "Visitor", name := "next" }] },
       { name := "Leaf" }] }]

/-- The lines that open the base and the visitor are the same, and the header is
laid out all the same. -/
theorem Catalogue.visitors_laidOut :
    ∃ (c : Catalogue) (family : Family), load visitors = .ok c ∧ Config.Accepted {} ∧
      family ∈ c.families ∧ family.basename = "Visitor" ∧
      ∃ p q r, family.LaidOut "  " (Text.lines (family.header {}).contents) p q r := by
  have hok : (load visitors).isOk = true := by decide +kernel
  obtain ⟨c, hload, family, hfamily, hdenotes⟩ := exists_denotes_of_isOk hok (i := 0) rfl
  have hconfig : Config.Accepted {} := ⟨by decide, by decide⟩
  have hmem : family ∈ c.families := List.mem_of_getElem? hfamily
  exact ⟨c, family, hload, hconfig, hmem, hdenotes.basename, exists_laidOut hload hconfig hmem⟩

end TreeHeaders
