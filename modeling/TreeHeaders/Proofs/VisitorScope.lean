import TreeHeaders.Proofs.Overriding

set_option autoImplicit false

/-!
# The scope of a visitor

The definition of a visitor opens a scope with names of its own: the type parameter, the visitor
and its methods. The node types that the methods take are named inside that scope, so a variant
that is called like one of these is captured: its name is not that of the node there.

Loading keeps the names in the scope around the visitor apart, and says nothing about this one.
Which variants are captured is said exactly (`Catalogue.captured_variants_iff`): those that are
called `T` or `Visitor`, and those that are called like the method for another variant.
-/

namespace TreeHeaders

open Text

/-! ## Reading a scope -/

namespace Line

/-- What stands between the two texts, in the lines of that form. -/
def between (front back : String) (lines : List Line) : List String :=
  lines.filterMap fun line => between? front back line.text

theorem between_append (front back : String) (xs ys : List Line) :
    between front back (xs ++ ys) = between front back xs ++ between front back ys :=
  List.filterMap_append

theorem between_indented (front back : String) (lines : List Line) :
    between front back (indented lines) = between front back lines := by
  simp [between, indented, List.filterMap_map, Function.comp_def]

/-- Lines that start with another character are not of the form. -/
theorem between_eq_nil {front : String} {c : Char} (hfront : front.toList.head? = some c)
    (back : String) {lines : List Line} (h : ∀ line ∈ lines, line.text.toList.head? ≠ some c) :
    between front back lines = [] := by
  refine List.filterMap_eq_nil_iff.2 fun line hline => ?_
  refine between?_eq_none_iff.2 fun inside heq => h line hline ?_
  rw [heq, String.toList_append, String.toList_append, List.append_assoc, List.head?_append, hfront]
  rfl

/-- The names that the definition of a visitor binds in its own scope, read off its lines: the
type parameters, the type that is defined, and the methods. -/
def boundNames (lines : List Line) : List String :=
  between "template <typename " ">" lines ++ between "struct " " \x7b" lines ++
    (Clause.pureVirtuals (clauses lines)).map fun (_, method, _) => method

/-- The types that the methods of a visitor take, read off its lines. -/
def visitedTypes (lines : List Line) : List String :=
  (Clause.pureVirtuals (clauses lines)).map fun (_, _, parameter) => parameter

end Line

/-- Of the lines of a visitor, only the two that open its definition are neither about the
namespace nor about a method. -/
theorem Visitor.between_lines {front : String} {c : Char} (hfront : front.toList.head? = some c)
    (hc : c ∉ ['n', 'v', '\x7d']) (back : String) (visitor : Visitor) :
    Line.between front back visitor.lines =
      Line.between front back [.flat "template <typename T>", .flat "struct Visitor \x7b"] := by
  have hnil : ∀ {lines : List Line}, (∀ line ∈ lines, line.text.toList.head? ≠ some c) →
      Line.between front back lines = [] := Line.between_eq_nil hfront back
  simp only [List.mem_cons, List.not_mem_nil, or_false, not_or] at hc
  obtain ⟨hn, hv, hbrace⟩ := hc
  have hopening : Line.between front back
      [.flat ("namespace " ++ visitor.namespaceName ++ " \x7b"), .blank] = [] :=
    hnil (by simp [Line.flat, Line.blank, Ne.symm hn])
  have hmethods : Line.between front back (visitor.methods.map methodLine) = [] :=
    hnil (by simp [methodLine, Line.flat, Ne.symm hv])
  have hdestructor : Line.between front back [.flat "virtual ~Visitor() = default;"] = [] :=
    hnil (by simp [Line.flat, Ne.symm hv])
  have hend : Line.between front back [.flat "\x7d;"] = [] :=
    hnil (by simp [Line.flat, Ne.symm hbrace])
  have hclosing : Line.between front back
      [.blank, .flat ("\x7d // namespace " ++ visitor.namespaceName)] = [] :=
    hnil (by simp [Line.flat, Line.blank, Ne.symm hbrace])
  rw [lines, enclosed, Line.between_append, Line.between_append, Line.between_append,
    Line.between_append, Line.between_indented, Line.between_append, hopening, hmethods,
    hdestructor, hend, hclosing]
  simp only [List.nil_append, List.append_nil]

namespace Family

variable {family : Family}

theorem pureVirtuals_visitor (h : family.WellNamed) :
    Clause.pureVirtuals (Line.clauses family.visitor.lines) =
      family.variants.map fun variant =>
        ("T", Naming.dispatchMethod variant.name family.basename, variant.name) := by
  rw [(clauses_visitor h).2, pureVirtuals_visitorClauses, visitor, List.map_map]
  rfl

theorem visitedTypes_visitor (h : family.WellNamed) :
    Line.visitedTypes family.visitor.lines = family.variants.map (·.name) := by
  rw [Line.visitedTypes, pureVirtuals_visitor h, List.map_map]
  rfl

theorem boundNames_visitor (h : family.WellNamed) :
    Line.boundNames family.visitor.lines = "T" :: "Visitor" ::
      family.variants.map fun variant => Naming.dispatchMethod variant.name family.basename := by
  have hparameter : Line.between "template <typename " ">" family.visitor.lines = ["T"] := by
    rw [Visitor.between_lines (c := 't') (by decide) (by decide)]
    decide
  have hname : Line.between "struct " " \x7b" family.visitor.lines = ["Visitor"] := by
    rw [Visitor.between_lines (c := 's') (by decide) (by decide)]
    decide
  rw [Line.boundNames, hparameter, hname, pureVirtuals_visitor h, List.map_map]
  rfl

end Family

/-! ## Names of methods -/

namespace Naming

/-- The name of a method is longer than that of its variant. -/
theorem length_lt_dispatchMethod (variant family : String) :
    variant.length < (dispatchMethod variant family).length := by
  simp only [dispatchMethod, String.length_append]
  have hvisit : "visit".length = 5 := by decide
  omega

theorem prefix_dispatchMethod (variant family : String) :
    "visit".toList <+: (dispatchMethod variant family).toList := by
  rw [dispatchMethod, String.toList_append, String.toList_append, List.append_assoc]
  exact List.prefix_append _ _

end Naming

namespace Family

variable {family : Family}

/-- No two names of the scope are the same. -/
theorem boundNames_nodup (h : family.WellNamed) (hnodup : (family.variants.map (·.name)).Nodup) :
    (Line.boundNames family.visitor.lines).Nodup := by
  have hmethods : (family.variants.map fun variant =>
      Naming.dispatchMethod variant.name family.basename).Nodup := by
    have hnames := methods_nodup hnodup
    rwa [visitor, List.map_map] at hnames
  have hnotMem : ∀ name : String, ¬ "visit".toList <+: name.toList →
      name ∉ family.variants.map fun variant =>
        Naming.dispatchMethod variant.name family.basename := by
    intro name hname hmem
    obtain ⟨variant, -, rfl⟩ := List.mem_map.1 hmem
    exact hname (Naming.prefix_dispatchMethod _ _)
  rw [boundNames_visitor h, List.nodup_cons, List.nodup_cons, List.mem_cons, not_or]
  exact ⟨⟨by decide, hnotMem "T" (by decide)⟩, hnotMem "Visitor" (by decide), hmethods⟩

/-- The names that are bound in the scope of a visitor. One that is called like a method is
longer than the name of its variant, so no variant is called like its own method. -/
theorem mem_boundNames_visitor_iff (h : family.WellNamed) {name : String} :
    name ∈ Line.boundNames family.visitor.lines ↔
      name = "T" ∨ name = "Visitor" ∨ ∃ other ∈ family.variants,
        other.name.length < name.length ∧ name = "visit" ++ other.name ++ family.basename := by
  rw [boundNames_visitor h, List.mem_cons, List.mem_cons, List.mem_map]
  refine or_congr_right (or_congr_right ?_)
  constructor
  · rintro ⟨other, hother, rfl⟩
    exact ⟨other, hother, Naming.length_lt_dispatchMethod _ _, rfl⟩
  · rintro ⟨other, hother, -, rfl⟩
    exact ⟨other, hother, rfl⟩

/-- A name that starts otherwise than the name of a method is free, but for `T`
and `Visitor`. -/
theorem notMem_boundNames_visitor (h : family.WellNamed) {name : String} (hparameter : name ≠ "T")
    (hvisitor : name ≠ "Visitor") (hvisit : ¬ "visit".toList <+: name.toList) :
    name ∉ Line.boundNames family.visitor.lines := by
  rw [mem_boundNames_visitor_iff h]
  rintro (rfl | rfl | ⟨other, -, -, rfl⟩)
  · exact hparameter rfl
  · exact hvisitor rfl
  · exact hvisit (Naming.prefix_dispatchMethod other.name family.basename)

end Family

/-! ## Families of a catalogue -/

namespace Catalogue

/-- The methods of a visitor take the variants, and a variant is captured, that is, its name is
bound in the scope of the visitor, exactly if it is called `T` or `Visitor` or like the method
for another variant. Nothing is captured if no variant is called so or starts with `visit`. -/
theorem captured_variants_iff {ds : List FamilyDeclaration} {c : Catalogue} (h : load ds = .ok c)
    {family : Family} (hf : family ∈ c.families) :
    Line.visitedTypes family.visitor.lines = family.variants.map (·.name) ∧
      Line.boundNames family.visitor.lines = "T" :: "Visitor" ::
        family.variants.map (fun variant => "visit" ++ variant.name ++ family.basename) ∧
      (Line.boundNames family.visitor.lines).Nodup ∧
      (∀ variant ∈ family.variants,
        variant.name ∈ Line.boundNames family.visitor.lines ↔
          variant.name = "T" ∨ variant.name = "Visitor" ∨ ∃ other ∈ family.variants,
            other.name.length < variant.name.length ∧
              variant.name = "visit" ++ other.name ++ family.basename) ∧
      ((∀ variant ∈ family.variants, variant.name ≠ "T" ∧ variant.name ≠ "Visitor" ∧
          ¬ "visit".toList <+: variant.name.toList) →
        ∀ name ∈ Line.visitedTypes family.visitor.lines,
          name ∉ Line.boundNames family.visitor.lines) := by
  have hnamed : family.WellNamed := wellNamed_of_mem h hf
  refine ⟨Family.visitedTypes_visitor hnamed, Family.boundNames_visitor hnamed,
    Family.boundNames_nodup hnamed (variants_nodup_of_mem h hf),
    fun variant _ => Family.mem_boundNames_visitor_iff hnamed, ?_⟩
  intro hfree name hname
  rw [Family.visitedTypes_visitor hnamed] at hname
  obtain ⟨variant, hvariant, rfl⟩ := List.mem_map.1 hname
  obtain ⟨hparameter, hvisitor, hvisit⟩ := hfree variant hvariant
  exact Family.notMem_boundNames_visitor hnamed hparameter hvisitor hvisit

end Catalogue

/-- The methods of the visitor of expressions in Lox take the nodes that they are called for. -/
theorem Lox.expressions_not_captured :
    ∃ c, Catalogue.load declarations = .ok c ∧ ∃ family ∈ c.families,
      Line.visitedTypes family.visitor.lines = expressions.variants.map (·.name) ∧
      ∀ name ∈ Line.visitedTypes family.visitor.lines,
        name ∉ Line.boundNames family.visitor.lines := by
  obtain ⟨c, hc, family, hfamily, hdenotes⟩ := Catalogue.exists_denotes_of_isOk catalogue_isOk
    (show declarations[0]? = some expressions from rfl)
  have hmem : family ∈ c.families := List.mem_of_getElem? hfamily
  have hvariants : family.variants.map (·.name) = expressions.variants.map (·.name) :=
    map_eq_of_forall₂ (fun _ _ hv => hv.name) hdenotes.variants
  obtain ⟨htypes, -, -, -, hfree⟩ := Catalogue.captured_variants_iff hc hmem
  have hnames : ∀ name ∈ expressions.variants.map (·.name), name ≠ "T" ∧ name ≠ "Visitor" ∧
      ¬ "visit".toList <+: name.toList := by
    decide
  refine ⟨c, hc, family, hmem, htypes.trans hvariants, hfree fun variant hvariant => ?_⟩
  exact hnames _ (hvariants ▸ List.mem_map_of_mem hvariant)

/-- A variant that is called like the type parameter of the visitor, one that is called like the
visitor, and one that is called like the method for another variant. -/
def captured : List FamilyDeclaration :=
  [{ basename := "Expr",
     variants := [{ name := "Leaf" }, { name := "T" }, { name := "Visitor" },
       { name := "visitLeafExpr" }] }]

/-- All three are captured, in a catalogue that is loaded. -/
theorem Catalogue.variants_captured :
    ∃ (c : Catalogue) (family : Family), load captured = .ok c ∧ family ∈ c.families ∧
      family.variants.map (·.name) = ["Leaf", "T", "Visitor", "visitLeafExpr"] ∧
      ∀ name ∈ ["T", "Visitor", "visitLeafExpr"],
        name ∈ Line.visitedTypes family.visitor.lines ∧
          name ∈ Line.boundNames family.visitor.lines := by
  have hok : (load captured).isOk = true := by decide +kernel
  obtain ⟨c, hload, family, hfamily, hdenotes⟩ := exists_denotes_of_isOk hok (i := 0) rfl
  have hmem : family ∈ c.families := List.mem_of_getElem? hfamily
  have hnamed : family.WellNamed := wellNamed_of_mem hload hmem
  have hvariants : family.variants.map (·.name) = ["Leaf", "T", "Visitor", "visitLeafExpr"] :=
    map_eq_of_forall₂ (fun _ _ hv => hv.name) hdenotes.variants
  have hbound : Line.boundNames family.visitor.lines = "T" :: "Visitor" ::
      (family.variants.map (·.name)).map (Naming.dispatchMethod · "Expr") := by
    rw [Family.boundNames_visitor hnamed, hdenotes.basename, List.map_map]
    rfl
  refine ⟨c, family, hload, hmem, hvariants, ?_⟩
  rw [Family.visitedTypes_visitor hnamed, hbound, hvariants]
  decide

end TreeHeaders
