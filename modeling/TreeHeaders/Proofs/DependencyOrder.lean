import TreeHeaders.Proofs.Inclusion
import Mathlib.Data.List.Basic

set_option autoImplicit false

/-!
# The order of dependencies

The headers of other families stand in a header in the order in which its fields first use them,
and not in the order of the families in the catalogue
(`Catalogue.dependencies_ordered_by_first_use`). The two can only differ from the third family
on, since the second one has but one family before it.
-/

namespace TreeHeaders

/-! ## First uses -/

theorem pair_sublist_filter_iff {p : String → Bool} {left right : String} {xs : List String} :
    [left, right].Sublist (xs.filter p) ↔
      p left = true ∧ p right = true ∧ [left, right].Sublist xs := by
  constructor
  · intro h
    have hl := List.mem_filter.1 (h.subset (by simp : left ∈ [left, right]))
    have hr := List.mem_filter.1 (h.subset (by simp : right ∈ [left, right]))
    exact ⟨hl.2, hr.2, h.trans List.filter_sublist⟩
  · rintro ⟨hl, hr, h⟩
    simpa [hl, hr] using h.filter p

theorem pair_sublist_map_iff {f : String → String} (hf : f.Injective) {left right : String}
    {xs : List String} : [f left, f right].Sublist (xs.map f) ↔ [left, right].Sublist xs := by
  constructor
  · intro h
    obtain ⟨ys, hys, heq⟩ := List.sublist_map_iff.1 h
    have : [left, right] = ys := hf.list_map heq
    exact this ▸ hys
  · intro h
    exact h.map f

/-- Of two texts that are listed, the one that is used first stands first. -/
theorem pair_sublist_firstUses_iff {α : Type} (use? : α → Option String) (xs : List α)
    {left right : String} :
    [left, right].Sublist (firstUses (xs.filterMap use?)) ↔
      right ∈ xs.filterMap use? ∧
        xs.findIdx (fun x => use? x == some left) < xs.findIdx (fun x => use? x == some right) := by
  induction xs with
  | nil => simp [firstUses]
  | cons x xs ih =>
    cases hx : use? x with
    | none => simp [List.findIdx_cons, hx, ih]
    | some name =>
      rw [List.filterMap_cons_some hx, firstUses, List.sublist_cons_iff, pair_sublist_filter_iff,
        ih]
      simp only [List.findIdx_cons, hx, Option.some_beq_some, List.cons.injEq, List.mem_cons]
      -- the first text is listed first, and nothing else before it
      by_cases hl : left = name
      · subst hl
        by_cases hr : right = left
        · simp [hr]
        · have hright : (left == right) = false := beq_false_of_ne (Ne.symm hr)
          simp [hr, hright, mem_firstUses]
      · have hleft : (name == left) = false := beq_false_of_ne (Ne.symm hl)
        by_cases hr : right = name
        · simp [hr, hl]
        · have hright : (name == right) = false := beq_false_of_ne (Ne.symm hr)
          simp only [hl, hr, hleft, hright, bne_iff_ne, ne_eq, not_false_eq_true, true_and,
            false_and, exists_false, or_false, false_or, cond_false, Nat.add_lt_add_iff_right]

namespace Family

/-- The position of the first field that holds a node of the other family. -/
def firstUse (family : Family) (other : String) : Nat :=
  family.fields.findIdx fun field => field.type == .foreignChild other

theorem pair_sublist_references_iff (family : Family) {left right : String} :
    [left, right].Sublist family.references ↔
      right ∈ family.references ∧ family.firstUse left < family.firstUse right := by
  have hholds : ∀ (field : Field) (other : String),
      (field.type.foreignFamily? == some other) = (field.type == .foreignChild other) := by
    intro field other
    rw [Bool.eq_iff_iff, beq_iff_eq, beq_iff_eq, FieldType.foreignFamily?_eq_some_iff]
  rw [references, pair_sublist_firstUses_iff, mem_firstUses]
  simp only [hholds, firstUse]

variable {family : Family} {config : Config}

/-- The header of one family stands before that of another one if it is needed first. -/
theorem pair_sublist_dependencies_iff {left right : String}
    (hr : Naming.headerFile config right ∈ family.dependencies config) :
    [Naming.headerFile config left, Naming.headerFile config right].Sublist
        (family.dependencies config) ↔
      family.firstUse left < family.firstUse right := by
  have hinjective := Naming.headerFile_injective config
  have hmem : right ∈ family.references := (List.mem_map_of_injective hinjective).1 hr
  rw [dependencies, pair_sublist_map_iff hinjective, pair_sublist_references_iff]
  exact and_iff_right hmem

/-- The lines of the dependencies come first among those that include headers of the project. -/
theorem exists_localIncludeLines_eq (family : Family) (config : Config) :
    ∃ rest, family.localIncludeLines config =
      (family.header config).dependencies.map includeLine ++ rest := by
  obtain ⟨rest, hrest⟩ : (family.dependencies config).map includeLine <+:
      (family.localHeaders config).map includeLine :=
    (List.prefix_append _ _).map includeLine
  rw [localIncludeLines]
  split
  · next hnil =>
    rw [hnil] at hrest
    exact ⟨rest, hrest.symm⟩
  · refine ⟨rest ++ [.blank], ?_⟩
    rw [← hrest, List.append_assoc]
    rfl

theorem exists_contents_eq_includes (family : Family) (config : Config) :
    ∃ before after, (family.header config).contents = Line.renderAll config
      (before ++ (family.header config).dependencies.map includeLine ++ after) := by
  obtain ⟨rest, hrest⟩ := family.exists_localIncludeLines_eq config
  refine ⟨family.linesBeforeIncludes config, rest ++ family.linesAfterIncludes config,
    congrArg (Line.renderAll config) ?_⟩
  rw [headerLines_eq, hrest]
  simp only [List.append_assoc]

/-- The dependencies of the header of the family stand in the order of the catalogue. -/
def DependsInOrder (family : Family) (c : Catalogue) (config : Config) : Prop :=
  ∀ (j k : Nat) (earlier later : Family), j < k →
    c.families[j]? = some earlier → c.families[k]? = some later →
    Naming.headerFile config earlier.basename ∈ (family.header config).dependencies →
    Naming.headerFile config later.basename ∈ (family.header config).dependencies →
    [Naming.headerFile config earlier.basename, Naming.headerFile config later.basename].Sublist
      (family.header config).dependencies

/-- The fields of the family first use other families in the order of the catalogue. -/
def UsesInOrder (family : Family) (c : Catalogue) : Prop :=
  ∀ (j k : Nat) (earlier later : Family), j < k →
    c.families[j]? = some earlier → c.families[k]? = some later →
    earlier.basename ∈ family.references → later.basename ∈ family.references →
    family.firstUse earlier.basename < family.firstUse later.basename

theorem dependsInOrder_iff (family : Family) (c : Catalogue) (config : Config) :
    family.DependsInOrder c config ↔ family.UsesInOrder c := by
  have hmem : ∀ name, Naming.headerFile config name ∈ (family.header config).dependencies ↔
      name ∈ family.references :=
    fun name => List.mem_map_of_injective (Naming.headerFile_injective config)
  constructor
  · intro h j k earlier later hlt hj hk he hl
    rw [← hmem] at he hl
    exact (pair_sublist_dependencies_iff hl).1 (h j k earlier later hlt hj hk he hl)
  · intro h j k earlier later hlt hj hk he hl
    refine (pair_sublist_dependencies_iff hl).2 ?_
    rw [hmem] at he hl
    exact h j k earlier later hlt hj hk he hl

end Family

namespace Catalogue

variable {ds : List FamilyDeclaration} {c : Catalogue}

/-- The first two families cannot have dependencies in another order: there is at most one. -/
theorem dependsInOrder_of_le_one (h : load ds = .ok c) (config : Config) {i : Nat} {family : Family}
    (hi : c.families[i]? = some family) (hle : i ≤ 1) : family.DependsInOrder c config := by
  intro j k earlier later hlt hj hk he hl
  obtain ⟨m, hm, hfile, -⟩ := exists_fileName_of_mem_dependencies h config hi hl
  have hlater : (c.fileNames config)[k]? = some (Naming.headerFile config later.basename) := by
    rw [fileNames_eq, List.getElem?_map, List.getElem?_map, hk]
    rfl
  obtain ⟨hlength, -⟩ := List.getElem?_eq_some_iff.1 hlater
  have hkm : k = m :=
    (List.getElem?_inj hlength (fileNames_nodup h config)).1 (hlater.trans hfile.symm)
  omega

/-- The dependencies of a header stand in the order in which the fields of the family first use
them, as do the lines that include them. That is the order of the catalogue exactly when the
first uses are in that order, and always for the first two families. -/
theorem dependencies_ordered_by_first_use (h : load ds = .ok c) (config : Config) {i : Nat}
    {family : Family} (hi : c.families[i]? = some family) :
    (∀ left right,
        Naming.headerFile config left ∈ (family.header config).dependencies →
        Naming.headerFile config right ∈ (family.header config).dependencies →
        ([Naming.headerFile config left, Naming.headerFile config right].Sublist
            (family.header config).dependencies ↔
          family.firstUse left < family.firstUse right)) ∧
      (∃ before after, (family.header config).contents = Line.renderAll config
        (before ++ (family.header config).dependencies.map Family.includeLine ++ after)) ∧
      (config.Accepted →
        (family.header config).dependencies <+: (family.header config).includes) ∧
      (family.DependsInOrder c config ↔ family.UsesInOrder c) ∧
      (i ≤ 1 → family.DependsInOrder c config) := by
  refine ⟨fun left right _ hr => Family.pair_sublist_dependencies_iff hr,
    family.exists_contents_eq_includes config, ?_, family.dependsInOrder_iff c config,
    dependsInOrder_of_le_one h config hi⟩
  intro hc
  rw [Family.includes_header (wellNamed_of_mem h (List.mem_of_getElem? hi)) hc]
  exact List.prefix_append _ _

/-- Expressions, types, and statements that declare a variable: first its type,
then its value. -/
def typedVariables : List FamilyDeclaration :=
  [{ basename := "Expr", variants := [{ name := "Literal" }] },
   { basename := "Type", variants := [{ name := "Named" }] },
   { basename := "Stmt",
     variants := [{ name := "Var", fields := [{ type := "Type", name := "type" },
       { type := "Expr", name := "value" }] }] }]

theorem facts_typedVariables :
    (load typedVariables).toOption.map (fun c => c.families.map fun family =>
      (family.basename, family.references, family.usesToken)) =
        some [("Expr", [], false), ("Type", [], false), ("Stmt", ["Type", "Expr"], false)] := by
  decide +kernel

theorem exists_typedVariables :
    ∃ (c : Catalogue) (expressions types statements : Family), load typedVariables = .ok c ∧
      c.families[0]? = some expressions ∧ expressions.basename = "Expr" ∧
      c.families[1]? = some types ∧ types.basename = "Type" ∧
      c.families[2]? = some statements ∧
      (statements.header {}).dependencies = ["Type.h", "Expr.h"] ∧
      statements.usesToken = false := by
  have hfacts := facts_typedVariables
  cases hload : load typedVariables with
  | error e =>
    rw [hload] at hfacts
    exact absurd hfacts (by simp [Except.toOption])
  | ok c =>
    rw [hload] at hfacts
    simp only [Except.toOption, Option.map_some, Option.some.injEq] at hfacts
    obtain ⟨expressions, rest, hfamilies, hexpr, hrest⟩ := List.map_eq_cons_iff.1 hfacts
    obtain ⟨types, rest, rfl, htype, hrest⟩ := List.map_eq_cons_iff.1 hrest
    obtain ⟨statements, rest, rfl, hstmt, -⟩ := List.map_eq_cons_iff.1 hrest
    simp only [Prod.mk.injEq] at hexpr htype hstmt
    refine ⟨c, expressions, types, statements, rfl, by simp [hfamilies], hexpr.1,
      by simp [hfamilies], htype.1, by simp [hfamilies], ?_, hstmt.2.2⟩
    change statements.references.map (Naming.headerFile {}) = _
    rw [hstmt.2.1]
    decide

/-- The fields of the statements use types before expressions, and so does their header. -/
theorem typedVariables_ordered_by_first_use :
    ∃ (c : Catalogue) (statements : Family), load typedVariables = .ok c ∧
      c.families[2]? = some statements ∧
      (statements.header {}).dependencies = ["Type.h", "Expr.h"] ∧
      statements.firstUse "Type" < statements.firstUse "Expr" ∧
      (statements.header {}).dependencies <+: (statements.header {}).includes := by
  obtain ⟨c, expressions, types, statements, hload, -, -, -, -, hstmt, hdependencies, -⟩ :=
    exists_typedVariables
  obtain ⟨hfirst, -, hincludes, -⟩ := dependencies_ordered_by_first_use hload {} hstmt
  refine ⟨c, statements, hload, hstmt, hdependencies, ?_, hincludes ⟨by decide, by decide⟩⟩
  rw [hdependencies] at hfirst
  exact (hfirst "Type" "Expr" (by decide) (by decide)).1 (List.Sublist.refl _)

/-- The header of the statements includes that of the types first, although the expressions
stand before the types in the catalogue. -/
theorem dependencies_against_catalogue_order :
    ∃ (c : Catalogue) (expressions types statements : Family), load typedVariables = .ok c ∧
      c.families[0]? = some expressions ∧ expressions.basename = "Expr" ∧
      c.families[1]? = some types ∧ types.basename = "Type" ∧
      c.families[2]? = some statements ∧
      (statements.header {}).dependencies = ["Type.h", "Expr.h"] ∧
      (statements.header {}).includes = ["Type.h", "Expr.h"] ∧
      ¬ statements.DependsInOrder c {} := by
  obtain ⟨c, expressions, types, statements, hload, hexpr, hexprName, htype, htypeName, hstmt,
    hdependencies, htoken⟩ := exists_typedVariables
  refine ⟨c, expressions, types, statements, hload, hexpr, hexprName, htype, htypeName, hstmt,
    hdependencies, ?_, ?_⟩
  · have hwell := wellNamed_of_mem hload (List.mem_of_getElem? hstmt)
    rw [Family.includes_header hwell ⟨by decide, by decide⟩, Family.localHeaders, htoken]
    exact (List.append_nil _).trans hdependencies
  · intro hinOrder
    have hsublist := hinOrder 0 1 expressions types Nat.zero_lt_one hexpr htype
    rw [hdependencies, hexprName, htypeName] at hsublist
    exact absurd (hsublist (by decide) (by decide)) (by decide)

end Catalogue

end TreeHeaders
