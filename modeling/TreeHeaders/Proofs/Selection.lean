import TreeHeaders.Proofs.HeaderLines
import Mathlib.Data.List.Perm.Subperm

set_option autoImplicit false

/-!
# Families are independent but for references

Some families of a catalogue, in an order of one's own, make a catalogue again as long as every
family comes after those it refers to, and their headers are the same to the byte
(`Catalogue.headers_selection`). Loading compares the names of all families with one another,
but fewer families have fewer names to clash; and a field has the same type wherever the family
it refers to stands among the earlier ones.
-/

namespace TreeHeaders

/-! ## Selecting by position -/

/-- The elements at the positions, in the order of the positions. -/
def select {α : Type} (positions : List Nat) (xs : List α) : List α :=
  positions.filterMap fun i => xs[i]?

theorem select_cons {α : Type} {i : Nat} {xs : List α} {x : α} (positions : List Nat)
    (h : xs[i]? = some x) : select (i :: positions) xs = x :: select positions xs := by
  rw [select, List.filterMap_cons, h]
  rfl

theorem mem_select {α : Type} {positions : List Nat} {xs : List α} {x : α} :
    x ∈ select positions xs ↔ ∃ i ∈ positions, xs[i]? = some x :=
  List.mem_filterMap

theorem mem_of_mem_select {α : Type} {positions : List Nat} {xs : List α} {x : α}
    (h : x ∈ select positions xs) : x ∈ xs := by
  obtain ⟨i, -, hi⟩ := mem_select.1 h
  exact List.mem_of_getElem? hi

theorem map_select {α β : Type} (f : α → β) (positions : List Nat) (xs : List α) :
    (select positions xs).map f = select positions (xs.map f) := by
  simp only [select, List.map_filterMap, List.getElem?_map]

theorem select_range {α : Type} (n : Nat) (xs : List α) : select (List.range n) xs = xs.take n := by
  induction n with
  | zero => rfl
  | succ n ih =>
    rw [select] at ih
    rw [select, List.range_succ, List.filterMap_append, ih, List.take_add_one]
    cases h : xs[n]? with
    | none => simp [h]
    | some x => simp [h]

theorem select_nodup {α : Type} {positions : List Nat} {xs : List α} (hp : positions.Nodup)
    (hx : xs.Nodup) : (select positions xs).Nodup := by
  refine hp.filterMap ?_
  intro i j x hi hj
  obtain ⟨hlt, -⟩ := List.getElem?_eq_some_iff.1 (Option.mem_def.1 hi)
  exact (List.getElem?_inj hlt hx).1 ((Option.mem_def.1 hi).trans (Option.mem_def.1 hj).symm)

/-! ## Types in another scope -/

theorem forall₂_of_mem_right {α β : Type} {R S : α → β → Prop} {xs : List α} {ys : List β}
    (h : List.Forall₂ R xs ys) (hS : ∀ x, ∀ y ∈ ys, R x y → S x y) : List.Forall₂ S xs ys := by
  induction h with
  | nil => exact .nil
  | @cons x y xs ys hxy _ ih =>
    refine .cons (hS x y List.mem_cons_self hxy) (ih ?_)
    exact fun x' y' hy' => hS x' y' (List.mem_cons_of_mem y hy')

/-- The other families whose nodes the family holds are among those of the given names. -/
def Family.RefersTo (family : Family) (names : List String) : Prop :=
  ∀ variant ∈ family.variants, ∀ field ∈ variant.fields, ∀ name,
    field.type = .foreignChild name → name ∈ names

namespace FamilyDeclaration

/-- A declaration denotes the same family among other families, if those that it refers to are
there. -/
theorem Denotes.rescope {earlier others : List String} {d : FamilyDeclaration} {family : Family}
    (h : d.Denotes earlier family) (hrefers : family.RefersTo others) :
    d.Denotes others family := by
  refine ⟨h.basename, h.contract, h.rendersText, forall₂_of_mem_right h.variants ?_⟩
  intro v variant hvariant hdenotes
  refine ⟨hdenotes.name, forall₂_of_mem_right hdenotes.fields ?_⟩
  intro f field hfield hdenotes
  exact ⟨hdenotes.name, hdenotes.type.rescope (hrefers variant hvariant field hfield)⟩

/-- A family refers to earlier ones. -/
theorem Denotes.refersTo {earlier : List String} {d : FamilyDeclaration} {family : Family}
    (h : d.Denotes earlier family) : family.RefersTo earlier := by
  intro variant hvariant field hfield name hname
  obtain ⟨v, -, hv⟩ := exists_of_forall₂_right h.variants hvariant
  obtain ⟨f, -, hf⟩ := exists_of_forall₂_right hv.fields hfield
  have htype := hf.type
  rw [hname] at htype
  exact htype.1

/-- Selected declarations denote the selected families, if each of these refers to families that
are selected before it. -/
theorem DenotesAll.select {ds : List FamilyDeclaration} {families : List Family}
    (h : DenotesAll [] ds families) {positions : List Nat} (hlt : ∀ i ∈ positions, i < ds.length)
    (earlier : List String)
    (hrefers : ∀ k i (family : Family), positions[k]? = some i → families[i]? = some family →
      family.RefersTo (earlier ++ (TreeHeaders.select (positions.take k) ds).map (·.basename))) :
    DenotesAll earlier (TreeHeaders.select positions ds)
      (TreeHeaders.select positions families) := by
  induction positions generalizing earlier with
  | nil => exact .nil
  | cons i positions ih =>
    obtain ⟨hi, hrest⟩ := List.forall_mem_cons.1 hlt
    have hd : ds[i]? = some ds[i] := List.getElem?_eq_getElem hi
    obtain ⟨family, hfamily, hdenotes⟩ := h.exists_getElem? hd
    rw [select_cons positions hd, select_cons positions hfamily]
    refine .cons (hdenotes.rescope ?_) (ih hrest _ ?_)
    · simpa [TreeHeaders.select] using hrefers 0 i family rfl hfamily
    · intro k j other hj hother
      have hcons := hrefers (k + 1) j other hj hother
      rwa [List.take_succ_cons, select_cons _ hd, List.map_cons, List.append_cons] at hcons

end FamilyDeclaration

/-! ## Fewer families -/

/-- Declarations stay admissible if some are left out and the others reordered, as long as every
type text stands for a type. -/
theorem Admissible.of_subset {ds ds' : List FamilyDeclaration} (h : Admissible ds)
    (hn : ds'.Nodup) (hsub : ds' ⊆ ds)
    (htypes : ∀ i d, ds'[i]? = some d → ∀ variant ∈ d.variants, ∀ field ∈ variant.fields,
      ∃ type : FieldType,
        type.IsSpelled d.basename ((ds'.take i).map (·.basename)) (Text.trim field.type)) :
    Admissible ds' := by
  refine ⟨fun d hd => h.identifier d (hsub hd), ?_, fun d hd => h.variants_ne_nil d (hsub hd),
    fun d hd => h.fields_nodup d (hsub hd), ?_, htypes⟩
  · -- the names of some families are some of the names, in another order
    obtain ⟨ordered, hperm, hsublist⟩ := hn.subperm hsub
    have hnodup : (FamilyDeclaration.allReservedNames ordered).Nodup :=
      ((hsublist.flatMap FamilyDeclaration.reservedNames).cons_cons "std").cons_cons "Token"
        |>.nodup h.reserved_nodup
    exact (((hperm.flatMap_right FamilyDeclaration.reservedNames).cons "std").cons
      "Token").nodup_iff.1 hnodup
  · intro d hd variant hvariant field hfield hmem
    refine h.fields_notMem d (hsub hd) variant hvariant field hfield ?_
    simp only [FamilyDeclaration.allParameterTypes, List.mem_cons, List.mem_flatMap] at hmem ⊢
    rcases hmem with htoken | hstd | ⟨e, he, hname⟩
    · exact Or.inl htoken
    · exact Or.inr (Or.inl hstd)
    · exact Or.inr (Or.inr ⟨e, hsub he, hname⟩)

theorem Admissible.nodup {ds : List FamilyDeclaration} (h : Admissible ds) : ds.Nodup :=
  (FamilyDeclaration.basenames_nodup h.reserved_names_nodup).of_map _

namespace Catalogue

variable {ds : List FamilyDeclaration} {c : Catalogue}

/-- The selection of families at different positions, each after those it refers to. -/
structure Selectable (ds : List FamilyDeclaration) (c : Catalogue) (positions : List Nat) :
    Prop where
  nodup : positions.Nodup
  lt_length : ∀ i ∈ positions, i < ds.length
  /-- a family that a selected one refers to is selected before it -/
  refersTo : ∀ k i (family : Family), positions[k]? = some i → c.families[i]? = some family →
    family.RefersTo ((select (positions.take k) ds).map (·.basename))

theorem load_select (h : load ds = .ok c) {positions : List Nat}
    (hs : Selectable ds c positions) :
    load (select positions ds) = .ok ⟨select positions c.families⟩ := by
  obtain ⟨hadmissible, hdenotes⟩ := load_eq_ok_iff.1 h
  have hselected := hdenotes.select hs.lt_length [] hs.refersTo
  refine load_eq_ok_iff.2 ⟨?_, hselected⟩
  refine hadmissible.of_subset (select_nodup hs.nodup hadmissible.nodup)
    (fun _ => mem_of_mem_select) ?_
  intro i d hd variant hvariant field hfield
  obtain ⟨family, -, hfamily⟩ := hselected.exists_getElem? hd
  exact hfamily.exists_isSpelled hvariant hfield

/-- The families of an initial part of a catalogue can be selected. -/
theorem selectable_range (h : load ds = .ok c) {n : Nat} (hn : n ≤ ds.length) :
    Selectable ds c (List.range n) := by
  refine ⟨List.nodup_range, ?_, ?_⟩
  · intro i hi
    exact Nat.lt_of_lt_of_le (List.mem_range.1 hi) hn
  · intro k i family hk hfamily
    obtain ⟨hlt, rfl⟩ : k < n ∧ k = i := by
      simpa [List.getElem?_eq_some_iff] using hk
    obtain ⟨-, hdenotes⟩ := load_eq_ok_iff.1 h
    obtain ⟨d, -, hd⟩ := hdenotes.exists_declaration hfamily
    rw [List.take_range, Nat.min_eq_left (Nat.le_of_lt hlt), select_range]
    simpa using hd.refersTo

/-- Every declaration has its header, in the same order. -/
theorem map_family_headers (h : load ds = .ok c) (config : Config) :
    (c.headers config).map (·.family) = ds.map (·.basename) := by
  obtain ⟨-, hdenotes⟩ := load_eq_ok_iff.1 h
  rw [headers, List.map_map, ← hdenotes.map_basename]
  rfl

/-- Families at different positions, in any order in which each comes after those it refers to,
make a catalogue again. Each of them has its header there, in that order, and these are the
headers that they have among all families, byte for byte. In particular the families that stand
in front make a catalogue with the same headers, whatever is added behind them. -/
theorem headers_selection (h : load ds = .ok c) :
    (∀ positions, Selectable ds c positions →
      ∃ c', load (select positions ds) = .ok c' ∧
        ∀ config, c'.headers config = select positions (c.headers config) ∧
          (c'.headers config).map (·.family) = (select positions ds).map (·.basename)) ∧
    ∀ n ≤ ds.length, ∃ c', load (ds.take n) = .ok c' ∧
      ∀ config, c'.headers config = (c.headers config).take n ∧
        (c'.headers config).map (·.family) = (ds.take n).map (·.basename) := by
  have hselected : ∀ positions, Selectable ds c positions →
      ∃ c', load (select positions ds) = .ok c' ∧
        ∀ config, c'.headers config = select positions (c.headers config) ∧
          (c'.headers config).map (·.family) = (select positions ds).map (·.basename) := by
    intro positions hs
    have hload := load_select h hs
    refine ⟨⟨select positions c.families⟩, hload, ?_⟩
    intro config
    exact ⟨map_select _ positions c.families, map_family_headers hload config⟩
  refine ⟨hselected, ?_⟩
  intro n hn
  obtain ⟨c', hload, hheaders⟩ := hselected _ (selectable_range h hn)
  simp only [select_range] at hload hheaders
  exact ⟨c', hload, hheaders⟩

/-! ## Four families -/

/-- Expressions and types, statements with expressions, and declarations with all three. -/
def fourFamilies : List FamilyDeclaration :=
  [{ basename := "Expr",
     variants := [{ name := "Literal", fields := [{ type := "number", name := "value" }] }] },
   { basename := "Type", result := some "TypeResult",
     variants := [{ name := "Named", fields := [{ type := "Token", name := "name" }] }] },
   { basename := "Stmt",
     variants := [{ name := "Print", fields := [{ type := " Expr ", name := "value" }] }] },
   { basename := "Decl",
     variants := [{ name := "Function", fields := [{ type := "Type", name := "result" },
       { type := "Stmt", name := "body" }, { type := "Expr", name := "guard" }] }] }]

theorem references_fourFamilies :
    (load fourFamilies).toOption.map (fun c => c.families.map Family.references) =
      some [[], [], ["Expr"], ["Type", "Stmt", "Expr"]] := by
  decide +kernel

/-- Types, expressions and statements, in this order, make a catalogue without the declarations,
and it has their three headers, the ones that they have among all four families. -/
theorem headers_three_of_four :
    ∃ c c', load fourFamilies = .ok c ∧ Selectable fourFamilies c [1, 0, 2] ∧
      load (select [1, 0, 2] fourFamilies) = .ok c' ∧
      (select [1, 0, 2] fourFamilies).map (·.basename) = ["Type", "Expr", "Stmt"] ∧
      ∀ config, c'.headers config = select [1, 0, 2] (c.headers config) ∧
        (c'.headers config).map (·.family) = ["Type", "Expr", "Stmt"] := by
  have hrefs := references_fourFamilies
  obtain ⟨c, hc⟩ : ∃ c, load fourFamilies = .ok c := by
    cases h : load fourFamilies with
    | error e =>
      rw [h] at hrefs
      exact absurd hrefs (by simp [Except.toOption])
    | ok c => exact ⟨c, rfl⟩
  rw [hc] at hrefs
  simp only [Except.toOption, Option.map_some, Option.some.injEq] at hrefs
  have hs : Selectable fourFamilies c [1, 0, 2] := by
    refine ⟨by decide, by decide, ?_⟩
    intro k i family hk hfamily variant hvariant field hfield name hname
    have hreferences := congrArg (·[i]?) hrefs
    simp only [List.getElem?_map, hfamily, Option.map_some] at hreferences
    have hmem : name ∈ family.references :=
      Family.mem_references_iff.2 ⟨variant, hvariant, field, hfield, hname⟩
    match k with
    | 0 =>
      obtain rfl : 1 = i := by simpa using hk
      simp [Option.some.inj hreferences] at hmem
    | 1 =>
      obtain rfl : 0 = i := by simpa using hk
      simp [Option.some.inj hreferences] at hmem
    | 2 =>
      obtain rfl : 2 = i := by simpa using hk
      rw [Option.some.inj hreferences] at hmem
      obtain rfl : name = "Expr" := by simpa using hmem
      decide
    | k + 3 => simp at hk
  have hnames : (select [1, 0, 2] fourFamilies).map (·.basename) = ["Type", "Expr", "Stmt"] := by
    decide
  obtain ⟨c', hload, hheaders⟩ := (headers_selection hc).1 _ hs
  rw [hnames] at hheaders
  exact ⟨c, c', hc, hs, hload, hnames, hheaders⟩

end Catalogue

end TreeHeaders
