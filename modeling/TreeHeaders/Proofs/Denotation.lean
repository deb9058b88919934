import TreeHeaders.Proofs.Spelling
import Mathlib.Data.List.Forall2

set_option autoImplicit false

/-!
# What declarations denote

The relation between declarations and the parts of a catalogue: names, orders and flags are
kept, and a field has the type that its text stands for. It knows nothing of registries, passes
and violations, and no rule but that of types is part of it.
-/

namespace TreeHeaders

/-- The field keeps the declared name and has the type that the declared text stands for. -/
structure FieldDeclaration.Denotes (own : String) (earlier : List String) (d : FieldDeclaration)
    (field : Field) : Prop where
  name : field.name = d.name
  type : field.type.IsSpelled own earlier (Text.trim d.type)

/-- The variant keeps the declared name, and its fields are the declared ones in order. -/
structure VariantDeclaration.Denotes (own : String) (earlier : List String)
    (d : VariantDeclaration) (variant : Variant) : Prop where
  name : variant.name = d.name
  fields : List.Forall₂ (FieldDeclaration.Denotes own earlier) d.fields variant.fields

/-- The family is the declared one, its variants in order. -/
structure FamilyDeclaration.Denotes (earlier : List String) (d : FamilyDeclaration)
    (family : Family) : Prop where
  basename : family.basename = d.basename
  contract : family.contract = d.contract
  rendersText : family.rendersText = d.render
  variants :
    List.Forall₂ (VariantDeclaration.Denotes d.basename earlier) d.variants family.variants

/-- Position by position, the families are the declared ones. The families that may be referred
to are those called `earlier`, and those that stand before in the list. -/
inductive FamilyDeclaration.DenotesAll :
    List String → List FamilyDeclaration → List Family → Prop where
  | nil {earlier : List String} : DenotesAll earlier [] []
  | cons {earlier : List String} {d : FamilyDeclaration} {ds : List FamilyDeclaration}
      {family : Family} {families : List Family} (head : d.Denotes earlier family)
      (tail : DenotesAll (earlier ++ [d.basename]) ds families) :
      DenotesAll earlier (d :: ds) (family :: families)

/-! ## Lists -/

/-- Where every element has a name of its own, looking a name up finds the
element of that name. -/
theorem find?_eq_some_iff_of_nodup {α : Type} {f : α → String} {xs : List α}
    (hn : (xs.map f).Nodup) {name : String} {x : α} :
    (xs.find? fun y => f y == name) = some x ↔ x ∈ xs ∧ f x = name := by
  induction xs with
  | nil => simp
  | cons y ys ih =>
    rw [List.map_cons, List.nodup_cons] at hn
    by_cases h : f y = name
    · have hys : ∀ z ∈ ys, f z ≠ name := by
        intro z hz hname
        exact hn.1 (List.mem_map.2 ⟨z, hz, hname.trans h.symm⟩)
      simp only [List.find?_cons, h, BEq.rfl, Option.some.injEq, List.mem_cons]
      constructor
      · intro hx
        exact ⟨Or.inl hx.symm, hx ▸ h⟩
      · intro hx
        obtain ⟨hx | hx, hname⟩ := hx
        · exact hx.symm
        · exact absurd hname (hys x hx)
    · have hne : x = y → f x ≠ name := fun hx => hx ▸ h
      rw [List.find?_cons_of_neg (by simpa using h), ih hn.2, List.mem_cons]
      constructor
      · intro hx
        exact ⟨Or.inr hx.1, hx.2⟩
      · intro hx
        obtain ⟨hx | hx, hname⟩ := hx
        · exact absurd hname (hne hx)
        · exact ⟨hx, hname⟩

theorem exists_forall₂ {α β : Type} {R : α → β → Prop} {xs : List α} (h : ∀ x ∈ xs, ∃ y, R x y) :
    ∃ ys, List.Forall₂ R xs ys := by
  induction xs with
  | nil => exact ⟨[], .nil⟩
  | cons x xs ih =>
    obtain ⟨y, hy⟩ := h x (by simp)
    obtain ⟨ys, hys⟩ := ih fun x' hx' => h x' (List.mem_cons_of_mem x hx')
    exact ⟨y :: ys, .cons hy hys⟩

theorem exists_of_forall₂ {α β : Type} {R : α → β → Prop} {xs : List α} {ys : List β}
    (h : List.Forall₂ R xs ys) {x : α} (hx : x ∈ xs) : ∃ y ∈ ys, R x y := by
  induction h with
  | nil => exact absurd hx List.not_mem_nil
  | @cons a b _ _ hab _ ih =>
    rcases List.mem_cons.1 hx with rfl | hx
    · exact ⟨b, by simp, hab⟩
    · obtain ⟨y, hy, hxy⟩ := ih hx
      exact ⟨y, List.mem_cons_of_mem b hy, hxy⟩

theorem exists_of_forall₂_right {α β : Type} {R : α → β → Prop} {xs : List α} {ys : List β}
    (h : List.Forall₂ R xs ys) {y : β} (hy : y ∈ ys) : ∃ x ∈ xs, R x y := by
  have hflip : List.Forall₂ (flip R) ys xs := h.flip
  exact exists_of_forall₂ hflip hy

theorem rel_of_forall₂ {α β : Type} {R : α → β → Prop} {xs : List α} {ys : List β}
    (h : List.Forall₂ R xs ys) {i : Nat} {x : α} {y : β} (hx : xs[i]? = some x)
    (hy : ys[i]? = some y) : R x y := by
  induction h generalizing i with
  | nil => simp at hx
  | @cons a b _ _ hab _ ih =>
    cases i with
    | zero =>
      obtain rfl : a = x := by simpa using hx
      obtain rfl : b = y := by simpa using hy
      exact hab
    | succ i => exact ih (by simpa using hx) (by simpa using hy)

/-- Related lists have the same names if related elements have. -/
theorem map_eq_of_forall₂ {α β γ : Type} {R : α → β → Prop} {f : α → γ} {g : β → γ}
    (hR : ∀ x y, R x y → g y = f x) {xs : List α} {ys : List β} (h : List.Forall₂ R xs ys) :
    ys.map g = xs.map f := by
  induction h with
  | nil => rfl
  | cons hxy _ ih => rw [List.map_cons, List.map_cons, hR _ _ hxy, ih]

/-! ## All families -/

namespace FamilyDeclaration

/-- The declaration denotes a family as soon as every field has a type. -/
theorem exists_denotes {earlier : List String} {d : FamilyDeclaration}
    (h : ∀ variant ∈ d.variants, ∀ field ∈ variant.fields,
      ∃ type : FieldType, type.IsSpelled d.basename earlier (Text.trim field.type)) :
    ∃ family, d.Denotes earlier family := by
  have hvariants : ∀ variant ∈ d.variants,
      ∃ v, VariantDeclaration.Denotes d.basename earlier variant v := by
    intro variant hvariant
    have hfields : ∀ field ∈ variant.fields,
        ∃ f, FieldDeclaration.Denotes d.basename earlier field f := by
      intro field hfield
      obtain ⟨type, htype⟩ := h variant hvariant field hfield
      exact ⟨⟨type, field.name⟩, rfl, htype⟩
    obtain ⟨fields, hfields⟩ := exists_forall₂ hfields
    exact ⟨⟨variant.name, fields⟩, rfl, hfields⟩
  obtain ⟨variants, hvariants⟩ := exists_forall₂ hvariants
  exact ⟨⟨d.basename, d.contract, d.render, variants⟩, rfl, rfl, rfl, hvariants⟩

/-- The type of every field of a denoted family is spelled by the declared text. -/
theorem Denotes.exists_isSpelled {earlier : List String} {d : FamilyDeclaration} {family : Family}
    (h : d.Denotes earlier family) {variant : VariantDeclaration} (hv : variant ∈ d.variants)
    {field : FieldDeclaration} (hf : field ∈ variant.fields) :
    ∃ type : FieldType, type.IsSpelled d.basename earlier (Text.trim field.type) := by
  obtain ⟨v, -, hdenotes⟩ := exists_of_forall₂ h.variants hv
  obtain ⟨f, -, hfield⟩ := exists_of_forall₂ hdenotes.fields hf
  exact ⟨f.type, hfield.type⟩

namespace DenotesAll

theorem map_basename {earlier : List String} {ds : List FamilyDeclaration}
    {families : List Family} (h : DenotesAll earlier ds families) :
    families.map (·.basename) = ds.map (·.basename) := by
  induction h with
  | nil => rfl
  | cons head _ ih => rw [List.map_cons, List.map_cons, head.basename, ih]

/-- At every position of a declaration stands the family that it denotes, among
the families before it. -/
theorem exists_getElem? {earlier : List String} {ds : List FamilyDeclaration}
    {families : List Family} (h : DenotesAll earlier ds families) {i : Nat}
    {d : FamilyDeclaration} (hd : ds[i]? = some d) :
    ∃ family, families[i]? = some family ∧
      d.Denotes (earlier ++ (ds.take i).map (·.basename)) family := by
  induction h generalizing i with
  | nil => simp at hd
  | @cons earlier e es family rest head _ ih =>
    cases i with
    | zero =>
      obtain rfl : e = d := by simpa using hd
      exact ⟨family, rfl, by simpa using head⟩
    | succ i => simpa using ih (by simpa using hd)

/-- Every family is denoted by the declaration at its position. -/
theorem exists_declaration {earlier : List String} {ds : List FamilyDeclaration}
    {families : List Family} (h : DenotesAll earlier ds families) {i : Nat} {family : Family}
    (hf : families[i]? = some family) :
    ∃ d, ds[i]? = some d ∧ d.Denotes (earlier ++ (ds.take i).map (·.basename)) family := by
  have hlength : families.length = ds.length := by
    simpa using congrArg List.length h.map_basename
  have hlt : i < ds.length := by
    rw [← hlength]
    exact (List.getElem?_eq_some_iff.1 hf).1
  have hd : ds[i]? = some ds[i] := List.getElem?_eq_getElem hlt
  obtain ⟨other, hother, hdenotes⟩ := h.exists_getElem? hd
  obtain rfl : family = other := Option.some.inj (hf.symm.trans hother)
  exact ⟨ds[i], hd, hdenotes⟩

end DenotesAll

/-- The declarations denote families as soon as every field has a type. -/
theorem exists_denotesAll {earlier : List String} {ds : List FamilyDeclaration}
    (h : ∀ i d, ds[i]? = some d → ∀ variant ∈ d.variants, ∀ field ∈ variant.fields,
      ∃ type : FieldType,
        type.IsSpelled d.basename (earlier ++ (ds.take i).map (·.basename))
          (Text.trim field.type)) :
    ∃ families, DenotesAll earlier ds families := by
  induction ds generalizing earlier with
  | nil => exact ⟨[], .nil⟩
  | cons d ds ih =>
    obtain ⟨family, hfamily⟩ : ∃ family, d.Denotes earlier family :=
      exists_denotes (by simpa using h 0 d rfl)
    obtain ⟨families, hfamilies⟩ :
        ∃ families, DenotesAll (earlier ++ [d.basename]) ds families := by
      apply ih
      intro i e he
      simpa using h (i + 1) e (by simpa using he)
    exact ⟨family :: families, .cons hfamily hfamilies⟩

end FamilyDeclaration

end TreeHeaders
