import TreeHeaders.Proofs.Faithfulness
import Mathlib.Data.List.Perm.Subperm

set_option autoImplicit false

/-!
# Equivalence of catalogues

Catalogues are compared family by family, and the variants of two families by looking up each
one of the left family in the right one. Since no two variants of a family have one name, that
makes the variants of the one family a permutation of those of the other. The main statement
says what this means for the declarations that were loaded, and that a list of declarations with
its variants in another order loads as well, to an equivalent catalogue
(`Catalogue.equivalent_iff_declarations`).
-/

namespace TreeHeaders

/-! ## Families -/

namespace Family

/-- The families differ at most in the order of their variants. -/
structure Agrees (left right : Family) : Prop where
  basename : left.basename = right.basename
  contract : left.contract = right.contract
  rendersText : left.rendersText = right.rendersText
  variants : left.variants.Perm right.variants

/-- Families with variants of different names are equivalent if they differ at most in the
order of their variants. -/
theorem equivalent_iff_agrees {left right : Family} (hl : (left.variants.map (·.name)).Nodup)
    (hr : (right.variants.map (·.name)).Nodup) :
    left.equivalent right = true ↔ left.Agrees right := by
  have hlookup : (left.variants.all fun variant => right.variant? variant.name == some variant) =
      true ↔ left.variants ⊆ right.variants := by
    simp only [List.all_eq_true, beq_iff_eq, variant?, find?_eq_some_iff_of_nodup hr, and_true]
    rfl
  simp only [equivalent, Bool.and_eq_true, beq_iff_eq, hlookup]
  constructor
  · rintro ⟨⟨⟨⟨hbasename, hcontract⟩, hrender⟩, hlength⟩, hsub⟩
    refine ⟨hbasename, hcontract, hrender, ?_⟩
    -- as many variants, all of them among those of the other family
    exact ((hl.of_map _).subperm hsub).perm_of_length_le (Nat.le_of_eq hlength.symm)
  · intro h
    exact ⟨⟨⟨⟨h.basename, h.contract⟩, h.rendersText⟩, h.variants.length_eq⟩, h.variants.subset⟩

end Family

/-! ## Variants as declared -/

namespace VariantDeclaration

/-- The name of a variant with what its fields turn out to be and how they are
called, in order. -/
def profile (scope : Scope) (d : VariantDeclaration) : String × List (Resolution × String) :=
  (d.name, d.fields.map fun field => (scope.resolve field.type, field.name))

end VariantDeclaration

namespace Variant

/-- The name of a variant with the types and names of its fields, in order. -/
def profile (variant : Variant) : String × List (Resolution × String) :=
  (variant.name, variant.fields.map fun field => (.found field.type, field.name))

theorem profile_injective : Function.Injective profile := by
  rintro ⟨name, fields⟩ ⟨name', fields'⟩ h
  obtain ⟨rfl, hfields⟩ := Prod.mk.inj h
  have hinj :
      Function.Injective fun field : Field => (Resolution.found field.type, field.name) := by
    rintro ⟨type, field⟩ ⟨type', field'⟩ he
    simpa using he
  exact congrArg (Variant.mk name) ((List.map_injective_iff.2 hinj) hfields)

end Variant

theorem VariantDeclaration.Denotes.profile_eq {scope : Scope} {d : VariantDeclaration}
    {variant : Variant} (hs : scope.Plain) (h : d.Denotes scope.own scope.earlier variant) :
    variant.profile = d.profile scope := by
  rw [Variant.profile, VariantDeclaration.profile, h.name]
  refine congrArg (Prod.mk d.name) (map_eq_of_forall₂ ?_ h.fields)
  intro f field hf
  rw [hf.name, (Scope.resolve_eq_found_iff hs).2 hf.type]

/-- The scope of the family at a position. -/
def FamilyDeclaration.scopeAt (ds : List FamilyDeclaration) (i : Nat) (d : FamilyDeclaration) :
    Scope where
  own := d.basename
  earlier := (ds.take i).map (·.basename)
  declared := ds.map (·.basename)

theorem FamilyDeclaration.Denotes.map_profile {ds : List FamilyDeclaration} (hds : Admissible ds)
    {i : Nat} {d : FamilyDeclaration} (hd : ds[i]? = some d) {family : Family}
    (h : d.Denotes ((ds.take i).map (·.basename)) family) :
    family.variants.map Variant.profile =
      d.variants.map (VariantDeclaration.profile (scopeAt ds i d)) := by
  have hs : (scopeAt ds i d).Plain := hds.plain_scope hd _
  refine map_eq_of_forall₂ ?_ h.variants
  intro v variant hv
  exact VariantDeclaration.Denotes.profile_eq hs hv

/-! ## Reordered variants -/

namespace FamilyDeclaration

/-- The other declaration of the family lists the variants in another order. -/
structure Reordered (d e : FamilyDeclaration) : Prop where
  basename : e.basename = d.basename
  result : e.result = d.result
  render : e.render = d.render
  variants : e.variants.Perm d.variants

namespace Reordered

variable {d e : FamilyDeclaration}

theorem mem_authoredNames (h : Reordered d e) {name : String} (hname : name ∈ e.authoredNames) :
    name ∈ d.authoredNames := by
  rw [authoredNames, h.basename, h.result] at hname
  rcases List.mem_append.1 hname with hname | hname
  · exact List.mem_append_left _ hname
  · obtain ⟨variant, hvariant, hmem⟩ := List.mem_flatMap.1 hname
    exact List.mem_append_right _
      (List.mem_flatMap.2 ⟨variant, h.variants.mem_iff.1 hvariant, hmem⟩)

theorem perm_reservedNames (h : Reordered d e) : e.reservedNames.Perm d.reservedNames := by
  rw [reservedNames, reservedNames, h.basename, h.result]
  exact (h.variants.map _).append_left _

end Reordered

theorem map_basename_of_reordered {ds es : List FamilyDeclaration}
    (h : List.Forall₂ Reordered ds es) : es.map (·.basename) = ds.map (·.basename) :=
  map_eq_of_forall₂ (fun _ _ hd => hd.basename) h

theorem perm_allReservedNames_of_reordered {ds es : List FamilyDeclaration}
    (h : List.Forall₂ Reordered ds es) : (allReservedNames es).Perm (allReservedNames ds) := by
  refine .cons _ (.cons _ ?_)
  induction h with
  | nil => exact .nil
  | cons hd _ ih => exact hd.perm_reservedNames.append ih

theorem allParameterTypes_of_reordered {ds es : List FamilyDeclaration}
    (h : List.Forall₂ Reordered ds es) : allParameterTypes es = allParameterTypes ds := by
  have htypes : ∀ fs : List FamilyDeclaration, allParameterTypes fs =
      "Token" :: "std" ::
        (fs.map (·.basename)).flatMap fun base => [base ++ "Ptr", base ++ "List"] := by
    intro fs
    rw [allParameterTypes, List.flatMap_map]
  rw [htypes, htypes, map_basename_of_reordered h]

end FamilyDeclaration

/-- No rule looks at the order of variants. -/
theorem Admissible.reordered {ds es : List FamilyDeclaration} (hds : Admissible ds)
    (h : List.Forall₂ FamilyDeclaration.Reordered ds es) : Admissible es where
  identifier := by
    intro e he name hname
    obtain ⟨d, hd, hde⟩ := exists_of_forall₂_right h he
    exact hds.identifier d hd name (hde.mem_authoredNames hname)
  reserved_nodup :=
    (FamilyDeclaration.perm_allReservedNames_of_reordered h).nodup_iff.2 hds.reserved_nodup
  variants_ne_nil := by
    intro e he hnil
    obtain ⟨d, hd, hde⟩ := exists_of_forall₂_right h he
    refine hds.variants_ne_nil d hd ?_
    simpa [hnil] using hde.variants
  fields_nodup := by
    intro e he variant hvariant
    obtain ⟨d, hd, hde⟩ := exists_of_forall₂_right h he
    exact hds.fields_nodup d hd variant (hde.variants.mem_iff.1 hvariant)
  fields_notMem := by
    intro e he variant hvariant
    obtain ⟨d, hd, hde⟩ := exists_of_forall₂_right h he
    rw [FamilyDeclaration.allParameterTypes_of_reordered h]
    exact hds.fields_notMem d hd variant (hde.variants.mem_iff.1 hvariant)
  types := by
    intro i e he variant hvariant field hfield
    have hlt : i < ds.length := by
      rw [h.length_eq]
      exact (List.getElem?_eq_some_iff.1 he).1
    have hd : ds[i]? = some ds[i] := List.getElem?_eq_getElem hlt
    have hde := rel_of_forall₂ h hd he
    rw [hde.basename, List.map_take, FamilyDeclaration.map_basename_of_reordered h, ← List.map_take]
    exact hds.types i _ hd variant (hde.variants.mem_iff.1 hvariant) field hfield

/-! ## Catalogues -/

theorem isEqv_iff_forall₂ {α : Type} {p : α → α → Bool} {xs ys : List α} :
    xs.isEqv ys p = true ↔ List.Forall₂ (fun x y => p x y = true) xs ys := by
  induction xs generalizing ys with
  | nil => cases ys <;> simp [List.isEqv]
  | cons x xs ih => cases ys <;> simp [List.isEqv, ih]

theorem forall₂_iff_getElem? {α β : Type} {R : α → β → Prop} {xs : List α} {ys : List β} :
    List.Forall₂ R xs ys ↔
      xs.length = ys.length ∧ ∀ (i : Nat) x y, xs[i]? = some x → ys[i]? = some y → R x y := by
  constructor
  · intro h
    exact ⟨h.length_eq, fun i x y hx hy => rel_of_forall₂ h hx hy⟩
  · rintro ⟨hlength, h⟩
    refine List.forall₂_iff_get.2 ⟨hlength, ?_⟩
    intro i hx hy
    exact h i _ _ (List.getElem?_eq_getElem hx) (List.getElem?_eq_getElem hy)

theorem FamilyDeclaration.contract_eq_iff {d e : FamilyDeclaration} :
    d.contract = e.contract ↔ d.result = e.result := by
  cases he : e.result with
  | none => rw [(contract_eq_effect_iff e).2 he, contract_eq_effect_iff]
  | some result => rw [(contract_eq_value_iff e result).2 he, contract_eq_value_iff]

/-- The declarations say the same, each in its scope, but for the order of the variants. -/
structure FamilyDeclaration.Matches (scope other : Scope) (d e : FamilyDeclaration) : Prop where
  basename : d.basename = e.basename
  result : d.result = e.result
  render : d.render = e.render
  variants : (d.variants.map (VariantDeclaration.profile scope)).Perm
    (e.variants.map (VariantDeclaration.profile other))

theorem FamilyDeclaration.Reordered.matches_self {d e : FamilyDeclaration} (h : Reordered d e)
    (scope : Scope) : Matches scope scope d e where
  basename := h.basename.symm
  result := h.result.symm
  render := h.render.symm
  variants := h.variants.symm.map _

namespace Catalogue

variable {ds es : List FamilyDeclaration} {c c' : Catalogue}

theorem equivalent_iff_agrees (h : load ds = .ok c) (h' : load es = .ok c') :
    c.equivalent c' = true ↔ List.Forall₂ Family.Agrees c.families c'.families := by
  rw [equivalent, isEqv_iff_forall₂, forall₂_iff_getElem?, forall₂_iff_getElem?]
  refine and_congr_right fun _ => ?_
  have hfamilies : ∀ (i : Nat) (left right : Family), c.families[i]? = some left →
      c'.families[i]? = some right → (left.equivalent right = true ↔ left.Agrees right) :=
    fun i left right hl hr =>
      Family.equivalent_iff_agrees (variants_nodup_of_mem h (List.mem_of_getElem? hl))
        (variants_nodup_of_mem h' (List.mem_of_getElem? hr))
  constructor
  · intro hall i left right hl hr
    exact (hfamilies i left right hl hr).1 (hall i left right hl hr)
  · intro hall i left right hl hr
    exact (hfamilies i left right hl hr).2 (hall i left right hl hr)

/-- The families at a position agree exactly if their declarations do. -/
theorem agrees_iff_matches (hds : Admissible ds) (hes : Admissible es) {i : Nat}
    {d e : FamilyDeclaration} (hd : ds[i]? = some d) (he : es[i]? = some e) {left right : Family}
    (hl : d.Denotes ((ds.take i).map (·.basename)) left)
    (hr : e.Denotes ((es.take i).map (·.basename)) right) :
    left.Agrees right ↔
      d.Matches (FamilyDeclaration.scopeAt ds i d) (FamilyDeclaration.scopeAt es i e) e := by
  have hcontract : left.contract = right.contract ↔ d.result = e.result := by
    rw [hl.contract, hr.contract, FamilyDeclaration.contract_eq_iff]
  have hvariants : left.variants.Perm right.variants ↔
      (d.variants.map (VariantDeclaration.profile (FamilyDeclaration.scopeAt ds i d))).Perm
        (e.variants.map (VariantDeclaration.profile (FamilyDeclaration.scopeAt es i e))) := by
    rw [← List.map_perm_map_iff Variant.profile_injective, hl.map_profile hds hd,
      hr.map_profile hes he]
  constructor
  · intro h
    refine ⟨?_, hcontract.1 h.contract, ?_, hvariants.1 h.variants⟩
    · rw [← hl.basename, ← hr.basename, h.basename]
    · rw [← hl.rendersText, ← hr.rendersText, h.rendersText]
  · intro h
    refine ⟨?_, hcontract.2 h.result, ?_, hvariants.2 h.variants⟩
    · rw [hl.basename, hr.basename, h.basename]
    · rw [hl.rendersText, hr.rendersText, h.render]

theorem equivalent_iff_matches (h : load ds = .ok c) (h' : load es = .ok c') :
    c.equivalent c' = true ↔ ds.length = es.length ∧
      ∀ (i : Nat) (d e : FamilyDeclaration), ds[i]? = some d → es[i]? = some e →
        d.Matches (FamilyDeclaration.scopeAt ds i d) (FamilyDeclaration.scopeAt es i e) e := by
  obtain ⟨hds, hdenotes⟩ := load_eq_ok_iff.1 h
  obtain ⟨hes, hdenotes'⟩ := load_eq_ok_iff.1 h'
  have hlength : c.families.length = ds.length := by
    simpa using congrArg List.length hdenotes.map_basename
  have hlength' : c'.families.length = es.length := by
    simpa using congrArg List.length hdenotes'.map_basename
  rw [equivalent_iff_agrees h h', forall₂_iff_getElem?, hlength, hlength']
  refine and_congr_right fun _ => ?_
  constructor
  · intro hall i d e hd he
    obtain ⟨left, hleft, hl⟩ := hdenotes.exists_getElem? hd
    obtain ⟨right, hright, hr⟩ := hdenotes'.exists_getElem? he
    exact (agrees_iff_matches hds hes hd he hl hr).1 (hall i left right hleft hright)
  · intro hall i left right hleft hright
    obtain ⟨d, hd, hl⟩ := hdenotes.exists_declaration hleft
    obtain ⟨e, he, hr⟩ := hdenotes'.exists_declaration hright
    exact (agrees_iff_matches hds hes hd he hl hr).2 (hall i d e hd he)

/-- Declarations with their variants in another order load, to an equivalent catalogue. -/
theorem exists_load_of_reordered (h : load ds = .ok c)
    (hr : List.Forall₂ FamilyDeclaration.Reordered ds es) :
    ∃ c', load es = .ok c' ∧ c.equivalent c' = true := by
  obtain ⟨hds, -⟩ := load_eq_ok_iff.1 h
  have hes : Admissible es := hds.reordered hr
  obtain ⟨families, hfamilies⟩ : ∃ families, FamilyDeclaration.DenotesAll [] es families :=
    FamilyDeclaration.exists_denotesAll hes.types
  have hload : load es = .ok ⟨families⟩ := load_eq_ok_iff.2 ⟨hes, hfamilies⟩
  refine ⟨⟨families⟩, hload, ?_⟩
  rw [equivalent_iff_matches h hload]
  refine ⟨hr.length_eq, ?_⟩
  intro i d e hd he
  have hde := rel_of_forall₂ hr hd he
  -- the names of the families are the same, so the texts are read in the same scope
  have hscope : FamilyDeclaration.scopeAt es i e = FamilyDeclaration.scopeAt ds i d := by
    rw [FamilyDeclaration.scopeAt, FamilyDeclaration.scopeAt, hde.basename, List.map_take,
      List.map_take, FamilyDeclaration.map_basename_of_reordered hr]
  rw [hscope]
  exact hde.matches_self _

/-- Loaded catalogues are equivalent exactly if as many families were declared, in the same
order under the same names, results and flags, and with the same variants in any order, where a
variant is its name and the types and names of its fields in order. And if declarations load,
they do so with their variants in any other order, to an equivalent catalogue. -/
theorem equivalent_iff_declarations (h : load ds = .ok c) :
    (∀ es c', load es = .ok c' →
      (c.equivalent c' = true ↔ ds.length = es.length ∧
        ∀ (i : Nat) (d e : FamilyDeclaration), ds[i]? = some d → es[i]? = some e →
          d.Matches (FamilyDeclaration.scopeAt ds i d) (FamilyDeclaration.scopeAt es i e) e)) ∧
    ∀ es, List.Forall₂ FamilyDeclaration.Reordered ds es →
      ∃ c', load es = .ok c' ∧ c.equivalent c' = true :=
  ⟨fun _ _ h' => equivalent_iff_matches h h', fun _ hr => exists_load_of_reordered h hr⟩

/-! ## Two spellings of the expressions -/

/-- Literals and groups of expressions. -/
def literalsFirst : List FamilyDeclaration :=
  [{ basename := "Expr", result := some "Value",
     variants := [{ name := "Literal", fields := [{ type := "number", name := "value" }] },
       { name := "Group", fields := [{ type := "[ Expr ]", name := "parts" }] }] }]

/-- The same, with the groups in front and the type of their field written without blanks. -/
def groupsFirst : List FamilyDeclaration :=
  [{ basename := "Expr", result := some "Value",
     variants := [{ name := "Group", fields := [{ type := "[Expr]", name := "parts" }] },
       { name := "Literal", fields := [{ type := "number", name := "value" }] }] }]

theorem isOk_load_literalsFirst : (load literalsFirst).isOk = true := by
  decide +kernel

theorem isOk_load_groupsFirst : (load groupsFirst).isOk = true := by
  decide +kernel

theorem literalsFirst_matches_groupsFirst :
    literalsFirst.length = groupsFirst.length ∧
      ∀ (i : Nat) (d e : FamilyDeclaration), literalsFirst[i]? = some d → groupsFirst[i]? = some e →
        d.Matches (FamilyDeclaration.scopeAt literalsFirst i d)
          (FamilyDeclaration.scopeAt groupsFirst i e) e := by
  refine ⟨rfl, ?_⟩
  intro i d e hd he
  cases i with
  | zero =>
    obtain rfl := Option.some.inj hd
    obtain rfl := Option.some.inj he
    exact ⟨by decide, by decide, by decide, by decide +kernel⟩
  | succ i => simp [literalsFirst] at hd

/-- The two spellings are equivalent, and so is each of them to itself with the variants turned
around. -/
theorem literalsFirst_equivalent_groupsFirst :
    ∃ c c' c'', load literalsFirst = .ok c ∧ load groupsFirst = .ok c' ∧
      c.equivalent c' = true ∧
      load (literalsFirst.map fun d => { d with variants := d.variants.reverse }) = .ok c'' ∧
      c.equivalent c'' = true := by
  obtain ⟨c, hc, -⟩ := exists_load_of_isOk isOk_load_literalsFirst
  obtain ⟨c', hc', -⟩ := exists_load_of_isOk isOk_load_groupsFirst
  obtain ⟨hiff, hreordered⟩ := equivalent_iff_declarations hc
  obtain ⟨c'', hc'', hequivalent⟩ :=
    hreordered (literalsFirst.map fun d => { d with variants := d.variants.reverse })
      (.cons ⟨rfl, rfl, rfl, List.reverse_perm _⟩ .nil)
  exact ⟨c, c', c'', hc, hc', (hiff _ _ hc').2 literalsFirst_matches_groupsFirst, hc'', hequivalent⟩

end Catalogue

end TreeHeaders
