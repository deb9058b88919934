import TreeHeaders.Proofs.Equivalence
import TreeHeaders.Proofs.Inspection

set_option autoImplicit false

/-!
# The order of variants in headers

Equivalence of catalogues does not look at the order of variants, but headers are written in
that order. So equivalent catalogues have headers of the same families in files of the same
names, and their texts are the same exactly if the variants stand in the same order
(`Catalogue.equivalent_headers_eq_iff`).
-/

namespace TreeHeaders

/-- A list is determined by its elements and by the order of their names. -/
theorem eq_of_perm_of_map_eq {α : Type} {f : α → String} {xs ys : List α} (hp : xs.Perm ys)
    (hn : (ys.map f).Nodup) (hm : xs.map f = ys.map f) : xs = ys := by
  refine List.ext_getElem hp.length_eq ?_
  intro i hx hy
  have hmem : xs[i] ∈ ys := hp.mem_iff.1 (List.getElem_mem hx)
  have hname : f xs[i] = f ys[i] := by
    have hi := congrArg (·[i]?) hm
    simpa [hx, hy] using hi
  exact List.inj_on_of_nodup_map hn hmem (List.getElem_mem hy) hname

theorem Family.Agrees.eq_of_names {left right : Family} (h : left.Agrees right)
    (hn : (right.variants.map (·.name)).Nodup)
    (hm : left.variants.map (·.name) = right.variants.map (·.name)) : left = right := by
  have hvariants : left.variants = right.variants := eq_of_perm_of_map_eq h.variants hn hm
  obtain ⟨basename, contract, rendersText, variants⟩ := left
  obtain ⟨rfl, rfl, rfl, -⟩ := h
  exact congrArg (Family.mk _ _ _) hvariants

theorem FamilyDeclaration.DenotesAll.map_variantNames {earlier : List String}
    {ds : List FamilyDeclaration} {families : List Family} (h : DenotesAll earlier ds families) :
    (families.map fun family => family.variants.map (·.name)) =
      ds.map fun d => d.variants.map (·.name) := by
  induction h with
  | nil => rfl
  | cons head _ ih =>
    rw [List.map_cons, List.map_cons, ih, map_eq_of_forall₂ (fun _ _ hv => hv.name) head.variants]

namespace Catalogue

/-- The names of the variants of every family, in order. -/
def variantOrder (c : Catalogue) : List (List String) :=
  c.families.map fun family => family.variants.map (·.name)

variable {ds₁ ds₂ : List FamilyDeclaration} {c₁ c₂ : Catalogue}

/-- Equivalent catalogues with their variants in the same order are the same. -/
theorem eq_of_variantOrder_eq (h₁ : load ds₁ = .ok c₁) (h₂ : load ds₂ = .ok c₂)
    (heq : c₁.equivalent c₂ = true) (horder : c₁.variantOrder = c₂.variantOrder) : c₁ = c₂ := by
  obtain ⟨hlength, hagrees⟩ := forall₂_iff_getElem?.1 ((equivalent_iff_agrees h₁ h₂).1 heq)
  have hfamilies : c₁.families = c₂.families := by
    refine List.ext_getElem hlength ?_
    intro i hi₁ hi₂
    have hat := hagrees i _ _ (List.getElem?_eq_getElem hi₁) (List.getElem?_eq_getElem hi₂)
    refine hat.eq_of_names (variants_nodup_of_mem h₂ (List.getElem_mem hi₂)) ?_
    have hi := congrArg (·[i]?) horder
    simpa [variantOrder, hi₁, hi₂] using hi
  exact congrArg Catalogue.mk hfamilies

/-- Equivalent catalogues have headers for the same families, in files of the same names. -/
theorem fileNames_of_equivalent (h₁ : load ds₁ = .ok c₁) (h₂ : load ds₂ = .ok c₂)
    (heq : c₁.equivalent c₂ = true) (config : Config) :
    (c₁.headers config).map (fun header => (header.family, header.fileName)) =
      (c₂.headers config).map fun header => (header.family, header.fileName) := by
  rw [headers, headers, List.map_map, List.map_map]
  refine (map_eq_of_forall₂ ?_ ((equivalent_iff_agrees h₁ h₂).1 heq)).symm
  intro left right hagrees
  simp [Family.header, hagrees.basename]

/-- Equivalent catalogues have the same headers if their variants stand in the same order,
whatever the configuration is, and only then, if the configuration is an accepted one. In any
case their headers are for the same families, in files of the same names. -/
theorem equivalent_headers_eq_iff (h₁ : load ds₁ = .ok c₁) (h₂ : load ds₂ = .ok c₂)
    (heq : c₁.equivalent c₂ = true) :
    (c₁.variantOrder = c₂.variantOrder → ∀ config, c₁.headers config = c₂.headers config) ∧
      (∀ config : Config, config.Accepted → c₁.headers config = c₂.headers config →
        c₁.variantOrder = c₂.variantOrder) ∧
      ∀ config, (c₁.headers config).map (fun header => (header.family, header.fileName)) =
        (c₂.headers config).map fun header => (header.family, header.fileName) := by
  refine ⟨?_, ?_, fileNames_of_equivalent h₁ h₂ heq⟩
  · intro horder config
    rw [eq_of_variantOrder_eq h₁ h₂ heq horder]
  · intro config hc hheaders
    rw [eq_of_texts_eq h₁ h₂ hc (by rw [hheaders])]

/-! ## Variants turned around -/

/-- The variants stand in the order of their declarations. -/
theorem variantOrder_eq {ds : List FamilyDeclaration} {c : Catalogue} (h : load ds = .ok c) :
    c.variantOrder = ds.map fun d => d.variants.map (·.name) := by
  obtain ⟨-, hdenotes⟩ := load_eq_ok_iff.1 h
  exact hdenotes.map_variantNames

theorem accepted_default : Config.Accepted {} :=
  ⟨by decide, by decide⟩

/-- Literals and groups make a catalogue that is equivalent to that of groups and literals,
but the headers differ. -/
theorem equivalent_headers_differ :
    ∃ c c', load literalsFirst = .ok c ∧ load groupsFirst = .ok c' ∧ c.equivalent c' = true ∧
      c.headers {} ≠ c'.headers {} := by
  obtain ⟨c, hc, -⟩ := exists_load_of_isOk isOk_load_literalsFirst
  obtain ⟨c', hc', -⟩ := exists_load_of_isOk isOk_load_groupsFirst
  refine ⟨c, c', hc, hc', (equivalent_iff_matches hc hc').2 literalsFirst_matches_groupsFirst, ?_⟩
  intro hheaders
  have hsame : c = c' := eq_of_texts_eq hc hc' accepted_default (by rw [hheaders])
  have horder := congrArg variantOrder hsame
  rw [variantOrder_eq hc, variantOrder_eq hc'] at horder
  exact absurd horder (by decide)

/-- Turning the variants around gives an equivalent catalogue with a header in the same file,
but with another text. -/
theorem reversed_header_differs :
    ∃ c c', load literalsFirst = .ok c ∧
      load (literalsFirst.map fun d => { d with variants := d.variants.reverse }) = .ok c' ∧
      c.equivalent c' = true ∧ Config.Accepted {} ∧ c.headers {} ≠ c'.headers {} ∧
      (c.headers {}).map (fun header => (header.family, header.fileName)) =
        (c'.headers {}).map fun header => (header.family, header.fileName) := by
  obtain ⟨c, hc, -⟩ := exists_load_of_isOk isOk_load_literalsFirst
  obtain ⟨c', hc', heq⟩ := exists_load_of_reordered hc
    (.cons ⟨rfl, rfl, rfl, List.reverse_perm _⟩ .nil :
      List.Forall₂ FamilyDeclaration.Reordered literalsFirst
        (literalsFirst.map fun d => { d with variants := d.variants.reverse }))
  obtain ⟨-, honly, hfiles⟩ := equivalent_headers_eq_iff hc hc' heq
  refine ⟨c, c', hc, hc', heq, accepted_default, ?_, hfiles {}⟩
  intro hheaders
  have horder := honly {} accepted_default hheaders
  rw [variantOrder_eq hc, variantOrder_eq hc'] at horder
  exact absurd horder (by decide)

end Catalogue

end TreeHeaders
