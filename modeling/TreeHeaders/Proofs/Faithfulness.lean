import TreeHeaders.Catalogue.Lox
import TreeHeaders.Proofs.Acceptance

set_option autoImplicit false

/-!
# A loaded catalogue is what was declared

Nothing is dropped, merged or reordered: families, variants and fields stand where they were
declared, under the names they were given, and a field has the type that its text stands for and
no other. Since no two families of a catalogue and no two variants of a family have one name,
looking a name up finds the only thing of that name.
-/

namespace TreeHeaders

/-! ## Names and types are unambiguous -/

namespace Admissible

variable {ds : List FamilyDeclaration}

theorem reserved_names_nodup (h : Admissible ds) : (FamilyDeclaration.reserved ds).names.Nodup :=
  FamilyDeclaration.reserved_nodup_of_taken
    ((FamilyDeclaration.perm_reservedNames ds).nodup_iff.2 h.reserved_nodup)

theorem isNodeName_basename (h : Admissible ds) {d : FamilyDeclaration} (hd : d ∈ ds) :
    TypeText.IsNodeName d.basename := by
  have hid : isIdentifier d.basename = true :=
    h.identifier d hd _ (by simp [FamilyDeclaration.authoredNames])
  exact FamilyDeclaration.isNodeName_basename h.reserved_names_nodup hd hid

/-- The scope in which the fields of the family at a position are read. -/
theorem plain_scope (h : Admissible ds) {i : Nat} {d : FamilyDeclaration} (hd : ds[i]? = some d)
    (declared : List String) :
    Scope.Plain { own := d.basename, earlier := (ds.take i).map (·.basename), declared } := by
  refine ⟨h.isNodeName_basename (List.mem_of_getElem? hd), ?_, ?_⟩
  · intro name hname
    obtain ⟨e, he, rfl⟩ := List.mem_map.1 hname
    exact h.isNodeName_basename (List.mem_of_mem_take he)
  · intro hmem
    have hnodup := FamilyDeclaration.basenames_nodup h.reserved_names_nodup
    rw [← List.take_append_drop i ds, List.map_append, List.nodup_append] at hnodup
    refine hnodup.2.2 _ hmem _ ?_ rfl
    exact List.mem_map.2 ⟨d, List.mem_of_getElem? (i := 0) (by simpa using hd), rfl⟩

theorem flatMap_reservedNames_nodup (h : Admissible ds) :
    (ds.flatMap FamilyDeclaration.reservedNames).Nodup :=
  (List.nodup_cons.1 (List.nodup_cons.1 h.reserved_nodup).2).2

theorem variants_nodup (h : Admissible ds) {d : FamilyDeclaration} (hd : d ∈ ds) :
    (d.variants.map (·.name)).Nodup := by
  have hfamily : d.reservedNames.Nodup :=
    (List.nodup_flatMap.1 h.flatMap_reservedNames_nodup).1 d hd
  exact (List.nodup_append.1 hfamily).2.1

theorem lower_nodup (h : Admissible ds) : (ds.map fun d => Naming.lower d.basename).Nodup := by
  have hsub : (ds.map fun d => Naming.lower d.basename).Sublist
      (ds.flatMap FamilyDeclaration.reservedNames) := by
    rw [List.map_eq_flatMap]
    refine List.Sublist.flatMap_right ds fun d _ => List.singleton_sublist.2 ?_
    simp [FamilyDeclaration.reservedNames]
  exact hsub.nodup h.flatMap_reservedNames_nodup

end Admissible

/-- A text stands for at most one type. -/
theorem Scope.Plain.isSpelled_unique {scope : Scope} (hs : scope.Plain) {text : String}
    {left right : FieldType} (hl : left.IsSpelled scope.own scope.earlier (Text.trim text))
    (hr : right.IsSpelled scope.own scope.earlier (Text.trim text)) : left = right := by
  have hleft : scope.resolve text = .found left := (Scope.resolve_eq_found_iff hs).2 hl
  have hright : scope.resolve text = .found right := (Scope.resolve_eq_found_iff hs).2 hr
  rw [hleft] at hright
  exact Resolution.found.inj hright

/-! ## Faithfulness -/

namespace FamilyDeclaration

theorem contract_eq_value_iff (d : FamilyDeclaration) (result : String) :
    d.contract = .value result ↔ d.result = some result := by
  unfold contract
  cases d.result with
  | none => simp
  | some name => simp

theorem contract_eq_effect_iff (d : FamilyDeclaration) :
    d.contract = .effect ↔ d.result = none := by
  unfold contract
  cases d.result with
  | none => simp
  | some name => simp

end FamilyDeclaration

/-- The variant is the declared one in every part: its fields have the declared names in order,
and a field has a type exactly when its text stands for the type. -/
structure VariantDeclaration.RecordedAs (own : String) (earlier : List String)
    (d : VariantDeclaration) (variant : Variant) : Prop where
  name : variant.name = d.name
  field_names : variant.fields.map (·.name) = d.fields.map (·.name)
  field_types : ∀ (k : Nat) (f : FieldDeclaration) (field : Field), d.fields[k]? = some f →
    variant.fields[k]? = some field →
      ∀ type, field.type = type ↔ type.IsSpelled own earlier (Text.trim f.type)

/-- The family is the declared one in every part, where `earlier` are the names of the families
before it. -/
structure FamilyDeclaration.RecordedAs (earlier : List String) (d : FamilyDeclaration)
    (family : Family) : Prop where
  basename : family.basename = d.basename
  value_iff : ∀ result, family.contract = .value result ↔ d.result = some result
  effect_iff : family.contract = .effect ↔ d.result = none
  rendersText : family.rendersText = d.render
  variant_names : family.variants.map (·.name) = d.variants.map (·.name)
  variants : ∀ (j : Nat) (v : VariantDeclaration) (variant : Variant), d.variants[j]? = some v →
    family.variants[j]? = some variant → v.RecordedAs d.basename earlier variant

theorem VariantDeclaration.Denotes.recordedAs {scope : Scope} {d : VariantDeclaration}
    {variant : Variant} (h : d.Denotes scope.own scope.earlier variant) (hs : scope.Plain) :
    d.RecordedAs scope.own scope.earlier variant := by
  refine ⟨h.name, map_eq_of_forall₂ (fun _ _ hf => hf.name) h.fields, ?_⟩
  intro k f field hf hfield type
  have htype := (rel_of_forall₂ h.fields hf hfield).type
  constructor
  · intro he
    exact he ▸ htype
  · intro hspelled
    exact hs.isSpelled_unique htype hspelled

theorem FamilyDeclaration.Denotes.recordedAs {scope : Scope} {d : FamilyDeclaration}
    {family : Family} (h : d.Denotes scope.earlier family) (hs : scope.Plain)
    (hown : scope.own = d.basename) : d.RecordedAs scope.earlier family := by
  refine ⟨h.basename, ?_, ?_, h.rendersText, map_eq_of_forall₂ (fun _ _ hv => hv.name) h.variants,
    ?_⟩
  · intro result
    rw [h.contract, contract_eq_value_iff]
  · rw [h.contract, contract_eq_effect_iff]
  · intro j v variant hv hvariant
    have hdenotes := rel_of_forall₂ h.variants hv hvariant
    rw [← hown] at hdenotes ⊢
    exact hdenotes.recordedAs hs

/-- Every name in the family is an identifier. -/
structure Family.WellNamed (family : Family) : Prop where
  basename : isIdentifier family.basename = true
  result : ∀ result, family.contract = .value result → isIdentifier result = true
  variants : ∀ variant ∈ family.variants, isIdentifier variant.name = true
  fields : ∀ variant ∈ family.variants, ∀ field ∈ variant.fields, isIdentifier field.name = true
  foreign : ∀ variant ∈ family.variants, ∀ field ∈ variant.fields, ∀ other,
    field.type = .foreignChild other → isIdentifier other = true

namespace Catalogue

/-- A family of a loaded catalogue is denoted by an admissible declaration. -/
theorem exists_denotes_of_mem {ds : List FamilyDeclaration} {c : Catalogue} (h : load ds = .ok c)
    {family : Family} (hf : family ∈ c.families) :
    ∃ (i : Nat) (d : FamilyDeclaration), ds[i]? = some d ∧ c.families[i]? = some family ∧
      d.Denotes ((ds.take i).map (·.basename)) family := by
  obtain ⟨-, hdenotes⟩ := load_eq_ok_iff.1 h
  obtain ⟨i, hi⟩ := List.mem_iff_getElem?.1 hf
  obtain ⟨d, hd, hd'⟩ := hdenotes.exists_declaration hi
  exact ⟨i, d, hd, hi, hd'⟩

/-- Every name in a family of a loaded catalogue is an identifier. -/
theorem wellNamed_of_mem {ds : List FamilyDeclaration} {c : Catalogue} (h : load ds = .ok c)
    {family : Family} (hf : family ∈ c.families) : family.WellNamed := by
  obtain ⟨i, d, hd, -, hdenotes⟩ := exists_denotes_of_mem h hf
  obtain ⟨hadmissible, -⟩ := load_eq_ok_iff.1 h
  obtain ⟨hheads, hvariants, hfields⟩ :=
    FamilyDeclaration.forall_mem_authoredNames.1
      (hadmissible.identifier d (List.mem_of_getElem? hd))
  refine ⟨?_, ?_, ?_, ?_, ?_⟩
  · rw [hdenotes.basename]
    exact hheads _ (by simp [FamilyDeclaration.headNames])
  · intro result hresult
    rw [hdenotes.contract, FamilyDeclaration.contract_eq_value_iff] at hresult
    exact hheads _ (by simp [FamilyDeclaration.headNames, hresult])
  · intro variant hv
    obtain ⟨e, he, hvariant⟩ := exists_of_forall₂_right hdenotes.variants hv
    rw [hvariant.name]
    exact hvariants e he
  · intro variant hv field hfield
    obtain ⟨e, he, hvariant⟩ := exists_of_forall₂_right hdenotes.variants hv
    obtain ⟨f, hf, hdeclared⟩ := exists_of_forall₂_right hvariant.fields hfield
    rw [hdeclared.name]
    exact hfields e he f hf
  · intro variant hv field hfield other hother
    obtain ⟨e, -, hvariant⟩ := exists_of_forall₂_right hdenotes.variants hv
    obtain ⟨f, -, hdeclared⟩ := exists_of_forall₂_right hvariant.fields hfield
    have htype := hdeclared.type
    rw [hother] at htype
    obtain ⟨g, hg, hname⟩ := List.mem_map.1 htype.1
    rw [← hname]
    exact (hadmissible.isNodeName_basename (List.mem_of_mem_take hg)).identifier

theorem variants_nodup_of_mem {ds : List FamilyDeclaration} {c : Catalogue} (h : load ds = .ok c)
    {family : Family} (hf : family ∈ c.families) : (family.variants.map (·.name)).Nodup := by
  obtain ⟨i, d, hd, -, hdenotes⟩ := exists_denotes_of_mem h hf
  obtain ⟨hadmissible, -⟩ := load_eq_ok_iff.1 h
  rw [map_eq_of_forall₂ (fun _ _ hv => hv.name) hdenotes.variants]
  exact hadmissible.variants_nodup (List.mem_of_getElem? hd)

/-- No two families differ only in case. -/
theorem lower_basenames_nodup {ds : List FamilyDeclaration} {c : Catalogue}
    (h : load ds = .ok c) : (c.families.map fun family => Naming.lower family.basename).Nodup := by
  obtain ⟨hadmissible, hdenotes⟩ := load_eq_ok_iff.1 h
  have hlower : (c.families.map fun family => Naming.lower family.basename) =
      ds.map fun d => Naming.lower d.basename := by
    have hmap := congrArg (List.map Naming.lower) hdenotes.map_basename
    simpa [Function.comp_def] using hmap
  rw [hlower]
  exact hadmissible.lower_nodup

/-- Declarations that break no rule make a catalogue of as many families, called the same. -/
theorem exists_load_of_isOk {ds : List FamilyDeclaration} (h : (load ds).isOk = true) :
    ∃ c, load ds = .ok c ∧ c.families.map (·.basename) = ds.map (·.basename) := by
  cases hload : load ds with
  | error violation =>
    rw [hload] at h
    exact absurd h (by simp [Except.isOk, Except.toBool])
  | ok c =>
    obtain ⟨-, hdenotes⟩ := load_eq_ok_iff.1 hload
    exact ⟨c, rfl, hdenotes.map_basename⟩

/-- Declarations that break no rule make a catalogue with a family of every declared name. -/
theorem exists_family_of_isOk {ds : List FamilyDeclaration} (h : (load ds).isOk = true)
    {name : String} (hname : name ∈ ds.map (·.basename)) :
    ∃ c, load ds = .ok c ∧ ∃ family ∈ c.families, family.basename = name := by
  obtain ⟨c, hc, hbasenames⟩ := exists_load_of_isOk h
  rw [← hbasenames] at hname
  exact ⟨c, hc, List.mem_map.1 hname⟩

/-- Declarations that break no rule make a catalogue in which every declaration denotes the
family at its position. -/
theorem exists_denotes_of_isOk {ds : List FamilyDeclaration} (h : (load ds).isOk = true) {i : Nat}
    {d : FamilyDeclaration} (hd : ds[i]? = some d) :
    ∃ c, load ds = .ok c ∧ ∃ family, c.families[i]? = some family ∧
      d.Denotes ((ds.take i).map (·.basename)) family := by
  obtain ⟨c, hc, -⟩ := exists_load_of_isOk h
  obtain ⟨-, hdenotes⟩ := load_eq_ok_iff.1 hc
  exact ⟨c, hc, by simpa using hdenotes.exists_getElem? hd⟩

/-- A loaded catalogue holds the declared families in order, each as it was declared, and
looking up a family or a variant finds the only one of that name. -/
theorem load_records_declarations {ds : List FamilyDeclaration} {c : Catalogue}
    (h : load ds = .ok c) :
    c.families.map (·.basename) = ds.map (·.basename) ∧
      (∀ (i : Nat) (d : FamilyDeclaration) (family : Family), ds[i]? = some d →
        c.families[i]? = some family →
          d.RecordedAs ((ds.take i).map (·.basename)) family) ∧
      (c.families.map (·.basename)).Nodup ∧
      (∀ name family,
        c.family? name = some family ↔ family ∈ c.families ∧ family.basename = name) ∧
      (∀ family ∈ c.families, ∀ name variant,
        family.variant? name = some variant ↔
          variant ∈ family.variants ∧ variant.name = name) := by
  obtain ⟨hadmissible, hdenotes⟩ := load_eq_ok_iff.1 h
  have hbasenames := hdenotes.map_basename
  have hnodup : (c.families.map (·.basename)).Nodup := by
    rw [hbasenames]
    exact FamilyDeclaration.basenames_nodup hadmissible.reserved_names_nodup
  refine ⟨hbasenames, ?_, hnodup, ?_, ?_⟩
  · intro i d family hd hfamily
    obtain ⟨e, he, hdenotes⟩ := hdenotes.exists_declaration hfamily
    obtain rfl : d = e := Option.some.inj (hd.symm.trans he)
    exact hdenotes.recordedAs (hadmissible.plain_scope hd []) rfl
  · intro name family
    exact find?_eq_some_iff_of_nodup hnodup
  · intro family hfamily name variant
    obtain ⟨i, d, hd, -, hdenotes⟩ := exists_denotes_of_mem h hfamily
    have hvariants : (family.variants.map (·.name)).Nodup := by
      rw [map_eq_of_forall₂ (fun _ _ hv => hv.name) hdenotes.variants]
      exact hadmissible.variants_nodup (List.mem_of_getElem? hd)
    exact find?_eq_some_iff_of_nodup hvariants

end Catalogue

/-- The catalogue of Lox holds expressions and statements, and its expressions are the
ones that were declared. -/
theorem Lox.catalogue_records_declarations :
    ∃ c, Catalogue.load declarations = .ok c ∧
      c.families.map (·.basename) = ["Expr", "Stmt"] ∧
      ∃ family, c.family? "Expr" = some family ∧ family.contract = .value "ExprResult" ∧
        expressions.RecordedAs [] family := by
  obtain ⟨c, hc, -⟩ := Catalogue.exists_load_of_isOk catalogue_isOk
  obtain ⟨hbasenames, hrecorded, -, hlookup, -⟩ := Catalogue.load_records_declarations hc
  obtain ⟨family, hfamily⟩ : ∃ family, c.families[0]? = some family := by
    have hlength : c.families.length = declarations.length := by
      simpa using congrArg List.length hbasenames
    exact ⟨_, List.getElem?_eq_getElem (by rw [hlength]; decide)⟩
  have hexpr : expressions.RecordedAs [] family := hrecorded 0 expressions family rfl hfamily
  refine ⟨c, hc, hbasenames, family, ?_, ?_, hexpr⟩
  · exact (hlookup "Expr" family).2 ⟨List.mem_of_getElem? hfamily, hexpr.basename⟩
  · exact (hexpr.value_iff "ExprResult").2 rfl

end TreeHeaders
