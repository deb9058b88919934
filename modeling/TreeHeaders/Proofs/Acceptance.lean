import TreeHeaders.Proofs.Loading
import Mathlib.Data.List.Flatten
import Mathlib.Data.List.Nodup
import Mathlib.Data.List.Perm.Basic

set_option autoImplicit false

/-!
# Which declarations make a catalogue

The rules for a list of declarations, each on its own and without an order in which they are
checked: `Admissible`. The main statement is that loading succeeds exactly for the admissible
lists, and then with the families that the declarations denote (`Catalogue.load_eq_ok_iff`).

The rules compare the names of all families with one another. The loader compares each name with
those taken before it, in two passes; at the end of both the registry holds the names that the
rules speak of (`perm_reservedNames`).
-/

namespace TreeHeaders

/-! ## The rules -/

namespace FamilyDeclaration

/-- All names that the author of the family has chosen. -/
def authoredNames (d : FamilyDeclaration) : List String :=
  d.basename :: d.result.toList ++
    d.variants.flatMap fun variant => variant.name :: variant.fields.map (·.name)

/-- The names that the family takes up in the namespace of the nodes. -/
def reservedNames (d : FamilyDeclaration) : List String :=
  [d.basename, d.basename ++ "Ptr", d.basename ++ "List", Naming.lower d.basename] ++
    d.result.toList ++ d.variants.map (·.name)

/-- The names that all families take up, beside those that are taken anyway. -/
def allReservedNames (ds : List FamilyDeclaration) : List String :=
  "Token" :: "std" :: ds.flatMap reservedNames

/-- The names that occur in the types of constructor parameters. -/
def allParameterTypes (ds : List FamilyDeclaration) : List String :=
  "Token" :: "std" :: ds.flatMap fun d => [d.basename ++ "Ptr", d.basename ++ "List"]

end FamilyDeclaration

/-- The rules that a list of declarations has to meet. -/
structure Admissible (ds : List FamilyDeclaration) : Prop where
  /-- every authored name is an identifier -/
  identifier : ∀ d ∈ ds, ∀ name ∈ d.authoredNames, isIdentifier name = true
  /-- no name is taken up twice, by one family or by two -/
  reserved_nodup : (FamilyDeclaration.allReservedNames ds).Nodup
  /-- every family has a variant -/
  variants_ne_nil : ∀ d ∈ ds, d.variants ≠ []
  /-- the fields of a variant have different names -/
  fields_nodup : ∀ d ∈ ds, ∀ variant ∈ d.variants, (variant.fields.map (·.name)).Nodup
  /-- no field is called like a type of a parameter, whichever family that belongs to -/
  fields_notMem : ∀ d ∈ ds, ∀ variant ∈ d.variants, ∀ field ∈ variant.fields,
    field.name ∉ FamilyDeclaration.allParameterTypes ds
  /-- every type text stands for a type: a primitive, the token type, the own family or a list
  of it, or a family at a smaller position -/
  types : ∀ i d, ds[i]? = some d → ∀ variant ∈ d.variants, ∀ field ∈ variant.fields,
    ∃ type : FieldType,
      type.IsSpelled d.basename ((ds.take i).map (·.basename)) (Text.trim field.type)

/-! ## The registry at the end of a pass -/

namespace FamilyDeclaration

/-- The registry after the first pass. -/
def reserved (ds : List FamilyDeclaration) : Registry :=
  (ds.flatMap claims).reverse ++ Registry.initial

/-- The registry after both passes. -/
def taken (ds : List FamilyDeclaration) : Registry :=
  (ds.flatMap variantClaims).reverse ++ reserved ds

theorem reservedNames_eq (d : FamilyDeclaration) :
    d.reservedNames = Registry.names d.claims ++ Registry.names d.variantClaims := by
  simp [reservedNames, claims, variantClaims, VariantDeclaration.claim, Registry.names,
    Naming.handle, Naming.list, Naming.visitorNamespace, Function.comp_def]

/-- The names taken at the end of both passes are those that the rules speak of. -/
theorem perm_reservedNames (ds : List FamilyDeclaration) :
    (taken ds).names.Perm (allReservedNames ds) := by
  have hflat : ∀ f : FamilyDeclaration → List (String × Owner),
      Registry.names (ds.flatMap f).reverse |>.Perm (ds.flatMap fun d => Registry.names (f d)) := by
    intro f
    rw [Registry.names, List.map_reverse, List.map_flatMap]
    exact List.reverse_perm _
  have hinitial : allReservedNames ds =
      Registry.initial.names ++
        ds.flatMap fun d => Registry.names d.claims ++ Registry.names d.variantClaims := by
    rw [allReservedNames, funext reservedNames_eq]
    rfl
  rw [hinitial, taken, reserved, Registry.names_append, Registry.names_append]
  refine List.perm_append_comm.trans ?_
  refine (List.perm_append_comm.append_right _).trans ?_
  rw [List.append_assoc]
  refine List.Perm.append_left _ ?_
  exact ((hflat claims).append (hflat variantClaims)).trans (List.flatMap_append_perm ds _ _)

theorem parameterTypes_claims (d : FamilyDeclaration) :
    Registry.parameterTypes d.claims = [d.basename ++ "Ptr", d.basename ++ "List"] := by
  cases hr : d.result with
  | none => simp [Registry.parameterTypes, claims, hr, Owner.inParameters, Naming.handle,
      Naming.list]
  | some result => simp [Registry.parameterTypes, claims, hr, Owner.inParameters, Naming.handle,
      Naming.list]

/-- The first pass alone finds all types of parameters. -/
theorem mem_parameterTypes_reserved {ds : List FamilyDeclaration} {name : String} :
    name ∈ (reserved ds).parameterTypes ↔ name ∈ allParameterTypes ds := by
  have hsplit : name ∈ (reserved ds).parameterTypes ↔
      (∃ d ∈ ds, name ∈ Registry.parameterTypes d.claims) ∨
        name ∈ Registry.parameterTypes Registry.initial := by
    simp only [reserved, Registry.parameterTypes, List.filter_append, List.map_append,
      List.mem_append, List.mem_map, List.mem_filter, List.mem_reverse, List.mem_flatMap]
    constructor
    · rintro (⟨claim, ⟨⟨d, hd, hmem⟩, hp⟩, he⟩ | h)
      · exact Or.inl ⟨d, hd, claim, ⟨hmem, hp⟩, he⟩
      · exact Or.inr h
    · rintro (⟨d, hd, claim, ⟨hmem, hp⟩, he⟩ | h)
      · exact Or.inl ⟨claim, ⟨⟨d, hd, hmem⟩, hp⟩, he⟩
      · exact Or.inr h
  have hinitial : Registry.parameterTypes Registry.initial = ["Token", "std"] := by decide
  simp only [hsplit, hinitial, parameterTypes_claims, allParameterTypes, List.mem_cons,
    List.mem_flatMap, List.not_mem_nil, or_false]
  rw [or_comm, or_assoc]

end FamilyDeclaration

/-! ## Names of families -/

theorem Naming.lower_keyword (p : Primitive) : Naming.lower p.keyword = p.keyword := by
  cases p <;> decide

namespace FamilyDeclaration

theorem reserved_nodup_of_taken {ds : List FamilyDeclaration} (h : (taken ds).names.Nodup) :
    (reserved ds).names.Nodup := by
  rw [taken, Registry.names_append] at h
  exact (List.nodup_append.1 h).2.1

/-- The names that the first pass takes for one family. -/
theorem claims_nodup {ds : List FamilyDeclaration} (h : (reserved ds).names.Nodup)
    {d : FamilyDeclaration} (hd : d ∈ ds) :
    (Registry.names d.claims).Nodup ∧ tokenName ∉ Registry.names d.claims := by
  rw [reserved, Registry.names_append, Registry.names, List.map_reverse, List.map_flatMap,
    List.nodup_append, List.nodup_reverse, List.nodup_flatMap] at h
  obtain ⟨⟨hfamily, -⟩, -, hinitial⟩ := h
  refine ⟨hfamily d hd, ?_⟩
  intro hmem
  refine hinitial tokenName ?_ tokenName (by decide) rfl
  exact List.mem_reverse.2 (List.mem_flatMap.2 ⟨d, hd, hmem⟩)

/-- A family is never called like a primitive or like the token type: its visitor namespace
would have the name of the family itself, or the name would be taken. -/
theorem isNodeName_basename {ds : List FamilyDeclaration} (h : (reserved ds).names.Nodup)
    {d : FamilyDeclaration} (hd : d ∈ ds) (hid : isIdentifier d.basename = true) :
    TypeText.IsNodeName d.basename := by
  obtain ⟨hnodup, htoken⟩ := claims_nodup h hd
  refine ⟨hid, ?_, ?_⟩
  · intro p hp
    have hlower : d.basename ≠ Naming.lower d.basename := by
      intro he
      simp [claims, Registry.names, Naming.visitorNamespace, ← he] at hnodup
    exact hlower (by rw [hp, Naming.lower_keyword])
  · intro he
    exact htoken (he ▸ d.basename_mem_names_claims)

theorem basenames_nodup {ds : List FamilyDeclaration} (h : (reserved ds).names.Nodup) :
    (ds.map (·.basename)).Nodup := by
  have hclaims : (ds.flatMap fun d => Registry.names d.claims).Nodup := by
    rw [reserved, Registry.names_append, Registry.names, List.map_reverse, List.map_flatMap] at h
    exact List.nodup_reverse.1 (List.nodup_append.1 h).1
  have hsub : (ds.map (·.basename)).Sublist (ds.flatMap fun d => Registry.names d.claims) := by
    rw [List.map_eq_flatMap]
    refine List.Sublist.flatMap_right ds fun d _ => ?_
    exact List.singleton_sublist.2 d.basename_mem_names_claims
  exact hsub.nodup hclaims

end FamilyDeclaration

/-! ## Loading and the rules -/

theorem VariantDeclaration.constructible_congr {types types' : List String}
    (h : ∀ name, name ∈ types ↔ name ∈ types') (d : VariantDeclaration) :
    d.Constructible types ↔ d.Constructible types' := by
  constructor
  · intro hc
    exact ⟨hc.identifier, fun e he hm => hc.notMem_types e he ((h _).2 hm), hc.nodup⟩
  · intro hc
    exact ⟨hc.identifier, fun e he hm => hc.notMem_types e he ((h _).1 hm), hc.nodup⟩

theorem FamilyDeclaration.constructible_congr {types types' : List String}
    (h : ∀ name, name ∈ types ↔ name ∈ types') (d : FamilyDeclaration) :
    d.Constructible types ↔ d.Constructible types' := by
  have hcongr := VariantDeclaration.constructible_congr h
  constructor
  · intro hc
    exact ⟨hc.variants_ne_nil, hc.identifier, fun v hv => (hcongr v).1 (hc.variants v hv)⟩
  · intro hc
    exact ⟨hc.variants_ne_nil, hc.identifier, fun v hv => (hcongr v).2 (hc.variants v hv)⟩

theorem FamilyDeclaration.forall_mem_authoredNames {d : FamilyDeclaration} {P : String → Prop} :
    (∀ name ∈ d.authoredNames, P name) ↔
      (∀ name ∈ d.headNames, P name) ∧ (∀ variant ∈ d.variants, P variant.name) ∧
        ∀ variant ∈ d.variants, ∀ field ∈ variant.fields, P field.name := by
  have hsplit : d.authoredNames = d.headNames ++
      d.variants.flatMap fun variant => variant.name :: variant.fields.map (·.name) := rfl
  rw [hsplit, List.forall_mem_append, ← forall₂_and]
  refine and_congr_right fun _ => ?_
  simp only [List.mem_flatMap, List.mem_cons, List.mem_map]
  constructor
  · intro h variant hv
    refine ⟨h _ ⟨variant, hv, Or.inl rfl⟩, ?_⟩
    intro field hf
    exact h _ ⟨variant, hv, Or.inr ⟨field, hf, rfl⟩⟩
  · rintro h name ⟨variant, hv, rfl | ⟨field, hf, rfl⟩⟩
    · exact (h variant hv).1
    · exact (h variant hv).2 field hf

namespace Catalogue

open FamilyDeclaration

/-- Both passes, put together. -/
theorem load_eq_ok_iff_passes {ds : List FamilyDeclaration} {c : Catalogue} :
    load ds = .ok c ↔
      (∀ d ∈ ds, ∀ name ∈ d.headNames, isIdentifier name = true) ∧ (taken ds).names.Nodup ∧
        (∀ d ∈ ds, d.Constructible (reserved ds).parameterTypes) ∧ DenotesAll [] ds c.families := by
  have hinitial : Registry.initial.names.Nodup := by decide
  have hfirst : ∀ result, reserveAll [] Registry.initial ds = .ok result ↔
      (∀ d ∈ ds, ∀ name ∈ d.headNames, isIdentifier name = true) ∧
        result = reserved ds ∧ result.names.Nodup := fun result =>
    reserveAll_eq_ok_iff hinitial (fun _ h => absurd h List.not_mem_nil)
  -- the second pass needs names of families that can be told from keywords; the
  -- first one saw to it
  have hsecond : ∀ families, (∀ d ∈ ds, ∀ name ∈ d.headNames, isIdentifier name = true) →
      (reserved ds).names.Nodup →
      (loadAll (ds.map (·.basename)) [] (reserved ds) ds = .ok families ↔
        (∀ d ∈ ds, d.Constructible (reserved ds).parameterTypes) ∧ (taken ds).names.Nodup ∧
          DenotesAll [] ds families) := by
    intro families hheads hreserved
    have hnames : ∀ name ∈ [] ++ ds.map (·.basename), TypeText.IsNodeName name := by
      intro name hname
      obtain ⟨d, hd, rfl⟩ := List.mem_map.1 hname
      exact isNodeName_basename hreserved hd (hheads d hd _ (by simp [headNames]))
    exact loadAll_eq_ok_iff hreserved hnames (basenames_nodup hreserved)
  obtain ⟨families⟩ := c
  simp only [load, bind_eq_ok_iff, hfirst, Except.ok.injEq, Catalogue.mk.injEq]
  constructor
  · rintro ⟨_, ⟨hheads, rfl, hreserved⟩, _, hload, rfl⟩
    obtain ⟨hc, htaken, hdenotes⟩ := (hsecond _ hheads hreserved).1 hload
    exact ⟨hheads, htaken, hc, hdenotes⟩
  · rintro ⟨hheads, htaken, hc, hdenotes⟩
    have hreserved := reserved_nodup_of_taken htaken
    exact ⟨_, ⟨hheads, rfl, hreserved⟩, _,
      (hsecond _ hheads hreserved).2 ⟨hc, htaken, hdenotes⟩, rfl⟩

/-- Loading succeeds for the admissible declarations, with the families that they denote. -/
theorem load_eq_ok_iff {ds : List FamilyDeclaration} {c : Catalogue} :
    load ds = .ok c ↔ Admissible ds ∧ DenotesAll [] ds c.families := by
  have hcongr : ∀ d : FamilyDeclaration, d.Constructible (reserved ds).parameterTypes ↔
      d.Constructible (allParameterTypes ds) :=
    FamilyDeclaration.constructible_congr fun _ => mem_parameterTypes_reserved
  simp only [load_eq_ok_iff_passes, hcongr, (perm_reservedNames ds).nodup_iff]
  constructor
  · rintro ⟨hheads, hnodup, hc, hdenotes⟩
    refine ⟨⟨?_, hnodup, ?_, ?_, ?_, ?_⟩, hdenotes⟩
    · intro d hd
      exact forall_mem_authoredNames.2 ⟨hheads d hd, (hc d hd).identifier,
        fun v hv => ((hc d hd).variants v hv).identifier⟩
    · exact fun d hd => (hc d hd).variants_ne_nil
    · exact fun d hd v hv => ((hc d hd).variants v hv).nodup
    · exact fun d hd v hv => ((hc d hd).variants v hv).notMem_types
    · intro i d hi variant hv field hf
      obtain ⟨family, -, hd⟩ := hdenotes.exists_getElem? hi
      rw [List.nil_append] at hd
      exact hd.exists_isSpelled hv hf
  · rintro ⟨h, hdenotes⟩
    refine ⟨?_, h.reserved_nodup, ?_, hdenotes⟩
    · exact fun d hd => (forall_mem_authoredNames.1 (h.identifier d hd)).1
    · intro d hd
      obtain ⟨-, hvariants, hfields⟩ := forall_mem_authoredNames.1 (h.identifier d hd)
      exact ⟨h.variants_ne_nil d hd, hvariants, fun v hv =>
        ⟨hfields v hv, h.fields_notMem d hd v hv, h.fields_nodup d hd v hv⟩⟩

/-- A list of declarations makes a catalogue exactly when it is admissible. -/
theorem exists_load_eq_ok_iff_admissible (ds : List FamilyDeclaration) :
    (∃ c, load ds = .ok c) ↔ Admissible ds := by
  constructor
  · rintro ⟨c, hc⟩
    exact (load_eq_ok_iff.1 hc).1
  · intro h
    obtain ⟨families, hfamilies⟩ : ∃ families, DenotesAll [] ds families :=
      exists_denotesAll h.types
    exact ⟨⟨families⟩, load_eq_ok_iff.2 ⟨h, hfamilies⟩⟩

end Catalogue

end TreeHeaders
