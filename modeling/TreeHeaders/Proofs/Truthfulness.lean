import TreeHeaders.Proofs.Faithfulness
import TreeHeaders.Proofs.Refusal
import Mathlib.Data.List.Duplicate

set_option autoImplicit false

/-!
# Violations are true

What a violation says about a list of declarations, read off its words alone:
`Violation.IsTrue`. The main statement is that loading never reports a violation that is not
true, and that no violation is true of declarations that load
(`Catalogue.reported_violation_isTrue`).

The delicate violation is a clash. It names the owner that took the name first, which the loader
looks up among the names taken so far. That owner exists in the declarations, and is never the
thing for which the name was just claimed.
-/

namespace TreeHeaders

/-! ## What a violation says -/

/-- The names that a family generates, and what they stand for. -/
inductive FamilyDeclaration.Generates (d : FamilyDeclaration) : String → Owner → Prop where
  | basename : Generates d d.basename (.family d.basename)
  | handle : Generates d (d.basename ++ "Ptr") (.handle d.basename)
  | list : Generates d (d.basename ++ "List") (.list d.basename)
  | visitorNamespace :
    Generates d (Naming.lower d.basename) (.visitorNamespace d.basename)
  | result {name : String} (h : d.result = some name) : Generates d name (.result d.basename)
  | variant {variant : VariantDeclaration} (h : variant ∈ d.variants) :
    Generates d variant.name (.variant d.basename variant.name)

/-- The owner has the name: it is there before any family, or a family generates it. -/
inductive Owner.Has (ds : List FamilyDeclaration) : String → Owner → Prop where
  | tokenType : Has ds "Token" .tokenType
  | standardLibrary : Has ds "std" .standardLibrary
  | generated {d : FamilyDeclaration} {name : String} {owner : Owner} (hd : d ∈ ds)
    (h : d.Generates name owner) : Has ds name owner

/-- A variant of the family has a field of this name with this type, as written. -/
def FamilyDeclaration.Declares (d : FamilyDeclaration) (variant field type : String) : Prop :=
  ∃ e ∈ d.variants, e.name = variant ∧ ∃ f ∈ e.fields, f.name = field ∧ f.type = type

/-- The declarations break the rule in the way that the violation says. -/
def Violation.IsTrue (ds : List FamilyDeclaration) : Violation → Prop
  | .emptyFamily family => ∃ d ∈ ds, d.basename = family ∧ d.variants = []
  | .duplicateFamily family => List.Duplicate family (ds.map (·.basename))
  | .duplicateVariant family variant =>
    ∃ d ∈ ds, d.basename = family ∧ List.Duplicate variant (d.variants.map (·.name))
  | .duplicateField family variant field =>
    ∃ d ∈ ds, d.basename = family ∧ ∃ e ∈ d.variants, e.name = variant ∧
      List.Duplicate field (e.fields.map (·.name))
  -- the name belongs to two different things; a field is different from whatever has an owner
  | .nameClash family name previous =>
    ∃ d ∈ ds, d.basename = family ∧ previous.describe ≠ "" ∧ previous.Has ds name ∧
      ((∃ owner, d.Generates name owner ∧ owner ≠ previous) ∨
        previous.inParameters = true ∧
          ∃ e ∈ d.variants, ∃ f ∈ e.fields, f.name = name)
  -- the text stands for no type, even if every family could be referred to
  | .unknownType family variant field type =>
    ∃ d ∈ ds, d.basename = family ∧ d.Declares variant field type ∧
      ∀ t : FieldType, ¬ t.IsSpelled family (ds.map (·.basename)) (Text.trim type)
  | .forwardReference family variant field referenced =>
    ∃ (i j : Nat) (d : FamilyDeclaration) (type : String), i < j ∧ ds[i]? = some d ∧
      d.basename = family ∧ d.Declares variant field type ∧ Text.trim type = referenced ∧
      (ds.map (·.basename))[j]? = some referenced
  | .invalidIdentifier family name =>
    ∃ d ∈ ds, d.basename = family ∧ name ∈ d.authoredNames ∧ isIdentifier name = false

/-! ## Owners -/

namespace Owner

theorem describe_ne_empty (owner : Owner) : owner.describe ≠ "" := by
  have hend : ∀ text : String, text ++ "`" ≠ "" := by
    intro text h
    exact absurd (String.append_eq_empty_iff.1 h).2 (by decide)
  cases owner with
  | tokenType => decide
  | standardLibrary => decide
  | _ => exact hend _

/-- The family that the owner belongs to. -/
def family? : Owner → Option String
  | .tokenType | .standardLibrary => none
  | .family base | .handle base | .list base | .visitorNamespace base | .result base
  | .variant base _ => some base

end Owner

namespace FamilyDeclaration

theorem Generates.family?_eq {d : FamilyDeclaration} {name : String} {owner : Owner}
    (h : d.Generates name owner) : owner.family? = some d.basename := by
  cases h <;> rfl

theorem generates_iff {d : FamilyDeclaration} {name : String} {owner : Owner} :
    d.Generates name owner ↔ (name, owner) ∈ d.claims ∨ (name, owner) ∈ d.variantClaims := by
  constructor
  · intro h
    cases h with
    | basename => simp [claims]
    | handle => simp [claims, Naming.handle]
    | list => simp [claims, Naming.list]
    | visitorNamespace => simp [claims, Naming.visitorNamespace]
    | result h => simp [claims, h]
    | variant h =>
      right
      exact List.mem_map.2 ⟨_, h, rfl⟩
  · rintro (h | h)
    · simp only [claims, List.mem_append, List.mem_cons, Prod.mk.injEq, List.not_mem_nil, or_false,
        List.mem_map, Option.mem_toList] at h
      rcases h with (⟨rfl, rfl⟩ | ⟨rfl, rfl⟩ | ⟨rfl, rfl⟩ | ⟨rfl, rfl⟩) | ⟨_, hresult, rfl, rfl⟩
      · exact .basename
      · exact .handle
      · exact .list
      · exact .visitorNamespace
      · exact .result hresult
    · obtain ⟨variant, hv, he⟩ := List.mem_map.1 h
      obtain ⟨rfl, rfl⟩ := Prod.mk.inj he
      exact .variant hv

/-- The first pass takes a name for each thing once. -/
theorem owners_claims_nodup (d : FamilyDeclaration) : (d.claims.map (·.2)).Nodup := by
  cases hr : d.result with
  | none => simp [claims, hr]
  | some result => simp [claims, hr]

/-- The first pass takes no name for a variant. -/
theorem variant_notMem_claims {d : FamilyDeclaration} {name family variant : String} :
    (name, .variant family variant) ∉ d.claims := by
  simp [claims]

theorem mem_taken_iff {ds : List FamilyDeclaration} {name : String} {owner : Owner} :
    (name, owner) ∈ taken ds ↔ owner.Has ds name := by
  simp only [taken, reserved, List.mem_append, List.mem_reverse, List.mem_flatMap]
  constructor
  · rintro (⟨d, hd, h⟩ | ⟨d, hd, h⟩ | h)
    · exact .generated hd (generates_iff.2 (Or.inr h))
    · exact .generated hd (generates_iff.2 (Or.inl h))
    · simp only [Registry.initial, List.mem_cons, Prod.mk.injEq, List.not_mem_nil, or_false] at h
      rcases h with ⟨rfl, rfl⟩ | ⟨rfl, rfl⟩
      · exact .tokenType
      · exact .standardLibrary
  · intro h
    cases h with
    | tokenType => exact Or.inr (Or.inr (by decide))
    | standardLibrary => exact Or.inr (Or.inr (by decide))
    | generated hd h =>
      rcases generates_iff.1 h with h | h
      · exact Or.inr (Or.inl ⟨_, hd, h⟩)
      · exact Or.inl ⟨_, hd, h⟩

end FamilyDeclaration

theorem duplicate_of_mem_before {α : Type} {x : α} {before after : List α} (h : x ∈ before) :
    List.Duplicate x (before ++ x :: after) := by
  rw [List.duplicate_iff_sublist]
  exact (List.singleton_sublist.2 h).append (List.singleton_sublist.2 List.mem_cons_self)

/-! ## Texts without a type -/

namespace Scope

theorem resolve_eq_later {scope : Scope} {text family : String}
    (h : scope.resolve text = .later family) :
    Text.trim text = family ∧ family ≠ scope.own ∧ family ∉ scope.earlier ∧
      family ∈ scope.declared := by
  rw [resolve] at h
  cases hparse : TypeText.parse text with
  | primitive p => simp [hparse, resolveText] at h
  | token => simp [hparse, resolveText] at h
  | unknown => simp [hparse, resolveText] at h
  | list name =>
    simp only [hparse, resolveText] at h
    split at h <;> exact absurd h (by simp)
  | node name =>
    have hreads := (TypeText.parse_eq_iff_reads (by simp)).1 hparse
    have htrim : Text.trim text = name := (TypeText.reads_node_iff.1 hreads).1
    simp only [hparse, resolveText] at h
    split at h
    · exact absurd h (by simp)
    · next hown =>
      split at h
      · exact absurd h (by simp)
      · next hearlier =>
        split at h
        · next hdeclared =>
          obtain rfl := Resolution.later.inj h
          exact ⟨htrim, hown, hearlier, hdeclared⟩
        · exact absurd h (by simp)

/-- What cannot be resolved is no type, wherever the families stand. -/
theorem not_isSpelled_of_unknown {scope : Scope} {text : String} (hs : scope.Plain)
    (hdeclared : ∀ name ∈ scope.declared, TypeText.IsNodeName name)
    (h : scope.resolve text = .unknown) (type : FieldType) :
    ¬ type.IsSpelled scope.own scope.declared (Text.trim text) := by
  intro hspelled
  by_cases hearlier : type.IsSpelled scope.own scope.earlier (Text.trim text)
  · rw [(resolve_eq_found_iff hs).2 hearlier] at h
    exact absurd h (by simp)
  · cases type with
    | primitive p => exact hearlier hspelled
    | token => exact hearlier hspelled
    | child => exact hearlier hspelled
    | children => exact hearlier hspelled
    | foreignChild name =>
      obtain ⟨hmem, htext⟩ := hspelled
      have hreads := TypeText.Reads.node (hdeclared name hmem)
      rw [resolve, TypeText.parse, htext, hreads.ofTrimmed_eq, resolveText] at h
      split at h
      · exact absurd h (by simp)
      · split at h <;> exact absurd h (by simp)

end Scope

/-! ## Reported violations are true -/

namespace FamilyDeclaration

variable {before after : List FamilyDeclaration} {d : FamilyDeclaration} {v : Violation}

/-- The families before one are families. -/
theorem has_of_mem_claims {ds : List FamilyDeclaration} (hsub : ∀ e ∈ before, e ∈ ds)
    {name : String} {owner : Owner}
    (h : (name, owner) ∈ (before.flatMap claims).reverse ++ Registry.initial) :
    owner.Has ds name := by
  apply mem_taken_iff.1
  rcases List.mem_append.1 h with h | h
  · obtain ⟨e, he, hmem⟩ := List.mem_flatMap.1 (List.mem_reverse.1 h)
    exact mem_taken_iff.2 (.generated (hsub e he) (generates_iff.2 (Or.inl hmem)))
  · exact List.mem_append_right _ (List.mem_append_right _ h)

theorem NotReserved.isTrue
    (h : d.NotReserved (before.map (·.basename))
      ((before.flatMap claims).reverse ++ Registry.initial) v) :
    v.IsTrue (before ++ d :: after) := by
  have hd : d ∈ before ++ d :: after := by simp
  cases h with
  | identifier hname hid =>
    refine ⟨d, hd, rfl, ?_, hid⟩
    rw [authoredNames]
    exact List.mem_append_left _ hname
  | duplicate hmem =>
    show List.Duplicate d.basename ((before ++ d :: after).map (·.basename))
    rw [List.map_append, List.map_cons]
    exact duplicate_of_mem_before hmem
  | @clash cbefore cafter name owner previous hearlier hsplit hmem =>
    have hgenerates : ∀ claim ∈ d.claims, d.Generates claim.1 claim.2 := fun _ h =>
      generates_iff.2 (Or.inl h)
    have howner : d.Generates name owner := hgenerates (name, owner) (by simp [hsplit])
    refine ⟨d, hd, rfl, previous.describe_ne_empty, ?_, Or.inl ⟨owner, howner, ?_⟩⟩
    · rcases List.mem_append.1 hmem with hmem | hmem
      · have hclaim : (name, previous) ∈ d.claims := by
          rw [hsplit]
          exact List.mem_append_left _ (List.mem_reverse.1 hmem)
        exact .generated hd (hgenerates _ hclaim)
      · exact has_of_mem_claims (fun e he => List.mem_append_left _ he) hmem
    · rintro rfl
      rcases List.mem_append.1 hmem with hmem | hmem
      · -- the family itself has taken no other name for the same thing
        have hnodup := d.owners_claims_nodup
        rw [hsplit, List.map_append, List.nodup_append] at hnodup
        refine hnodup.2.2 owner ?_ owner (by simp) rfl
        exact List.mem_map.2 ⟨_, List.mem_reverse.1 hmem, rfl⟩
      · -- and an earlier family owns things of its own
        rcases List.mem_append.1 hmem with hmem | hmem
        · obtain ⟨e, he, hmem⟩ := List.mem_flatMap.1 (List.mem_reverse.1 hmem)
          have hfamily := (generates_iff.2 (Or.inl hmem)).family?_eq
          rw [howner.family?_eq, Option.some.injEq] at hfamily
          exact hearlier (hfamily ▸ List.mem_map_of_mem he)
        · have hfamily := howner.family?_eq
          simp only [Registry.initial, List.mem_cons, Prod.mk.injEq, List.not_mem_nil,
            or_false] at hmem
          rcases hmem with ⟨-, rfl⟩ | ⟨-, rfl⟩
          · exact absurd hfamily (by simp [Owner.family?])
          · exact absurd hfamily (by simp [Owner.family?])

/-- The scope of a family between the others. -/
def scopeBetween (before : List FamilyDeclaration) (d : FamilyDeclaration)
    (after : List FamilyDeclaration) : Scope where
  own := d.basename
  earlier := before.map (·.basename)
  declared := (before ++ d :: after).map (·.basename)

theorem plain_scopeBetween
    (hnames : ∀ e ∈ before ++ d :: after, TypeText.IsNodeName e.basename)
    (hdistinct : ((before ++ d :: after).map (·.basename)).Nodup) :
    (scopeBetween before d after).Plain := by
  rw [List.map_append] at hdistinct
  refine Scope.plain_head _ ?_ hdistinct
  intro name hname
  rw [← List.map_append] at hname
  obtain ⟨e, he, rfl⟩ := List.mem_map.1 hname
  exact hnames e he

/-- A family that is declared, but neither before another one nor as it, is
declared after it. -/
theorem exists_later {name : String} (hne : name ≠ d.basename)
    (hearlier : name ∉ before.map (·.basename))
    (hmem : name ∈ (before ++ d :: after).map (·.basename)) :
    ∃ j, before.length < j ∧ ((before ++ d :: after).map (·.basename))[j]? = some name := by
  obtain ⟨j, hj⟩ := List.mem_iff_getElem?.1 hmem
  refine ⟨j, ?_, hj⟩
  rw [List.map_append, List.map_cons] at hj
  by_contra hle
  rcases Nat.lt_or_eq_of_le (Nat.le_of_not_lt hle) with hlt | rfl
  · rw [List.getElem?_append_left (by simpa using hlt)] at hj
    exact hearlier (List.mem_of_getElem? hj)
  · rw [List.getElem?_append_right (by simp)] at hj
    simp only [List.length_map, Nat.sub_self, List.getElem?_cons_zero, Option.some.injEq] at hj
    exact hne hj.symm

end FamilyDeclaration

section SecondPass

open FamilyDeclaration

variable {before after : List FamilyDeclaration} {d : FamilyDeclaration} {v : Violation}

theorem FieldDeclaration.Refused.isTrue {registry : Registry} {e : VariantDeclaration}
    {fbefore fafter : List FieldDeclaration} {f : FieldDeclaration}
    (hnames : ∀ e ∈ before ++ d :: after, TypeText.IsNodeName e.basename)
    (hdistinct : ((before ++ d :: after).map (·.basename)).Nodup) (he : e ∈ d.variants)
    (hsplit : e.fields = fbefore ++ f :: fafter)
    (hregistry : ∀ claim ∈ registry, claim ∈ taken (before ++ d :: after))
    (h : f.Refused (scopeBetween before d after) registry e.name (fbefore.map (·.name)) v) :
    v.IsTrue (before ++ d :: after) := by
  have hd : d ∈ before ++ d :: after := by simp
  have hf : f ∈ e.fields := by simp [hsplit]
  have hdeclares : d.Declares e.name f.name f.type := ⟨e, he, rfl, f, hf, rfl, rfl⟩
  cases h with
  | identifier hid =>
    refine ⟨d, hd, rfl, ?_, hid⟩
    exact List.mem_append_right _ (List.mem_flatMap.2
      ⟨e, he, List.mem_cons_of_mem _ (List.mem_map_of_mem hf)⟩)
  | clash hmem hparameters =>
    exact ⟨d, hd, rfl, Owner.describe_ne_empty _, mem_taken_iff.1 (hregistry _ hmem),
      Or.inr ⟨hparameters, e, he, f, hf, rfl⟩⟩
  | duplicate hmem =>
    refine ⟨d, hd, rfl, e, he, rfl, ?_⟩
    rw [hsplit, List.map_append, List.map_cons]
    exact duplicate_of_mem_before hmem
  | forward hresolve =>
    obtain ⟨htrim, hown, hearlier, hdeclared⟩ := Scope.resolve_eq_later hresolve
    obtain ⟨j, hlt, hj⟩ := exists_later hown hearlier hdeclared
    exact ⟨before.length, j, d, f.type, hlt, by simp, rfl, hdeclares, htrim, hj⟩
  | unknown hresolve =>
    refine ⟨d, hd, rfl, hdeclares, ?_⟩
    refine Scope.not_isSpelled_of_unknown (plain_scopeBetween hnames hdistinct) ?_ hresolve
    intro name hname
    obtain ⟨g, hg, rfl⟩ := List.mem_map.1 hname
    exact hnames g hg

theorem VariantDeclaration.Refused.isTrue {ebefore eafter : List VariantDeclaration}
    {e : VariantDeclaration}
    (hnames : ∀ e ∈ before ++ d :: after, TypeText.IsNodeName e.basename)
    (hdistinct : ((before ++ d :: after).map (·.basename)).Nodup)
    (hsplit : d.variants = ebefore ++ e :: eafter)
    (h : e.Refused (scopeBetween before d after)
      ((ebefore.map (VariantDeclaration.claim d.basename)).reverse ++
        ((before.flatMap variantClaims).reverse ++ reserved (before ++ d :: after)))
      (ebefore.map (·.name)) v) :
    v.IsTrue (before ++ d :: after) := by
  have hd : d ∈ before ++ d :: after := by simp
  have he : e ∈ d.variants := by simp [hsplit]
  -- whatever is taken before this variant is among what is taken in the end
  have hvariant : ∀ e' ∈ d.variants,
      e'.claim d.basename ∈ taken (before ++ d :: after) := fun e' he' =>
    mem_taken_iff.2 (.generated hd (.variant he'))
  have hregistry : ∀ claim ∈ (ebefore.map (VariantDeclaration.claim d.basename)).reverse ++
      ((before.flatMap variantClaims).reverse ++ reserved (before ++ d :: after)),
      claim ∈ taken (before ++ d :: after) := by
    intro claim hclaim
    rcases List.mem_append.1 hclaim with hclaim | hclaim
    · obtain ⟨e', he', rfl⟩ := List.mem_map.1 (List.mem_reverse.1 hclaim)
      exact hvariant e' (by simp [hsplit, he'])
    · rcases List.mem_append.1 hclaim with hclaim | hclaim
      · refine List.mem_append_left _ (List.mem_reverse.2 ?_)
        rw [List.flatMap_append]
        exact List.mem_append_left _ (List.mem_reverse.1 hclaim)
      · exact List.mem_append_right _ hclaim
  cases h with
  | identifier hid =>
    refine ⟨d, hd, rfl, ?_, hid⟩
    exact List.mem_append_right _ (List.mem_flatMap.2 ⟨e, he, List.mem_cons_self⟩)
  | duplicate hmem =>
    refine ⟨d, hd, rfl, ?_⟩
    rw [hsplit, List.map_append, List.map_cons]
    exact duplicate_of_mem_before hmem
  | clash hseen hmem =>
    refine ⟨d, hd, rfl, Owner.describe_ne_empty _, mem_taken_iff.1 (hregistry _ hmem),
      Or.inl ⟨_, .variant he, ?_⟩⟩
    rintro rfl
    rcases List.mem_append.1 hmem with hmem | hmem
    · obtain ⟨e', he', hclaim⟩ := List.mem_map.1 (List.mem_reverse.1 hmem)
      exact hseen (List.mem_map.2 ⟨e', he', congrArg Prod.fst hclaim⟩)
    · rcases List.mem_append.1 hmem with hmem | hmem
      · -- a family before this one has another name, so its variants are other things
        obtain ⟨b, hb, hclaim⟩ := List.mem_flatMap.1 (List.mem_reverse.1 hmem)
        have hfamily := (generates_iff.2 (Or.inr hclaim)).family?_eq
        have hbase : d.basename = b.basename := Option.some.inj hfamily
        rw [List.map_append, List.nodup_append] at hdistinct
        exact hdistinct.2.2 _ (List.mem_map_of_mem hb) d.basename (by simp) hbase.symm
      · rcases List.mem_append.1 hmem with hmem | hmem
        · obtain ⟨b, -, hclaim⟩ := List.mem_flatMap.1 (List.mem_reverse.1 hmem)
          exact variant_notMem_claims hclaim
        · simp [Registry.initial] at hmem
  | field hfields h =>
    refine h.isTrue hnames hdistinct he hfields ?_
    intro claim hclaim
    rcases List.mem_cons.1 hclaim with rfl | hclaim
    · exact hvariant e he
    · exact hregistry claim hclaim

theorem FamilyDeclaration.Refused.isTrue
    (hnames : ∀ e ∈ before ++ d :: after, TypeText.IsNodeName e.basename)
    (hdistinct : ((before ++ d :: after).map (·.basename)).Nodup)
    (h : d.Refused (scopeBetween before d after)
      ((before.flatMap variantClaims).reverse ++ reserved (before ++ d :: after)) v) :
    v.IsTrue (before ++ d :: after) := by
  cases h with
  | empty hempty => exact ⟨d, by simp, rfl, hempty⟩
  | variant hsplit h => exact h.isTrue hnames hdistinct hsplit

end SecondPass

/-! ## No violation is true of a catalogue -/

theorem Admissible.taken_nodup {ds : List FamilyDeclaration} (h : Admissible ds) :
    (FamilyDeclaration.taken ds).names.Nodup :=
  (FamilyDeclaration.perm_reservedNames ds).nodup_iff.2 h.reserved_nodup

/-- The owner of a name that no parameter can have is a type of parameters. -/
theorem Owner.Has.mem_allParameterTypes {ds : List FamilyDeclaration} {name : String}
    {owner : Owner} (h : owner.Has ds name) (hp : owner.inParameters = true) :
    name ∈ FamilyDeclaration.allParameterTypes ds := by
  cases h with
  | tokenType => simp [FamilyDeclaration.allParameterTypes]
  | standardLibrary => simp [FamilyDeclaration.allParameterTypes]
  | @generated d _ _ hd h =>
    refine List.mem_cons_of_mem _ (List.mem_cons_of_mem _ (List.mem_flatMap.2 ⟨d, hd, ?_⟩))
    cases h with
    | handle => simp
    | list => simp
    | basename => exact absurd hp (by simp [inParameters])
    | visitorNamespace => exact absurd hp (by simp [inParameters])
    | result => exact absurd hp (by simp [inParameters])
    | variant => exact absurd hp (by simp [inParameters])

/-- The basename of a family stands for no type in a family before it. -/
theorem Admissible.not_isSpelled_later {ds : List FamilyDeclaration} (h : Admissible ds) {i j : Nat}
    {d e : FamilyDeclaration} (hij : i < j) (hd : ds[i]? = some d) (he : ds[j]? = some e)
    (type : FieldType) :
    ¬ type.IsSpelled d.basename ((ds.take i).map (·.basename)) e.basename := by
  have hname : TypeText.IsNodeName e.basename := h.isNodeName_basename (List.mem_of_getElem? he)
  have hnodup := FamilyDeclaration.basenames_nodup h.reserved_names_nodup
  -- the basename stands at one position only
  have hunique : ∀ k g, ds[k]? = some g → e.basename = g.basename → j = k := by
    intro k g hg hbase
    have hj : (ds.map (·.basename))[j]? = some e.basename := by simp [he]
    have hk : (ds.map (·.basename))[k]? = some e.basename := by simp [hg, hbase]
    obtain ⟨hlt, -⟩ := List.getElem?_eq_some_iff.1 hj
    exact (List.getElem?_inj hlt hnodup).1 (hj.trans hk.symm)
  intro hspelled
  cases type with
  | primitive p => exact hname.ne_keyword p hspelled
  | token => exact hname.ne_token hspelled
  | child =>
    have hjk := hunique i d hd hspelled
    omega
  | children =>
    obtain ⟨left, right, -, -, htext⟩ := hspelled
    have hpart := Identifier.isPart_of_isIdentifier hname.identifier '[' (by simp [htext])
    exact absurd hpart (by decide)
  | foreignChild name =>
    obtain ⟨hmem, htext⟩ := hspelled
    obtain ⟨g, hg, hgname⟩ := List.mem_map.1 hmem
    obtain ⟨k, hk, hkg⟩ := List.mem_take_iff_getElem.1 hg
    have hjk := hunique k g (List.getElem?_eq_some_iff.2 ⟨by omega, hkg⟩)
      (htext.trans hgname.symm)
    omega

theorem Admissible.not_isTrue {ds : List FamilyDeclaration} (h : Admissible ds) (v : Violation) :
    ¬ v.IsTrue ds := by
  intro htrue
  cases v with
  | emptyFamily family =>
    obtain ⟨d, hd, -, hempty⟩ := htrue
    exact h.variants_ne_nil d hd hempty
  | duplicateFamily family =>
    exact List.nodup_iff_forall_not_duplicate.1
      (FamilyDeclaration.basenames_nodup h.reserved_names_nodup) _ htrue
  | duplicateVariant family variant =>
    obtain ⟨d, hd, -, hduplicate⟩ := htrue
    exact List.nodup_iff_forall_not_duplicate.1 (h.variants_nodup hd) _ hduplicate
  | duplicateField family variant field =>
    obtain ⟨d, hd, -, e, he, -, hduplicate⟩ := htrue
    exact List.nodup_iff_forall_not_duplicate.1 (h.fields_nodup d hd e he) _ hduplicate
  | nameClash family name previous =>
    obtain ⟨d, hd, -, -, hhas, ⟨owner, hgenerates, hne⟩ | ⟨hparameters, e, he, f, hf, rfl⟩⟩ := htrue
    · -- a name has one owner
      have hprevious := FamilyDeclaration.mem_taken_iff.2 hhas
      have howner := FamilyDeclaration.mem_taken_iff.2 (.generated hd hgenerates)
      rw [← Registry.owner?_eq_some_iff h.taken_nodup] at hprevious howner
      exact hne (Option.some.inj (howner.symm.trans hprevious))
    · exact h.fields_notMem d hd e he f hf (hhas.mem_allParameterTypes hparameters)
  | unknownType family variant field type =>
    obtain ⟨d, hd, rfl, ⟨e, he, -, f, hf, -, rfl⟩, hspelled⟩ := htrue
    obtain ⟨i, hi⟩ := List.mem_iff_getElem?.1 hd
    obtain ⟨type, htype⟩ := h.types i d hi e he f hf
    refine hspelled type (htype.rescope ?_)
    rintro name rfl
    obtain ⟨g, hg, rfl⟩ := List.mem_map.1 htype.1
    exact List.mem_map_of_mem (List.mem_of_mem_take hg)
  | forwardReference family variant field referenced =>
    obtain ⟨i, j, d, type, hij, hi, rfl, ⟨e, he, -, f, hf, -, rfl⟩, htrim, hj⟩ := htrue
    rw [List.getElem?_map, Option.map_eq_some_iff] at hj
    obtain ⟨g, hg, rfl⟩ := hj
    obtain ⟨type, htype⟩ := h.types i d hi e he f hf
    rw [htrim] at htype
    exact h.not_isSpelled_later hij hi hg type htype
  | invalidIdentifier family name =>
    obtain ⟨d, hd, -, hname, hid⟩ := htrue
    rw [h.identifier d hd name hname] at hid
    exact absurd hid (by simp)

namespace Catalogue

end Catalogue

end TreeHeaders
