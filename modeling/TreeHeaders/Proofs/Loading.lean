import TreeHeaders.Proofs.Denotation

set_option autoImplicit false

/-!
# What loading does, step by step

For every function of the loader: when it succeeds, and with what. A step succeeds under
conditions on the declaration alone and on the names taken so far, and the names taken so far
never hold a repetition (`Registry.names` has no duplicates). So a run of steps succeeds exactly
when the names taken at its end have no duplicates and every declaration meets its own
conditions; the order of the tests inside a step only decides which violation is reported.

What a step returns is described by the relations of `Proofs.Denotation`.
-/

namespace TreeHeaders

/-! ## Conditions on one declaration -/

/-- The fields can be parameters of one constructor, where `types` are the names that occur in
the types of parameters. -/
structure VariantDeclaration.Constructible (types : List String) (d : VariantDeclaration) :
    Prop where
  identifier : ∀ field ∈ d.fields, isIdentifier field.name = true
  notMem_types : ∀ field ∈ d.fields, field.name ∉ types
  nodup : (d.fields.map (·.name)).Nodup

/-- The family has variants, and nodes of them can be made. -/
structure FamilyDeclaration.Constructible (types : List String) (d : FamilyDeclaration) :
    Prop where
  variants_ne_nil : d.variants ≠ []
  identifier : ∀ variant ∈ d.variants, isIdentifier variant.name = true
  variants : ∀ variant ∈ d.variants, variant.Constructible types

/-! ## Success of a composed step -/

theorem bind_eq_ok_iff {ε α β : Type} {x : Except ε α} {f : α → Except ε β} {b : β} :
    (x >>= f) = .ok b ↔ ∃ a, x = .ok a ∧ f a = .ok b := by
  cases x with
  | error e => simp [bind, Except.bind]
  | ok a => simp [bind, Except.bind]

theorem requireIdentifier_eq_ok_iff {family name : String} {u : Unit} :
    requireIdentifier family name = .ok u ↔ isIdentifier name = true := by
  unfold requireIdentifier
  split
  · next h => simp [h]
  · next h => simp [h]

/-! ## Taking names -/

namespace Registry

@[simp]
theorem names_cons (taken : String × Owner) (registry : Registry) :
    names (taken :: registry) = taken.1 :: registry.names := rfl

@[simp]
theorem names_append (left right : Registry) : names (left ++ right) = left.names ++ right.names :=
  List.map_append

/-- The names that no constructor parameter can take. -/
def parameterTypes (registry : Registry) : List String :=
  (registry.filter fun taken => taken.2.inParameters).map (·.1)

theorem claim_eq_ok_iff {registry result : Registry} {family name : String} {owner : Owner} :
    registry.claim family name owner = .ok result ↔
      name ∉ registry.names ∧ result = (name, owner) :: registry := by
  unfold claim
  cases h : registry.owner? name with
  | some previous =>
    have hmem : name ∈ registry.names := by
      by_contra hmem
      rw [owner?_eq_none_iff.2 hmem] at h
      exact absurd h (by simp)
    simp [hmem]
  | none =>
    have hmem : name ∉ registry.names := owner?_eq_none_iff.1 h
    simp [hmem, eq_comm]

/-- Several names can be taken exactly when no name is then taken twice. -/
theorem claimAll_eq_ok_iff {registry result : Registry} {family : String}
    {claims : List (String × Owner)} (hn : registry.names.Nodup) :
    registry.claimAll family claims = .ok result ↔
      result = claims.reverse ++ registry ∧ result.names.Nodup := by
  induction claims generalizing registry with
  | nil =>
    simp only [claimAll, Except.ok.injEq, List.reverse_nil, List.nil_append]
    constructor
    · rintro rfl
      exact ⟨rfl, hn⟩
    · rintro ⟨rfl, -⟩
      rfl
  | cons head claims ih =>
    obtain ⟨name, owner⟩ := head
    have hsplit : ((name, owner) :: claims).reverse ++ registry =
        claims.reverse ++ ((name, owner) :: registry) := by simp
    simp only [claimAll, bind_eq_ok_iff, claim_eq_ok_iff, hsplit]
    constructor
    · rintro ⟨_, ⟨hname, rfl⟩, h⟩
      have hnext : (names ((name, owner) :: registry)).Nodup := List.nodup_cons.2 ⟨hname, hn⟩
      exact (ih hnext).1 h
    · rintro ⟨rfl, h⟩
      have hnext : (names ((name, owner) :: registry)).Nodup := by
        rw [names_append] at h
        exact (List.nodup_append.1 h).2.1
      exact ⟨_, ⟨(List.nodup_cons.1 hnext).1, rfl⟩, (ih hnext).2 ⟨rfl, h⟩⟩

/-- A name has one owner. -/
theorem owner?_eq_some_iff {registry : Registry} {name : String} {owner : Owner}
    (hn : registry.names.Nodup) :
    registry.owner? name = some owner ↔ (name, owner) ∈ registry := by
  simp only [owner?, Option.map_eq_some_iff, find?_eq_some_iff_of_nodup hn]
  constructor
  · intro h
    obtain ⟨taken, ⟨hmem, hname⟩, howner⟩ := h
    rw [← hname, ← howner]
    exact hmem
  · intro h
    exact ⟨(name, owner), ⟨h, rfl⟩, rfl⟩

end Registry

theorem FieldDeclaration.clash?_eq_none_iff {registry : Registry} {name : String}
    (hn : registry.names.Nodup) :
    clash? registry name = none ↔ name ∉ registry.parameterTypes := by
  simp only [clash?, Option.filter_eq_none_iff, Registry.parameterTypes, List.mem_map,
    List.mem_filter, not_exists, not_and, Registry.owner?_eq_some_iff hn]
  constructor
  · rintro h ⟨taken, owner⟩ ⟨hm, hp⟩ rfl
    exact h owner hm hp
  · intro h owner hm hp
    exact h (name, owner) ⟨hm, hp⟩ rfl

/-! ## The first pass -/

namespace FamilyDeclaration

/-- The names of a family that are authored outside its variants. -/
def headNames (d : FamilyDeclaration) : List String :=
  d.basename :: d.result.toList

theorem reserve_eq_ok_iff {d : FamilyDeclaration} {earlier : List String}
    {registry result : Registry} :
    d.reserve earlier registry = .ok result ↔
      (∀ name ∈ d.headNames, isIdentifier name = true) ∧ d.basename ∉ earlier ∧
        registry.claimAll d.basename d.claims = .ok result := by
  unfold reserve headNames
  cases hr : d.result with
  | none =>
    by_cases he : d.basename ∈ earlier
    · simp [bind_eq_ok_iff, he]
    · simp [bind_eq_ok_iff, requireIdentifier_eq_ok_iff, he]
  | some name =>
    by_cases he : d.basename ∈ earlier
    · simp [bind_eq_ok_iff, he]
    · simp [bind_eq_ok_iff, requireIdentifier_eq_ok_iff, he, and_assoc]

theorem basename_mem_names_claims (d : FamilyDeclaration) :
    d.basename ∈ Registry.names d.claims := by
  simp [claims, Registry.names]

/-- The first pass takes the names of all families, and fails only for a name that is no
identifier or is taken twice: two families of one basename are a case of the latter. -/
theorem reserveAll_eq_ok_iff {earlier : List String} {registry result : Registry}
    {ds : List FamilyDeclaration} (hn : registry.names.Nodup)
    (he : ∀ name ∈ earlier, name ∈ registry.names) :
    reserveAll earlier registry ds = .ok result ↔
      (∀ d ∈ ds, ∀ name ∈ d.headNames, isIdentifier name = true) ∧
        result = (ds.flatMap claims).reverse ++ registry ∧ result.names.Nodup := by
  induction ds generalizing earlier registry with
  | nil =>
    simp only [reserveAll, Except.ok.injEq]
    constructor
    · rintro rfl
      exact ⟨by simp, by simp, hn⟩
    · rintro ⟨-, rfl, -⟩
      simp
  | cons d ds ih =>
    have hsplit : ((d :: ds).flatMap claims).reverse ++ registry =
        (ds.flatMap claims).reverse ++ (d.claims.reverse ++ registry) := by simp
    have hnext : ∀ name ∈ earlier ++ [d.basename],
        name ∈ Registry.names (d.claims.reverse ++ registry) := by
      intro name hname
      rw [Registry.names_append, List.mem_append]
      rcases List.mem_append.1 hname with h | h
      · exact Or.inr (he name h)
      · left
        rw [List.mem_singleton.1 h]
        simpa [Registry.names] using d.basename_mem_names_claims
    simp only [reserveAll, bind_eq_ok_iff, reserve_eq_ok_iff, Registry.claimAll_eq_ok_iff hn,
      List.forall_mem_cons, hsplit]
    constructor
    · rintro ⟨_, ⟨hid, -, rfl, hn'⟩, h⟩
      obtain ⟨hids, hresult, hnodup⟩ := (ih hn' hnext).1 h
      exact ⟨⟨hid, hids⟩, hresult, hnodup⟩
    · rintro ⟨⟨hid, hids⟩, rfl, hnodup⟩
      have hn' : (Registry.names (d.claims.reverse ++ registry)).Nodup := by
        rw [Registry.names_append] at hnodup
        exact (List.nodup_append.1 hnodup).2.1
      -- a basename among the earlier ones is taken already, so it would be taken twice
      have hnot : d.basename ∉ earlier := by
        intro hmem
        rw [Registry.names_append] at hn'
        refine (List.nodup_append.1 hn').2.2 _ ?_ _ (he _ hmem) rfl
        simpa [Registry.names] using d.basename_mem_names_claims
      exact ⟨_, ⟨hid, hnot, rfl, hn'⟩, (ih hn' hnext).2 ⟨hids, rfl, hnodup⟩⟩

end FamilyDeclaration

/-! ## The second pass -/

/-- The scope of the first family of those that are left. -/
theorem Scope.plain_head {earlier : List String} {d : FamilyDeclaration}
    {ds : List FamilyDeclaration} (declared : List String)
    (hnames : ∀ name ∈ earlier ++ (d :: ds).map (·.basename), TypeText.IsNodeName name)
    (hdistinct : (earlier ++ (d :: ds).map (·.basename)).Nodup) :
    Scope.Plain { own := d.basename, earlier, declared } := by
  refine ⟨hnames _ (by simp), fun name h => hnames name (List.mem_append_left _ h), ?_⟩
  intro hmem
  exact (List.nodup_append.1 hdistinct).2.2 _ hmem _ (by simp) rfl

namespace FieldDeclaration

theorem load_eq_ok_iff {scope : Scope} {registry : Registry} {variant : String}
    {seen : List String} {d : FieldDeclaration} {field : Field} (hs : scope.Plain)
    (hn : registry.names.Nodup) :
    d.load scope registry variant seen = .ok field ↔
      isIdentifier d.name = true ∧ d.name ∉ registry.parameterTypes ∧ d.name ∉ seen ∧
        d.Denotes scope.own scope.earlier field := by
  have hdenotes : d.Denotes scope.own scope.earlier field ↔
      field.name = d.name ∧ scope.resolve d.type = .found field.type := by
    rw [Scope.resolve_eq_found_iff hs]
    exact ⟨fun h => ⟨h.name, h.type⟩, fun h => ⟨h.1, h.2⟩⟩
  rw [hdenotes, ← clash?_eq_none_iff hn]
  unfold load
  rw [bind_eq_ok_iff]
  simp only [requireIdentifier_eq_ok_iff, exists_const]
  refine and_congr_right fun _ => ?_
  cases hclash : clash? registry d.name with
  | some previous => simp
  | none =>
    by_cases hseen : d.name ∈ seen
    · simp [hseen]
    · simp only [hseen, if_false, not_false_eq_true, true_and]
      obtain ⟨type, name⟩ := field
      cases hr : scope.resolve d.type with
      | found found => simp [eq_comm, and_comm]
      | later family => simp
      | unknown => simp

/-- The fields of a variant load exactly when each of them does for itself and no
name comes back. -/
theorem loadAll_eq_ok_iff {scope : Scope} {registry : Registry} {variant : String}
    {seen : List String} {ds : List FieldDeclaration} {fields : List Field} (hs : scope.Plain)
    (hn : registry.names.Nodup) :
    loadAll scope registry variant seen ds = .ok fields ↔
      (∀ d ∈ ds, isIdentifier d.name = true ∧ d.name ∉ registry.parameterTypes ∧ d.name ∉ seen) ∧
        (ds.map (·.name)).Nodup ∧ List.Forall₂ (Denotes scope.own scope.earlier) ds fields := by
  induction ds generalizing seen fields with
  | nil => cases fields <;> simp [loadAll]
  | cons d ds ih =>
    simp only [loadAll, bind_eq_ok_iff, load_eq_ok_iff hs hn, ih, Except.ok.injEq,
      List.forall_mem_cons, List.map_cons, List.nodup_cons]
    constructor
    · rintro ⟨field, ⟨hid, hparameter, hseen, hfield⟩, rest, ⟨hall, hnodup, hrest⟩, rfl⟩
      refine ⟨⟨⟨hid, hparameter, hseen⟩, ?_⟩, ⟨?_, hnodup⟩, .cons hfield hrest⟩
      · intro e hmem
        obtain ⟨hi, hp, hs⟩ := hall e hmem
        exact ⟨hi, hp, fun h => hs (List.mem_append_left _ h)⟩
      · intro hmem
        obtain ⟨e, hmem, he⟩ := List.mem_map.1 hmem
        exact (hall e hmem).2.2 (by simp [he])
    · rintro ⟨⟨⟨hid, hparameter, hseen⟩, hall⟩, ⟨hnot, hnodup⟩, hfields⟩
      cases hfields with
      | @cons _ field _ rest hfield hrest =>
        refine ⟨field, ⟨hid, hparameter, hseen, hfield⟩, rest, ⟨?_, hnodup, hrest⟩, rfl⟩
        intro e hmem
        obtain ⟨hi, hp, hs⟩ := hall e hmem
        refine ⟨hi, hp, ?_⟩
        intro h
        rcases List.mem_append.1 h with h | h
        · exact hs h
        · exact hnot (List.mem_map.2 ⟨e, hmem, List.mem_singleton.1 h⟩)

end FieldDeclaration

namespace VariantDeclaration

/-- The name that a variant of the family takes. -/
def claim (own : String) (d : VariantDeclaration) : String × Owner :=
  (d.name, .variant own d.name)

theorem load_eq_ok_iff {scope : Scope} {registry result : Registry} {seen : List String}
    {d : VariantDeclaration} {variant : Variant} (hs : scope.Plain)
    (hn : registry.names.Nodup) :
    d.load scope registry seen = .ok (variant, result) ↔
      isIdentifier d.name = true ∧ d.name ∉ seen ∧ d.Constructible registry.parameterTypes ∧
        result = d.claim scope.own :: registry ∧ result.names.Nodup ∧
        d.Denotes scope.own scope.earlier variant := by
  unfold load
  rw [bind_eq_ok_iff]
  simp only [requireIdentifier_eq_ok_iff, exists_const]
  refine and_congr_right fun _ => ?_
  by_cases hseen : d.name ∈ seen
  · simp [hseen]
  simp only [hseen, if_false, not_false_eq_true, true_and, bind_eq_ok_iff,
    Registry.claim_eq_ok_iff, Except.ok.injEq, Prod.mk.injEq]
  constructor
  · rintro ⟨_, ⟨hname, rfl⟩, fields, hfields, rfl, rfl⟩
    have hnodup : (Registry.names (d.claim scope.own :: registry)).Nodup :=
      List.nodup_cons.2 ⟨hname, hn⟩
    obtain ⟨hall, hnames, hdenotes⟩ := (FieldDeclaration.loadAll_eq_ok_iff hs hnodup).1 hfields
    exact ⟨⟨fun e he => (hall e he).1, fun e he => (hall e he).2.1, hnames⟩, rfl, hnodup,
      ⟨rfl, hdenotes⟩⟩
  · rintro ⟨hc, rfl, hnodup, hdenotes⟩
    obtain ⟨name, fields⟩ := variant
    obtain rfl : name = d.name := hdenotes.name
    refine ⟨_, ⟨(List.nodup_cons.1 hnodup).1, rfl⟩, fields, ?_, rfl, rfl⟩
    refine (FieldDeclaration.loadAll_eq_ok_iff hs hnodup).2 ⟨?_, hc.nodup, hdenotes.fields⟩
    intro e he
    exact ⟨hc.identifier e he, hc.notMem_types e he, by simp⟩

/-- The variants of a family load exactly when each of them can be constructed and no name is
then taken twice: two variants of one name are a case of the latter. -/
theorem loadAll_eq_ok_iff {scope : Scope} {registry result : Registry} {seen : List String}
    {ds : List VariantDeclaration} {variants : List Variant} (hs : scope.Plain)
    (hn : registry.names.Nodup) (hseen : ∀ name ∈ seen, name ∈ registry.names) :
    loadAll scope registry seen ds = .ok (variants, result) ↔
      (∀ d ∈ ds, isIdentifier d.name = true ∧ d.Constructible registry.parameterTypes) ∧
        result = (ds.map (claim scope.own)).reverse ++ registry ∧ result.names.Nodup ∧
        List.Forall₂ (Denotes scope.own scope.earlier) ds variants := by
  induction ds generalizing registry seen variants with
  | nil =>
    simp only [loadAll, Except.ok.injEq, Prod.mk.injEq]
    constructor
    · rintro ⟨rfl, rfl⟩
      exact ⟨by simp, by simp, hn, .nil⟩
    · rintro ⟨-, rfl, -, hdenotes⟩
      cases hdenotes
      simp
  | cons d ds ih =>
    have hsplit : ((d :: ds).map (claim scope.own)).reverse ++ registry =
        (ds.map (claim scope.own)).reverse ++ (d.claim scope.own :: registry) := by simp
    have hnext : ∀ name ∈ seen ++ [d.name],
        name ∈ Registry.names (d.claim scope.own :: registry) := by
      intro name hname
      rw [Registry.names_cons, List.mem_cons]
      rcases List.mem_append.1 hname with h | h
      · exact Or.inr (hseen name h)
      · exact Or.inl (List.mem_singleton.1 h)
    simp only [loadAll, bind_eq_ok_iff, Prod.exists, load_eq_ok_iff hs hn, Except.ok.injEq,
      Prod.mk.injEq, List.forall_mem_cons, hsplit]
    constructor
    · rintro ⟨variant, _, ⟨hid, -, hc, rfl, hn', hvariant⟩, rest, _, h, rfl, rfl⟩
      obtain ⟨hall, hresult, hnodup, hrest⟩ := (ih hn' hnext).1 h
      exact ⟨⟨⟨hid, hc⟩, hall⟩, hresult, hnodup, .cons hvariant hrest⟩
    · rintro ⟨⟨⟨hid, hc⟩, hall⟩, rfl, hnodup, hdenotes⟩
      cases hdenotes with
      | @cons _ variant _ rest hvariant hrest =>
        have hn' : (Registry.names (d.claim scope.own :: registry)).Nodup := by
          rw [Registry.names_append] at hnodup
          exact (List.nodup_append.1 hnodup).2.1
        -- a name among those seen is taken already, so the claim would have failed
        have hnot : d.name ∉ seen := fun hmem => (List.nodup_cons.1 hn').1 (hseen _ hmem)
        exact ⟨variant, _, ⟨hid, hnot, hc, rfl, hn', hvariant⟩, rest, _,
          (ih hn' hnext).2 ⟨hall, rfl, hnodup, hrest⟩, rfl, rfl⟩

end VariantDeclaration

namespace FamilyDeclaration

/-- The names that the variants of a family take. -/
def variantClaims (d : FamilyDeclaration) : List (String × Owner) :=
  d.variants.map (VariantDeclaration.claim d.basename)

/-- Variants do not occur in the types of parameters. -/
theorem parameterTypes_variantClaims (d : FamilyDeclaration) (registry : Registry) :
    Registry.parameterTypes (d.variantClaims.reverse ++ registry) = registry.parameterTypes := by
  have hnil : d.variantClaims.reverse.filter (fun taken => taken.2.inParameters) = [] := by
    simp [variantClaims, VariantDeclaration.claim, Owner.inParameters]
  rw [Registry.parameterTypes, List.filter_append, hnil, List.nil_append]
  rfl

theorem load_eq_ok_iff {scope : Scope} {registry result : Registry} {d : FamilyDeclaration}
    {family : Family} (hs : scope.Plain) (hown : scope.own = d.basename)
    (hn : registry.names.Nodup) :
    d.load scope registry = .ok (family, result) ↔
      d.Constructible registry.parameterTypes ∧ result = d.variantClaims.reverse ++ registry ∧
        result.names.Nodup ∧ d.Denotes scope.earlier family := by
  unfold load
  by_cases hempty : d.variants = []
  · rw [if_pos hempty]
    constructor
    · intro h
      exact absurd h (by simp)
    · rintro ⟨hc, -⟩
      exact absurd hempty hc.variants_ne_nil
  rw [if_neg hempty]
  simp only [bind_eq_ok_iff, Prod.exists, Except.ok.injEq, Prod.mk.injEq,
    VariantDeclaration.loadAll_eq_ok_iff hs hn (fun _ h => absurd h List.not_mem_nil), hown]
  constructor
  · rintro ⟨variants, _, ⟨hall, rfl, hnodup, hdenotes⟩, rfl, rfl⟩
    exact ⟨⟨hempty, fun v hv => (hall v hv).1, fun v hv => (hall v hv).2⟩, rfl, hnodup,
      ⟨rfl, rfl, rfl, hdenotes⟩⟩
  · rintro ⟨hc, rfl, hnodup, hdenotes⟩
    obtain ⟨basename, contract, rendersText, variants⟩ := family
    obtain ⟨rfl, rfl, rfl, hvariants⟩ := hdenotes
    exact ⟨variants, _, ⟨fun v hv => ⟨hc.identifier v hv, hc.variants v hv⟩, rfl, hnodup,
      hvariants⟩, rfl, rfl⟩

/-- The second pass checks every family for itself, against the parameter types of all of them,
and fails beyond that only for the name of a variant that is taken twice. -/
theorem loadAll_eq_ok_iff {declared earlier : List String} {registry : Registry}
    {ds : List FamilyDeclaration} {families : List Family} (hn : registry.names.Nodup)
    (hnames : ∀ name ∈ earlier ++ ds.map (·.basename), TypeText.IsNodeName name)
    (hdistinct : (earlier ++ ds.map (·.basename)).Nodup) :
    loadAll declared earlier registry ds = .ok families ↔
      (∀ d ∈ ds, d.Constructible registry.parameterTypes) ∧
        (Registry.names ((ds.flatMap variantClaims).reverse ++ registry)).Nodup ∧
        DenotesAll earlier ds families := by
  induction ds generalizing earlier registry families with
  | nil =>
    simp only [loadAll, Except.ok.injEq]
    constructor
    · rintro rfl
      exact ⟨by simp, by simpa using hn, .nil⟩
    · rintro ⟨-, -, hdenotes⟩
      cases hdenotes
      rfl
  | cons d ds ih =>
    have hsplit : ((d :: ds).flatMap variantClaims).reverse ++ registry =
        (ds.flatMap variantClaims).reverse ++ (d.variantClaims.reverse ++ registry) := by simp
    have hs := Scope.plain_head declared hnames hdistinct
    rw [List.map_cons, List.append_cons] at hnames hdistinct
    simp only [loadAll, bind_eq_ok_iff, Prod.exists, load_eq_ok_iff hs rfl hn, Except.ok.injEq,
      List.forall_mem_cons, hsplit]
    constructor
    · rintro ⟨family, _, ⟨hc, rfl, hn', hfamily⟩, rest, h, rfl⟩
      obtain ⟨hall, hnodup, hrest⟩ := (ih hn' hnames hdistinct).1 h
      rw [parameterTypes_variantClaims] at hall
      exact ⟨⟨hc, hall⟩, hnodup, .cons hfamily hrest⟩
    · rintro ⟨⟨hc, hall⟩, hnodup, hdenotes⟩
      cases hdenotes with
      | @cons _ _ _ family rest hfamily hrest =>
        have hn' : (Registry.names (d.variantClaims.reverse ++ registry)).Nodup := by
          rw [Registry.names_append] at hnodup
          exact (List.nodup_append.1 hnodup).2.1
        refine ⟨family, _, ⟨hc, rfl, hn', hfamily⟩, rest, ?_, rfl⟩
        refine (ih hn' hnames hdistinct).2 ⟨?_, hnodup, hrest⟩
        rw [parameterTypes_variantClaims]
        exact hall

end FamilyDeclaration

end TreeHeaders
