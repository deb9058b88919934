import TreeHeaders.Proofs.Acceptance

set_option autoImplicit false

/-!
# Where loading stops

For every function of the loader: where it fails, and with which violation.
`Proofs.Loading` says when a run of steps succeeds; a run that fails does so at a first
declaration that is refused, after declarations that all went through, so the names taken
until then are known in full.

A relation for each kind of declaration lists the ways in which one can be
refused, a constructor for each check. Later proofs go through the constructors
and never look into the loader.
-/

namespace TreeHeaders

/-! ## Ways to be refused -/

/-- The checks of a field that can fail, where `seen` are the names of the fields before it. -/
inductive FieldDeclaration.Refused (scope : Scope) (registry : Registry) (variant : String)
    (seen : List String) (d : FieldDeclaration) : Violation → Prop where
  | identifier (h : isIdentifier d.name = false) :
    Refused scope registry variant seen d (.invalidIdentifier scope.own d.name)
  | clash {previous : Owner} (h : (d.name, previous) ∈ registry)
    (hp : previous.inParameters = true) :
    Refused scope registry variant seen d (.nameClash scope.own d.name previous)
  | duplicate (h : d.name ∈ seen) :
    Refused scope registry variant seen d (.duplicateField scope.own variant d.name)
  | forward {family : String} (h : scope.resolve d.type = .later family) :
    Refused scope registry variant seen d (.forwardReference scope.own variant d.name family)
  | unknown (h : scope.resolve d.type = .unknown) :
    Refused scope registry variant seen d (.unknownType scope.own variant d.name d.type)

/-- The checks of a variant that can fail, where `seen` are the names of the
variants before it. -/
inductive VariantDeclaration.Refused (scope : Scope) (registry : Registry) (seen : List String)
    (d : VariantDeclaration) : Violation → Prop where
  | identifier (h : isIdentifier d.name = false) :
    Refused scope registry seen d (.invalidIdentifier scope.own d.name)
  | duplicate (h : d.name ∈ seen) :
    Refused scope registry seen d (.duplicateVariant scope.own d.name)
  | clash {previous : Owner} (hseen : d.name ∉ seen) (h : (d.name, previous) ∈ registry) :
    Refused scope registry seen d (.nameClash scope.own d.name previous)
  | field {before after : List FieldDeclaration} {f : FieldDeclaration} {v : Violation}
    (hsplit : d.fields = before ++ f :: after)
    (h : f.Refused scope (d.claim scope.own :: registry) d.name (before.map (·.name)) v) :
    Refused scope registry seen d v

/-- The checks of a family in the first pass that can fail, where `earlier` are
the families before it. -/
inductive FamilyDeclaration.NotReserved (earlier : List String) (registry : Registry)
    (d : FamilyDeclaration) : Violation → Prop where
  | identifier {name : String} (hname : name ∈ d.headNames) (h : isIdentifier name = false) :
    NotReserved earlier registry d (.invalidIdentifier d.basename name)
  | duplicate (h : d.basename ∈ earlier) :
    NotReserved earlier registry d (.duplicateFamily d.basename)
  | clash {before after : List (String × Owner)} {name : String} {owner previous : Owner}
    (hearlier : d.basename ∉ earlier) (hsplit : d.claims = before ++ (name, owner) :: after)
    (h : (name, previous) ∈ before.reverse ++ registry) :
    NotReserved earlier registry d (.nameClash d.basename name previous)

/-- The checks of a family in the second pass that can fail. -/
inductive FamilyDeclaration.Refused (scope : Scope) (registry : Registry) (d : FamilyDeclaration) :
    Violation → Prop where
  | empty (h : d.variants = []) : Refused scope registry d (.emptyFamily d.basename)
  | variant {before after : List VariantDeclaration} {e : VariantDeclaration} {v : Violation}
    (hsplit : d.variants = before ++ e :: after)
    (h : e.Refused scope ((before.map (VariantDeclaration.claim scope.own)).reverse ++ registry)
      (before.map (·.name)) v) :
    Refused scope registry d v

/-! ## Failure of a composed step -/

theorem bind_eq_error_iff {ε α β : Type} {x : Except ε α} {f : α → Except ε β} {e : ε} :
    (x >>= f) = .error e ↔ x = .error e ∨ ∃ a, x = .ok a ∧ f a = .error e := by
  cases x with
  | error e' => simp [bind, Except.bind]
  | ok a => simp [bind, Except.bind]

theorem requireIdentifier_eq_error_iff {family name : String} {v : Violation} :
    requireIdentifier family name = .error v ↔
      isIdentifier name = false ∧ .invalidIdentifier family name = v := by
  unfold requireIdentifier
  split
  · next h => simp [h]
  · next h => simp [h]

/-! ## Taking names -/

namespace Registry

theorem mem_of_owner? {registry : Registry} {name : String} {owner : Owner}
    (h : registry.owner? name = some owner) : (name, owner) ∈ registry := by
  obtain ⟨taken, hfind, rfl⟩ := Option.map_eq_some_iff.1 h
  obtain rfl : taken.1 = name := by simpa using List.find?_some hfind
  exact List.mem_of_find?_eq_some hfind

theorem exists_mem_of_claim {registry : Registry} {family name : String} {owner : Owner}
    {v : Violation} (h : registry.claim family name owner = .error v) :
    ∃ previous, (name, previous) ∈ registry ∧ .nameClash family name previous = v := by
  unfold claim at h
  cases howner : registry.owner? name with
  | none =>
    rw [howner] at h
    exact absurd h (by simp)
  | some previous =>
    rw [howner] at h
    exact ⟨previous, mem_of_owner? howner, Except.error.inj h⟩

/-- Taking several names stops at the first one that has an owner, be it one of those taken just
before. -/
theorem exists_mem_of_claimAll {registry : Registry} {family : String}
    {claims : List (String × Owner)} {v : Violation}
    (h : registry.claimAll family claims = .error v) :
    ∃ before name owner after previous, claims = before ++ (name, owner) :: after ∧
      (name, previous) ∈ before.reverse ++ registry ∧ .nameClash family name previous = v := by
  induction claims generalizing registry with
  | nil => exact absurd h (by simp [claimAll])
  | cons head claims ih =>
    obtain ⟨name, owner⟩ := head
    rw [claimAll, bind_eq_error_iff] at h
    rcases h with h | ⟨next, hnext, h⟩
    · obtain ⟨previous, hmem, hv⟩ := exists_mem_of_claim h
      exact ⟨[], name, owner, claims, previous, rfl, hmem, hv⟩
    · obtain ⟨-, rfl⟩ := claim_eq_ok_iff.1 hnext
      obtain ⟨before, name', owner', after, previous, rfl, hmem, hv⟩ := ih h
      refine ⟨(name, owner) :: before, name', owner', after, previous, rfl, ?_, hv⟩
      simpa using hmem

end Registry

/-! ## The first pass -/

namespace FamilyDeclaration

theorem notReserved_of_reserve {d : FamilyDeclaration} {earlier : List String}
    {registry : Registry} {v : Violation} (h : d.reserve earlier registry = .error v) :
    d.NotReserved earlier registry v := by
  -- the last check, behind those of the basename and of the result
  have hlast : (if d.basename ∈ earlier then .error (.duplicateFamily d.basename)
      else registry.claimAll d.basename d.claims : Except Violation Registry) = .error v →
      d.NotReserved earlier registry v := by
    intro h
    split at h
    · next hearlier =>
      obtain rfl := Except.error.inj h
      exact .duplicate hearlier
    · next hearlier =>
      obtain ⟨before, name, owner, after, previous, hsplit, hmem, rfl⟩ :=
        Registry.exists_mem_of_claimAll h
      exact .clash hearlier hsplit hmem
  unfold reserve at h
  rw [bind_eq_error_iff] at h
  rcases h with h | ⟨_, -, h⟩
  · obtain ⟨hid, rfl⟩ := requireIdentifier_eq_error_iff.1 h
    exact .identifier (by simp [headNames]) hid
  cases hresult : d.result with
  | none =>
    simp only [hresult, bind_eq_error_iff] at h
    rcases h with h | ⟨_, -, h⟩
    · exact absurd h (by simp)
    · exact hlast h
  | some result =>
    simp only [hresult, bind_eq_error_iff] at h
    rcases h with h | ⟨_, -, h⟩
    · obtain ⟨hid, rfl⟩ := requireIdentifier_eq_error_iff.1 h
      exact .identifier (by simp [headNames, hresult]) hid
    · exact hlast h

/-- The first pass stops at a family that is refused, when those before it have
taken their names. -/
theorem exists_notReserved_of_reserveAll {earlier : List String} {registry : Registry}
    {ds : List FamilyDeclaration} {v : Violation} (hn : registry.names.Nodup)
    (h : reserveAll earlier registry ds = .error v) :
    ∃ before d after, ds = before ++ d :: after ∧
      d.NotReserved (earlier ++ before.map (·.basename))
        ((before.flatMap claims).reverse ++ registry) v := by
  induction ds generalizing earlier registry with
  | nil => exact absurd h (by simp [reserveAll])
  | cons d ds ih =>
    rw [reserveAll, bind_eq_error_iff] at h
    rcases h with h | ⟨next, hnext, h⟩
    · refine ⟨[], d, ds, rfl, ?_⟩
      simpa using notReserved_of_reserve h
    · obtain ⟨-, -, hclaims⟩ := reserve_eq_ok_iff.1 hnext
      obtain ⟨rfl, hnodup⟩ := (Registry.claimAll_eq_ok_iff hn).1 hclaims
      obtain ⟨before, e, after, rfl, he⟩ := ih hnodup h
      refine ⟨d :: before, e, after, rfl, ?_⟩
      simpa using he

end FamilyDeclaration

/-! ## The second pass -/

namespace FieldDeclaration

theorem exists_mem_of_clash? {registry : Registry} {name : String} {previous : Owner}
    (h : clash? registry name = some previous) :
    (name, previous) ∈ registry ∧ previous.inParameters = true := by
  obtain ⟨howner, hparameters⟩ := Option.filter_eq_some_iff.1 h
  exact ⟨Registry.mem_of_owner? howner, hparameters⟩

theorem refused_of_load {scope : Scope} {registry : Registry} {variant : String}
    {seen : List String} {d : FieldDeclaration} {v : Violation}
    (h : d.load scope registry variant seen = .error v) :
    d.Refused scope registry variant seen v := by
  unfold load at h
  rw [bind_eq_error_iff] at h
  rcases h with h | ⟨_, -, h⟩
  · obtain ⟨hid, rfl⟩ := requireIdentifier_eq_error_iff.1 h
    exact .identifier hid
  cases hclash : clash? registry d.name with
  | some previous =>
    rw [hclash] at h
    obtain rfl := Except.error.inj h
    obtain ⟨hmem, hparameters⟩ := exists_mem_of_clash? hclash
    exact .clash hmem hparameters
  | none =>
    simp only [hclash] at h
    split at h
    · next hseen =>
      obtain rfl := Except.error.inj h
      exact .duplicate hseen
    · cases hresolve : scope.resolve d.type with
      | found type =>
        rw [hresolve] at h
        exact absurd h (by simp)
      | later family =>
        rw [hresolve] at h
        obtain rfl := Except.error.inj h
        exact .forward hresolve
      | unknown =>
        rw [hresolve] at h
        obtain rfl := Except.error.inj h
        exact .unknown hresolve

/-- The fields of a variant are read up to one that is refused. -/
theorem exists_refused_of_loadAll {scope : Scope} {registry : Registry} {variant : String}
    {seen : List String} {ds : List FieldDeclaration} {v : Violation}
    (h : loadAll scope registry variant seen ds = .error v) :
    ∃ before d after, ds = before ++ d :: after ∧
      d.Refused scope registry variant (seen ++ before.map (·.name)) v := by
  induction ds generalizing seen with
  | nil => exact absurd h (by simp [loadAll])
  | cons d ds ih =>
    simp only [loadAll, bind_eq_error_iff] at h
    rcases h with h | ⟨_, -, h | ⟨_, -, h⟩⟩
    · refine ⟨[], d, ds, rfl, ?_⟩
      simpa using refused_of_load h
    · obtain ⟨before, e, after, rfl, he⟩ := ih h
      refine ⟨d :: before, e, after, rfl, ?_⟩
      simpa using he
    · exact absurd h (by simp)

end FieldDeclaration

namespace VariantDeclaration

theorem refused_of_load {scope : Scope} {registry : Registry} {seen : List String}
    {d : VariantDeclaration} {v : Violation} (h : d.load scope registry seen = .error v) :
    d.Refused scope registry seen v := by
  unfold load at h
  rw [bind_eq_error_iff] at h
  rcases h with h | ⟨_, -, h⟩
  · obtain ⟨hid, rfl⟩ := requireIdentifier_eq_error_iff.1 h
    exact .identifier hid
  split at h
  · next hseen =>
    obtain rfl := Except.error.inj h
    exact .duplicate hseen
  · next hseen =>
    simp only [bind_eq_error_iff] at h
    rcases h with h | ⟨next, hnext, h | ⟨_, -, h⟩⟩
    · obtain ⟨previous, hmem, rfl⟩ := Registry.exists_mem_of_claim h
      exact .clash hseen hmem
    · obtain ⟨-, rfl⟩ := Registry.claim_eq_ok_iff.1 hnext
      obtain ⟨before, f, after, hsplit, hf⟩ := FieldDeclaration.exists_refused_of_loadAll h
      rw [List.nil_append] at hf
      exact .field hsplit hf
    · exact absurd h (by simp)

/-- The variants of a family are read up to one that is refused, when those before it have taken
their names. -/
theorem exists_refused_of_loadAll {scope : Scope} {registry : Registry} {seen : List String}
    {ds : List VariantDeclaration} {v : Violation} (hs : scope.Plain)
    (hn : registry.names.Nodup) (h : loadAll scope registry seen ds = .error v) :
    ∃ before d after, ds = before ++ d :: after ∧
      d.Refused scope ((before.map (claim scope.own)).reverse ++ registry)
        (seen ++ before.map (·.name)) v := by
  induction ds generalizing registry seen with
  | nil => exact absurd h (by simp [loadAll])
  | cons d ds ih =>
    simp only [loadAll, bind_eq_error_iff] at h
    rcases h with h | ⟨⟨variant, next⟩, hnext, h | ⟨_, -, h⟩⟩
    · refine ⟨[], d, ds, rfl, ?_⟩
      simpa using refused_of_load h
    · obtain ⟨-, -, -, rfl, hnodup, -⟩ := (load_eq_ok_iff hs hn).1 hnext
      obtain ⟨before, e, after, rfl, he⟩ := ih hnodup h
      refine ⟨d :: before, e, after, rfl, ?_⟩
      simpa using he
    · exact absurd h (by simp)

end VariantDeclaration

namespace FamilyDeclaration

theorem refused_of_load {scope : Scope} {registry : Registry} {d : FamilyDeclaration}
    {v : Violation} (hs : scope.Plain) (hn : registry.names.Nodup)
    (h : d.load scope registry = .error v) : d.Refused scope registry v := by
  unfold load at h
  split at h
  · next hempty =>
    obtain rfl := Except.error.inj h
    exact .empty hempty
  · simp only [bind_eq_error_iff] at h
    rcases h with h | ⟨_, -, h⟩
    · obtain ⟨before, e, after, hsplit, he⟩ :=
        VariantDeclaration.exists_refused_of_loadAll hs hn h
      exact .variant hsplit (by simpa using he)
    · exact absurd h (by simp)

/-- The second pass stops at a family that is refused, when the variants of those before it
have taken their names. -/
theorem exists_refused_of_loadAll {declared earlier : List String} {registry : Registry}
    {ds : List FamilyDeclaration} {v : Violation} (hn : registry.names.Nodup)
    (hnames : ∀ name ∈ earlier ++ ds.map (·.basename), TypeText.IsNodeName name)
    (hdistinct : (earlier ++ ds.map (·.basename)).Nodup)
    (h : loadAll declared earlier registry ds = .error v) :
    ∃ before d after, ds = before ++ d :: after ∧
      d.Refused { own := d.basename, earlier := earlier ++ before.map (·.basename), declared }
        ((before.flatMap variantClaims).reverse ++ registry) v := by
  induction ds generalizing earlier registry with
  | nil => exact absurd h (by simp [loadAll])
  | cons d ds ih =>
    have hs := Scope.plain_head declared hnames hdistinct
    rw [List.map_cons, List.append_cons] at hnames hdistinct
    simp only [loadAll, bind_eq_error_iff] at h
    rcases h with h | ⟨⟨family, next⟩, hnext, h | ⟨_, -, h⟩⟩
    · refine ⟨[], d, ds, rfl, ?_⟩
      simpa using refused_of_load hs hn h
    · obtain ⟨-, rfl, hnodup, -⟩ := (load_eq_ok_iff hs rfl hn).1 hnext
      obtain ⟨before, e, after, rfl, he⟩ := ih hnodup hnames hdistinct h
      refine ⟨d :: before, e, after, rfl, ?_⟩
      simpa using he
    · exact absurd h (by simp)

end FamilyDeclaration

namespace Catalogue

open FamilyDeclaration

/-- Loading stops in one of the passes, and if that is the second one, then the first one has
left families that can be told apart from one another and from the other types. -/
theorem refused_of_load {ds : List FamilyDeclaration} {v : Violation} (h : load ds = .error v) :
    (∃ before d after, ds = before ++ d :: after ∧
      d.NotReserved (before.map (·.basename))
        ((before.flatMap claims).reverse ++ Registry.initial) v) ∨
    ((∀ d ∈ ds, TypeText.IsNodeName d.basename) ∧ (ds.map (·.basename)).Nodup ∧
      ∃ before d after, ds = before ++ d :: after ∧
        d.Refused
          { own := d.basename, earlier := before.map (·.basename), declared := ds.map (·.basename) }
          ((before.flatMap variantClaims).reverse ++ reserved ds) v) := by
  have hinitial : Registry.initial.names.Nodup := by decide
  simp only [load, bind_eq_error_iff] at h
  rcases h with h | ⟨registry, hregistry, h | ⟨_, -, h⟩⟩
  · left
    obtain ⟨before, d, after, hsplit, hd⟩ := exists_notReserved_of_reserveAll hinitial h
    exact ⟨before, d, after, hsplit, hd⟩
  · right
    obtain ⟨hheads, rfl, hnodup⟩ :=
      (reserveAll_eq_ok_iff hinitial fun _ h => absurd h List.not_mem_nil).1 hregistry
    have hnames : ∀ d ∈ ds, TypeText.IsNodeName d.basename := fun d hd =>
      isNodeName_basename hnodup hd (hheads d hd _ (by simp [headNames]))
    refine ⟨hnames, basenames_nodup hnodup, ?_⟩
    exact exists_refused_of_loadAll hnodup (by simpa using hnames) (basenames_nodup hnodup) h
  · exact absurd h (by simp)

end Catalogue

end TreeHeaders
