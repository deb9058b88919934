import TreeHeaders.Proofs.Equivalence
import TreeHeaders.Proofs.Truthfulness

set_option autoImplicit false

/-!
# Giving a field another type

One field of declarations that load is given another type text. Whatever the text is, the
declarations can only be refused for it (`Admissible.refused_of_retype`): every other rule is
about names, and the names are as before. So the edited declarations load if the text can stand
where the field stands, with this one field changed (`Catalogue.load_retype`), and naming a
family declared later is reported as what it is (`Catalogue.load_retype_of_later`).

The main statement is about texts that name a family, with any blanks around. Every family can
be referred to, from itself and from every family behind it: no basename is taken for a
primitive or for the token type, and no other violation comes before a reference to a family
declared later (`Catalogue.every_family_can_be_named`).
-/

namespace TreeHeaders

/-! ## Changing one element of a list -/

section

variable {α β : Type}

theorem map_modify_of_eq {f : α → α} {g : α → β} (h : ∀ x, g (f x) = g x) (xs : List α) (i : Nat) :
    (xs.modify i f).map g = xs.map g := by
  refine List.ext_getElem? fun j => ?_
  rw [List.getElem?_map, List.getElem?_map, List.getElem?_modify]
  cases xs[j]? with
  | none => rfl
  | some x => by_cases hij : i = j <;> simp [hij, h]

theorem forall₂_modify {R : α → β → Prop} {f : α → α} {g : β → β} {xs : List α} {ys : List β}
    (h : List.Forall₂ R xs ys) (hfg : ∀ x y, R x y → R (f x) (g y)) (i : Nat) :
    List.Forall₂ R (xs.modify i f) (ys.modify i g) := by
  induction h generalizing i with
  | nil => simp
  | @cons x y xs ys hxy hrest ih =>
    cases i with
    | zero => exact .cons (hfg x y hxy) hrest
    | succ i => exact .cons hxy (ih i)

theorem exists_getElem?_of_forall₂ {R : α → β → Prop} {xs : List α} {ys : List β}
    (h : List.Forall₂ R xs ys) {i : Nat} {x : α} (hx : xs[i]? = some x) :
    ∃ y, ys[i]? = some y ∧ R x y := by
  obtain ⟨hlt, -⟩ := List.getElem?_eq_some_iff.1 hx
  rw [h.length_eq] at hlt
  have hy : ys[i]? = some ys[i] := List.getElem?_eq_getElem hlt
  exact ⟨ys[i], hy, rel_of_forall₂ h hx hy⟩

theorem mem_of_mem_modify {f : α → α} {xs : List α} {i : Nat} {y : α} (h : y ∈ xs.modify i f) :
    y ∈ xs ∨ ∃ x, xs[i]? = some x ∧ y = f x := by
  obtain ⟨j, hj⟩ := List.mem_iff_getElem?.1 h
  rw [List.getElem?_modify, Option.map_eq_map, Option.map_eq_some_iff] at hj
  obtain ⟨x, hx, rfl⟩ := hj
  split
  · next hij => exact Or.inr ⟨x, hij ▸ hx, rfl⟩
  · exact Or.inl (List.mem_of_getElem? hx)

end

/-! ## Fields by their positions -/

/-- Where a field stands: the positions of its family, of its variant in the
family, and its own. -/
structure FieldPosition where
  family : Nat
  variant : Nat
  field : Nat
  deriving DecidableEq, Repr, Inhabited

/-- At the position stands a field of a variant of a family of the declarations. -/
structure FieldPosition.Locates (position : FieldPosition) (ds : List FamilyDeclaration)
    (d : FamilyDeclaration) (e : VariantDeclaration) (f : FieldDeclaration) : Prop where
  family : ds[position.family]? = some d
  variant : d.variants[position.variant]? = some e
  field : e.fields[position.field]? = some f

/-- The field with another type text. -/
def FieldDeclaration.retype (d : FieldDeclaration) (text : String) : FieldDeclaration :=
  { d with type := text }

/-- The variant with another type text for one field. -/
def VariantDeclaration.retype (d : VariantDeclaration) (field : Nat) (text : String) :
    VariantDeclaration :=
  { d with fields := d.fields.modify field fun f => f.retype text }

/-- The family with another type text for one field. -/
def FamilyDeclaration.retype (d : FamilyDeclaration) (variant field : Nat) (text : String) :
    FamilyDeclaration :=
  { d with variants := d.variants.modify variant fun e => e.retype field text }

/-- The declarations with another type text for one field. -/
def FamilyDeclaration.retypeAll (position : FieldPosition) (text : String)
    (ds : List FamilyDeclaration) : List FamilyDeclaration :=
  ds.modify position.family fun d => d.retype position.variant position.field text

/-- The field with another type. -/
def Field.retype (field : Field) (type : FieldType) : Field :=
  { field with type }

/-- The variant with another type for one field. -/
def Variant.retype (variant : Variant) (field : Nat) (type : FieldType) : Variant :=
  { variant with fields := variant.fields.modify field fun f => f.retype type }

/-- The family with another type for one field. -/
def Family.retype (family : Family) (variant field : Nat) (type : FieldType) : Family :=
  { family with variants := family.variants.modify variant fun v => v.retype field type }

namespace Catalogue

/-- The catalogue with another type for one field. -/
def retype (c : Catalogue) (position : FieldPosition) (type : FieldType) : Catalogue where
  families :=
    c.families.modify position.family fun family =>
      family.retype position.variant position.field type

/-- The field at a position. -/
def field? (c : Catalogue) (position : FieldPosition) : Option Field := do
  let family ← c.families[position.family]?
  let variant ← family.variants[position.variant]?
  variant.fields[position.field]?

/-- Only the type of the field is changed. -/
theorem field?_retype (c : Catalogue) (position : FieldPosition) (type : FieldType) :
    (c.retype position type).field? position =
      (c.field? position).map fun field => field.retype type := by
  simp only [field?, retype, Family.retype, Variant.retype, List.getElem?_modify_eq,
    Option.map_eq_map, Option.bind_eq_bind, Option.bind_map, Option.map_bind, Function.comp_def]

end Catalogue

/-! ## What does not depend on types -/

/-- The field without its type. -/
def FieldDeclaration.untyped (d : FieldDeclaration) : FieldDeclaration :=
  { d with type := "" }

/-- The variant without the types of its fields. -/
def VariantDeclaration.untyped (d : VariantDeclaration) : VariantDeclaration :=
  { d with fields := d.fields.map FieldDeclaration.untyped }

/-- The family without the types of its fields. -/
def FamilyDeclaration.untyped (d : FamilyDeclaration) : FamilyDeclaration :=
  { d with variants := d.variants.map VariantDeclaration.untyped }

namespace FieldDeclaration

@[simp]
theorem name_untyped (d : FieldDeclaration) : d.untyped.name = d.name := rfl

theorem untyped_retype (d : FieldDeclaration) (text : String) :
    (d.retype text).untyped = d.untyped := rfl

end FieldDeclaration

namespace VariantDeclaration

@[simp]
theorem name_untyped (d : VariantDeclaration) : d.untyped.name = d.name := rfl

@[simp]
theorem fields_untyped (d : VariantDeclaration) :
    d.untyped.fields = d.fields.map FieldDeclaration.untyped := rfl

theorem untyped_retype (d : VariantDeclaration) (field : Nat) (text : String) :
    (d.retype field text).untyped = d.untyped := by
  have hfields : (d.retype field text).fields.map FieldDeclaration.untyped =
      d.fields.map FieldDeclaration.untyped :=
    map_modify_of_eq (fun f => f.untyped_retype text) d.fields field
  rw [untyped, hfields]
  rfl

end VariantDeclaration

namespace FamilyDeclaration

variable {ds : List FamilyDeclaration} {d : FamilyDeclaration}

@[simp]
theorem basename_untyped (d : FamilyDeclaration) : d.untyped.basename = d.basename := rfl

@[simp]
theorem result_untyped (d : FamilyDeclaration) : d.untyped.result = d.result := rfl

@[simp]
theorem variants_untyped (d : FamilyDeclaration) :
    d.untyped.variants = d.variants.map VariantDeclaration.untyped := rfl

theorem untyped_retype (d : FamilyDeclaration) (variant field : Nat) (text : String) :
    (d.retype variant field text).untyped = d.untyped := by
  have hvariants : (d.retype variant field text).variants.map VariantDeclaration.untyped =
      d.variants.map VariantDeclaration.untyped :=
    map_modify_of_eq (fun e => e.untyped_retype field text) d.variants variant
  rw [untyped, hvariants]
  rfl

theorem map_untyped_retypeAll (position : FieldPosition) (text : String)
    (ds : List FamilyDeclaration) :
    (retypeAll position text ds).map untyped = ds.map untyped :=
  map_modify_of_eq (fun d => d.untyped_retype _ _ text) ds position.family

theorem map_basename_retypeAll (position : FieldPosition) (text : String)
    (ds : List FamilyDeclaration) :
    (retypeAll position text ds).map (·.basename) = ds.map (·.basename) := by
  have hbasename := congrArg (List.map (·.basename)) (map_untyped_retypeAll position text ds)
  simpa [Function.comp_def] using hbasename

theorem authoredNames_untyped (d : FamilyDeclaration) :
    d.untyped.authoredNames = d.authoredNames := by
  simp [authoredNames, List.flatMap_map, Function.comp_def]

theorem generates_untyped_iff {name : String} {owner : Owner} :
    d.untyped.Generates name owner ↔ d.Generates name owner := by
  simp [generates_iff, claims, variantClaims, VariantDeclaration.claim]

theorem has_untyped_iff {name : String} {owner : Owner} :
    owner.Has (ds.map untyped) name ↔ owner.Has ds name := by
  simp [← mem_taken_iff, taken, reserved, claims, variantClaims, VariantDeclaration.claim,
    List.flatMap_map, Function.comp_def]

end FamilyDeclaration

/-- The violation is one of names, whatever the types of fields are. -/
def Violation.IsOfNames : Violation → Prop
  | .unknownType .. | .forwardReference .. => False
  | _ => True

/-- Whether a violation of names is true does not depend on the types of fields. -/
theorem Violation.isTrue_untyped_iff {ds : List FamilyDeclaration} {v : Violation}
    (h : v.IsOfNames) : v.IsTrue (ds.map FamilyDeclaration.untyped) ↔ v.IsTrue ds := by
  cases v with
  | unknownType => exact h.elim
  | forwardReference => exact h.elim
  | emptyFamily family => simp [IsTrue]
  | duplicateFamily family => simp [IsTrue, Function.comp_def]
  | duplicateVariant family variant => simp [IsTrue, Function.comp_def]
  | duplicateField family variant field => simp [IsTrue, Function.comp_def]
  | nameClash family name previous =>
    simp [IsTrue, FamilyDeclaration.has_untyped_iff, FamilyDeclaration.generates_untyped_iff]
  | invalidIdentifier family name => simp [IsTrue, FamilyDeclaration.authoredNames_untyped]

/-! ## What can be refused -/

section

variable {ds : List FamilyDeclaration} {d : FamilyDeclaration} {e : VariantDeclaration}
  {f : FieldDeclaration} {position : FieldPosition} {text : String}

namespace FieldPosition.Locates

theorem retype (h : position.Locates ds d e f) (text : String) :
    position.Locates (FamilyDeclaration.retypeAll position text ds)
      (d.retype position.variant position.field text) (e.retype position.field text)
      (f.retype text) where
  family := by simp [FamilyDeclaration.retypeAll, h.family]
  variant := by simp [FamilyDeclaration.retype, h.variant]
  field := by simp [VariantDeclaration.retype, h.field]

/-- The retyped family declares what it declared before, and the field with its new text. -/
theorem declares_retype (h : position.Locates ds d e f) {variant field type : String}
    (hdeclares : (d.retype position.variant position.field text).Declares variant field type) :
    d.Declares variant field type ∨ variant = e.name ∧ field = f.name ∧ type = text := by
  obtain ⟨e', he', rfl, f', hf', rfl, rfl⟩ := hdeclares
  rcases mem_of_mem_modify he' with he' | ⟨e₀, he₀, rfl⟩
  · exact Or.inl ⟨e', he', rfl, f', hf', rfl, rfl⟩
  · obtain rfl : e = e₀ := Option.some.inj (h.variant.symm.trans he₀)
    rcases mem_of_mem_modify hf' with hf' | ⟨f₀, hf₀, rfl⟩
    · exact Or.inl ⟨e, List.mem_of_getElem? he₀, rfl, f', hf', rfl, rfl⟩
    · obtain rfl : f = f₀ := Option.some.inj (h.field.symm.trans hf₀)
      exact Or.inr ⟨rfl, rfl, rfl⟩

/-- Wherever the retyped declarations declare something, they did so before, but
for the one field. -/
theorem exists_declares (h : position.Locates ds d e f) {i : Nat} {d' : FamilyDeclaration}
    (hi : (FamilyDeclaration.retypeAll position text ds)[i]? = some d')
    {variant field type : String} (hdeclares : d'.Declares variant field type) :
    ∃ d₀, ds[i]? = some d₀ ∧ d₀.basename = d'.basename ∧ (d₀.Declares variant field type ∨
      i = position.family ∧ variant = e.name ∧ field = f.name ∧ type = text) := by
  rw [FamilyDeclaration.retypeAll, List.getElem?_modify, Option.map_eq_map,
    Option.map_eq_some_iff] at hi
  obtain ⟨d₀, hd₀, rfl⟩ := hi
  split at hdeclares
  · next hfamily =>
    subst hfamily
    obtain rfl : d = d₀ := Option.some.inj (h.family.symm.trans hd₀)
    rw [if_pos rfl]
    refine ⟨d, hd₀, rfl, (h.declares_retype hdeclares).imp_right fun hfield => ⟨rfl, hfield⟩⟩
  · next hfamily =>
    rw [if_neg hfamily]
    exact ⟨d₀, hd₀, rfl, Or.inl hdeclares⟩

end FieldPosition.Locates

/-- Where one field of admissible declarations is given another text, only that field can break
a rule: its text stands for no type at all, or for a family declared only afterwards. -/
theorem Admissible.refused_of_retype (h : Admissible ds) (hp : position.Locates ds d e f)
    {v : Violation} (hv : v.IsTrue (FamilyDeclaration.retypeAll position text ds)) :
    (v = .unknownType d.basename e.name f.name text ∧
      ∀ type : FieldType, ¬ type.IsSpelled d.basename (ds.map (·.basename)) (Text.trim text)) ∨
    (v = .forwardReference d.basename e.name f.name (Text.trim text) ∧
      ∃ j later, position.family < j ∧ ds[j]? = some later ∧ Text.trim text = later.basename) := by
  have hnames := FamilyDeclaration.map_basename_retypeAll position text ds
  have hold : ¬ v.IsTrue ds := h.not_isTrue v
  by_cases hkind : v.IsOfNames
  · rw [← Violation.isTrue_untyped_iff hkind, FamilyDeclaration.map_untyped_retypeAll,
      Violation.isTrue_untyped_iff hkind] at hv
    exact absurd hv hold
  · cases v with
    | unknownType family variant field type =>
      obtain ⟨d', hd', rfl, hdeclares, hspelled⟩ := hv
      obtain ⟨i, hi⟩ := List.mem_iff_getElem?.1 hd'
      obtain ⟨d₀, hd₀, hbasename, hdeclared | ⟨rfl, rfl, rfl, rfl⟩⟩ :=
        hp.exists_declares hi hdeclares
      · rw [hnames] at hspelled
        exact absurd ⟨d₀, List.mem_of_getElem? hd₀, hbasename, hdeclared, hspelled⟩ hold
      · obtain rfl : d = d₀ := Option.some.inj (hp.family.symm.trans hd₀)
        rw [hnames, ← hbasename] at hspelled
        exact Or.inl ⟨by rw [hbasename], hspelled⟩
    | forwardReference family variant field referenced =>
      obtain ⟨i, j, d', type, hij, hi, rfl, hdeclares, htrim, hj⟩ := hv
      rw [hnames] at hj
      obtain ⟨d₀, hd₀, hbasename, hdeclared | ⟨rfl, rfl, rfl, rfl⟩⟩ :=
        hp.exists_declares hi hdeclares
      · exact absurd ⟨i, j, d₀, type, hij, hd₀, hbasename, hdeclared, htrim, hj⟩ hold
      · obtain rfl : d = d₀ := Option.some.inj (hp.family.symm.trans hd₀)
        rw [List.getElem?_map, Option.map_eq_some_iff] at hj
        obtain ⟨later, hlater, hname⟩ := hj
        exact Or.inr ⟨by rw [hbasename, htrim], j, later, hij, hlater, htrim.trans hname.symm⟩
    | _ => exact absurd trivial hkind

end

/-! ## What the retyped declarations denote -/

theorem FieldDeclaration.Denotes.retype {own : String} {earlier : List String}
    {d : FieldDeclaration} {field : Field} (h : d.Denotes own earlier field) {type : FieldType}
    {text : String} (htype : type.IsSpelled own earlier (Text.trim text)) :
    (d.retype text).Denotes own earlier (field.retype type) where
  name := h.name
  type := htype

theorem VariantDeclaration.Denotes.retype {own : String} {earlier : List String}
    {d : VariantDeclaration} {variant : Variant} (h : d.Denotes own earlier variant)
    {type : FieldType} {text : String} (htype : type.IsSpelled own earlier (Text.trim text))
    (field : Nat) : (d.retype field text).Denotes own earlier (variant.retype field type) where
  name := h.name
  fields := forall₂_modify h.fields (fun _ _ hfield => hfield.retype htype) field

namespace FamilyDeclaration

theorem Denotes.retype {earlier : List String} {d : FamilyDeclaration} {family : Family}
    (h : d.Denotes earlier family) {type : FieldType} {text : String}
    (htype : type.IsSpelled d.basename earlier (Text.trim text)) (variant field : Nat) :
    (d.retype variant field text).Denotes earlier (family.retype variant field type) where
  basename := h.basename
  contract := h.contract
  rendersText := h.rendersText
  variants := forall₂_modify h.variants (fun _ _ hvariant => hvariant.retype htype field) variant

/-- The families that are denoted change in the one field, if its new text stands
for the new type there. -/
theorem DenotesAll.retype {earlier : List String} {ds : List FamilyDeclaration}
    {families : List Family} (h : DenotesAll earlier ds families) {i : Nat} {d : FamilyDeclaration}
    (hi : ds[i]? = some d) {type : FieldType} {text : String}
    (htype : type.IsSpelled d.basename (earlier ++ (ds.take i).map (·.basename)) (Text.trim text))
    (variant field : Nat) :
    DenotesAll earlier (ds.modify i fun d => d.retype variant field text)
      (families.modify i fun family => family.retype variant field type) := by
  induction h generalizing i with
  | nil => simp at hi
  | cons head tail ih =>
    cases i with
    | zero =>
      obtain rfl := Option.some.inj hi
      exact .cons (head.retype (by simpa using htype) variant field) tail
    | succ i => exact .cons head (ih (by simpa using hi) (by simpa using htype))

end FamilyDeclaration

namespace Catalogue

variable {ds : List FamilyDeclaration} {c : Catalogue} {d : FamilyDeclaration}
  {e : VariantDeclaration} {f : FieldDeclaration} {position : FieldPosition} {text : String}

theorem isTrue_of_load {v : Violation} (h : load ds = .error v) : v.IsTrue ds := by
  rcases refused_of_load h with ⟨before, d, after, rfl, hd⟩ | ⟨hnames, hdistinct, hsecond⟩
  · exact hd.isTrue
  · obtain ⟨before, d, after, rfl, hd⟩ := hsecond
    exact hd.isTrue hnames hdistinct

/-- A field may be given any text that can stand where it stands, and nothing else changes. -/
theorem load_retype (h : load ds = .ok c) (hp : position.Locates ds d e f) {type : FieldType}
    (htype : type.IsSpelled d.basename ((ds.take position.family).map (·.basename))
      (Text.trim text)) :
    load (FamilyDeclaration.retypeAll position text ds) = .ok (c.retype position type) := by
  obtain ⟨hadmissible, hdenotes⟩ := load_eq_ok_iff.1 h
  cases hload : load (FamilyDeclaration.retypeAll position text ds) with
  | ok c' =>
    obtain ⟨hretyped, -⟩ := load_eq_ok_iff.1 hload
    rw [← hload]
    exact load_eq_ok_iff.2 ⟨hretyped, hdenotes.retype hp.family (by simpa using htype) _ _⟩
  | error v =>
    rcases hadmissible.refused_of_retype hp (isTrue_of_load hload) with
      ⟨-, hunknown⟩ | ⟨-, j, later, hlt, hlater, htrim⟩
    · refine absurd (htype.rescope ?_) (hunknown type)
      rintro name rfl
      obtain ⟨g, hg, rfl⟩ := List.mem_map.1 htype.1
      exact List.mem_map_of_mem (List.mem_of_mem_take hg)
    · rw [htrim] at htype
      exact absurd htype (hadmissible.not_isSpelled_later hlt hp.family hlater type)

/-- A text that names a family declared later is reported, and nothing else is. -/
theorem load_retype_of_later (h : load ds = .ok c) (hp : position.Locates ds d e f) {j : Nat}
    {later : FamilyDeclaration} (hlt : position.family < j) (hj : ds[j]? = some later)
    (htrim : Text.trim text = later.basename) :
    load (FamilyDeclaration.retypeAll position text ds) =
      .error (.forwardReference d.basename e.name f.name later.basename) := by
  obtain ⟨hadmissible, -⟩ := load_eq_ok_iff.1 h
  cases hload : load (FamilyDeclaration.retypeAll position text ds) with
  | ok c' =>
    -- the retyped declarations would be admissible, so the text would stand for a type
    obtain ⟨hretyped, -⟩ := load_eq_ok_iff.1 hload
    obtain ⟨hfamily, hvariant, hfield⟩ := hp.retype text
    obtain ⟨type, htype⟩ := hretyped.types _ _ hfamily _ (List.mem_of_getElem? hvariant) _
      (List.mem_of_getElem? hfield)
    rw [List.map_take, FamilyDeclaration.map_basename_retypeAll, ← List.map_take] at htype
    have hspelled : type.IsSpelled d.basename ((ds.take position.family).map (·.basename))
        later.basename := htrim ▸ htype
    exact absurd hspelled (hadmissible.not_isSpelled_later hlt hp.family hj type)
  | error v =>
    rcases hadmissible.refused_of_retype hp (isTrue_of_load hload) with ⟨-, hunknown⟩ | ⟨rfl, -⟩
    · refine absurd ?_ (hunknown (.foreignChild later.basename))
      exact ⟨List.mem_map_of_mem (List.mem_of_getElem? hj), htrim⟩
    · rw [htrim]

/-- Loading keeps every field at its position, under its name. -/
theorem exists_field? (h : load ds = .ok c) (hp : position.Locates ds d e f) :
    ∃ type, c.field? position = some { type, name := f.name } := by
  obtain ⟨-, hdenotes⟩ := load_eq_ok_iff.1 h
  obtain ⟨family, hfamily, hd⟩ := hdenotes.exists_getElem? hp.family
  obtain ⟨variant, hvariant, he⟩ := exists_getElem?_of_forall₂ hd.variants hp.variant
  obtain ⟨field, hfield, hf⟩ := exists_getElem?_of_forall₂ he.fields hp.field
  refine ⟨field.type, ?_⟩
  simp [field?, hfamily, hvariant, hfield, ← hf.name]

/-- Take declarations that load, and write the basename of one of the families, with any
blanks around, as the type of any field. If the field belongs to that family, then the
declarations load with it as a child of its own family, and if it belongs to a family behind
that one, as a child of the named family; nothing else in the catalogue changes. If it
belongs to a family before that one, then the reference to a later family is reported, of
this field and with this name. -/
theorem every_family_can_be_named (h : load ds = .ok c) (hp : position.Locates ds d e f) {i : Nat}
    {named : FamilyDeclaration} (hi : ds[i]? = some named) {left right : String}
    (hl : Text.Blank left) (hr : Text.Blank right) :
    (i = position.family →
      load (FamilyDeclaration.retypeAll position (left ++ named.basename ++ right) ds) =
          .ok (c.retype position .child) ∧
        (c.retype position .child).field? position = some { type := .child, name := f.name }) ∧
    (i < position.family →
      load (FamilyDeclaration.retypeAll position (left ++ named.basename ++ right) ds) =
          .ok (c.retype position (.foreignChild named.basename)) ∧
        (c.retype position (.foreignChild named.basename)).field? position =
          some { type := .foreignChild named.basename, name := f.name }) ∧
    (position.family < i →
      load (FamilyDeclaration.retypeAll position (left ++ named.basename ++ right) ds) =
        .error (.forwardReference d.basename e.name f.name named.basename)) := by
  obtain ⟨hadmissible, -⟩ := load_eq_ok_iff.1 h
  have hname := hadmissible.isNodeName_basename (List.mem_of_getElem? hi)
  have htrim : Text.trim (left ++ named.basename ++ right) = named.basename :=
    (Text.trim_eq_iff hname.identifier).2 ⟨left, right, hl, hr, rfl⟩
  obtain ⟨old, hold⟩ := exists_field? h hp
  have hfield : ∀ type, (c.retype position type).field? position =
      some { type, name := f.name } := by
    intro type
    rw [field?_retype, hold]
    rfl
  refine ⟨?_, ?_, fun hlt => load_retype_of_later h hp hlt hi htrim⟩
  · rintro rfl
    obtain rfl : d = named := Option.some.inj (hp.family.symm.trans hi)
    exact ⟨load_retype h hp htrim, hfield _⟩
  · intro hlt
    have hearlier : named ∈ ds.take position.family := by
      refine List.mem_of_getElem? (i := i) ?_
      rw [List.getElem?_take_of_lt hlt, hi]
    refine ⟨load_retype h hp ⟨List.mem_map_of_mem hearlier, htrim⟩, hfield _⟩

/-- Expressions, statements and declarations, of which each family holds nodes of
the one before. -/
def threeLayers : List FamilyDeclaration :=
  [{ basename := "Expr",
     variants := [{ name := "Literal", fields := [{ type := "number", name := "value" }] }] },
   { basename := "Stmt",
     variants := [{ name := "Print", fields := [{ type := "Expr", name := "value" }] }] },
   { basename := "Decl",
     variants := [{ name := "Main", fields := [{ type := "Stmt", name := "body" }] }] }]

/-- Where the printed value stands. -/
def printedValue : FieldPosition where
  family := 1
  variant := 0
  field := 0

theorem isOk_load_threeLayers : (load threeLayers).isOk = true := by decide +kernel

/-- A statement can print a statement or an expression, but not a declaration. -/
theorem printedValue_names_layers :
    ∃ c d e f, load threeLayers = .ok c ∧ printedValue.Locates threeLayers d e f ∧
      Text.Blank "\u2003" ∧ Text.Blank "\t\n" ∧
      load (FamilyDeclaration.retypeAll printedValue "\u2003Stmt\t\n" threeLayers) =
        .ok (c.retype printedValue .child) ∧
      load (FamilyDeclaration.retypeAll printedValue "\u2003Expr\t\n" threeLayers) =
        .ok (c.retype printedValue (.foreignChild "Expr")) ∧
      load (FamilyDeclaration.retypeAll printedValue "\u2003Decl\t\n" threeLayers) =
        .error (.forwardReference "Stmt" "Print" "value" "Decl") := by
  obtain ⟨c, hc, -⟩ := exists_load_of_isOk isOk_load_threeLayers
  have hp : printedValue.Locates threeLayers _ _ _ := ⟨rfl, rfl, rfl⟩
  have hleft : Text.Blank "\u2003" := List.all_eq_true.1 (by decide)
  have hright : Text.Blank "\t\n" := List.all_eq_true.1 (by decide)
  obtain ⟨howned, -, -⟩ := every_family_can_be_named hc hp (i := 1) rfl hleft hright
  obtain ⟨-, hforeign, -⟩ := every_family_can_be_named hc hp (i := 0) rfl hleft hright
  obtain ⟨-, -, hlater⟩ := every_family_can_be_named hc hp (i := 2) rfl hleft hright
  exact ⟨c, _, _, _, hc, hp, hleft, hright, (howned rfl).1, (hforeign (by decide)).1,
    hlater (by decide)⟩

end Catalogue

end TreeHeaders
