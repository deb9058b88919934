import TreeHeaders.FieldType

set_option autoImplicit false

/-!
# Catalogues

The validated form of a list of declarations, in dependency order: a family can only hold nodes
of itself and of the families before it.
-/

namespace TreeHeaders

/-- What a visit to a node of the family produces. -/
inductive Contract where
  /-- visits are only run for their effects -/
  | effect
  /-- visits produce a value of the named result type -/
  | value (result : String)
  deriving DecidableEq, Repr, Inhabited

/-- A field of a variant; its name is unique within the variant. -/
structure Field where
  type : FieldType
  name : String
  deriving DecidableEq, Repr, Inhabited

/-- One concrete alternative of a family, its fields in declaration order. -/
structure Variant where
  name : String
  fields : List Field
  deriving DecidableEq, Repr, Inhabited

/-- A group of variants that share an abstract base and a contract. -/
structure Family where
  /-- the name of the abstract base type -/
  basename : String
  contract : Contract
  /-- can nodes also be visited to render them as text? -/
  rendersText : Bool
  /-- the variants, in declaration order -/
  variants : List Variant
  deriving DecidableEq, Repr, Inhabited

/-- An ordered set of families. -/
structure Catalogue where
  /-- the families, in dependency order -/
  families : List Family
  deriving DecidableEq, Repr, Inhabited

/-! ## Queries -/

/-- The texts without repetitions, each where it occurs first. -/
def firstUses : List String → List String
  | [] => []
  | x :: xs => x :: (firstUses xs).filter (· != x)

theorem mem_firstUses {x : String} {xs : List String} : x ∈ firstUses xs ↔ x ∈ xs := by
  induction xs with
  | nil => simp [firstUses]
  | cons y ys ih =>
    by_cases h : x = y
    · simp [firstUses, h]
    · simp [firstUses, h, ih]

theorem nodup_firstUses (xs : List String) : (firstUses xs).Nodup := by
  induction xs with
  | nil => simp [firstUses]
  | cons y ys ih =>
    simp only [firstUses, List.nodup_cons, List.mem_filter]
    exact ⟨by simp, ih.filter _⟩

namespace Family

/-- The variant of the given name. -/
def variant? (family : Family) (name : String) : Option Variant :=
  family.variants.find? fun variant => variant.name == name

/-- All fields of all variants, in order. -/
def fields (family : Family) : List Field :=
  family.variants.flatMap Variant.fields

/-- The other families whose nodes are held by this one, in order of first use. -/
def references (family : Family) : List String :=
  firstUses (family.fields.filterMap fun field => field.type.foreignFamily?)

/-- Does any variant hold a token? -/
def usesToken (family : Family) : Bool :=
  family.fields.any fun field => field.type == .token

/-- The same name, contract and rendering, and the same variants in any order. -/
def equivalent (left right : Family) : Bool :=
  left.basename == right.basename && left.contract == right.contract &&
    left.rendersText == right.rendersText &&
    left.variants.length == right.variants.length &&
    left.variants.all fun variant => right.variant? variant.name == some variant

end Family

namespace Catalogue

/-- The family of the given basename. -/
def family? (catalogue : Catalogue) (basename : String) : Option Family :=
  catalogue.families.find? fun family => family.basename == basename

/-- The same families in the same order, where the order of variants does not count. -/
def equivalent (left right : Catalogue) : Bool :=
  left.families.isEqv right.families Family.equivalent

end Catalogue

end TreeHeaders
