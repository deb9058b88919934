set_option autoImplicit false

/-!
# Declarations

The authored form of a catalogue, as written by hand or read from a document. Field types are
still text; they are resolved when the catalogue is loaded.
-/

namespace TreeHeaders

/-- A field as authored. -/
structure FieldDeclaration where
  /-- the type, as written -/
  type : String
  name : String
  deriving DecidableEq, Repr, Inhabited

/-- A node variant as authored, its fields in member order. -/
structure VariantDeclaration where
  name : String
  fields : List FieldDeclaration := []
  deriving DecidableEq, Repr, Inhabited

/-- A family of node variants as authored. -/
structure FamilyDeclaration where
  /-- the name of the abstract base type -/
  basename : String
  /-- the result type that visits produce; without one, visits only have effects -/
  result : Option String := none
  /-- can nodes also be visited to render them as text? -/
  render : Bool := false
  variants : List VariantDeclaration := []
  deriving DecidableEq, Repr, Inhabited

end TreeHeaders
