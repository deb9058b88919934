set_option autoImplicit false

/-!
# Field types

The closed set of things a field of a node can hold: a primitive value, a token, or child nodes
that the node owns alone.
-/

namespace TreeHeaders

/-- A value copied into a node as it is. -/
inductive Primitive where
  /-- either `true` or `false` -/
  | boolean
  /-- a double precision number -/
  | number
  /-- an owned string of text -/
  | text
  /-- the null value -/
  | null
  deriving DecidableEq, Repr, Inhabited

namespace Primitive

/-- Every primitive, in the order in which they appear in a result type. -/
def all : List Primitive :=
  [.boolean, .number, .text, .null]

theorem mem_all (p : Primitive) : p ∈ all := by
  cases p <;> decide

/-- The name of the primitive in a schema. -/
def keyword : Primitive → String
  | .boolean => "bool"
  | .number => "number"
  | .text => "string"
  | .null => "null"

/-- The primitive with the given name in a schema. -/
def ofKeyword? (word : String) : Option Primitive :=
  all.find? fun p => p.keyword == word

theorem ofKeyword?_eq_some_iff {word : String} {p : Primitive} :
    ofKeyword? word = some p ↔ word = p.keyword := by
  constructor
  · intro h
    have := List.find?_some h
    exact (beq_iff_eq.1 this).symm
  · rintro rfl
    cases p <;> decide

end Primitive

/-- The name of the token type, in a schema and in a header. -/
def tokenName : String := "Token"

/-- What a field holds. -/
inductive FieldType where
  /-- a primitive value -/
  | primitive (p : Primitive)
  /-- a lexical token -/
  | token
  /-- a child node of the same family -/
  | child
  /-- a child node of another, earlier family -/
  | foreignChild (family : String)
  /-- a list of child nodes of the same family -/
  | children
  deriving DecidableEq, Repr, Inhabited

namespace FieldType

/-- Does the node take sole ownership of other nodes through the field? -/
def isOwned : FieldType → Bool
  | .child | .foreignChild _ | .children => true
  | .primitive _ | .token => false

/-- The other family whose node the field holds. -/
def foreignFamily? : FieldType → Option String
  | .foreignChild family => some family
  | _ => none

/-- The type in words. -/
def describe : FieldType → String
  | .primitive p => p.keyword
  | .token => tokenName
  | .child => "owned node"
  | .foreignChild family => "owned " ++ family
  | .children => "list of owned nodes"

end FieldType

end TreeHeaders
