import TreeHeaders.Catalogue.Owner

set_option autoImplicit false

/-!
# Violations

Why a list of declarations is no catalogue, in words for the author of the declarations.
-/

namespace TreeHeaders

/-- A rule of catalogues that a list of declarations breaks. -/
inductive Violation where
  /-- a family without variants, so there is nothing to dispatch to -/
  | emptyFamily (family : String)
  /-- two families of one basename -/
  | duplicateFamily (family : String)
  /-- two variants of one name in a family -/
  | duplicateVariant (family variant : String)
  /-- two fields of one name in a variant -/
  | duplicateField (family variant field : String)
  /-- a name that already has an owner in the generated namespace -/
  | nameClash (family name : String) (previous : Owner)
  /-- a field type, as written, that is no type -/
  | unknownType (family variant field type : String)
  /-- a field that refers to a family declared only afterwards -/
  | forwardReference (family variant field referenced : String)
  /-- a name that is no identifier -/
  | invalidIdentifier (family name : String)
  deriving DecidableEq, Repr, Inhabited

namespace Violation

/-- The violation in one sentence. -/
def message : Violation → String
  | .emptyFamily family => "family `" ++ family ++ "` declares no variants"
  | .duplicateFamily family => "family `" ++ family ++ "` is declared more than once"
  | .duplicateVariant family variant =>
    "variant `" ++ variant ++ "` is declared more than once in family `" ++ family ++ "`"
  | .duplicateField family variant field =>
    "field `" ++ field ++ "` is declared more than once in `" ++ family ++ "::" ++ variant ++ "`"
  | .nameClash family name previous =>
    "`" ++ name ++ "` in family `" ++ family ++ "` is already used by " ++ previous.describe
  | .unknownType family variant field type =>
    "field `" ++ field ++ "` in `" ++ family ++ "::" ++ variant ++ "` has unknown type `" ++ type ++
      "`"
  | .forwardReference family variant field referenced =>
    "field `" ++ field ++ "` in `" ++ family ++ "::" ++ variant ++ "` refers to `" ++ referenced ++
      "`, which is declared after `" ++ family ++ "`"
  | .invalidIdentifier family name =>
    "`" ++ name ++ "` in family `" ++ family ++ "` is not a valid identifier"

/-- The title over the sentence. -/
def title : Violation → String
  | .emptyFamily .. => "Empty Family"
  | .duplicateFamily .. => "Duplicate Family"
  | .duplicateVariant .. => "Duplicate Variant"
  | .duplicateField .. => "Duplicate Field"
  | .nameClash .. => "Name Clash"
  | .unknownType .. => "Unknown Type"
  | .forwardReference .. => "Forward Family Reference"
  | .invalidIdentifier .. => "Invalid Identifier"

/-- How to mend the declarations, where there is one way. -/
def suggestion? : Violation → Option String
  | .unknownType .. =>
    some ("types are `bool`, `number`, `string`, `null`, `Token`, a family name, or `[Family]` " ++
      "for a list of the family's own nodes")
  | .invalidIdentifier .. =>
    some ("names use letters, digits and `_`, don't start with a digit, and can't be a C++ " ++
      "keyword")
  | .forwardReference _ _ _ referenced =>
    some ("declare `" ++ referenced ++ "` before the families which use it")
  | _ => none

end Violation

end TreeHeaders
