import TreeHeaders.Naming

set_option autoImplicit false

/-!
# Owners of names

All headers of a catalogue declare their names in one namespace, so a name has at most one
owner. The registry remembers who took which name.
-/

namespace TreeHeaders

/-- What a name in the generated namespace stands for. -/
inductive Owner where
  /-- the token type -/
  | tokenType
  /-- the namespace of the standard library -/
  | standardLibrary
  /-- the abstract base of a family -/
  | family (basename : String)
  /-- the handle type of a family -/
  | handle (family : String)
  /-- the list type of a family -/
  | list (family : String)
  /-- the visitor namespace of a family -/
  | visitorNamespace (family : String)
  /-- the result type of a family -/
  | result (family : String)
  /-- a variant of a family -/
  | variant (family name : String)
  deriving DecidableEq, Repr, Inhabited

namespace Owner

/-- The owner in words. -/
def describe : Owner → String
  | .tokenType => "the token type"
  | .standardLibrary => "the standard library namespace"
  | .family base => "family `" ++ base ++ "`"
  | .handle base => "the handle type of `" ++ base ++ "`"
  | .list base => "the list type of `" ++ base ++ "`"
  | .visitorNamespace base => "the visitor namespace of `" ++ base ++ "`"
  | .result base => "the result type of `" ++ base ++ "`"
  | .variant base name => "`" ++ base ++ "::" ++ name ++ "`"

/-- Is the name used in the types of constructor parameters, so that no parameter
can take it? -/
def inParameters : Owner → Bool
  | .tokenType | .standardLibrary | .handle _ | .list _ => true
  | _ => false

end Owner

/-- The names taken so far, the latest first. -/
abbrev Registry := List (String × Owner)

namespace Registry

/-- The names that are taken before any family is declared. -/
def initial : Registry :=
  [(tokenName, .tokenType), ("std", .standardLibrary)]

/-- Who took the name? -/
def owner? (registry : Registry) (name : String) : Option Owner :=
  (registry.find? fun taken => taken.1 == name).map (·.2)

/-- The names that are taken. -/
def names (registry : Registry) : List String :=
  registry.map (·.1)

theorem owner?_eq_none_iff {registry : Registry} {name : String} :
    registry.owner? name = none ↔ name ∉ registry.names := by
  simp only [owner?, names, Option.map_eq_none_iff, List.find?_eq_none, List.mem_map, beq_iff_eq]
  constructor
  · rintro h ⟨taken, hm, rfl⟩
    exact h taken hm rfl
  · intro h taken hm he
    exact h ⟨taken, hm, he⟩

end Registry

end TreeHeaders
