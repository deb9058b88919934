import TreeHeaders.Catalogue.Basic
import TreeHeaders.Line
import TreeHeaders.Naming

set_option autoImplicit false

/-!
# Visitors

The visitor of a family is an interface, generic over the result type, with one dispatch method
per variant. It lives in a namespace of its own.
-/

namespace TreeHeaders

/-- A pure virtual method of a visitor, for the nodes of one variant. -/
structure DispatchMethod where
  name : String
  variant : String
  deriving DecidableEq, Repr, Inhabited

/-- The visitor of a family. -/
structure Visitor where
  /-- the namespace in which the visitor is declared -/
  namespaceName : String
  /-- one method per variant, in variant order -/
  methods : List DispatchMethod
  deriving DecidableEq, Repr, Inhabited

namespace Family

/-- The dispatch method for a variant of the family. -/
def dispatchMethod (family : Family) (variant : Variant) : DispatchMethod where
  name := Naming.dispatchMethod variant.name family.basename
  variant := variant.name

/-- The visitor of the family. -/
def visitor (family : Family) : Visitor where
  namespaceName := Naming.visitorNamespace family.basename
  methods := family.variants.map family.dispatchMethod

/-- The result types for which the nodes of the family can be visited, that of
the contract first. -/
def results (family : Family) : List String :=
  let primary :=
    match family.contract with
    | .effect => Naming.noResult
    | .value result => result
  if family.rendersText then [primary, Naming.renderedText] else [primary]

end Family

namespace Visitor

/-- The lines inside the namespace of the visitor. -/
def enclosed (visitor : Visitor) (body : List Line) : List Line :=
  [.flat ("namespace " ++ visitor.namespaceName ++ " \x7b"), .blank] ++ body ++
    [.blank, .flat ("\x7d // namespace " ++ visitor.namespaceName)]

/-- The declaration of the visitor, ahead of its definition. -/
def declarationLines (visitor : Visitor) : List Line :=
  visitor.enclosed [.flat "template <typename T>", .flat "struct Visitor;"]

/-- The line of one dispatch method. -/
def methodLine (method : DispatchMethod) : Line :=
  .flat ("virtual T " ++ method.name ++ "(" ++ method.variant ++ " &) = 0;")

/-- The definition of the visitor. -/
def lines (visitor : Visitor) : List Line :=
  visitor.enclosed
    ([.flat "template <typename T>", .flat "struct Visitor \x7b"] ++
      Line.indented
        (visitor.methods.map methodLine ++ [.flat "virtual ~Visitor() = default;"]) ++
      [.flat "\x7d;"])

end Visitor

end TreeHeaders
