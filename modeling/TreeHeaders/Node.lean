import TreeHeaders.Visitor

set_option autoImplicit false

/-!
# Nodes

The concrete node type of a variant. Members are laid out in field order, and the constructor
takes one parameter per field in the same order. Values are copied in; owned nodes are moved
in, so that the node takes sole ownership. A variant whose only field is a list takes the whole
list by rvalue reference.
-/

namespace TreeHeaders

/-- How a constructor parameter is accepted and stored. -/
inductive Passing where
  /-- taken by value and copied into the member -/
  | copy
  /-- taken by value and moved into the member -/
  | move
  /-- the whole list is taken by rvalue reference and moved into the member -/
  | moveWhole
  deriving DecidableEq, Repr, Inhabited

/-- A data member of a node. -/
structure Member where
  type : String
  name : String
  deriving DecidableEq, Repr, Inhabited

/-- A constructor parameter and the member that it initialises. -/
structure Parameter where
  type : String
  name : String
  member : String
  passing : Passing
  deriving DecidableEq, Repr, Inhabited

/-- An entry point that dispatches a node to a visitor. -/
structure EntryPoint where
  /-- the result type of the visit -/
  result : String
  /-- the visitor that is accepted -/
  visitor : String
  /-- the method of the visitor to which the node is forwarded -/
  dispatch : String
  deriving DecidableEq, Repr, Inhabited

/-- The layout of a concrete node type. -/
structure Node where
  name : String
  /-- the abstract base from which the node derives -/
  base : String
  /-- the data members, in field order -/
  members : List Member
  /-- the constructor parameters, in field order -/
  parameters : List Parameter
  /-- the entry points, one per result type -/
  entryPoints : List EntryPoint
  deriving DecidableEq, Repr, Inhabited

namespace Variant

/-- Is the variant made of a single list of nodes? -/
def isSoleList (variant : Variant) : Bool :=
  match variant.fields with
  | [field] => field.type == .children
  | _ => false

/-- How a field of the variant is passed to the constructor. -/
def passing (variant : Variant) (field : Field) : Passing :=
  if field.type = .children ∧ variant.isSoleList then .moveWhole
  else if field.type.isOwned then .move
  else .copy

end Variant

namespace Family

/-- The member for a field of a variant of the family. -/
def member (family : Family) (field : Field) : Member where
  type := Naming.fieldType family.basename field.type
  name := Naming.member field.name

/-- The constructor parameter for a field of a variant of the family. -/
def parameter (family : Family) (variant : Variant) (field : Field) : Parameter where
  type := (family.member field).type
  name := field.name
  member := (family.member field).name
  passing := variant.passing field

/-- The entry point of a node of the variant for one result type. -/
def entryPoint (family : Family) (variant : Variant) (result : String) : EntryPoint where
  result := result
  visitor := Naming.visitor family.basename result
  dispatch := Naming.dispatchMethod variant.name family.basename

/-- The node type of a variant of the family. -/
def node (family : Family) (variant : Variant) : Node where
  name := variant.name
  base := family.basename
  members := variant.fields.map family.member
  parameters := variant.fields.map (family.parameter variant)
  entryPoints := family.results.map (family.entryPoint variant)

/-- The node types of the family, in variant order. -/
def nodes (family : Family) : List Node :=
  family.variants.map family.node

end Family

/-! ## Text -/

namespace Parameter

/-- The parameter in the parameter list. -/
def declaration (parameter : Parameter) : String :=
  match parameter.passing with
  | .copy | .move => parameter.type ++ " " ++ parameter.name
  | .moveWhole => parameter.type ++ " &&" ++ parameter.name

/-- The initialiser of the member. -/
def initialiser (parameter : Parameter) : String :=
  match parameter.passing with
  | .copy => parameter.member ++ "(" ++ parameter.name ++ ")"
  | .move | .moveWhole => parameter.member ++ "(std::move(" ++ parameter.name ++ "))"

/-- The lines of the initialisers after the first one: a comma follows every one
but the last. -/
def initialiserLines (leader : String) : List Parameter → List Line
  | [] => []
  | [parameter] => [.continued (leader ++ parameter.initialiser ++ " \x7b\x7d")]
  | parameter :: rest =>
    .continued (leader ++ parameter.initialiser ++ ",") :: initialiserLines "  " rest

end Parameter

namespace Node

/-- The lines of the members, set off from what follows. -/
def memberLines (node : Node) : List Line :=
  match node.members with
  | [] => []
  | members =>
    members.map (fun member => .flat (member.type ++ " " ++ member.name ++ ";")) ++ [.blank]

/-- The lines of the constructor. -/
def constructorLines (node : Node) : List Line :=
  match node.parameters with
  | [] => [.flat (node.name ++ "() \x7b\x7d")]
  | parameters =>
    .flat (node.name ++ "(" ++ ", ".intercalate (parameters.map Parameter.declaration) ++ ")") ::
      Parameter.initialiserLines ": " parameters

/-- The lines of one entry point, set off from what precedes. -/
def entryPointLines (entry : EntryPoint) : List Line :=
  [.blank,
   .flat (entry.result ++ " accept(" ++ entry.visitor ++ " &v) override \x7b"),
   .deeper (.flat ("return v." ++ entry.dispatch ++ "(*this);")),
   .flat "\x7d"]

/-- The definition of the node type. -/
def lines (node : Node) : List Line :=
  [.flat ("struct " ++ node.name ++ " : " ++ node.base ++ " \x7b")] ++
    Line.indented
      (node.memberLines ++ node.constructorLines ++ node.entryPoints.flatMap entryPointLines) ++
    [.flat "\x7d;"]

end Node

end TreeHeaders
