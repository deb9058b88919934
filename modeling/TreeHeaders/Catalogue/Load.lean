import TreeHeaders.Catalogue.Basic
import TreeHeaders.Catalogue.Violation
import TreeHeaders.Declaration
import TreeHeaders.TypeText

set_option autoImplicit false

/-!
# Loading a catalogue

Declarations are checked in two passes. The first one reserves the names that every family
generates beside its variants, so that the second one knows all families when it resolves field
types. The first violation found is the answer.
-/

namespace TreeHeaders

/-- A name in the family has to be an identifier. -/
def requireIdentifier (family name : String) : Except Violation Unit :=
  if isIdentifier name then .ok () else .error (.invalidIdentifier family name)

/-! ## Reserving names -/

namespace Registry

/-- Take a name for a thing in the family, unless it has an owner. -/
def claim (registry : Registry) (family name : String) (owner : Owner) :
    Except Violation Registry :=
  match registry.owner? name with
  | some previous => .error (.nameClash family name previous)
  | none => .ok ((name, owner) :: registry)

/-- Take several names, one after the other. -/
def claimAll (family : String) : Registry → List (String × Owner) → Except Violation Registry
  | registry, [] => .ok registry
  | registry, (name, owner) :: claims => do
    let registry ← registry.claim family name owner
    claimAll family registry claims

end Registry

namespace FamilyDeclaration

/-- The names that a family generates beside its variants, in the order in which
they are taken. -/
def claims (d : FamilyDeclaration) : List (String × Owner) :=
  [(d.basename, .family d.basename),
   (Naming.handle d.basename, .handle d.basename),
   (Naming.list d.basename, .list d.basename),
   (Naming.visitorNamespace d.basename, .visitorNamespace d.basename)] ++
  d.result.toList.map fun result => (result, .result d.basename)

/-- Check the names of a family and take them, given the basenames declared before it. -/
def reserve (d : FamilyDeclaration) (earlier : List String) (registry : Registry) :
    Except Violation Registry := do
  requireIdentifier d.basename d.basename
  match d.result with
  | some result => requireIdentifier d.basename result
  | none => .ok ()
  if d.basename ∈ earlier then .error (.duplicateFamily d.basename)
  else registry.claimAll d.basename d.claims

/-- The first pass: take the names of all families. -/
def reserveAll :
    List String → Registry → List FamilyDeclaration → Except Violation Registry
  | _, registry, [] => .ok registry
  | earlier, registry, d :: ds => do
    let registry ← d.reserve earlier registry
    reserveAll (earlier ++ [d.basename]) registry ds

end FamilyDeclaration

/-! ## Resolving field types -/

/-- Where a field stands: its family, and the families it may or may not refer to. -/
structure Scope where
  /-- the basename of the family -/
  own : String
  /-- the basenames declared before it -/
  earlier : List String
  /-- all basenames -/
  declared : List String
  deriving DecidableEq, Repr, Inhabited

/-- What the text of a field type turns out to be. -/
inductive Resolution where
  /-- a type that the field can have -/
  | found (type : FieldType)
  /-- a node of a family that is declared only afterwards -/
  | later (family : String)
  /-- no type -/
  | unknown
  deriving DecidableEq, Repr, Inhabited

namespace Scope

/-- Resolve what a type text asks for. -/
def resolveText (scope : Scope) : TypeText → Resolution
  | .primitive p => .found (.primitive p)
  | .token => .found .token
  | .node family =>
    if family = scope.own then .found .child
    else if family ∈ scope.earlier then .found (.foreignChild family)
    else if family ∈ scope.declared then .later family
    else .unknown
  | .list family => if family = scope.own then .found .children else .unknown
  | .unknown => .unknown

/-- Resolve a field type as written. -/
def resolve (scope : Scope) (text : String) : Resolution :=
  scope.resolveText (TypeText.parse text)

end Scope

/-! ## Fields, variants and families -/

namespace FieldDeclaration

/-- Is the name used in the types of constructor parameters? If so, by what? These names are the
ones in the registry whose owners are in parameters: each of them is taken in the step that
makes it one, so no set of them is kept beside the registry. -/
def clash? (registry : Registry) (name : String) : Option Owner :=
  (registry.owner? name).filter Owner.inParameters

/-- Check and resolve one field, given the names of the fields before it. -/
def load (scope : Scope) (registry : Registry) (variant : String) (seen : List String)
    (d : FieldDeclaration) : Except Violation Field := do
  requireIdentifier scope.own d.name
  match clash? registry d.name with
  | some previous => .error (.nameClash scope.own d.name previous)
  | none =>
    if d.name ∈ seen then .error (.duplicateField scope.own variant d.name)
    else
      match scope.resolve d.type with
      | .found type => .ok { type, name := d.name }
      | .later family => .error (.forwardReference scope.own variant d.name family)
      | .unknown => .error (.unknownType scope.own variant d.name d.type)

/-- Check and resolve the fields of a variant in order. -/
def loadAll (scope : Scope) (registry : Registry) (variant : String) :
    List String → List FieldDeclaration → Except Violation (List Field)
  | _, [] => .ok []
  | seen, d :: ds => do
    let field ← d.load scope registry variant seen
    let fields ← loadAll scope registry variant (seen ++ [d.name]) ds
    .ok (field :: fields)

end FieldDeclaration

namespace VariantDeclaration

/-- Check one variant and take its name, given the names of the variants before
it in the family. -/
def load (scope : Scope) (registry : Registry) (seen : List String) (d : VariantDeclaration) :
    Except Violation (Variant × Registry) := do
  requireIdentifier scope.own d.name
  if d.name ∈ seen then .error (.duplicateVariant scope.own d.name)
  else
    let registry ← registry.claim scope.own d.name (.variant scope.own d.name)
    let fields ← FieldDeclaration.loadAll scope registry d.name [] d.fields
    .ok ({ name := d.name, fields }, registry)

/-- Check the variants of a family in order. -/
def loadAll (scope : Scope) :
    Registry → List String → List VariantDeclaration → Except Violation (List Variant × Registry)
  | registry, _, [] => .ok ([], registry)
  | registry, seen, d :: ds => do
    let (variant, registry) ← d.load scope registry seen
    let (variants, registry) ← loadAll scope registry (seen ++ [d.name]) ds
    .ok (variant :: variants, registry)

end VariantDeclaration

namespace FamilyDeclaration

/-- What a visit to a node of the family produces. -/
def contract (d : FamilyDeclaration) : Contract :=
  match d.result with
  | some result => .value result
  | none => .effect

/-- Check one family and take the names of its variants. -/
def load (scope : Scope) (registry : Registry) (d : FamilyDeclaration) :
    Except Violation (Family × Registry) :=
  if d.variants = [] then .error (.emptyFamily d.basename)
  else do
    let (variants, registry) ← VariantDeclaration.loadAll scope registry [] d.variants
    .ok ({ basename := d.basename, contract := d.contract, rendersText := d.render, variants },
      registry)

/-- The second pass: check the families in order, given all basenames. -/
def loadAll (declared : List String) :
    List String → Registry → List FamilyDeclaration → Except Violation (List Family)
  | _, _, [] => .ok []
  | earlier, registry, d :: ds => do
    let (family, registry) ← d.load { own := d.basename, earlier, declared } registry
    let families ← loadAll declared (earlier ++ [d.basename]) registry ds
    .ok (family :: families)

end FamilyDeclaration

namespace Catalogue

/-- Validate the declarations and resolve them into a catalogue, or name the first violation. -/
def load (ds : List FamilyDeclaration) : Except Violation Catalogue := do
  let registry ← FamilyDeclaration.reserveAll [] Registry.initial ds
  let families ← FamilyDeclaration.loadAll (ds.map (·.basename)) [] registry ds
  .ok { families }

end Catalogue

end TreeHeaders
