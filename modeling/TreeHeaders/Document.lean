import TreeHeaders.Catalogue.Load
import TreeHeaders.Json.Reader

set_option autoImplicit false

/-!
# Documents

The text form of a list of declarations: a JSON object with the families, each family an object
with its variants. A record may also be written as an array of its members in order.
-/

namespace TreeHeaders

namespace Document

open Json

/-! ## Variants -/

/-- The members of a variant. -/
inductive VariantKey where
  | name
  | fields
  deriving DecidableEq, Repr, Inhabited

/-- Read a field: an array of its type and its name. -/
def readField : Step FieldDeclaration := fun c => do
  let ((type, name), c) ← readPair readString readString c
  .ok ({ type, name }, c)

/-- How the members of a variant are read. -/
def variantMembers : Members VariantKey VariantDeclaration where
  keys := [("name", .name), ("fields", .fields)]
  read
    | .name, d, c => do
      let (name, c) ← readString c
      .ok ({ d with name }, c)
    | .fields, d, c => do
      let (fields, c) ← readArray readField c
      .ok ({ d with fields }, c)

/-- A variant as it is expected. -/
def expectedVariant : Expected :=
  .record "VariantDeclaration" 2

/-- Read a variant written as an array, after the opening bracket. -/
def readVariantElements : Step VariantDeclaration := fun c => do
  let (name, c) ← requiredElement expectedVariant 0 readString c
  let (fields, c) ← optionalElement [] (readArray readField) c
  .ok ({ name, fields }, c)

/-- Read a variant. -/
def readVariant : Step VariantDeclaration :=
  readRecord expectedVariant variantMembers ("name", .name) { name := "" } readVariantElements

/-! ## Families -/

/-- The members of a family. -/
inductive FamilyKey where
  | basename
  | result
  | render
  | variants
  deriving DecidableEq, Repr, Inhabited

/-- How the members of a family are read. -/
def familyMembers : Members FamilyKey FamilyDeclaration where
  keys := [("basename", .basename), ("result", .result), ("render", .render),
    ("variants", .variants)]
  read
    | .basename, d, c => do
      let (basename, c) ← readString c
      .ok ({ d with basename }, c)
    | .result, d, c => do
      let (result, c) ← readStringOrNull c
      .ok ({ d with result }, c)
    | .render, d, c => do
      let (render, c) ← readBoolean c
      .ok ({ d with render }, c)
    | .variants, d, c => do
      let (variants, c) ← readArray readVariant c
      .ok ({ d with variants }, c)

/-- A family as it is expected. -/
def expectedFamily : Expected :=
  .record "FamilyDeclaration" 4

/-- Read a family written as an array, after the opening bracket. -/
def readFamilyElements : Step FamilyDeclaration := fun c => do
  let (basename, c) ← requiredElement expectedFamily 0 readString c
  let (result, c) ← optionalElement none readStringOrNull c
  let (render, c) ← optionalElement false readBoolean c
  let (variants, c) ← optionalElement [] (readArray readVariant) c
  .ok ({ basename, result, render, variants }, c)

/-- Read a family. -/
def readFamily : Step FamilyDeclaration :=
  readRecord expectedFamily familyMembers ("basename", .basename) { basename := "" }
    readFamilyElements

/-! ## The whole document -/

/-- The members of a document. -/
inductive DocumentKey where
  | families
  deriving DecidableEq, Repr, Inhabited

/-- How the members of a document are read. -/
def documentMembers : Members DocumentKey (List FamilyDeclaration) where
  keys := [("families", .families)]
  read
    | .families, _, c => readArray readFamily c

/-- A document as it is expected. -/
def expectedDocument : Expected :=
  .record "SchemaDocument" 1

/-- Read the families of a document. -/
def readDocument : Step (List FamilyDeclaration) :=
  readRecord expectedDocument documentMembers ("families", .families) []
    (requiredElement expectedDocument 0 (readArray readFamily))

/-- The declarations in a document, or the first fault in its text. -/
def parse (text : String) : Except Malformation (List FamilyDeclaration) := do
  let (families, c) ← readDocument (Cursor.start text)
  finish c
  .ok families

end Document

/-- Why a document gives no catalogue. -/
inductive SchemaError where
  /-- the text is no document -/
  | malformed (m : Json.Malformation)
  /-- the declarations are no catalogue -/
  | violation (v : Violation)
  deriving DecidableEq, Repr, Inhabited

namespace SchemaError

/-- The error in one sentence. -/
def message : SchemaError → String
  | .malformed m => "schema is not well formed: " ++ m.describe
  | .violation v => v.message

/-- The title over the sentence. -/
def title : SchemaError → String
  | .malformed _ => "Malformed Schema"
  | .violation v => v.title

/-- How to mend the schema, where there is one way. -/
def suggestion? : SchemaError → Option String
  | .malformed _ => none
  | .violation v => v.suggestion?

end SchemaError

namespace Catalogue

/-- Validate declarations, with the error of a schema. -/
def ofDeclarations (ds : List FamilyDeclaration) : Except SchemaError Catalogue :=
  (load ds).mapError .violation

/-- Read a document and validate its declarations. -/
def ofDocument (text : String) : Except SchemaError Catalogue :=
  match Document.parse text with
  | .error m => .error (.malformed m)
  | .ok ds => ofDeclarations ds

end Catalogue

end TreeHeaders
