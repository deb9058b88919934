import TreeHeaders.Config
import TreeHeaders.FieldType

set_option autoImplicit false

/-!
# Naming

Every name in a generated header is derived here, so that the name reserved for a thing, the
name it is declared by and the name it is used by are one.
-/

namespace TreeHeaders.Naming

/-- The text with its ASCII capitals in lower case. Basenames are identifiers, hence ASCII. -/
def lower (text : String) : String :=
  String.ofList (text.toList.map Char.toLower)

/-- The owning handle to a node of the family, as in `ExprPtr`. -/
def handle (family : String) : String :=
  family ++ "Ptr"

/-- The ordered collection of handles, as in `StmtList`. -/
def list (family : String) : String :=
  family ++ "List"

/-- The namespace that holds the visitor of the family, as in `expr`. -/
def visitorNamespace (family : String) : String :=
  lower family

/-- The visitor for a result type, as in `expr::Visitor<ExprResult>`. -/
def visitor (family result : String) : String :=
  visitorNamespace family ++ "::Visitor<" ++ result ++ ">"

/-- The method of the visitor for a variant, as in `visitBinaryExpr`. -/
def dispatchMethod (variant family : String) : String :=
  "visit" ++ variant ++ family

/-- The member in which a field is stored. -/
def member (field : String) : String :=
  field ++ "_"

/-- The type as which a primitive is stored. -/
def primitive : Primitive → String
  | .boolean => "bool"
  | .number => "double"
  | .text => "std::string"
  | .null => "std::nullptr_t"

/-- The type as which a field of a node of the family is stored. -/
def fieldType (family : String) : FieldType → String
  | .primitive p => primitive p
  | .token => tokenName
  | .child => handle family
  | .foreignChild other => handle other
  | .children => list family

/-- The result type of a visit that renders text. -/
def renderedText : String := "std::string"

/-- The result type of a visit that only has effects. -/
def noResult : String := "void"

/-! ## Files and inclusion guards -/

/-- The file of the header of a family, as in `Expr.h`. -/
def headerFile (config : Config) (family : String) : String :=
  family ++ "." ++ config.extension

/-- Each run of letters and digits in capitals, with one `_` after it. The flag tells
whether a run is open. -/
def guardWords : Bool → List Char → List Char
  | true, [] => ['_']
  | false, [] => []
  | inWord, c :: cs =>
    if c.isAlphanum then c.toUpper :: guardWords true cs
    else if inWord then '_' :: guardWords false cs
    else guardWords false cs

/-- The inclusion guard made of a text: its words, or a lone `_` if there are none. -/
def guardOf (text : String) : String :=
  match guardWords false text.toList with
  | [] => "_"
  | cs => String.ofList cs

/-- The inclusion guard of the header of a family, as in `LOX_EXPR_H_`. -/
def guard (config : Config) (family : String) : String :=
  guardOf (config.namespaceName ++ "_" ++ family ++ "_" ++ config.extension)

end TreeHeaders.Naming
