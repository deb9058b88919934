import TreeHeaders.Json.Cursor
import TreeHeaders.Numeral.Layout
import TreeHeaders.Text.Quoted

set_option autoImplicit false

/-!
# Malformations

Why a text is no document of the expected shape, and where.
-/

namespace TreeHeaders.Json

/-- A number as read: a whole number where it fits, and a double precision number otherwise. -/
inductive Number where
  /-- a whole number that fits into 64 bits -/
  | whole (n : Int)
  /-- any other number: its sign and its size -/
  | double (negative : Bool) (size : Numeral.Double)
  deriving DecidableEq, Repr, Inhabited

/-- What was found in place of the expected value. -/
inductive Found where
  | null
  | boolean (b : Bool)
  | number (n : Number)
  | string (s : String)
  | array
  | object
  deriving DecidableEq, Repr, Inhabited

/-- What a value was expected to be. -/
inductive Expected where
  | string
  | boolean
  | array
  | pair
  /-- a record of this name with this many members -/
  | record (name : String) (size : Nat)
  deriving DecidableEq, Repr, Inhabited

/-- What is wrong with a text. -/
inductive Fault where
  /-- the text ends where a value is needed -/
  | endInValue
  /-- the text ends inside a string -/
  | endInString
  /-- the text ends inside an array -/
  | endInArray
  /-- the text ends inside an object -/
  | endInObject
  /-- no value starts with this character -/
  | expectedValue
  /-- a misspelt `null`, `true` or `false` -/
  | expectedLiteral
  /-- no colon after a key -/
  | expectedColon
  /-- neither a comma nor the end of the array -/
  | expectedArrayEnd
  /-- neither a comma nor the end of the object -/
  | expectedObjectEnd
  /-- a key that is no string -/
  | keyNotString
  /-- a comma before the end of an array or object -/
  | trailingComma
  /-- more text after the end of what was expected -/
  | trailingCharacters
  | invalidNumber
  | numberOutOfRange
  | controlCharacter
  | invalidEscape
  | loneSurrogate
  /-- half of a surrogate pair that no other half follows -/
  | unfinishedPair
  /-- a value of another type -/
  | invalidType (found : Found) (expected : Expected)
  /-- an array of too few elements -/
  | invalidLength (length : Nat) (expected : Expected)
  | unknownMember (key : String) (known : List String)
  | duplicateMember (key : String)
  | missingMember (key : String)
  deriving DecidableEq, Repr, Inhabited

/-- A fault and the position at which it was found. -/
structure Malformation where
  fault : Fault
  position : Position
  deriving DecidableEq, Repr, Inhabited

/-! ## Wording -/

/-- The number in words. -/
def Number.describe : Number → String
  | .whole (.ofNat n) => "integer `" ++ Nat.repr n ++ "`"
  | .whole (.negSucc n) => "integer `-" ++ Nat.repr (n + 1) ++ "`"
  | .double negative size =>
    "floating point `" ++ (if negative then "-" else "") ++
      Numeral.Layout.standard.text size.shortest ++ "`"

/-- The value found, in words. -/
def Found.describe : Found → String
  | .null => "null"
  | .boolean true => "boolean `true`"
  | .boolean false => "boolean `false`"
  | .number n => n.describe
  | .string s => "string " ++ Text.quoted s
  | .array => "sequence"
  | .object => "map"

/-- The type expected, in words. -/
def Expected.describe : Expected → String
  | .string => "a string"
  | .boolean => "a boolean"
  | .array => "a sequence"
  | .pair => "a tuple of size 2"
  | .record name _ => "struct " ++ name

/-- The length expected, in words. -/
def Expected.describeLength : Expected → String
  | .record name size =>
    "struct " ++ name ++ " with " ++ Nat.repr size ++ (if size = 1 then " element" else " elements")
  | other => other.describe

/-- A text between backticks. -/
def ticked (text : String) : String :=
  "`" ++ text ++ "`"

/-- The keys that are known, in words. -/
def describeKeys : List String → String
  | [key] => ticked key
  | [key, other] => ticked key ++ " or " ++ ticked other
  | keys => "one of " ++ ", ".intercalate (keys.map ticked)

/-- The fault in words. -/
def Fault.describe : Fault → String
  | .endInValue => "EOF while parsing a value"
  | .endInString => "EOF while parsing a string"
  | .endInArray => "EOF while parsing a list"
  | .endInObject => "EOF while parsing an object"
  | .expectedValue => "expected value"
  | .expectedLiteral => "expected ident"
  | .expectedColon => "expected `:`"
  | .expectedArrayEnd => "expected `,` or `]`"
  | .expectedObjectEnd => "expected `,` or `\x7d`"
  | .keyNotString => "key must be a string"
  | .trailingComma => "trailing comma"
  | .trailingCharacters => "trailing characters"
  | .invalidNumber => "invalid number"
  | .numberOutOfRange => "number out of range"
  | .controlCharacter => "control character (\\u0000-\\u001F) found while parsing a string"
  | .invalidEscape => "invalid escape"
  | .loneSurrogate => "lone leading surrogate in hex escape"
  | .unfinishedPair => "unexpected end of hex escape"
  | .invalidType found expected =>
    "invalid type: " ++ found.describe ++ ", expected " ++ expected.describe
  | .invalidLength length expected =>
    "invalid length " ++ Nat.repr length ++ ", expected " ++ expected.describeLength
  | .unknownMember key known =>
    "unknown field " ++ ticked key ++ ", expected " ++ describeKeys known
  | .duplicateMember key => "duplicate field " ++ ticked key
  | .missingMember key => "missing field " ++ ticked key

/-- The fault and its position in words. -/
def Malformation.describe (m : Malformation) : String :=
  m.fault.describe ++ " at line " ++ Nat.repr m.position.line ++ " column " ++
    Nat.repr m.position.column

/-- Reading a value at a cursor: the value and the cursor after it. -/
abbrev Step (α : Type) := Cursor → Except Malformation (α × Cursor)

/-- Report a fault at a position. -/
def fail {α : Type} (fault : Fault) (position : Position) : Except Malformation α :=
  .error { fault, position }

end TreeHeaders.Json
