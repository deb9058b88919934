import TreeHeaders.Config
import TreeHeaders.Identifier
import TreeHeaders.Text.Split

set_option autoImplicit false

/-!
# Values of options

Which texts are accepted as a namespace, an extension, a size of the indentation or a line
ending, and why another one is refused.
-/

namespace TreeHeaders.CommandLine

/-- Why the value of an option is refused. -/
inductive Refusal where
  /-- the option cannot do with an empty value -/
  | empty
  /-- none of the possible values -/
  | notPossible
  /-- another rule, in words -/
  | because (reason : String)
  deriving DecidableEq, Repr, Inhabited

/-! ## Namespaces and extensions -/

/-- Can the characters be one part of a namespace? -/
def isNamespacePart (part : List Char) : Bool :=
  isIdentifier (String.ofList part) && (part.head?.any Char.isAlpha)

/-- Is the text a namespace, such as `lox` or `lang::ast`, of which every part can be used? -/
def isNamespace (text : String) : Bool :=
  (Text.splitAtPair ':' text.toList).all isNamespacePart

/-- Read a namespace. -/
def parseNamespace (text : String) : Except Refusal String :=
  if isNamespace text then .ok text
  else .error (.because ("each part of the namespace must start with a letter, only use " ++
    "letters, digits and `_`, and not be a C++ keyword"))

/-- Can the character stand in an extension? -/
def isExtensionChar (c : Char) : Bool :=
  c.isAlphanum || c = '_' || c = '+' || c = '-'

/-- Is the text a file extension without its dot, such as `h` or `hpp`? -/
def isExtension (text : String) : Bool :=
  text != "" && text.toList.all isExtensionChar

/-- Read an extension. -/
def parseExtension (text : String) : Except Refusal String :=
  if isExtension text then .ok text
  else .error (.because ("the extension must not be empty, and only use letters, digits, `_`, " ++
    "`+` and `-`"))

/-! ## Sizes -/

/-- The digits of a number whose size is bounded, read from the left. -/
def boundedDigits (bound : Nat) (beyond : String) : Nat → List Char → Except Refusal Nat
  | n, [] => .ok n
  | n, c :: cs =>
    if !c.isDigit then .error (.because "invalid digit found in string")
    else
      let m := n * 10 + (c.toNat - '0'.toNat)
      if bound < m then .error (.because beyond) else boundedDigits bound beyond m cs

/-- Read a whole number of 64 bits, with or without a sign. -/
def parseInteger (text : String) : Except Refusal Int :=
  let tooLarge := "number too large to fit in target type"
  let tooSmall := "number too small to fit in target type"
  match text.toList with
  | [] => .error (.because "cannot parse integer from empty string")
  | c :: cs =>
    if (c = '+' ∨ c = '-') ∧ cs = [] then .error (.because "invalid digit found in string")
    else if c = '-' then (boundedDigits (Nat.pow 2 63) tooSmall 0 cs).map fun n => -(n : Int)
    else if c = '+' then (boundedDigits (Nat.pow 2 63 - 1) tooLarge 0 cs).map fun n => (n : Int)
    else (boundedDigits (Nat.pow 2 63 - 1) tooLarge 0 (c :: cs)).map fun n => (n : Int)

/-- The decimal text of a whole number. -/
def integerText : Int → String
  | .ofNat n => Nat.repr n
  | .negSucc n => "-" ++ Nat.repr (n + 1)

/-- The largest size of the indentation. -/
def greatestSize : Nat := 65535

/-- Read the size of the indentation. -/
def parseSize (text : String) : Except Refusal Nat := do
  let n ← parseInteger text
  if 0 ≤ n ∧ n ≤ greatestSize then .ok n.toNat
  else .error (.because (integerText n ++ " is not in 0..=" ++ Nat.repr greatestSize))

/-! ## Line endings and paths -/

/-- Read a line ending. -/
def parseLineEnding (text : String) : Except Refusal LineEnding :=
  if text = "lf" then .ok .lineFeed
  else if text = "crlf" then .ok .carriageReturnLineFeed
  else if text = "native" then .ok .native
  else if text = "" then .error .empty
  else .error .notPossible

/-- Read a path, which may be anything but empty. -/
def parsePath (text : String) : Except Refusal String :=
  if text = "" then .error .empty else .ok text

end TreeHeaders.CommandLine
