set_option autoImplicit false

/-!
# Configuration

The choices that a user of the generator makes: where the nodes are declared, how header files
are named, and how lines are indented and ended.
-/

namespace TreeHeaders

/-- The unit of indentation. -/
inductive Indentation where
  /-- this many spaces -/
  | space (size : Nat)
  /-- one tab -/
  | tab
  deriving DecidableEq, Repr, Inhabited

namespace Indentation

/-- The indentation for a number of spaces, where no spaces means a tab. -/
def ofSize : Nat → Indentation
  | 0 => .tab
  | n + 1 => .space (n + 1)

/-- The text of one level of indentation. -/
def text : Indentation → String
  | .space size => String.ofList (List.replicate size ' ')
  | .tab => "\t"

@[simp]
theorem toList_text_space (size : Nat) :
    (Indentation.space size).text.toList = List.replicate size ' ' := by
  simp [text]

/-- The indentation made from a size is never empty. -/
theorem text_ofSize_ne_empty (n : Nat) : (ofSize n).text ≠ "" := by
  cases n with
  | zero => decide
  | succ n =>
    intro h
    have := congrArg String.toList h
    simp [ofSize] at this

end Indentation

/-- How a line ends. -/
inductive LineEnding where
  /-- a line feed -/
  | lineFeed
  /-- a carriage return and a line feed -/
  | carriageReturnLineFeed
  /-- the ending of the platform, here a line feed -/
  | native
  deriving DecidableEq, Repr, Inhabited

/-- The text that ends a line. -/
def LineEnding.text : LineEnding → String
  | .lineFeed => "\n"
  | .carriageReturnLineFeed => "\r\n"
  | .native => "\n"

/-- The configuration of the generated headers. -/
structure Config where
  /-- the namespace in which every node type is declared; it also leads the inclusion guards -/
  namespaceName : String := "lox"
  /-- the file extension of the headers, without the dot -/
  extension : String := "h"
  indentation : Indentation := .space 2
  lineEnding : LineEnding := .lineFeed
  deriving DecidableEq, Repr, Inhabited

end TreeHeaders
