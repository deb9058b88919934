import TreeHeaders.CommandLine.Argument
import TreeHeaders.Text.Plain

set_option autoImplicit false

/-!
# Usage errors

How a command line can be wrong, in words for the user. What the user wrote is shown without
control sequences, so it cannot disturb the words around it.
-/

namespace TreeHeaders.CommandLine

/-- What is wrong with a command line. -/
inductive UsageError where
  /-- an option that is not known, or a second directory -/
  | unexpectedArgument (text : String)
  /-- a value for an option that takes none -/
  | unexpectedValue (value : String) (argument : Argument)
  /-- no value for an argument that needs one -/
  | valueRequired (argument : Argument)
  /-- an option that is given twice -/
  | repeated (argument : Argument)
  /-- two flags that exclude each other, in the order in which they are given -/
  | conflict (first second : Flag)
  /-- a value that is refused, with the reason if there is one to give -/
  | invalidValue (value : String) (argument : Argument) (reason : Option String)
  /-- no directory -/
  | missingDirectory
  deriving DecidableEq, Repr, Inhabited

namespace UsageError

/-- The words of the error. -/
def message : UsageError → String
  | .unexpectedArgument text => "unexpected argument '" ++ Text.plain text ++ "' found"
  | .unexpectedValue value argument =>
    "unexpected value '" ++ Text.plain value ++ "' for '" ++ argument.display ++
      "' found; no more were expected"
  | .valueRequired argument =>
    "a value is required for '" ++ argument.display ++ "' but none was supplied"
  | .repeated argument =>
    "the argument '" ++ argument.display ++ "' cannot be used multiple times"
  | .conflict first second =>
    "the argument '" ++ (Argument.ofFlag first).display ++ "' cannot be used with '" ++
      (Argument.ofFlag second).display ++ "'"
  | .invalidValue value argument reason =>
    "invalid value '" ++ Text.plain value ++ "' for '" ++ argument.display ++ "'" ++
      match reason with
      | some reason => ": " ++ reason
      | none => ""
  | .missingDirectory => "the following required arguments were not provided:\n  <DIRECTORY>"

/-- The error as it is printed. -/
def text (e : UsageError) : String :=
  "error: " ++ e.message ++ "\n"

end UsageError

end TreeHeaders.CommandLine
