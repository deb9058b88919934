set_option autoImplicit false

/-!
# Arguments

The arguments that the command knows, and how they are spelt.
-/

namespace TreeHeaders.CommandLine

/-- An option that takes a value. -/
inductive Setting where
  /-- the file to read the catalogue from -/
  | schema
  | namespaceName
  | indentSize
  | lineEnding
  | extension
  deriving DecidableEq, Repr, Inhabited

/-- An option without a value that can be given once. -/
inductive Flag where
  /-- print the headers in place of writing them -/
  | dryrun
  /-- check the headers in the directory in place of writing them -/
  | check
  deriving DecidableEq, Repr, Inhabited

/-- An option without a value. -/
inductive Switch where
  | flag (f : Flag)
  /-- one more level of detail in the log -/
  | verbose
  | help
  | version
  deriving DecidableEq, Repr, Inhabited

/-- An argument. -/
inductive Argument where
  /-- the directory of the headers -/
  | directory
  | setting (s : Setting)
  | switch (s : Switch)
  deriving DecidableEq, Repr, Inhabited

namespace Argument

/-- The options by their long names. -/
def longNames : List (String × Argument) :=
  [("schema", .setting .schema), ("dryrun", .switch (.flag .dryrun)),
   ("check", .switch (.flag .check)), ("verbose", .switch .verbose),
   ("config-namespace", .setting .namespaceName), ("config-indent-size", .setting .indentSize),
   ("config-line-ending", .setting .lineEnding), ("config-extension", .setting .extension),
   ("help", .switch .help), ("version", .switch .version)]

/-- The option of a long name. -/
def ofLong? (name : String) : Option Argument :=
  longNames.lookup name

/-- The option of a letter. -/
def ofShort? (c : Char) : Option Switch :=
  if c = 'v' then some .verbose
  else if c = 'h' then some .help
  else if c = 'V' then some .version
  else none

/-- How the argument is shown in messages. -/
def display : Argument → String
  | .directory => "<DIRECTORY>"
  | .setting .schema => "--schema <SCHEMA>"
  | .setting .namespaceName => "--config-namespace <CONFIG_NAMESPACE>"
  | .setting .indentSize => "--config-indent-size <CONFIG_INDENT_SIZE>"
  | .setting .lineEnding => "--config-line-ending <CONFIG_LINE_ENDING>"
  | .setting .extension => "--config-extension <CONFIG_EXTENSION>"
  | .switch (.flag .dryrun) => "--dryrun"
  | .switch (.flag .check) => "--check"
  | .switch .verbose => "--verbose..."
  | .switch .help => "--help"
  | .switch .version => "--version"

/-- A flag as an argument. -/
abbrev ofFlag (f : Flag) : Argument :=
  .switch (.flag f)

end Argument

end TreeHeaders.CommandLine
