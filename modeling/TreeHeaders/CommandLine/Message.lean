import TreeHeaders.Document
import TreeHeaders.Publication
import TreeHeaders.Text.Plain

set_option autoImplicit false

/-!
# Messages

Errors and warnings for the user: a title, a sentence and perhaps a hint. Each of the three is
shown without control sequences, so that none can disturb the next.
-/

namespace TreeHeaders.CommandLine

/-- How bad it is. -/
inductive Severity where
  | error
  | warning
  deriving DecidableEq, Repr, Inhabited

/-- The word for a severity, with its sign. -/
def Severity.label : Severity → String
  | .error => "✕ Error"
  | .warning => "⚠ Warning"

/-- A message to the user. -/
structure Message where
  severity : Severity
  title : String
  /-- the sentence under the title, if it is not empty -/
  body : String := ""
  hint : Option String := none
  deriving DecidableEq, Repr, Inhabited

namespace Message

/-- The sentence with its line feed. -/
def bodyText (m : Message) : String :=
  if m.body = "" then "" else m.body ++ "\n"

/-- The message as it is printed, with an empty line after it. -/
def text (m : Message) : String :=
  m.severity.label ++ ": " ++ Text.plain m.title ++
    match m.hint with
    | none => Text.plain ("\n" ++ m.bodyText ++ "\n")
    | some hint => Text.plain ("\n" ++ m.bodyText) ++ "hint:" ++ Text.plain (" " ++ hint ++ "\n\n")

/-- The schema file cannot be read. -/
def ofUnreadable (path : String) (cause : DiskError) : Message where
  severity := .error
  title := "Could not read `" ++ path ++ "`: " ++ cause.message

/-- The schema gives no catalogue. -/
def ofSchemaError (e : SchemaError) : Message where
  severity := .error
  title := e.title
  body := e.message
  hint := e.suggestion?

/-- The headers cannot be published or inspected. -/
def ofPublishError (e : PublishError) : Message where
  severity := .error
  title := e.title
  body := e.message

/-- A published header is not up to date. -/
def ofStale (path : String) (status : Status) : Message where
  severity := .warning
  title := if status = .missing then "Header Missing" else "Header Out of Date"
  body :=
    if status = .missing then "`" ++ path ++ "` does not exist"
    else "`" ++ path ++ "` does not match the node catalogue"
  hint := some "run without `--check` to regenerate the headers"

end Message

end TreeHeaders.CommandLine
