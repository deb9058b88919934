import TreeHeaders.Catalogue.Lox
import TreeHeaders.CommandLine.Event
import TreeHeaders.CommandLine.Help
import TreeHeaders.CommandLine.Message
import TreeHeaders.CommandLine.Options

set_option autoImplicit false

/-!
# Running the command

From a command line to what is printed and the exit status: zero for success, one if published
headers are not up to date, two for any error.
-/

namespace TreeHeaders.CommandLine

/-- How a run ends. -/
inductive ExitStatus where
  /-- all went well -/
  | success
  /-- all went well, and some headers are not up to date -/
  | outOfDate
  /-- something went wrong -/
  | failure
  deriving DecidableEq, Repr, Inhabited

/-- The number that the system is told. -/
def ExitStatus.code : ExitStatus → Nat
  | .success => 0
  | .outOfDate => 1
  | .failure => 2

/-- What a run leaves behind, apart from files. -/
structure Outcome where
  exit : ExitStatus
  stdout : String := ""
  stderr : String := ""
  deriving DecidableEq, Repr, Inhabited

/-- The outcome of a command line that asks for no run. -/
def Outcome.ofStop : Stop → Outcome
  | .usage e => { exit := .failure, stderr := e.text }
  | .help full => { exit := .success, stdout := helpText full }
  | .version => { exit := .success, stdout := versionText }

/-- One header in a preview, in a frame. -/
def previewText (header : Header) : String :=
  "╭─[" ++ header.fileName ++ "]\n" ++ header.contents ++ "╯\n"

/-- The preview of headers. -/
def preview (headers : List Header) : String :=
  String.join (headers.map previewText)

/-- The catalogue in the contents of a schema file, or the message for the user. -/
def catalogueOf (path : String) (contents : Except DiskError ByteArray) :
    Except Message Catalogue :=
  match contents with
  | .error e => .error (.ofUnreadable path e)
  | .ok bytes =>
    match String.fromUTF8? bytes with
    | none => .error (.ofUnreadable path .notText)
    | some text => (Catalogue.ofDocument text).mapError .ofSchemaError

/-- The outcome of an inspection, given the events before it. -/
def inspectionOutcome (verbosity : Nat) (events : List Event) (i : Inspection) : Outcome :=
  let log := logText verbosity (events ++ inspectionEvents i)
  match i.result with
  | .error e => { exit := .failure, stderr := log ++ (Message.ofPublishError e).text }
  | .ok [] => { exit := .success, stderr := log }
  | .ok stale => {
      exit := .outOfDate
      stderr := log ++ String.join (stale.map fun s => (Message.ofStale s.1 s.2).text) }

/-- The outcome of a publication, given the events before it. -/
def publicationOutcome (verbosity : Nat) (events : List Event) (p : Publication) : Outcome :=
  let log := logText verbosity (events ++ publicationEvents p)
  match p.failure with
  | some e => { exit := .failure, stderr := log ++ (Message.ofPublishError e).text }
  | none => { exit := .success, stderr := log }

section

variable {m : Type → Type} [Monad m] [Disk m]

/-- The catalogue that the options ask for, or the message for the user. -/
def loadCatalogue (schema : Option String) : m (Except Message Catalogue) :=
  match schema with
  | none =>
    pure ((Catalogue.ofDeclarations Lox.declarations).mapError .ofSchemaError)
  | some path => do
    let contents ← Disk.read path
    pure (catalogueOf path contents)

/-- Generate the headers of a catalogue, and preview, inspect or publish them. -/
def generate (options : Options) (catalogue : Catalogue) : m Outcome := do
  let headers := catalogue.headers options.config
  let events := catalogueEvents catalogue
  if options.dryrun then
    pure {
      exit := .success
      stdout := preview headers
      stderr := logText options.verbosity events }
  else if options.check then
    let found ← inspect options.directory headers
    pure (inspectionOutcome options.verbosity events found)
  else
    let done ← publish options.directory headers
    pure (publicationOutcome options.verbosity events done)

/-- Do what the options ask for. -/
def execute (options : Options) : m Outcome := do
  match ← loadCatalogue options.schema with
  | .error message => pure { exit := .failure, stderr := message.text }
  | .ok catalogue => generate options catalogue

/-- Run the command with the given arguments. -/
def run (args : List String) : m Outcome :=
  match parse args with
  | .error stop => pure (Outcome.ofStop stop)
  | .ok options => execute options

end

end TreeHeaders.CommandLine
