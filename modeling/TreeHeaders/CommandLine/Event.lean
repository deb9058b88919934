import TreeHeaders.Catalogue.Basic
import TreeHeaders.Publication
import TreeHeaders.Text.Plain

set_option autoImplicit false

/-!
# The log

What is worth telling while headers are generated, and at which level of detail.
-/

namespace TreeHeaders.CommandLine

/-- How much detail a line of the log gives. -/
inductive Level where
  | info
  | debug
  | trace
  deriving DecidableEq, Repr, Inhabited

namespace Level

/-- The verbosity from which on the level is shown. -/
def threshold : Level → Nat
  | .info => 1
  | .debug => 2
  | .trace => 3

/-- The name of the level, filled up to five columns from the left. -/
def label : Level → String
  | .info => " INFO"
  | .debug => "DEBUG"
  | .trace => "TRACE"

end Level

/-- Something worth telling. -/
inductive Event where
  /-- a catalogue of so many families is loaded -/
  | loaded (families : Nat)
  /-- a family of so many variants is generated -/
  | generating (family : String) (variants : Nat)
  /-- the node of a variant is defined -/
  | defining (family variant : String)
  /-- a header is written -/
  | wrote (path : String)
  /-- a header is found up to date -/
  | upToDate (path : String)
  deriving DecidableEq, Repr, Inhabited

namespace Event

/-- The level of detail of an event. -/
def level : Event → Level
  | .loaded _ | .wrote _ => .info
  | .generating .. | .upToDate _ => .debug
  | .defining .. => .trace

/-- The event in words. -/
def message : Event → String
  | .loaded families => "loaded node catalogue families=" ++ Nat.repr families
  | .generating family variants =>
    "generating family family=\"" ++ family ++ "\" variants=" ++ Nat.repr variants
  | .defining family variant =>
    "defining node family=\"" ++ family ++ "\" variant=\"" ++ variant ++ "\""
  | .wrote path => "wrote header path=" ++ path
  | .upToDate path => "header is up to date path=" ++ path

/-- The event as a line of the log, without control sequences. -/
def line (e : Event) : String :=
  e.level.label ++ " " ++ Text.plain (e.message ++ "\n")

end Event

/-- The lines of the events that are shown at a verbosity. -/
def logText (verbosity : Nat) (events : List Event) : String :=
  String.join ((events.filter fun e => e.level.threshold ≤ verbosity).map Event.line)

/-- What is told of generating a family. -/
def familyEvents (family : Family) : List Event :=
  .generating family.basename family.variants.length ::
    family.variants.map fun variant => .defining family.basename variant.name

/-- What is told of generating a catalogue. -/
def catalogueEvents (catalogue : Catalogue) : List Event :=
  .loaded catalogue.families.length :: catalogue.families.flatMap familyEvents

/-- What is told of writing headers. -/
def publicationEvents (p : Publication) : List Event :=
  p.written.map .wrote

/-- What is told of inspecting headers. -/
def inspectionEvents (i : Inspection) : List Event :=
  (i.statuses.filter fun s => s.2 == .upToDate).map fun s => .upToDate s.1

end TreeHeaders.CommandLine
