import TreeHeaders.CommandLine.Usage
import TreeHeaders.CommandLine.Value

set_option autoImplicit false

/-!
# Options

Reading a command line from left to right. A value in an argument of its own, and the directory,
are only judged once the next known argument or the end is reached. An argument that is not
known at all is reported before them.
-/

namespace TreeHeaders.CommandLine

/-- What the user asks for. -/
structure Options where
  directory : String
  /-- the file to read the catalogue from; without one, the catalogue of Lox is used -/
  schema : Option String
  dryrun : Bool
  check : Bool
  /-- how much detail to log -/
  verbosity : Nat
  config : Config
  deriving DecidableEq, Repr, Inhabited

/-- Why reading a command line ends before its end. -/
inductive Stop where
  | usage (e : UsageError)
  /-- a request for help, in full or in short -/
  | help (full : Bool)
  | version
  deriving DecidableEq, Repr, Inhabited

/-- What has been given and judged so far. -/
structure Given where
  directory : Option String := none
  schema : Option String := none
  namespaceName : Option String := none
  indentSize : Option Nat := none
  lineEnding : Option LineEnding := none
  extension : Option String := none
  /-- the flags, in the order in which they are given -/
  flags : List Flag := []
  verbosity : Nat := 0
  deriving DecidableEq, Repr, Inhabited

/-- What has been given and not judged yet. -/
inductive Pending where
  | nothing
  | directory (value : String)
  /-- an option, with its value if that was given -/
  | setting (s : Setting) (value : Option String)
  deriving DecidableEq, Repr, Inhabited

/-! ## Judging what was given -/

/-- Judge the value of an argument. -/
def judge {α : Type} (argument : Argument) (parse : String → Except Refusal α) (value : String) :
    Except Stop α :=
  match parse value with
  | .ok x => .ok x
  | .error .empty => .error (.usage (.valueRequired argument))
  | .error .notPossible => .error (.usage (.invalidValue value argument none))
  | .error (.because reason) => .error (.usage (.invalidValue value argument (some reason)))

/-- Judge the value of an option that may be given once, given what it was set to before. -/
def judgeOnce {α : Type} (s : Setting) (before : Option α) (parse : String → Except Refusal α)
    (value : String) : Except Stop α :=
  match before with
  | some _ => .error (.usage (.repeated (.setting s)))
  | none => judge (.setting s) parse value

namespace Given

/-- Set an option to a value. -/
def set (given : Given) (s : Setting) (value : String) : Except Stop Given :=
  match s with
  | .schema => do
    let path ← judgeOnce s given.schema parsePath value
    .ok { given with schema := some path }
  | .namespaceName => do
    let name ← judgeOnce s given.namespaceName parseNamespace value
    .ok { given with namespaceName := some name }
  | .indentSize => do
    let size ← judgeOnce s given.indentSize parseSize value
    .ok { given with indentSize := some size }
  | .lineEnding => do
    let ending ← judgeOnce s given.lineEnding parseLineEnding value
    .ok { given with lineEnding := some ending }
  | .extension => do
    let extension ← judgeOnce s given.extension parseExtension value
    .ok { given with extension := some extension }

/-- Judge what is pending. -/
def settle (given : Given) : Pending → Except Stop Given
  | .nothing => .ok given
  | .directory value => do
    let path ← judge .directory parsePath value
    .ok { given with directory := some path }
  | .setting s none => .error (.usage (.valueRequired (.setting s)))
  | .setting s (some value) => given.set s value

/-- Raise a flag. -/
def raise (given : Given) (f : Flag) : Except Stop Given :=
  if f ∈ given.flags then .error (.usage (.repeated (.ofFlag f)))
  else .ok { given with flags := given.flags ++ [f] }

/-- What was given as a whole: flags must not exclude each other, and there must
be a directory. -/
def finish (given : Given) : Except Stop Options :=
  match given.flags, given.directory with
  | first :: second :: _, _ => .error (.usage (.conflict first second))
  | _, none => .error (.usage .missingDirectory)
  | _, some directory =>
    let base : Config := {}
    .ok {
      directory
      schema := given.schema
      dryrun := given.flags.contains .dryrun
      check := given.flags.contains .check
      verbosity := given.verbosity
      config := {
        namespaceName := given.namespaceName.getD base.namespaceName
        extension := given.extension.getD base.extension
        indentation := (given.indentSize.map Indentation.ofSize).getD base.indentation
        lineEnding := given.lineEnding.getD base.lineEnding } }

end Given

/-! ## Reading arguments -/

/-- How far a command line has been read. -/
structure Progress where
  given : Given := {}
  pending : Pending := .nothing
  /-- has a directory been given? -/
  placed : Bool := false
  /-- has `--` been met, after which there are no options? -/
  ended : Bool := false
  deriving DecidableEq, Repr, Inhabited

namespace Progress

/-- Judge what is pending. -/
def settle (p : Progress) : Except Stop Progress := do
  let given ← p.given.settle p.pending
  .ok { p with given, pending := .nothing }

/-- Meet an option that takes no value, spelt by a letter or by its long name. -/
def meet (p : Progress) (option : Switch) (long : Bool) : Except Stop Progress := do
  let p ← p.settle
  match option with
  | .flag f =>
    let given ← p.given.raise f
    .ok { p with given }
  | .verbose => .ok { p with given := { p.given with verbosity := p.given.verbosity + 1 } }
  | .help => .error (.help long)
  | .version => .error .version

/-- Meet an option by its long name, with or without a value after `=`. -/
def meetLong (p : Progress) (name : String) (value : Option String) : Except Stop Progress :=
  match Argument.ofLong? name, value with
  | some (.setting s), some value => do
    let p ← p.settle
    let given ← p.given.set s value
    .ok { p with given }
  | some (.setting s), none => do
    let p ← p.settle
    .ok { p with pending := .setting s none }
  | some (.switch s), some value => .error (.usage (.unexpectedValue value (.switch s)))
  | some (.switch s), none => p.meet s true
  | _, _ => .error (.usage (.unexpectedArgument ("--" ++ name)))

/-- Meet options by their letters. -/
def meetShort : Progress → List Char → Except Stop Progress
  | p, [] => .ok p
  | p, c :: cs =>
    match Argument.ofShort? c with
    | none => .error (.usage (.unexpectedArgument (String.ofList ['-', c])))
    | some s => do
      let p ← p.meet s false
      meetShort p cs

/-- Meet an argument that is the directory, or one too many. -/
def meetPositional (p : Progress) (text : String) : Except Stop Progress :=
  if p.placed then .error (.usage (.unexpectedArgument text))
  else do
    let p ← p.settle
    .ok { p with pending := .directory text, placed := true }

/-- Meet an argument that is no option: the value that an option waits for, or a
positional one. -/
def meetValue (p : Progress) (text : String) : Except Stop Progress :=
  match p.pending with
  | .setting s none => .ok { p with pending := .setting s (some text) }
  | _ => p.meetPositional text

/-- The name of a long option and the value after the first `=`. -/
def splitLong (cs : List Char) : String × Option String :=
  match cs.dropWhile (· != '=') with
  | [] => (String.ofList cs, none)
  | _ :: value => (String.ofList (cs.takeWhile (· != '=')), some (String.ofList value))

/-- Meet one argument. -/
def step (p : Progress) (text : String) : Except Stop Progress :=
  if p.ended then p.meetPositional text
  else
    match text.toList with
    | c :: d :: cs =>
      if c = '-' ∧ d = '-' then
        if cs = [] then .ok { p with ended := true }
        else
          let (name, value) := splitLong cs
          p.meetLong name value
      else if c = '-' then p.meetShort (d :: cs)
      else p.meetValue text
    | _ => p.meetValue text

/-- Meet all arguments. -/
def steps : Progress → List String → Except Stop Progress
  | p, [] => p.settle
  | p, text :: rest => do
    let p ← p.step text
    steps p rest

end Progress

/-- Read a command line. -/
def parse (args : List String) : Except Stop Options := do
  let p ← Progress.steps {} args
  p.given.finish

end TreeHeaders.CommandLine
