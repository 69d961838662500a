import EniForwarding.Replay

/-! The command line.

The program plays a snapshot through and writes the report. Arguments are read from
left to right, and the first that cannot stand where it does ends the reading; a value
may be attached to its option or follow it, but does not begin with a hyphen then. An
option is given at most once. Files are reached through an interface, so that the same
steps run on a file system and on a table of texts.
-/

set_option autoImplicit false

namespace EniForwarding.CommandLine

inductive LogFormat where
  | plain
  | json
  | pretty
  deriving DecidableEq, Repr

def LogFormat.ofName? : String → Option LogFormat
  | "plain" => some .plain
  | "json" => some .json
  | "pretty" => some .pretty
  | _ => none

inductive Key where
  | snapshot
  | logLevel
  | logFormat
  | basePriority
  | output
  deriving DecidableEq, Repr

def Key.ofLong? : String → Option Key
  | "snapshot" => some .snapshot
  | "log-level" => some .logLevel
  | "log-format" => some .logFormat
  | "base-priority" => some .basePriority
  | "output" => some .output
  | _ => none

def Key.ofShort? : Char → Option Key
  | 's' => some .snapshot
  | 'l' => some .logLevel
  | 'o' => some .output
  | _ => none

structure Given where
  snapshot : Option String := none
  logLevel : Option String := none
  logFormat : Option LogFormat := none
  basePriority : Option UInt32 := none
  output : Option String := none
  deriving DecidableEq, Repr

inductive Stop where
  | usage
  | help
  | version
  deriving DecidableEq, Repr

/-- A priority is an integer with a sign or without one, in the range of the field. -/
def priority? (value : String) : Option UInt32 :=
  match Text.signed? (UInt64.size / 2) value.toList with
  | some n => if 0 ≤ n ∧ n < UInt32.size then some (.ofNat n.toNat) else none
  | none => none

def path? (value : String) : Option String := if value = "" then none else some value

/-- Fill a place that must be empty. -/
def fill {α : Type} (place : Option α) (value : Option α) : Except Stop (Option α) :=
  match place, value with
  | none, some value => .ok (some value)
  | _, _ => .error .usage

def Given.accept (g : Given) (key : Key) (value : String) : Except Stop Given :=
  match key with
  | .snapshot => (fill g.snapshot (path? value)).map fun v => { g with snapshot := v }
  | .logLevel => (fill g.logLevel (some value)).map fun v => { g with logLevel := v }
  | .logFormat =>
    (fill g.logFormat (LogFormat.ofName? value)).map fun v => { g with logFormat := v }
  | .basePriority =>
    (fill g.basePriority (priority? value)).map fun v => { g with basePriority := v }
  | .output => (fill g.output (path? value)).map fun v => { g with output := v }

inductive Argument where
  | option (key : Key) (attached : Option String)
  | stop (why : Stop)
  deriving DecidableEq, Repr

def readLong (body : List Char) : Argument :=
  let (name, attached) :=
    match Text.atFirst '=' body with
    | some (name, value) => (String.ofList name, some (String.ofList value))
    | none => (String.ofList body, none)
  match Key.ofLong? name, attached with
  | some key, attached => .option key attached
  | none, none =>
    if name = "help" then .stop .help else if name = "version" then .stop .version else .stop .usage
  | none, some _ => .stop .usage

def readShort : List Char → Argument
  | 'h' :: _ => .stop .help
  | 'V' :: _ => .stop .version
  | c :: rest =>
    match Key.ofShort? c, rest with
    | some key, [] => .option key none
    | some key, '=' :: value => .option key (some (.ofList value))
    | some key, value => .option key (some (.ofList value))
    | none, _ => .stop .usage
  | [] => .stop .usage

def readArgument (arg : String) : Argument :=
  match arg.toList with
  | '-' :: '-' :: body => readLong body
  | '-' :: body => readShort body
  | _ => .stop .usage

/-- An argument that begins with a hyphen and is more than one is not a value. -/
def isValue (arg : String) : Bool := arg == "-" || arg.toList.head? != some '-'

/-- Read the arguments; two hyphens end them. -/
def scan (g : Given) : List String → Except Stop Given
  | [] => .ok g
  | arg :: rest =>
    if arg = "--" then if rest.isEmpty then .ok g else .error .usage
    else
      match readArgument arg, rest with
      | .stop why, _ => .error why
      | .option key (some value), rest =>
        match g.accept key value with
        | .ok g => scan g rest
        | .error why => .error why
      | .option _ none, [] => .error .usage
      | .option key none, value :: rest =>
        if isValue value then
          match g.accept key value with
          | .ok g => scan g rest
          | .error why => .error why
        else .error .usage

structure Options where
  snapshot : String
  logLevel : String
  logFormat : LogFormat
  config : Config
  output : Option String
  deriving DecidableEq, Repr

/-- The options that the arguments give, or their defaults. A snapshot must be given. -/
def parse (args : List String) : Except Stop Options := do
  let g ← scan {} args
  match g.snapshot with
  | none => throw .usage
  | some snapshot =>
    let config : Config := {}
    return {
      snapshot
      logLevel := g.logLevel.getD "info"
      logFormat := g.logFormat.getD .plain
      config := { config with basePriority := g.basePriority.getD config.basePriority }
      output := g.output }

def programName : String := "enifwdorch"

def versionText : String := programName ++ " 0.1.0\n"

def helpText : String :=
  "Plays a snapshot through and writes what it comes to\n\n" ++
  "Usage: " ++ programName ++ " [OPTIONS] --snapshot <SNAPSHOT>\n\n" ++
  "Options:\n" ++
  "  -s, --snapshot <SNAPSHOT>            The snapshot to play\n" ++
  "  -l, --log-level <LOG_LEVEL>          What to log [default: info]\n" ++
  "      --log-format <LOG_FORMAT>        plain, json or pretty [default: plain]\n" ++
  "      --base-priority <BASE_PRIORITY>  The priority of the first role [default: 9996]\n" ++
  "  -o, --output <OUTPUT>                Where to write the report\n" ++
  "  -h, --help                           Print help\n" ++
  "  -V, --version                        Print version\n"

structure Files (m : Type → Type) where
  read : String → m (Option ByteArray)
  /-- Replace the text of a file, and say whether that was possible. -/
  write : String → String → m Bool

structure Response where
  stdout : String
  exit : Nat
  deriving DecidableEq, Repr

/-- Zero when nothing waits any more. -/
def exitCode (report : Replay.Report) : Nat := if report.pending.isEmpty then 0 else 2

/-- Load the snapshot, play it through, and write the report. -/
def execute {m : Type → Type} [Monad m] (files : Files m) (options : Options) : m Response := do
  match Snapshot.load (← files.read options.snapshot) with
  | .error _ => return ⟨"", 1⟩
  | .ok snapshot =>
    let report := Replay.report options.config snapshot
    let text := report.toJson.pretty
    match options.output with
    | none => return ⟨text ++ "\n", exitCode report⟩
    | some path =>
      if ← files.write path text then return ⟨"", exitCode report⟩ else return ⟨"", 1⟩

def run {m : Type → Type} [Monad m] (files : Files m) (args : List String) : m Response := do
  match parse args with
  | .ok options => execute files options
  | .error .usage => return ⟨"", 2⟩
  | .error .help => return ⟨helpText, 0⟩
  | .error .version => return ⟨versionText, 0⟩

end EniForwarding.CommandLine
