import CodeGauge.Number.Reading
import CodeGauge.Path.Basic

/-!
# Command line arguments

Arguments are read from left to right into a draft of the command. Options with a value may stand
before or after the name of the command; an option or a flag is given at most once in each of the
two places. Each command takes at most one path, and after `--` every argument is a path.
-/

namespace CodeGauge

namespace CommandLine

/-- What the program can be asked to do. -/
inductive Command where
  | analyze (file : Path) (json verbose : Bool)
  | scan (root : Path) (json verbose : Bool)
  | watch (root : Path)
  | relations (root : Path) (json : Bool)
deriving DecidableEq

/-- Times in milliseconds that take the place of those in the settings. -/
structure Overrides where
  debounce : Option Nat
  freshness : Option Nat
deriving DecidableEq

/-- A command with what holds for all commands. -/
structure Invocation where
  overrides : Overrides
  command : Command
deriving DecidableEq

/-- Why no command is run: the arguments make no sense, or the version was asked for. -/
inductive Stop where
  | usage
  | version
deriving DecidableEq

/-- The names of the commands. -/
inductive CommandName where
  | analyze
  | scan
  | watch
  | relations
deriving DecidableEq

namespace CommandName

/-- How a command is written. -/
def ofText? (t : Text) : Option CommandName :=
  ([("analyze", analyze), ("scan", scan), ("watch", watch), ("relations", relations)].find?
    (·.1.toList = t)).map (·.2)

end CommandName

/-- Options and flags. -/
inductive Switch where
  | logLevel
  | debounce
  | freshness
  | json
  | verbose
deriving DecidableEq

namespace Switch

/-- How a switch is written after the two dashes. -/
def ofText? (t : Text) : Option Switch :=
  ([("log-level", logLevel), ("debounce-ms", debounce), ("freshness-ms", freshness), ("json", json),
    ("verbose", verbose)].find? (·.1.toList = t)).map (·.2)

/-- Whether a switch takes a value. -/
def takesValue : Switch → Bool
  | logLevel | debounce | freshness => true
  | json | verbose => false

/-- Whether a switch may stand behind a command, or before any command. -/
def allowedFor (command : Option CommandName) : Switch → Bool
  | logLevel | debounce | freshness => true
  | json => command = some .analyze || command = some .scan || command = some .relations
  | verbose => command = some .analyze || command = some .scan

end Switch

/-- What has been read so far. A pending switch still needs its value; the seen switches are those
on the same side of the name of the command. -/
structure Draft where
  command : Option CommandName
  pending : Option Switch
  onlyPaths : Bool
  seen : List Switch
  debounce : Option Nat
  freshness : Option Nat
  json : Bool
  verbose : Bool
  path : Option Text

namespace Draft

/-- Nothing read yet. -/
def empty : Draft := ⟨none, none, false, [], none, none, false, false, none⟩

/-- A whole number of at most 64 bits, with an optional plus sign. -/
def millis? (t : Text) : Option Nat :=
  let ds := match t with
    | '+' :: rest => rest
    | rest => rest
  if ds.isEmpty || !ds.all Char.isDigit then none
  else (some (readDigits ds)).filter (· < Nat.pow 2 64)

/-- A time that has to be a number. -/
def millis (t : Text) : Except Stop Nat :=
  match millis? t with
  | some n => .ok n
  | none => .error .usage

/-- Notes that a switch was given; it may be given once. -/
def note (d : Draft) (s : Switch) : Except Stop Draft :=
  if d.seen.contains s then .error .usage else .ok { d with seen := s :: d.seen }

/-- Takes the value of a switch. -/
def setValue (d : Draft) (s : Switch) (value : Text) : Except Stop Draft := do
  let d ← d.note s
  match s with
  | .debounce => return { d with pending := none, debounce := some (← millis value) }
  | .freshness => return { d with pending := none, freshness := some (← millis value) }
  | _ => return { d with pending := none }

/-- Takes a switch without a value. -/
def setFlag (d : Draft) (s : Switch) : Except Stop Draft := do
  let d ← d.note s
  match s with
  | .json => return { d with json := true }
  | .verbose => return { d with verbose := true }
  | _ => return { d with pending := some s, seen := d.seen.erase s }

/-- Takes an argument that starts with two dashes. -/
def takeSwitch (d : Draft) (body : Text) : Except Stop Draft :=
  let (label, tail) := body.span (· != '=')
  if label = "version".toList ∧ tail = [] ∧ d.command = none then .error .version
  else
    match (Switch.ofText? label).filter (·.allowedFor d.command) with
    | none => .error .usage
    | some s =>
      match tail with
      | [] => d.setFlag s
      | _ :: value => if s.takesValue then d.setValue s value else .error .usage

/-- Takes the path of a command. -/
def takePath (d : Draft) (t : Text) : Except Stop Draft :=
  if t.isEmpty || d.path.isSome then .error .usage else .ok { d with path := some t }

/-- Takes an argument without dashes: the name of the command, and later its path. -/
def takeWord (d : Draft) (t : Text) : Except Stop Draft :=
  match d.command with
  | some _ => d.takePath t
  | none =>
    match CommandName.ofText? t with
    | some c => .ok { d with command := some c, seen := [] }
    | none => .error .usage

/-- Whether an argument is written like a switch; a single dash is not. -/
def isDashed : Text → Bool
  | '-' :: _ :: _ => true
  | _ => false

/-- Takes the next argument. -/
def take (d : Draft) (arg : Text) : Except Stop Draft :=
  match d.pending with
  | some s => if isDashed arg then .error .usage else d.setValue s arg
  | none =>
    if d.onlyPaths then d.takePath arg
    else if isDashed arg then
      match arg with
      | ['-', '-'] => if d.command.isSome then .ok { d with onlyPaths := true } else .error .usage
      | '-' :: '-' :: body => d.takeSwitch body
      | '-' :: 'V' :: _ => if d.command.isNone then .error .version else .error .usage
      | _ => .error .usage
    else d.takeWord arg

/-- The path of a command, or the working directory if there is none. -/
def root (d : Draft) : Path := .ofText (d.path.getD ['.'])

/-- The command that was read. -/
def command? (d : Draft) : Option Command :=
  match d.pending, d.command, d.path with
  | none, some .analyze, some file => some (.analyze (.ofText file) d.json d.verbose)
  | none, some .scan, _ => some (.scan d.root d.json d.verbose)
  | none, some .watch, _ => some (.watch d.root)
  | none, some .relations, _ => some (.relations d.root d.json)
  | _, _, _ => none

end Draft

/-- Reads the arguments. -/
def readArguments (args : List Text) : Except Stop Invocation := do
  let d ← args.foldlM Draft.take Draft.empty
  match d.command? with
  | some command => return ⟨⟨d.debounce, d.freshness⟩, command⟩
  | none => throw .usage

end CommandLine

end CodeGauge
