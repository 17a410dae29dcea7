-- SUMMARY: The command line: settings, switches and the entry file, read from left to right.
import ImportAtlas.CommandLine.Decimal
import ImportAtlas.Origin
import ImportAtlas.Session.Engine

/-! # Arguments

Arguments are read from left to right. A setting takes its value behind an equals sign or from the
next argument; a value from the next argument is looked at only when the argument behind it is known,
so an unknown argument is reported before a bad value in front of it. What is missing, and what does
not go together, is found at the end. -/

namespace ImportAtlas.CommandLine

/-- Why a command line does not say what to do. -/
inductive UsageError where
  | missing
  /-- two things that do not go together, or one thing twice -/
  | conflict
  | unknown
  /-- no value where one is needed, or an empty path -/
  | noValue
  | notNumber
  /-- a value for something that takes none -/
  | extraValue
  /-- the help was asked for -/
  | help
  /-- the version was asked for -/
  | version
  deriving DecidableEq, Repr

def UsageError.message : UsageError → String
  | missing => "a required argument was not provided"
  | conflict => "two arguments cannot be used together"
  | unknown => "an unexpected argument was found"
  | noValue => "an argument needs a value"
  | notNumber => "a value is not a number"
  | extraValue => "an argument takes no value"
  | help => "help was asked for"
  | version => "the version was asked for"

/-- What takes a value. The entry file is the one argument without a name. -/
inductive Setting where
  | entry | graph | projectRoot | linkDistance | linkStrength | repulsion | centerStrength
  deriving DecidableEq, Repr

/-- What takes no value. -/
inductive Switch where
  | thirdParty | conditional | dump | grouped | help | version
  deriving DecidableEq, Repr

/-- Something that a name behind two dashes can stand for. -/
inductive Named where
  | setting (o : Setting)
  | switch (f : Switch)
  deriving DecidableEq, Repr

def named : List (String × Named) :=
  [("graph", .setting .graph), ("project-root", .setting .projectRoot),
    ("include-third-party", .switch .thirdParty),
    ("include-conditional-imports", .switch .conditional), ("dump", .switch .dump),
    ("grouped", .switch .grouped), ("link-distance", .setting .linkDistance),
    ("link-strength", .setting .linkStrength), ("repulsion", .setting .repulsion),
    ("center-strength", .setting .centerStrength), ("help", .switch .help),
    ("version", .switch .version)]

def letters : List (Char × Switch) := [('h', .help), ('V', .version)]

/-- A value that was read. -/
inductive Value where
  | path (s : String)
  | number (x : Float32)

/-- Read the value of a setting. -/
def Setting.parse (o : Setting) (raw : String) : Except UsageError Value :=
  match o with
  | .entry | .graph | .projectRoot => if raw = "" then .error .noValue else .ok (.path raw)
  | .linkDistance | .linkStrength | .repulsion | .centerStrength =>
    match singleOfText? raw with
    | some x => .ok (.number x)
    | none => .error .notNumber

/-- What has been read so far. -/
structure Parsed where
  values : List (Setting × Value) := []
  switches : List Switch := []
  /-- the setting that was named last, and its value once there is one -/
  pending : Option (Setting × Option String) := none
  /-- whether an entry file was given -/
  entrySeen : Bool := false
  /-- whether only entry files may follow -/
  trailing : Bool := false

namespace Parsed

def value? (p : Parsed) (o : Setting) : Option Value := p.values.lookup o

def path? (p : Parsed) (o : Setting) : Option String :=
  match p.value? o with
  | some (.path s) => some s
  | _ => none

def number (p : Parsed) (o : Setting) (default : Float32) : Float32 :=
  match p.value? o with
  | some (.number x) => x
  | _ => default

/-- Take a value for a setting, which may have only one. -/
def accept (p : Parsed) (o : Setting) (raw : String) : Except UsageError Parsed :=
  if (p.value? o).isSome then .error .conflict
  else do
    let v ← o.parse raw
    return { p with values := p.values ++ [(o, v)] }

/-- Look at the value of the setting that is pending. -/
def settle (p : Parsed) : Except UsageError Parsed :=
  match p.pending with
  | none => .ok p
  | some (_, none) => .error .noValue
  | some (o, some raw) => { p with pending := none }.accept o raw

/-- Turn on a switch, which may be done once. -/
def turnOn (p : Parsed) (f : Switch) : Except UsageError Parsed := do
  let p ← p.settle
  match f with
  | .help => .error .help
  | .version => .error .version
  | f => if f ∈ p.switches then .error .conflict else .ok { p with switches := p.switches ++ [f] }

/-- An argument that begins with two dashes: a name, and a value behind an equals sign. -/
def long (p : Parsed) (name : String) (attached : Option String) : Except UsageError Parsed :=
  match named.lookup name, attached with
  | none, _ => .error .unknown
  | some (.switch f), none => p.turnOn f
  | some (.switch _), some _ => .error .extraValue
  | some (.setting o), none => do
    let p ← p.settle
    return { p with pending := some (o, none) }
  | some (.setting o), some raw => do (← p.settle).accept o raw

/-- An argument of single letters behind one dash. -/
def short (p : Parsed) : List Char → Except UsageError Parsed
  | [] => .ok p
  | c :: cs =>
    match letters.lookup c with
    | none => .error .unknown
    | some f => do (← p.turnOn f).short cs

/-- The entry file, of which there is only one. -/
def entry (p : Parsed) (raw : String) : Except UsageError Parsed :=
  if p.entrySeen then .error .unknown
  else do
    let p ← p.settle
    return { p with pending := some (.entry, some raw), entrySeen := true }

/-- An argument without dashes: the value that a setting waits for, or the entry file. -/
def plain (p : Parsed) (raw : String) : Except UsageError Parsed :=
  match p.pending with
  | some (o, none) => .ok { p with pending := some (o, some raw) }
  | _ => p.entry raw

/-- The name of a long argument and the value behind its equals sign. -/
def splitEquals (cs : List Char) : String × Option String :=
  let name := String.ofList (cs.takeWhile (· != '='))
  match cs.dropWhile (· != '=') with
  | [] => (name, none)
  | _ :: v => (name, some (String.ofList v))

/-- Take one argument. -/
def take (p : Parsed) (arg : String) : Except UsageError Parsed :=
  if p.trailing then p.entry arg
  else
    match arg.toList with
    | ['-', '-'] => .ok { p with trailing := true }
    | '-' :: '-' :: cs =>
      let (name, attached) := splitEquals cs
      p.long name attached
    | '-' :: c :: cs => p.short (c :: cs)
    | _ => p.plain arg

end Parsed

/-- What a command line asks for. -/
structure Arguments where
  origin : Origin
  config : SimConfig
  dump : Bool
  grouped : Bool

namespace Parsed

/-- The tuning of the simulation; the size of the repulsion counts, not its sign. -/
def config (p : Parsed) : SimConfig where
  linkDistance := p.number .linkDistance 100.0
  linkStrength := p.number .linkStrength 0.5
  repulsion := -(p.number .repulsion 1500.0).abs
  centerStrength := p.number .centerStrength 0.02

/-- What the arguments ask for, once all of them have been taken. -/
def finish (p : Parsed) : Except UsageError Arguments := do
  let p ← p.settle
  let rest (origin : Origin) : Except UsageError Arguments :=
    if .grouped ∈ p.switches ∧ .dump ∉ p.switches then .error .missing
    else .ok
      { origin, config := p.config, dump := .dump ∈ p.switches, grouped := .grouped ∈ p.switches }
  match p.path? .entry, p.path? .graph with
  | none, none => .error .missing
  | some _, some _ => .error .conflict
  | none, some path => rest (.file path)
  | some entry, none =>
    rest (.trace entry ((p.path? .projectRoot).getD ".")
      { thirdParty := .thirdParty ∈ p.switches, conditional := .conditional ∈ p.switches })

end Parsed

/-- Read a command line. -/
def parse (args : List String) : Except UsageError Arguments := do
  (← args.foldlM Parsed.take {}).finish

end ImportAtlas.CommandLine
