import FetchPlan.CommandLine.Options
import FetchPlan.Plan.Document
import FetchPlan.Settings
import FetchPlan.Text.Digits

/-! What a command line asks for. -/
namespace FetchPlan.CommandLine

inductive Command where
  /-- The plan of a subset, or else of some paths. -/
  | compile (entity : String) (subset : Option String) (paths : List String) (format : PlanFormat)
  | resolve (entity : String) (paths : List String)
  | paths (entity : String) (depth : Option Nat)
  | unique (entity : String)
  | validate
  | list
  deriving DecidableEq, Repr

structure Invocation where
  config : Option String
  logLevel : Option String
  /-- Definition files and directories; those of the settings if there are none. -/
  definitions : List String
  command : Command
  deriving DecidableEq, Repr

inductive Request where
  | version
  | command (i : Invocation)
  deriving DecidableEq, Repr

/-- Options that stand before or after the command. -/
def generalOptions : List OptionSpec := [{ name := "config" }, { name := "log-level" }]

def entityOption : OptionSpec := { name := "entity", short := some 'e' }

def subsetOption : OptionSpec := { name := "subset", short := some 's' }

def pathsOption : OptionSpec := { name := "paths", short := some 'p', repeats := true }

def formatOption : OptionSpec := { name := "format", short := some 'f' }

def depthOption : OptionSpec := { name := "depth", short := some 'd' }

def commandOptions : List (String × List OptionSpec) :=
  [("compile", [entityOption, subsetOption, pathsOption, formatOption]),
   ("resolve", [entityOption, pathsOption]),
   ("paths", [entityOption, depthOption]),
   ("unique", [entityOption]),
   ("validate", []),
   ("list", [])]

/-- A number that fits 64 bits, with or without a plus sign. -/
def depth? (s : String) : Option Nat := do
  let digits := match s.toList with
    | '+' :: digits => digits
    | digits => digits
  let n ← Text.number? 10 digits
  if n < UInt64.size then pure n else none

def format? (a : Arguments) : Option PlanFormat :=
  match a.value? "format" with
  | none | some "json" => some .json
  | some "text" => some .text
  | some _ => none

/-- The command of a name. A subset and paths exclude each other. -/
def command? (name : String) (a : Arguments) : Option Command :=
  let paths := a.listed "paths"
  let subset := a.value? "subset"
  match name with
  | "compile" => do
    let entity ← a.value? "entity"
    let format ← format? a
    if subset.isSome && !paths.isEmpty then none
    pure (.compile entity subset paths format)
  | "resolve" => do
    let entity ← a.value? "entity"
    if paths.isEmpty then none
    pure (.resolve entity paths)
  | "paths" => do
    let entity ← a.value? "entity"
    match a.value? "depth" with
    | none => pure (.paths entity none)
    | some text => (depth? text).map fun depth => .paths entity (some depth)
  | "unique" => (a.value? "entity").map .unique
  | "validate" => some .validate
  | "list" => some .list
  | _ => none

/-- An option that may stand before the command, after it or in both places. Both values must be
good, and the one after the command counts. -/
def general? (name : String) (good : String → Bool) (before after : Arguments) :
    Option (Option String) :=
  let given := (after.value? name).toList ++ (before.value? name).toList
  if given.all good then some given.head? else none

def config? (before after : Arguments) : Option (Option String) :=
  general? "config" (· ≠ "") before after

def logLevel? (before after : Arguments) : Option (Option String) :=
  general? "log-level" (fun level => (LogLevel.ofName? level).isSome) before after

def invocation? (before : Arguments) (name : String) (rest : List String) : Option Invocation := do
  let specs ← commandOptions.lookup name
  let after ← Arguments.readAll (generalOptions ++ specs) rest.length {} rest
  let command ← command? name after
  let config ← config? before after
  let logLevel ← logLevel? before after
  if after.ordinary.any (· = "") then none
  pure { config, logLevel, definitions := after.ordinary, command }

def request? (args : List String) : Option Request := do
  match ← Arguments.readOpening generalOptions args.length {} args with
  | .version before => do
    let _ ← config? before {}
    let _ ← logLevel? before {}
    pure .version
  | .command before name rest => (invocation? before name rest).map .command

end FetchPlan.CommandLine
