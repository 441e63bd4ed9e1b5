import FetchPlan.Value.Record

/-! Settings: where definitions are, how far paths are followed, and what is logged. -/
namespace FetchPlan

inductive LogLevel where
  | trace | debug | info | warn | error
  deriving DecidableEq, Repr

namespace LogLevel

def name : LogLevel → String
  | .trace => "trace"
  | .debug => "debug"
  | .info => "info"
  | .warn => "warn"
  | .error => "error"

def all : List LogLevel := [.trace, .debug, .info, .warn, .error]

def ofName? (name : String) : Option LogLevel := all.find? (·.name = name)

/-- The level of a name in any case. No character beyond ASCII has a letter of these names as its
lower case. -/
def ofAnyCase? (name : String) : Option LogLevel := ofName? name.toLower

/-- The level of a name in any case, and `warn` for all other names. -/
def parse (name : String) : LogLevel := (ofAnyCase? name).getD .warn

end LogLevel

inductive LogFormat where
  | pretty | compact | json
  deriving DecidableEq, Repr

namespace LogFormat

def name : LogFormat → String
  | .pretty => "pretty"
  | .compact => "compact"
  | .json => "json"

def all : List LogFormat := [.pretty, .compact, .json]

def ofName? (name : String) : Option LogFormat := all.find? (·.name = name)

end LogFormat

structure Settings where
  /-- Definition files and directories. References to environment variables are replaced. -/
  paths : List String := ["./entities"]
  /-- Whether every relation must lead to an entity that was loaded. -/
  checkRelations : Bool := true
  /-- How many relations are followed where no depth is given. -/
  maxDepth : Nat := 2
  logLevel : String := "warn"
  logFormat : LogFormat := .compact
  deriving DecidableEq, Repr

namespace Settings

/-- The format of a value; an empty table or list counts as nothing behind a name. -/
def formatOfValue? (v : Value) : Option LogFormat :=
  (v.choice? fun
    | .table [] | .list [] => true
    | _ => false).bind LogFormat.ofName?

/-- Part of the settings, a record of its own. One that is not given has no members. -/
def part? (name : String) (members : List String) (r : Record) : Option Record :=
  r.withDefault name [] (Record.ofValue? .toml members)

/-- Settings from a TOML value. What is not given has its default. -/
def ofValue? (v : Value) : Option Settings := do
  let r ← Record.ofValue? .toml ["registry", "enumerate", "logging"] v
  let registry ← part? "registry" ["paths", "check_relations"] r
  let walk ← part? "enumerate" ["max_depth"] r
  let logging ← part? "logging" ["level", "format"] r
  let default : Settings := {}
  let paths ← Record.withDefault registry "paths" default.paths Value.texts?
  let checkRelations ←
    Record.withDefault registry "check_relations" default.checkRelations Value.bool?
  let maxDepth ← Record.withDefault walk "max_depth" default.maxDepth (Value.natBelow? UInt64.size)
  let logLevel ← Record.withDefault logging "level" default.logLevel Value.text?
  let logFormat ← Record.withDefault logging "format" default.logFormat formatOfValue?
  pure { paths, checkRelations, maxDepth, logLevel, logFormat }

end Settings
end FetchPlan
