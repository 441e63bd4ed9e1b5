import FetchPlan.Environment
import FetchPlan.FileTree
import FetchPlan.Settings
import FetchPlan.Toml.Reader

/-! Finding and reading the settings file. -/
namespace FetchPlan

inductive SettingsError where
  | fileNotFound (path : String)
  | unreadable (problem : ReadProblem)
  | malformed
  | missingVariable (name : String)
  | unknownLevel (level : String)
  deriving DecidableEq, Repr

def SettingsError.message : SettingsError → String
  | .fileNotFound path => s!"Config file not found: {path}"
  | .unreadable problem => "Failed to read config file: " ++ problem.message
  | .malformed => "Failed to parse config file"
  | .missingVariable name => s!"Missing environment variable: {name}"
  | .unknownLevel level => s!"Invalid configuration: unknown log level '{level}'"

namespace Settings

def ofText (text : String) : Except SettingsError Settings :=
  match (Toml.read text).bind ofValue? with
  | none => throw .malformed
  | some settings =>
    if (LogLevel.ofAnyCase? settings.logLevel).isSome then pure settings
    else throw (.unknownLevel settings.logLevel)

def ofFile (files : Files) (path : String) : Except SettingsError Settings :=
  match files path with
  | none => throw (.fileNotFound path)
  | some t => do
    let text ← t.read.mapError .unreadable
    ofText text

/-- Names a settings file, which must then exist. -/
def configVariable : String := "RELPLAN_CONFIG"

def projectFile : String := "relplan.toml"

/-- The settings file of a user. It is below the directory that the environment gives for
configuration, if that is absolute, and otherwise below the home directory. A directory whose path
is no text is not looked into. -/
def userFile? (env : Environment) : Option String :=
  let home := ((env.text? "HOME").filter (· ≠ "")).map (extendPath · [".config"])
  let directory := match env.lookup "XDG_CONFIG_HOME" with
    | some path => if path.head? = some (some '/') then path.text? else home
    | none => home
  directory.map (extendPath · ["relplan", "config.toml"])

def variableNames : List String := [configVariable, "XDG_CONFIG_HOME", "HOME"]

/-- The files that settings may be read from, the first of which counts. -/
def candidates (env : Environment) : List String :=
  (env.text? configVariable).toList ++ projectFile :: (userFile? env).toList

/-- The file that settings are read from, unless the defaults stand. -/
def file? (files : Files) (env : Environment) : Option String :=
  match env.text? configVariable with
  | some path => some path
  | none => (projectFile :: (userFile? env).toList).find? fun path => (files path).isSome

def load (files : Files) (env : Environment) : Except SettingsError Settings :=
  match file? files env with
  | some path => ofFile files path
  | none => pure {}

def resolvedPaths (s : Settings) (env : Environment) : Except SettingsError (List String) :=
  s.paths.mapM fun path => (env.expand path).mapError .missingVariable

end Settings
end FetchPlan
