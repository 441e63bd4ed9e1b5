import FetchPlan.Definition.Load
import FetchPlan.Settings.Load

/-! Loading what the settings describe, and why that or a compilation after it can fail. -/
namespace FetchPlan

inductive CompileError where
  | settings (problem : SettingsError)
  | load (problem : LoadError)
  | schema (problem : SchemaError)
  deriving DecidableEq, Repr

def CompileError.message : CompileError → String
  | .settings problem => "Settings error: " ++ problem.message
  | .load problem => "Load error: " ++ problem.message
  | .schema problem => problem.message

def Settings.loadRegistry (s : Settings) (files : Files) (env : Environment) :
    Except CompileError Registry := do
  let paths ← (s.resolvedPaths env).mapError .settings
  (files.loadRegistry paths s.checkRelations).mapError .load

end FetchPlan
