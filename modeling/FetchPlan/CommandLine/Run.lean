import FetchPlan.CommandLine.Invocation
import FetchPlan.CompileError
import FetchPlan.Plan.Compile
import FetchPlan.Reach
import FetchPlan.Uniqueness

/-! Commands and what they print. -/
namespace FetchPlan.CommandLine

structure Outcome where
  code : Nat
  output : String := ""
  problem : Option String := none
  deriving DecidableEq, Repr

def linesText (lines : List String) : String := String.join (lines.map (· ++ "\n"))

mutual

def nodeLines (depth : Nat) : FieldNode → List String
  | .column name scalar nullable _ =>
    [indent depth ++ name ++ ": " ++ scalar.name ++ (if nullable then "?" else "")]
  | .virtual name => [indent depth ++ name ++ ": virtual"]
  | .object relation target children =>
    (indent depth ++ relation.name ++ ": object " ++ target) :: nodesLines (depth + 1) children
  | .array relation target children =>
    (indent depth ++ relation.name ++ ": array " ++ target) :: nodesLines (depth + 1) children

def nodesLines (depth : Nat) : List FieldNode → List String
  | [] => []
  | node :: rest => nodeLines depth node ++ nodesLines depth rest

end

def uniqueLines (e : Entity) : List String :=
  ("Columns: " ++ Text.join ", " e.uniqueColumns) ::
    e.uniqueConstraints.map fun columns => "  UNIQUE (" ++ Text.join ", " columns ++ ")"

def RelationField.text (r : RelationField) : String := s!"{r.name} ({r.kind.name} {r.target})"

/-- A labelled list, or no line if the list is empty. -/
def labelled (label : String) (items : List String) : List String :=
  if items.isEmpty then [] else [label ++ Text.join ", " items]

def entityLines (e : Entity) : List String :=
  [s!"{e.id} [{e.table}]", s!"  Fields: {e.fields.length}"] ++
    labelled "  Relations: " (e.relations.map RelationField.text) ++
    labelled "  Subsets: " e.subsets.keys

/-- The plan of a subset, or else of paths, as a document. -/
def documentOf (r : Registry) (entity : String) (subset : Option String) (paths : List String) :
    Except SchemaError PlanDocument := do
  let plan ← match subset with
    | some key => r.compileSubset entity key
    | none => r.compileFieldPaths entity paths
  pure { entity, subset, plan }

/-- Documents in JSON end their last line as well. -/
def documentText (format : PlanFormat) (d : PlanDocument) : String :=
  match format with
  | .json => d.render .json ++ "\n"
  | .text => d.render .text

def Command.output (settings : Settings) (r : Registry) : Command → Except SchemaError String
  | .compile entity subset asked format => do
    let d ← documentOf r entity subset asked
    pure (documentText format d)
  | .resolve entity asked => do
    let nodes ← r.resolve entity asked
    pure (linesText (nodesLines 0 nodes))
  | .paths entity depth => do
    let reached ← r.reachable entity (depth.getD settings.maxDepth)
    pure (linesText (reached.map FieldPath.dotted))
  | .unique entity => do
    let e ← r.get entity
    pure (linesText (uniqueLines e))
  | .validate => do
    r.validate
    let subsets := r.all.foldl (fun n e => n + e.subsets.size) 0
    pure (linesText [s!"✓ {r.size} entities, {subsets} subsets compiled"])
  | .list => pure (linesText (r.all.flatMap entityLines))

/-- The registry of the definitions given, or else of those in the settings. -/
def Invocation.registry (i : Invocation) (settings : Settings) (files : Files) (env : Environment) :
    Except CompileError Registry :=
  if i.definitions.isEmpty then settings.loadRegistry files env
  else (files.loadRegistry i.definitions settings.checkRelations).mapError .load

def Invocation.settings (i : Invocation) (files : Files) (env : Environment) :
    Except SettingsError Settings :=
  match i.config with
  | some path => Settings.ofFile files path
  | none => Settings.load files env

def Command.isIdle : Command → Bool
  | .compile _ none [] _ => true
  | _ => false

def Invocation.runWith (i : Invocation) (settings : Settings) (files : Files) (env : Environment) :
    Outcome :=
  match i.registry settings files env with
  | .error problem => { code := 1, problem := some ("Error: " ++ problem.message) }
  | .ok r =>
    if i.command.isIdle then { code := 1, problem := some "Either --subset or --paths is required" }
    else match i.command.output settings r with
      | .error problem => { code := 1, problem := some ("Error: " ++ problem.message) }
      | .ok output => { code := 0, output }

def Invocation.run (i : Invocation) (files : Files) (env : Environment) : Outcome :=
  match i.settings files env with
  | .error problem => { code := 1, problem := some ("Configuration error: " ++ problem.message) }
  | .ok settings => i.runWith settings files env

def usage : String := linesText
  ["Usage: relplan [--config FILE] [--log-level LEVEL] COMMAND [DEFINITIONS...]",
   "       relplan --version",
   "Commands:",
   "  compile -e ENTITY (-s SUBSET | -p PATHS) [-f json|text]",
   "  resolve -e ENTITY -p PATHS",
   "  paths -e ENTITY [-d DEPTH]",
   "  unique -e ENTITY",
   "  validate",
   "  list"]

def versionText : String := linesText ["relplan 0.1.0"]

/-- Runs the program on its arguments. Arguments that are not in order have code 2. -/
def run (args : List String) (files : Files) (env : Environment) : Outcome :=
  match request? args with
  | none => { code := 2, problem := some usage }
  | some .version => { code := 0, output := versionText }
  | some (.command i) => i.run files env

end FetchPlan.CommandLine
