import FetchPlan.Definition.Reader
import FetchPlan.FileTree
import FetchPlan.Registry
import FetchPlan.Toml.Reader

/-! Loading entity definitions from files and directories. -/
namespace FetchPlan

inductive LoadError where
  | fileNotFound (path : String)
  | unsupportedExtension (extension : String)
  | unreadable (problem : ReadProblem)
  | malformedToml (file : String)
  | malformedJson (file : String)
  /-- The registry refuses an entity of this file. -/
  | registration (file : String) (problem : SchemaError)
  | relations (problem : SchemaError)
  deriving DecidableEq, Repr

def LoadError.message : LoadError → String
  | .fileNotFound path => s!"File not found: {path}"
  | .unsupportedExtension extension =>
    s!"Unsupported file extension: {extension}. Supported: .toml, .json"
  | .unreadable problem => "IO error: " ++ problem.message
  | .malformedToml file => s!"TOML error in {file}"
  | .malformedJson file => s!"JSON error in {file}"
  | .registration file problem => s!"Invalid definition in {file}: " ++ problem.message
  | .relations problem => "Definition check failed: " ++ problem.message

def DefinitionFile.ofToml? (text : String) : Option DefinitionFile :=
  (Toml.read text).bind (ofValue? .toml)

def DefinitionFile.ofText (isToml : Bool) (file text : String) : Except LoadError DefinitionFile :=
  match if isToml then ofToml? text else ofJson? text with
  | some contents => pure contents
  | none => throw (if isToml then .malformedToml file else .malformedJson file)

namespace Files

def loadFile (file : String) (t : FileTree) : Except LoadError (List (String × Entity)) := do
  let extension := (fileExtension? (pathName file)).getD ""
  if extension ≠ "toml" ∧ extension ≠ "json" then throw (.unsupportedExtension extension)
  let text ← (t.readAt file).mapError .unreadable
  let contents ← DefinitionFile.ofText (extension = "toml") file text
  pure (contents.entities.map fun e => (file, e))

/-- The entities of a file, or of all definition files below a directory. -/
def loadTree (path : String) : FileTree → Except LoadError (List (String × Entity))
  | .file text => loadFile path (.file text)
  | .directory entries => do
    let loaded ← (FileTree.definitionFiles path entries).mapM fun f =>
      loadFile (extendPath path f.1) f.2
    pure loaded.flatten

def loadDefinitions (files : Files) (path : String) : Except LoadError (List (String × Entity)) :=
  match files path with
  | some t => loadTree path t
  | none => throw (.fileNotFound path)

def register (r : Registry) (loaded : List (String × Entity)) : Except LoadError Registry :=
  loaded.foldlM (fun r l => (r.register l.2).mapError (.registration l.1)) r

/-- The registry of all entities at some paths. If relations are checked, they are once
everything is loaded. -/
def loadRegistry (files : Files) (paths : List String) (checkRelations : Bool) :
    Except LoadError Registry := do
  let r ← paths.foldlM (fun r path => do
    let loaded ← files.loadDefinitions path
    register r loaded) Registry.empty
  if checkRelations then r.checkRelations.mapError .relations
  pure r

end Files
end FetchPlan
