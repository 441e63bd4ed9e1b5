import FetchPlan.CommandLine.Run

/-! The program. It reads the variables and files that a command line is about, runs the command
on them and prints what comes out. -/
namespace FetchPlan.Program

/-- Reads variables. The replacement character stands for bytes that are no part of a character. -/
def readVariables (names : List String) : IO Environment := do
  let found ← names.filterMapM fun name => do
    let value ← IO.getEnv name
    let held := value.map fun value => value.toList.map fun c => if c = '\ufffd' then none else some c
    pure (held.map fun held => (name, held))
  pure ⟨found⟩

/-- Reads a file or directory. Directories below the given depth count as empty. -/
def readTree : Nat → String → IO FileTree
  | 0, _ => pure (.directory [])
  | depth + 1, path => do
    let place := System.mkFilePath [path]
    if ← place.isDir then
      let entries ← place.readDir
      let trees ← entries.toList.mapM fun entry => do
        let below := extendPath path [entry.fileName]
        let skipped := !isDefinitionFile entry.fileName && !(← (System.mkFilePath [below]).isDir)
        let t ← if skipped then pure (FileTree.file none) else readTree depth below
        pure (entry.fileName, t)
      pure (.directory trees)
    else if isTooLong path then pure (.file none)
    else
      let bytes ← IO.FS.readBinFile place
      pure (.file (String.fromUTF8? bytes))

def readPlaces (depth : Nat) (paths : List String) : IO Files := do
  let found ← paths.filterMapM fun path => do
    if path = "" || !(← (System.mkFilePath [path]).pathExists) then pure none
    else
      let t ← readTree depth path
      pure (some (path, t))
  pure fun path => found.lookup path

/-- Runs a command: first the settings are read, then the definitions they point to. No path within
bounds has as many directories on its way as it may have bytes. -/
def perform (i : CommandLine.Invocation) : IO CommandLine.Outcome := do
  let env ← readVariables Settings.variableNames
  let files ← readPlaces 1 (i.config.toList ++ Settings.candidates env)
  match i.settings files env with
  | .error _ => pure (i.run files env)
  | .ok settings => do
    let env ← readVariables (settings.paths.flatMap Environment.references)
    let paths := match i.definitions, settings.resolvedPaths env with
      | [], .ok paths => paths
      | definitions, _ => definitions
    let files ← readPlaces pathBound paths
    pure (i.runWith settings files env)

end FetchPlan.Program

def main (args : List String) : IO UInt32 := do
  let outcome ← match FetchPlan.CommandLine.request? args with
    | some (.command i) => FetchPlan.Program.perform i
    | _ => pure (FetchPlan.CommandLine.run args (fun _ => none) {})
  IO.print outcome.output
  if let some problem := outcome.problem then IO.eprintln problem
  pure outcome.code.toUInt32
