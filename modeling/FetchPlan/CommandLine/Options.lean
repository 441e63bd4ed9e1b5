import FetchPlan.Text.Split

/-! Options and other arguments of a command line. An option is `--name value`, `--name=value`,
`-n value`, `-nvalue` or `-n=value`. Behind `--` everything is an ordinary argument. -/
namespace FetchPlan.CommandLine

structure OptionSpec where
  name : String
  short : Option Char := none
  repeats : Bool := false
  deriving DecidableEq, Repr

/-- The arguments of a command. Options stand in the order given. -/
structure Arguments where
  options : List (String × String) := []
  ordinary : List String := []
  deriving DecidableEq, Repr

/-- What a command line begins with: some options, and then a command with its own arguments or the
question for the version, behind which nothing counts. -/
inductive Opening where
  | command (before : Arguments) (name : String) (rest : List String)
  | version (before : Arguments)
  deriving DecidableEq, Repr

/-- The kinds of argument by their first characters. A single minus sign is an ordinary one. -/
inductive Shape where
  | ordinary
  | rest
  | long (name : String) (value : Option String)
  | short (letter : Char) (attached : List Char)
  deriving DecidableEq, Repr

def Shape.ofText (arg : String) : Shape :=
  match arg.toList with
  | ['-', '-'] => .rest
  | '-' :: '-' :: body =>
    let name := body.takeWhile (· ≠ '=')
    match body.dropWhile (· ≠ '=') with
    | [] => .long (String.ofList name) none
    | _ :: value => .long (String.ofList name) (some (String.ofList value))
  | '-' :: letter :: attached => .short letter attached
  | _ => .ordinary

/-- The value written into the same argument as a letter, if there is one. -/
def attachedValue? : List Char → Option String
  | [] => none
  | '=' :: value => some (String.ofList value)
  | value => some (String.ofList value)

namespace Arguments

/-- Takes an option with the value it came with, or else with the next argument, which must not
look like an option itself. -/
def take? (spec : OptionSpec) (value : Option String) (rest : List String) :
    Option ((String × String) × List String) :=
  match value, rest with
  | some value, rest => some ((spec.name, value), rest)
  | none, value :: rest =>
    if Shape.ofText value = .ordinary then some ((spec.name, value), rest) else none
  | none, [] => none

def addOption? (a : Arguments) (spec : OptionSpec) (entry : String × String) : Option Arguments :=
  if !spec.repeats && a.options.any (·.1 = spec.name) then none
  else some { a with options := a.options ++ [entry] }

def readOption? (specs : List OptionSpec) (a : Arguments) (shape : Shape) (rest : List String) :
    Option (Arguments × List String) := do
  let (spec, value) ← match shape with
    | .long name value => (specs.find? (·.name = name)).map (·, value)
    | .short letter attached => (specs.find? (·.short = some letter)).map (·, attachedValue? attached)
    | .ordinary | .rest => none
  let (entry, rest) ← take? spec value rest
  let a ← a.addOption? spec entry
  pure (a, rest)

/-- Reads all arguments, at most `fuel` of them. -/
def readAll (specs : List OptionSpec) : Nat → Arguments → List String → Option Arguments
  | _, a, [] => some a
  | 0, _, _ => none
  | fuel + 1, a, arg :: rest =>
    match Shape.ofText arg with
    | .rest => some { a with ordinary := a.ordinary ++ rest }
    | .ordinary => readAll specs fuel { a with ordinary := a.ordinary ++ [arg] } rest
    | shape => do
      let (a, rest) ← readOption? specs a shape rest
      readAll specs fuel a rest

/-- Reads up to the first ordinary argument, which names the command. -/
def readOpening (specs : List OptionSpec) : Nat → Arguments → List String → Option Opening
  | _, _, [] | 0, _, _ => none
  | fuel + 1, a, arg :: rest =>
    match Shape.ofText arg with
    | .rest => none
    | .ordinary => some (.command a arg rest)
    | .long "version" none | .short 'V' _ => some (.version a)
    | shape => do
      let (a, rest) ← readOption? specs a shape rest
      readOpening specs fuel a rest

def value? (a : Arguments) (name : String) : Option String := a.options.lookup name

/-- All values of an option, split at commas. -/
def listed (a : Arguments) (name : String) : List String :=
  (a.options.filter (·.1 = name)).flatMap fun o => Text.split ',' o.2

end Arguments
end FetchPlan.CommandLine
