import FetchPlan.Value

/-! TOML documents while they are read. A table keeps how it came to be, because that decides
which later lines may add to it. -/
namespace FetchPlan.Toml

/-- How a table came to be: by its own header, as part of the path in a header, or as part of a
dotted key. -/
inductive Origin where
  | header
  | passed
  | dotted
  deriving DecidableEq, Repr

inductive Node where
  /-- A value that is written in one place and never added to. -/
  | closed (v : Value)
  | table (origin : Origin) (members : List (String × Node))
  /-- Tables with a header each, the latest first. -/
  | tables (latest : List (String × Node)) (earlier : List (List (String × Node)))
  deriving Repr

abbrev Members := List (String × Node)

/-- Changes what stands under a key, if anything does. -/
def Members.alter (key : String) (change : Option Node → Option Node) : Members → Option Members
  | [] => (change none).map fun node => [(key, node)]
  | (k, node) :: rest =>
    if k = key then (change (some node)).map fun node => (k, node) :: rest
    else (Members.alter key change rest).map ((k, node) :: ·)

/-- Changes the table at the end of a path, where `dotted` tells a dotted key from a header. Tables
on the way are made if there are none; a dotted key does not pass one that has a header. -/
def Members.walk (dotted : Bool) (change : Origin → Members → Option Members) :
    List String → Origin → Members → Option Members
  | [], origin, members => change origin members
  | key :: path, _, members =>
    Members.alter key (fun
      | none =>
        let origin := if dotted then Origin.dotted else .passed
        (Members.walk dotted change path origin []).map (.table origin)
      | some (.table origin inner) =>
        if dotted && origin = .header then none
        else (Members.walk dotted change path origin inner).map (.table origin)
      | some (.tables latest earlier) =>
        (Members.walk dotted change path .header latest).map (.tables · earlier)
      | some (.closed _) => none) members

/-- Adds a value under a new key. A dotted key ends in a table of dotted keys, any other key in a
table that is none. -/
def Members.insert (path : List String) (key : String) (v : Value) (origin : Origin)
    (members : Members) : Option Members :=
  Members.walk true (fun origin inner =>
    if decide (origin = .dotted) = path.isEmpty then none
    else Members.alter key (fun
      | none => some (.closed v)
      | some _ => none) inner) path origin members

structure Document where
  root : Members := []
  /-- Path of the table that lines are added to. -/
  current : List String := []
  deriving Repr

namespace Document

/-- Splits a path into the way and the last key. -/
def split? (path : List String) : Option (List String × String) :=
  path.getLast?.map fun key => (path.dropLast, key)

/-- Opens a table by its header. One that was only passed before gets its header now. -/
def openTable (d : Document) (path : List String) : Option Document := do
  let (way, key) ← split? path
  let root ← Members.walk false (fun _ => Members.alter key (fun
    | none => some (.table .header [])
    | some (.table .passed inner) => some (.table .header inner)
    | some _ => none)) way .header d.root
  pure ⟨root, path⟩

def openItem (d : Document) (path : List String) : Option Document := do
  let (way, key) ← split? path
  let root ← Members.walk false (fun _ => Members.alter key (fun
    | none => some (.tables [] [])
    | some (.tables latest earlier) => some (.tables [] (latest :: earlier))
    | some _ => none)) way .header d.root
  pure ⟨root, path⟩

def addLine (d : Document) (path : List String) (v : Value) : Option Document := do
  let (way, key) ← split? path
  let root ← Members.walk false (Members.insert way key v) d.current .header d.root
  pure { d with root }

end Document

mutual

def Node.value : Node → Value
  | .closed v => v
  | .table _ members => .table (memberValues members)
  | .tables latest earlier =>
    .list ((.table (memberValues latest) :: tableValues earlier).reverse)

def memberValues : List (String × Node) → List (String × Value)
  | [] => []
  | (key, node) :: rest => (key, node.value) :: memberValues rest

def tableValues : List (List (String × Node)) → List Value
  | [] => []
  | members :: rest => .table (memberValues members) :: tableValues rest

end

end FetchPlan.Toml
