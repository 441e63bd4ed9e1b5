import FetchPlan.SchemaError
import FetchPlan.Text.CharClass

/-! Selections: the field paths asked for on one entity, merged into a tree. Entries stand in
the order in which their names first appear, and no name appears twice on a level. -/
namespace FetchPlan

/-- One distinct segment and everything selected below it. -/
structure SelectionEntry where
  name : String
  /-- Some path ends here. -/
  terminal : Bool := false
  children : List SelectionEntry := []
  deriving Repr, BEq

abbrev Selection := List SelectionEntry

namespace Selection

/-- Changes the entry of a name, adding one at the end if there is none. -/
def update (name : String) (change : SelectionEntry → SelectionEntry) : Selection → Selection
  | [] => [change { name }]
  | e :: rest => if e.name = name then change e :: rest else e :: update name change rest

def insert : FieldPath → Selection → Selection
  | [], s => s
  | [name], s => update name (fun e => { e with terminal := true }) s
  | name :: next :: rest, s =>
    update name (fun e => { e with children := insert (next :: rest) e.children }) s

/-- Merges dotted paths in order. A path with a blank segment is refused as a whole. -/
def parse (entity : String) (paths : List String) : Except SchemaError Selection :=
  paths.foldlM (fun s path =>
    let segments := Text.split '.' path
    if segments.any Text.isBlankText then throw (.badPath entity segments .emptySegment)
    else pure (insert segments s)) []

end Selection

mutual

/-- The selected paths that begin with this entry, the entry itself first. -/
def SelectionEntry.fieldPaths : SelectionEntry → List FieldPath
  | ⟨name, terminal, children⟩ =>
    (if terminal then [[name]] else []) ++ (Selection.fieldPaths children).map (name :: ·)

/-- The selected paths, depth first. -/
def Selection.fieldPaths : List SelectionEntry → List FieldPath
  | [] => []
  | e :: rest => e.fieldPaths ++ Selection.fieldPaths rest

end

def Selection.paths (s : Selection) : List String := (fieldPaths s).map FieldPath.dotted

end FetchPlan
