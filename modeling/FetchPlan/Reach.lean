import FetchPlan.Registry

/-! The field paths that can be reached from an entity. An entity that stands on the way to the
current one is not entered again, so the walk ends on any graph. An owning relation that is not
entered still gives the path to its foreign key. -/
namespace FetchPlan.Registry

/-- The paths one field of `e` gives. `enter` decides whether a relation is entered and then
gives the paths below it. Virtual fields count where a query starts. -/
def reachField (r : Registry) (queryRoot : Bool) (path : FieldPath) (e : Entity)
    (enter : RelationField → Entity → Option (Except SchemaError (List FieldPath))) :
    Field → Except SchemaError (List FieldPath)
  | .plain f => pure [path ++ [f.name]]
  | .virtual name => pure (if queryRoot then [path ++ [name]] else [])
  | .relation relation => do
    let target ← r.target e relation
    match enter relation target with
    | some below => below
    | none => pure (if relation.kind.ownsForeignKey then [path ++ [relation.name, "id"]] else [])

/-- The paths below an entity reached along `path` through the entities `visited`, itself
among them, entering at most `depth` further relations. -/
def reach (r : Registry) (queryRoot : Bool) (path : FieldPath) (visited : List String) (e : Entity) :
    Nat → Except SchemaError (List FieldPath)
  | 0 => do
    let parts ← e.fields.mapM (r.reachField queryRoot path e fun _ _ => none)
    pure parts.flatten
  | depth + 1 => do
    let parts ← e.fields.mapM (r.reachField queryRoot path e fun relation target =>
      if target.id ∈ visited then none
      else some (reach r relation.kind.isToMany (path ++ [relation.name]) (target.id :: visited)
        target depth))
    pure parts.flatten

def reachable (r : Registry) (id : String) (depth : Nat) : Except SchemaError (List FieldPath) := do
  let e ← r.get id
  r.reach true [] [e.id] e depth

end FetchPlan.Registry
