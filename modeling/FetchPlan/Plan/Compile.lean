import FetchPlan.Junction
import FetchPlan.Plan.Basic
import FetchPlan.Shape

/-! Compiling a shape into a plan. Columns are selected, to-one relations are joined into the
current query, and every to-many relation becomes a loader. Loaders found below a join are
lifted into the current query under an alias that starts with the relation. -/
namespace FetchPlan

open Inflection (Inflector)

/-- Whether a relation needs no join, because only its id is asked for and the entity at hand
already holds it. -/
def readsForeignKey (relation : RelationField) (children : List FieldNode) : Bool :=
  FieldNode.idOnly children && relation.kind.ownsForeignKey && relation.kind.customJoin.isNone

/-- How a joined table is matched with the table or join named `source`. -/
def RelationField.predicate (relation : RelationField) (source joined : String) : JoinPredicate :=
  match relation.kind.customJoin with
  | some text => .custom text
  | none =>
    if relation.kind.ownsForeignKey then
      .columns (source ++ "." ++ foreignKey relation.name) (joined ++ ".id")
    else .columns (source ++ ".id") (joined ++ "." ++ foreignKey relation.name)

/-- The result column that holds the id of the rows reached along a path. -/
def idField : FieldPath → String
  | [] => "id"
  | path => columnAlias path "id"

/-- How the rows of a to-many relation are matched with the rows of its owner. -/
def RelationField.manyJoin [Inflector] (relation : RelationField) (owner target : Entity)
    (path : FieldPath) : Except SchemaError ManyJoin :=
  match relation.kind with
  | .hasMany column => pure
    { fromTable := owner.table, fromColumn := "id", idField := idField path,
      toTable := target.table, toColumn := column }
  | .manyToMany table =>
    let (fromColumn, toColumn) := orientedJunctionColumns table owner.table
    pure
      { fromTable := owner.table, fromColumn := "id", idField := idField path,
        through := some ⟨table, fromColumn, toColumn⟩, toTable := target.table, toColumn := "id" }
  | .belongsToOne _ | .oneToOne .. =>
    throw (.invalidDefinition owner.id (.notToMany relation.name))

def ownColumns (table : String) (path : FieldPath) (nodes : List FieldNode) : List String :=
  nodes.filterMap fun
    | .column name .. => some (selectEntry table path name)
    | _ => none

/-- Virtual fields are reported at the root of a query only. -/
def ownVirtuals (path : FieldPath) (nodes : List FieldNode) : List String :=
  match path with
  | [] => nodes.filterMap fun
    | .virtual name => some name
    | _ => none
  | _ => []

/-- What a level selects itself. Loaders are matched by id, so the id is added if a loader
needs it and it was not asked for. -/
def ownPlan (table : String) (path : FieldPath) (nodes : List FieldNode) : QueryPlan :=
  let columns := ownColumns table path nodes
  let id := selectEntry table path "id"
  { select := if nodes.any FieldNode.isArray && id ∉ columns then columns ++ [id] else columns
    virtuals := ownVirtuals path nodes }

def QueryPlan.lift (relation : String) (p : QueryPlan) : QueryPlan :=
  { p with loaders := p.loaders.map fun l => { l with name := liftedAlias relation l.name } }

namespace Registry

mutual

def compileRelation [Inflector] (r : Registry) (e : Entity) (path : FieldPath) :
    FieldNode → Except SchemaError QueryPlan
  | .column .. | .virtual _ => pure {}
  | .object relation _ children => do
    let target ← r.target e relation
    if readsForeignKey relation children then
      pure { select := [selectEntry e.table path (foreignKey relation.name)] }
    else do
      let joined := path ++ [relation.name]
      let below ← compileRelations r target joined children
      let predicate := relation.predicate (qualifier e.table path) (tableAlias joined)
      let join : Join := ⟨tableAlias joined, target.table, predicate⟩
      pure ({ joins := [join] } ++ (ownPlan target.table joined children ++ below).lift relation.name)
  | .array relation _ children => do
    let target ← r.target e relation
    let below ← compileRelations r target [] children
    let inner := ownPlan target.table [] children ++ below
    let manyJoin ← relation.manyJoin e target path
    pure { loaders :=
      [⟨relation.name, target.table, manyJoin, inner.joins, inner.select, inner.virtuals, inner.loaders⟩] }

def compileRelations [Inflector] (r : Registry) (e : Entity) (path : FieldPath) :
    List FieldNode → Except SchemaError QueryPlan
  | [] => pure {}
  | node :: rest => do
    let first ← compileRelation r e path node
    let others ← compileRelations r e path rest
    pure (first ++ others)

end

/-- The plan of a resolved shape on an entity, reached along `path` inside its query. -/
def compileNodes [Inflector] (r : Registry) (e : Entity) (path : FieldPath) (nodes : List FieldNode) :
    Except SchemaError QueryPlan := do
  let relations ← compileRelations r e path nodes
  pure (ownPlan e.table path nodes ++ relations)

def compilePaths [Inflector] (r : Registry) (e : Entity) (paths : List String) :
    Except SchemaError QueryPlan := do
  let nodes ← r.resolvePaths e paths
  r.compileNodes e [] nodes

def compileFieldPaths (r : Registry) (id : String) (paths : List String) :
    Except SchemaError QueryPlan := do
  let e ← r.get id
  r.compilePaths e paths

def compileSubset (r : Registry) (id key : String) : Except SchemaError QueryPlan := do
  let e ← r.get id
  match e.subsets.get? key with
  | some paths => r.compilePaths e paths
  | none => throw (.unknownSubset id key)

def validate (r : Registry) : Except SchemaError Unit := do
  r.checkRelations
  r.all.forM fun e => e.subsets.keys.forM fun key => do
    let _ ← r.compileSubset e.id key

end Registry
end FetchPlan
