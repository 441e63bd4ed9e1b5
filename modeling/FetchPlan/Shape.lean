import FetchPlan.Registry
import FetchPlan.Selection

/-! The shape of selected data: a selection resolved against the entity graph. It says which
entries are columns, which are joined objects and which are arrays fetched separately. A
to-one relation of which only the id is selected is still an object here. -/
namespace FetchPlan

inductive FieldNode where
  | column (name : String) (scalar : ScalarKind) (nullable : Bool) (length : Option UInt32)
  | virtual (name : String)
  | object (relation : RelationField) (target : String) (children : List FieldNode)
  | array (relation : RelationField) (target : String) (children : List FieldNode)
  deriving Repr, BEq

namespace FieldNode

def name : FieldNode → String
  | .column name .. | .virtual name => name
  | .object relation .. | .array relation .. => relation.name

def isArray : FieldNode → Bool
  | .array .. => true
  | _ => false

/-- Whether the column `id` is all that is selected. -/
def idOnly : List FieldNode → Bool
  | [.column name ..] => name = "id"
  | _ => false

/-- The node of a column every entity has, declared or not. -/
def uuid : FieldNode := .column "uuid" .string false (some 128)

end FieldNode

namespace Registry

mutual

/-- Resolves one entry on the entity `e`, which was reached along `path`. -/
def resolveEntry (r : Registry) (e : Entity) (path : FieldPath) :
    SelectionEntry → Except SchemaError FieldNode
  | ⟨name, terminal, children⟩ =>
    let bad := fun problem => SchemaError.badPath e.id (path ++ [name]) problem
    match e.field? name with
    | none =>
      if !children.isEmpty then throw (bad (.unknownRelation name))
      else if name = "uuid" then pure .uuid
      else throw (bad (.unknownField name))
    | some (.plain f) =>
      if !children.isEmpty then throw (bad (.notARelation name))
      else pure (.column f.name f.scalar f.nullable f.length)
    | some (.virtual v) =>
      if !children.isEmpty then throw (bad (.notARelation name)) else pure (.virtual v)
    | some (.relation relation) =>
      if terminal || children.isEmpty then throw (bad (.missingNestedField name))
      else do
        let target ← r.target e relation
        let nodes ← resolveEntries r target (path ++ [name]) children
        pure (if relation.kind.isToOne then .object relation target.id nodes
          else .array relation target.id nodes)

def resolveEntries (r : Registry) (e : Entity) (path : FieldPath) :
    List SelectionEntry → Except SchemaError (List FieldNode)
  | [] => pure []
  | s :: rest => do
    let node ← resolveEntry r e path s
    let nodes ← resolveEntries r e path rest
    pure (node :: nodes)

end

def resolvePaths (r : Registry) (e : Entity) (paths : List String) :
    Except SchemaError (List FieldNode) := do
  let selection ← Selection.parse e.id paths
  resolveEntries r e [] selection

def resolve (r : Registry) (id : String) (paths : List String) :
    Except SchemaError (List FieldNode) := do
  let e ← r.get id
  resolvePaths r e paths

end Registry
end FetchPlan
