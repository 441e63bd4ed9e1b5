import FetchPlan.Entity

/-! The registry of entities. Relations name their targets by id and are looked up when
a path is resolved, so entities may be registered in any order. -/
namespace FetchPlan

structure Registry where
  entities : SortedMap Entity := .empty
  deriving DecidableEq

namespace Registry

def empty : Registry := {}

/-- Adds a valid entity. Registering an equal definition again changes nothing; a different
one under a used id is refused. -/
def register (r : Registry) (e : Entity) : Except SchemaError Registry := do
  e.validate
  match r.entities.get? e.id with
  | some known => if known = e then pure r else throw (.duplicateEntity e.id)
  | none => pure ⟨r.entities.insert e.id e⟩

def ofEntities (es : List Entity) : Except SchemaError Registry := es.foldlM register empty

def get (r : Registry) (id : String) : Except SchemaError Entity :=
  match r.entities.get? id with
  | some e => pure e
  | none => throw (.unknownEntity id)

def target (r : Registry) (owner : Entity) (relation : RelationField) : Except SchemaError Entity :=
  match r.entities.get? relation.target with
  | some e => pure e
  | none => throw (.unresolvedRelation owner.id relation.name relation.target)

def contains (r : Registry) (id : String) : Bool := r.entities.contains id

def ids (r : Registry) : List String := r.entities.keys

def all (r : Registry) : List Entity := r.entities.values

def size (r : Registry) : Nat := r.entities.size

/-- Every relation must lead to a registered entity. -/
def checkRelations (r : Registry) : Except SchemaError Unit :=
  r.all.forM fun e => e.relations.forM fun relation => do
    let _ ← r.target e relation

end Registry
end FetchPlan
