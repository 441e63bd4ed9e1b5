import FetchPlan.Field
import FetchPlan.SchemaError
import FetchPlan.SortedMap

/-! Entities: a record type stored in one table, with named subsets of its field paths. -/
namespace FetchPlan

structure Entity where
  id : String
  table : String
  fields : List Field := []
  subsets : SortedMap (List String) := .empty
  deriving DecidableEq

namespace Entity

def field? (e : Entity) (name : String) : Option Field := e.fields.find? (·.name = name)

def relation? (e : Entity) (name : String) : Option RelationField :=
  (e.field? name).bind Field.relation?

def relations (e : Entity) : List RelationField := e.fields.filterMap Field.relation?

/-- A plain field, or the foreign key of a relation whose key this entity holds. -/
def hasColumn (e : Entity) (column : String) : Bool := e.fields.any (·.stores column)

/-- A join table is named after the two tables it links. -/
def joinTableWellNamed (table : String) : Bool :=
  match Text.cutOnce aliasSeparator table with
  | some (left, right) => left ≠ "" && right ≠ ""
  | none => false

def checkRelation (r : RelationField) : Except DefinitionProblem Unit := do
  if r.target = "" then throw (.untargetedRelation r.name)
  match r.kind with
  | .manyToMany table =>
    if !joinTableWellNamed table then throw (.malformedJoinTable table r.name)
  | _ => pure ()

def checkField (seen : List String) (f : Field) : Except DefinitionProblem Unit := do
  if f.name = "" then throw .unnamedField
  if '.' ∈ f.name.toList then throw (.dottedField f.name)
  if f.name ∈ seen then throw (.duplicateField f.name)
  match f with
  | .relation r => checkRelation r
  | _ => pure ()

def checkFields : List String → List Field → Except DefinitionProblem Unit
  | _, [] => pure ()
  | seen, f :: rest => do
    checkField seen f
    checkFields (f.name :: seen) rest

def checkPartners (e : Entity) (f : Field) : Except DefinitionProblem Unit :=
  f.partners.forM fun partner =>
    if e.hasColumn partner then pure () else throw (.unknownPartner partner f.name)

/-- The first problem of a definition taken by itself. Relation targets are left to the
registry, because they may be registered later. -/
def check (e : Entity) : Except DefinitionProblem Unit := do
  if e.id = "" then throw .emptyId
  if e.table = "" then throw .emptyTable
  checkFields [] e.fields
  e.fields.forM (checkPartners e)

def validate (e : Entity) : Except SchemaError Unit :=
  e.check.mapError (.invalidDefinition e.id)

end Entity
end FetchPlan
