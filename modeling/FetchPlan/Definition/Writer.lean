import FetchPlan.Entity
import FetchPlan.Json.Printer

/-! Entity definitions as values. What has its default is left out where the member is optional. -/
namespace FetchPlan

def Uniqueness.value : Uniqueness → Value
  | .flag on => .bool on
  | .composite partners => .ofTexts partners

namespace RelationKind

/-- The kind's own members, its name first. -/
def members (k : RelationKind) : List (String × Value) :=
  ("relation", .text k.name) :: match k with
    | .belongsToOne join => Value.optionalMember "custom_join" .text join
    | .oneToOne hasJoinColumn join =>
      ("has_join_column", .bool hasJoinColumn) :: Value.optionalMember "custom_join" .text join
    | .hasMany column => [("join_column", .text column)]
    | .manyToMany table => [("join_table", .text table)]

end RelationKind

def PlainField.members (f : PlainField) : List (String × Value) :=
  [("name", .text f.name), ("type", .text f.scalar.name), ("nullable", .bool f.nullable)] ++
    Value.optionalMember "length" (fun n => .integer n.toNat) f.length ++
    Value.optionalMember "enum_id" .text f.enumId ++
    Value.optionalMember "unique" Uniqueness.value f.unique

def RelationField.members (f : RelationField) : List (String × Value) :=
  [("name", .text f.name), ("with", .text f.target)] ++ f.kind.members ++
    [("nullable", .bool f.nullable)] ++ Value.optionalMember "unique" Uniqueness.value f.unique

def Field.value : Field → Value
  | .plain f => .table (("kind", .text "plain") :: f.members)
  | .virtual name => .table [("kind", .text "virtual"), ("name", .text name)]
  | .relation f => .table (("kind", .text "relation") :: f.members)

def Entity.value (e : Entity) : Value :=
  .table [("id", .text e.id), ("table", .text e.table), ("fields", .list (e.fields.map Field.value)),
    ("subsets", .table (e.subsets.entries.map fun s => (s.1, .ofTexts s.2)))]

structure DefinitionFile where
  entities : List Entity := []
  deriving DecidableEq

namespace DefinitionFile

def value (f : DefinitionFile) : Value := .table [("entities", .list (f.entities.map Entity.value))]

def json (f : DefinitionFile) : String := Json.compact f.value

end DefinitionFile
end FetchPlan
