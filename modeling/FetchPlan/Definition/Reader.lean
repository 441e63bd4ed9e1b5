import FetchPlan.Definition.Writer
import FetchPlan.Json.Reader
import FetchPlan.Value.Record

/-! Entity definitions read from values. A definition is either read as a whole or refused. -/
namespace FetchPlan

/-- What differs between the formats that hold definitions. -/
structure DefinitionFormat where
  /-- How deep lists and tables may be nested in a field, itself counted. -/
  fieldDepth : Option Nat
  /-- Whether a relation kind may be given by its place among the kinds. -/
  numberedKinds : Bool
  tolerance : Tolerance
  deriving DecidableEq, Repr

namespace DefinitionFormat

/-- A JSON file may nest 127 deep, and four levels stand around a field. -/
def json : DefinitionFormat := ⟨some 123, true, .json⟩

def toml : DefinitionFormat := ⟨none, false, .toml⟩

def value : DefinitionFormat := ⟨none, true, .json⟩

/-- A field is kept in full before its kind is known, so all of it must be readable. -/
def admits (format : DefinitionFormat) (v : Value) : Bool :=
  v.isSound && match format.fieldDepth with
    | some limit => v.depth ≤ limit
    | none => true

end DefinitionFormat

def Uniqueness.ofValue? : Value → Option Uniqueness
  | .bool on => some (.flag on)
  | v => v.texts?.map .composite

/-- A scalar kind inside a field; an empty table counts as nothing there. -/
def ScalarKind.ofValue? (v : Value) : Option ScalarKind :=
  (v.choice? fun
    | .null | .table [] => true
    | _ => false).bind ScalarKind.ofName?

def ScalarKind.ofBareValue? (v : Value) : Option ScalarKind :=
  (v.choice? fun
    | .null => true
    | _ => false).bind ScalarKind.ofName?

def lengthOfValue? (v : Value) : Option UInt32 := (v.natBelow? UInt32.size).map Nat.toUInt32

def PlainField.names : List String := ["name", "type", "nullable", "length", "enum_id", "unique"]

def PlainField.ofRecord? (r : Record) : Option PlainField := do
  let name ← r.required "name" Value.text?
  let scalar ← r.required "type" ScalarKind.ofValue?
  let nullable ← r.withDefault "nullable" false Value.bool?
  let length ← r.optional "length" lengthOfValue?
  let enumId ← r.optional "enum_id" Value.text?
  let unique ← r.optional "unique" Uniqueness.ofValue?
  pure { name, scalar, nullable, length, enumId, unique }

/-- The members of each relation kind besides its name. -/
def relationKinds : List (String × List String) :=
  [("BelongsToOne", ["custom_join"]), ("OneToOne", ["has_join_column", "custom_join"]),
   ("HasMany", ["join_column"]), ("ManyToMany", ["join_table"])]

namespace RelationKind

def ofRecord? (name : String) (r : Record) : Option RelationKind :=
  match name with
  | "BelongsToOne" => do
    let customJoin ← r.optional "custom_join" Value.text?
    pure (.belongsToOne customJoin)
  | "OneToOne" => do
    let hasJoinColumn ← r.withDefault "has_join_column" false Value.bool?
    let customJoin ← r.optional "custom_join" Value.text?
    pure (.oneToOne hasJoinColumn customJoin)
  | "HasMany" => do
    let column ← r.required "join_column" Value.text?
    pure (.hasMany column)
  | "ManyToMany" => do
    let table ← r.required "join_table" Value.text?
    pure (.manyToMany table)
  | _ => none

def shape? (numbered : Bool) : Value → Option (String × List String)
  | .text name => relationKinds.find? (·.1 = name)
  | .integer n => if numbered ∧ 0 ≤ n then relationKinds[n.toNat]? else none
  | _ => none

def ofMembers? (numbered : Bool) (members : List (String × Value)) : Option RelationKind := do
  let tag ← Record.ofMembers? ["relation"] members
  let (name, own) ← tag.required "relation" (shape? numbered)
  let record ← Record.ofMembers? own members
  ofRecord? name record

/-- A kind given by itself, as a table or as a list with the name first. -/
def ofValue? : Value → Option RelationKind
  | .table members => ofMembers? false members
  | .list (tag :: items) => do
    let (name, own) ← shape? false tag
    let record ← Record.ofItems? own items
    ofRecord? name record
  | _ => none

end RelationKind

namespace RelationField

def names : List String := ["name", "with", "nullable", "unique"]

def ofMembers? (numbered : Bool) (members : List (String × Value)) : Option RelationField := do
  let r ← Record.ofMembers? names members
  let name ← r.required "name" Value.text?
  let target ← r.required "with" Value.text?
  let nullable ← r.withDefault "nullable" false Value.bool?
  let unique ← r.optional "unique" Uniqueness.ofValue?
  let kind ← RelationKind.ofMembers? numbered members
  pure { name, target, kind, nullable, unique }

end RelationField

namespace Field

/-- The field that a table writes, `kind` being one of its members. -/
def ofMembers? (numbered : Bool) (members : List (String × Value)) : Option Field := do
  let tag ← Record.ofMembers? ["kind"] members
  match ← tag.required "kind" Value.text? with
  | "plain" =>
    let r ← Record.ofMembers? PlainField.names members
    (PlainField.ofRecord? r).map .plain
  | "virtual" =>
    let r ← Record.ofMembers? ["name"] members
    (r.required "name" Value.text?).map .virtual
  | "relation" => (RelationField.ofMembers? numbered members).map .relation
  | _ => none

/-- The field that a list writes, its kind first. A relation has no such form. -/
def ofItems? : List Value → Option Field
  | .text "plain" :: items => do
    let r ← Record.ofItems? PlainField.names items
    (PlainField.ofRecord? r).map .plain
  | .text "virtual" :: items => do
    let r ← Record.ofItems? ["name"] items
    (r.required "name" Value.text?).map .virtual
  | _ => none

def ofValue? (format : DefinitionFormat) (v : Value) : Option Field :=
  if !format.admits v then none
  else match v with
    | .table members => ofMembers? format.numberedKinds members
    | .list items => ofItems? items
    | _ => none

end Field

/-- Subsets by key. Of a key given twice, the last stands. -/
def subsetsOfValue? : Value → Option (SortedMap (List String))
  | .table members =>
    (members.mapM fun (m : String × Value) => m.2.texts?.map fun paths => (m.1, paths)).map
      SortedMap.ofList
  | _ => none

def Entity.ofValue? (format : DefinitionFormat) (v : Value) : Option Entity := do
  let r ← Record.ofValue? format.tolerance ["id", "table", "fields", "subsets"] v
  let id ← r.required "id" Value.text?
  let table ← r.required "table" Value.text?
  let fields ← r.withDefault "fields" [] (Value.listOf? (Field.ofValue? format))
  let subsets ← r.withDefault "subsets" .empty subsetsOfValue?
  pure { id, table, fields, subsets }

namespace DefinitionFile

def ofValue? (format : DefinitionFormat) (v : Value) : Option DefinitionFile := do
  let r ← Record.ofValue? format.tolerance ["entities"] v
  let entities ← r.withDefault "entities" [] (Value.listOf? (Entity.ofValue? format))
  pure { entities }

def ofJson? (text : String) : Option DefinitionFile :=
  (Json.read text).bind (ofValue? .json)

end DefinitionFile
end FetchPlan
