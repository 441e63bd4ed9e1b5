import FetchPlan.Alias

/-! Fields of an entity: stored columns, computed fields and relations. -/
namespace FetchPlan

inductive ScalarKind where
  | integer | bigInteger | float | decimal | string | text | boolean | date | timestamp | json | enum
  deriving DecidableEq, Repr

def ScalarKind.name : ScalarKind → String
  | .integer => "integer"
  | .bigInteger => "big_integer"
  | .float => "float"
  | .decimal => "decimal"
  | .string => "string"
  | .text => "text"
  | .boolean => "boolean"
  | .date => "date"
  | .timestamp => "timestamp"
  | .json => "json"
  | .enum => "enum"

def ScalarKind.all : List ScalarKind :=
  [.integer, .bigInteger, .float, .decimal, .string, .text, .boolean, .date, .timestamp, .json, .enum]

def ScalarKind.ofName? (name : String) : Option ScalarKind := all.find? (·.name = name)

/-- A uniqueness declaration: on this column alone, or together with partner columns. -/
inductive Uniqueness where
  | flag (on : Bool)
  | composite (partners : List String)
  deriving DecidableEq, Repr

/-- A composite declaration is in force even when it names no partner. -/
def Uniqueness.inForce : Uniqueness → Bool
  | .flag on => on
  | .composite _ => true

def Uniqueness.partners : Uniqueness → List String
  | .flag _ => []
  | .composite partners => partners

structure PlainField where
  name : String
  scalar : ScalarKind
  nullable : Bool := false
  length : Option UInt32 := none
  enumId : Option String := none
  unique : Option Uniqueness := none
  deriving DecidableEq, Repr

/-- How a relation is stored. Only the two to-one kinds can have a join of their own. -/
inductive RelationKind where
  | belongsToOne (customJoin : Option String)
  | oneToOne (hasJoinColumn : Bool) (customJoin : Option String)
  | hasMany (joinColumn : String)
  | manyToMany (joinTable : String)
  deriving DecidableEq, Repr

namespace RelationKind

def name : RelationKind → String
  | .belongsToOne _ => "BelongsToOne"
  | .oneToOne .. => "OneToOne"
  | .hasMany _ => "HasMany"
  | .manyToMany _ => "ManyToMany"

def isToOne : RelationKind → Bool
  | .belongsToOne _ | .oneToOne .. => true
  | .hasMany _ | .manyToMany _ => false

def isToMany (k : RelationKind) : Bool := !k.isToOne

def ownsForeignKey : RelationKind → Bool
  | .belongsToOne _ => true
  | .oneToOne hasJoinColumn _ => hasJoinColumn
  | .hasMany _ | .manyToMany _ => false

def customJoin : RelationKind → Option String
  | .belongsToOne join | .oneToOne _ join => join
  | .hasMany _ | .manyToMany _ => none

/-- The kind with its join predicate replaced, where it can have one. -/
def withCustomJoin (join : String) : RelationKind → RelationKind
  | .belongsToOne _ => .belongsToOne (some join)
  | .oneToOne hasJoinColumn _ => .oneToOne hasJoinColumn (some join)
  | k => k

end RelationKind

/-- An edge to the entity whose id is `target`. -/
structure RelationField where
  name : String
  target : String
  kind : RelationKind
  nullable : Bool := false
  unique : Option Uniqueness := none
  deriving DecidableEq, Repr

/-- A virtual field is computed outside the database and never selected. -/
inductive Field where
  | plain (field : PlainField)
  | virtual (name : String)
  | relation (field : RelationField)
  deriving DecidableEq, Repr

namespace Field

def name : Field → String
  | .plain f => f.name
  | .virtual name => name
  | .relation f => f.name

def relation? : Field → Option RelationField
  | .relation f => some f
  | _ => none

def isVirtual : Field → Bool
  | .virtual _ => true
  | _ => false

def unique : Field → Option Uniqueness
  | .plain f => f.unique
  | .virtual _ => none
  | .relation f => f.unique

/-- The partner columns a field's declaration names. -/
def partners (f : Field) : List String := (f.unique.map Uniqueness.partners).getD []

/-- The column a uniqueness declaration on the field is about. -/
def ownColumn : Field → String
  | .relation f => foreignKey f.name
  | f => f.name

def stores (column : String) : Field → Bool
  | .plain f => f.name = column
  | .virtual _ => false
  | .relation f => f.kind.ownsForeignKey && foreignKey f.name = column

end Field
end FetchPlan
