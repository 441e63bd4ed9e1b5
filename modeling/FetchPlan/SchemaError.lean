import FetchPlan.FieldPath

/-! Why a schema, a path or a plan is refused. Each error is a cause; `message` words it. -/
namespace FetchPlan

inductive PathProblem where
  | emptySegment
  | unknownField (name : String)
  | unknownRelation (name : String)
  | notARelation (name : String)
  | missingNestedField (name : String)
  deriving DecidableEq, Repr

def PathProblem.message : PathProblem → String
  | .emptySegment => "path contains an empty segment"
  | .unknownField name => s!"no field named '{name}'"
  | .unknownRelation name => s!"no relation named '{name}'"
  | .notARelation name => s!"'{name}' is not a relation and cannot be traversed"
  | .missingNestedField name => s!"relation '{name}' must be followed by a nested field"

inductive DefinitionProblem where
  | emptyId
  | emptyTable
  | unnamedField
  | dottedField (name : String)
  | duplicateField (name : String)
  | untargetedRelation (name : String)
  | malformedJoinTable (table relation : String)
  | unknownPartner (partner field : String)
  | notToMany (relation : String)
  deriving DecidableEq, Repr

def DefinitionProblem.message : DefinitionProblem → String
  | .emptyId => "entity id is empty"
  | .emptyTable => "table name is empty"
  | .unnamedField => "field with empty name"
  | .dottedField name => s!"field name '{name}' contains '.'"
  | .duplicateField name => s!"duplicate field '{name}'"
  | .untargetedRelation name => s!"relation '{name}' has no target"
  | .malformedJoinTable table relation =>
    s!"join table '{table}' of relation '{relation}' is not named '<a>__<b>'"
  | .unknownPartner partner field => s!"unique partner '{partner}' of field '{field}' is not a column"
  | .notToMany relation => s!"relation '{relation}' is not to-many"

inductive SchemaError where
  | unknownEntity (id : String)
  | unresolvedRelation (entity relation target : String)
  | duplicateEntity (id : String)
  | unknownSubset (entity subset : String)
  | invalidDefinition (entity : String) (problem : DefinitionProblem)
  /-- The path runs up to and including the segment at fault; `entity` is where it was looked up. -/
  | badPath (entity : String) (path : FieldPath) (problem : PathProblem)
  deriving DecidableEq, Repr

def SchemaError.message : SchemaError → String
  | .unknownEntity id => s!"Unknown entity: '{id}'"
  | .unresolvedRelation entity relation target =>
    s!"Relation '{entity}.{relation}' targets unregistered entity '{target}'"
  | .duplicateEntity id => s!"Entity '{id}' is already registered with a different definition"
  | .unknownSubset entity subset => s!"Unknown subset '{subset}' on entity '{entity}'"
  | .invalidDefinition entity problem =>
    s!"Invalid definition for entity '{entity}': " ++ problem.message
  | .badPath entity path problem =>
    "Bad field path '" ++ path.dotted ++ s!"' on entity '{entity}': " ++ problem.message

end FetchPlan
