import FetchPlan.FieldPath

/-! Names of joined tables, their columns and the loaders found below them. A table
joined along `author.profile` is called `author__profile`; every rule about nesting
and joining goes through these functions. -/
namespace FetchPlan

/-- Stands in an alias where a path has a dot. -/
def aliasSeparator : String := "__"

/-- Name of the table joined along a path. -/
def tableAlias (p : FieldPath) : String := Text.join aliasSeparator p

/-- Name of a result column that belongs to a joined table. -/
def columnAlias (p : FieldPath) (column : String) : String :=
  tableAlias p ++ aliasSeparator ++ column

/-- Name of a loader once it is lifted out of the relation it was found below. -/
def liftedAlias (relation loader : String) : String := relation ++ aliasSeparator ++ loader

def foreignKey (relation : String) : String := relation ++ "_id"

/-- What qualifies a column: the physical table at the root, the joined name elsewhere. -/
def qualifier (table : String) : FieldPath → String
  | [] => table
  | p => tableAlias p

/-- Select entry for a column. Below the root the column is renamed as well, which keeps
columns of different depths apart. -/
def selectEntry (table : String) (p : FieldPath) (column : String) : String :=
  match p with
  | [] => table ++ "." ++ column
  | p => tableAlias p ++ "." ++ column ++ " as " ++ columnAlias p column

end FetchPlan
