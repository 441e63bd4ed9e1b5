import FetchPlan.Alias
import FetchPlan.Inflection

/-! The columns of a join table. The table `posts__tags` links its two sides through `post_id`
and `tag_id`. -/
namespace FetchPlan

open Inflection (Inflector)

def referenceColumn [Inflector] (table : String) : String := foreignKey (Inflection.singularize table)

/-- The two columns in the order in which the join table's name gives the sides. A name with
one part only stands for both sides. -/
def junctionColumns [Inflector] (joinTable : String) : String × String :=
  match Text.cutOnce aliasSeparator joinTable with
  | some (left, right) => (referenceColumn left, referenceColumn right)
  | none => (referenceColumn joinTable, referenceColumn joinTable)

/-- The two columns with the one that refers to `owner` first. The named order stands unless
only the second of them does. -/
def orientedJunctionColumns [Inflector] (joinTable owner : String) : String × String :=
  let (left, right) := junctionColumns joinTable
  let own := referenceColumn owner
  if right = own && left ≠ own then (right, left) else (left, right)

end FetchPlan
