import FetchPlan.Plan.Basic
import FetchPlan.Sorting

/-! Plans with their entries in a fixed order, for comparing what they fetch. -/
namespace FetchPlan

mutual

def Loader.normalized : Loader → Loader
  | ⟨name, table, manyJoin, joins, select, virtuals, loaders⟩ =>
    ⟨name, table, manyJoin, sortOn Join.name joins, sortOn id select, sortOn id virtuals,
      sortOn Loader.name (Loader.normalizedAll loaders)⟩

def Loader.normalizedAll : List Loader → List Loader
  | [] => []
  | l :: rest => l.normalized :: Loader.normalizedAll rest

end

/-- Columns and virtual fields in order of their text, joins and loaders by alias, and the same
inside every loader. -/
def QueryPlan.normalized (p : QueryPlan) : QueryPlan where
  select := sortOn id p.select
  virtuals := sortOn id p.virtuals
  joins := sortOn Join.name p.joins
  loaders := sortOn Loader.name (Loader.normalizedAll p.loaders)

end FetchPlan
