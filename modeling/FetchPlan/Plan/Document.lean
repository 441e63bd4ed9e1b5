import FetchPlan.Json.Printer
import FetchPlan.Plan.Explain

/-! Compiled plans as documents: what was compiled, and the plan with all its parts written out. -/
namespace FetchPlan

def JoinPredicate.value : JoinPredicate → Value
  | .columns left right => .table [("columns", .table [("from", .text left), ("to", .text right)])]
  | .custom text => .table [("custom", .text text)]

def Join.value (j : Join) : Value :=
  .table [("alias", .text j.name), ("join_type", .text "left_outer"), ("table", .text j.table),
    ("predicate", j.predicate.value)]

def Through.value (t : Through) : Value :=
  .table [("table", .text t.table), ("from_col", .text t.fromColumn), ("to_col", .text t.toColumn)]

def ManyJoin.value (m : ManyJoin) : Value :=
  let source :=
    [("from_table", .text m.fromTable), ("from_col", .text m.fromColumn), ("id_field", .text m.idField)]
  let target := [("to_table", .text m.toTable), ("to_col", .text m.toColumn)]
  match m.through with
  | none => .table (("type", .text "has_many") :: (source ++ target))
  | some t => .table (("type", .text "many_to_many") :: (source ++ ("through", t.value) :: target))

mutual

def Loader.value : Loader → Value
  | ⟨name, table, manyJoin, joins, select, virtuals, loaders⟩ =>
    .table [("alias", .text name), ("table", .text table), ("many_join", manyJoin.value),
      ("one_joins", .list (joins.map Join.value)), ("select", .ofTexts select),
      ("virtual", .ofTexts virtuals), ("loaders", .list (Loader.values loaders))]

def Loader.values : List Loader → List Value
  | [] => []
  | l :: rest => l.value :: Loader.values rest

end

def QueryPlan.value (p : QueryPlan) : Value :=
  .table [("select", .ofTexts p.select), ("virtual", .ofTexts p.virtuals),
    ("joins", .list (p.joins.map Join.value)), ("loaders", .list (Loader.values p.loaders))]

inductive PlanFormat where
  | json
  | text
  deriving DecidableEq, Repr

/-- A compiled plan with the entity it is for, and the subset unless paths were given instead. -/
structure PlanDocument where
  entity : String
  subset : Option String
  plan : QueryPlan
  deriving Repr, BEq

namespace PlanDocument

def value (d : PlanDocument) : Value :=
  .table (("entity", .text d.entity) ::
    (Value.optionalMember "subset" .text d.subset ++ [("plan", d.plan.value)]))

def render (d : PlanDocument) : PlanFormat → String
  | .json => Json.indented d.value
  | .text => d.plan.explain

end PlanDocument
end FetchPlan
