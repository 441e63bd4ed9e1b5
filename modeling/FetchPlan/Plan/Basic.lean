/-! Query plans. A plan says which columns to select, which tables to join for to-one
relations, and which follow-up queries, the loaders, fetch the to-many relations. -/
namespace FetchPlan

inductive JoinPredicate where
  | columns (left right : String)
  | custom (text : String)
  deriving DecidableEq, Repr

structure Join where
  name : String
  table : String
  predicate : JoinPredicate
  deriving DecidableEq, Repr

structure Through where
  table : String
  fromColumn : String
  toColumn : String
  deriving DecidableEq, Repr

/-- How the rows of a loader belong to the rows of the query it hangs from; `idField` is the
result column of that query they are matched with. -/
structure ManyJoin where
  fromTable : String
  fromColumn : String
  idField : String
  through : Option Through := none
  toTable : String
  toColumn : String
  deriving DecidableEq, Repr

structure Loader where
  name : String
  table : String
  manyJoin : ManyJoin
  joins : List Join := []
  select : List String := []
  virtuals : List String := []
  loaders : List Loader := []
  deriving Repr, BEq

structure QueryPlan where
  select : List String := []
  virtuals : List String := []
  joins : List Join := []
  loaders : List Loader := []
  deriving Repr, BEq

/-- The query a loader runs, without its place in another plan. -/
def Loader.plan (l : Loader) : QueryPlan := ⟨l.select, l.virtuals, l.joins, l.loaders⟩

namespace QueryPlan

/-- Both plans in one query, the entries of the first before those of the second. -/
protected def append (p q : QueryPlan) : QueryPlan :=
  ⟨p.select ++ q.select, p.virtuals ++ q.virtuals, p.joins ++ q.joins, p.loaders ++ q.loaders⟩

instance : Append QueryPlan := ⟨QueryPlan.append⟩

def isEmpty (p : QueryPlan) : Bool :=
  p.select.isEmpty && p.virtuals.isEmpty && p.joins.isEmpty && p.loaders.isEmpty

mutual

/-- A fact about plans may be assumed of the plans of their loaders. -/
theorem loader_induction {P : QueryPlan → Prop} (step : ∀ p, (∀ l ∈ p.loaders, P l.plan) → P p) :
    ∀ l : Loader, P l.plan
  | ⟨_, _, _, _, _, _, loaders⟩ => step _ (loaders_induction step loaders)

theorem loaders_induction {P : QueryPlan → Prop} (step : ∀ p, (∀ l ∈ p.loaders, P l.plan) → P p) :
    ∀ loaders : List Loader, ∀ l ∈ loaders, P l.plan
  | [] => nofun
  | l :: rest => List.forall_mem_cons.mpr ⟨loader_induction step l, loaders_induction step rest⟩

end

theorem induction {P : QueryPlan → Prop} (step : ∀ p, (∀ l ∈ p.loaders, P l.plan) → P p)
    (p : QueryPlan) : P p :=
  step p (loaders_induction step p.loaders)

end QueryPlan

mutual

def Loader.find? (wanted : String) : Loader → Option Loader
  | ⟨name, table, manyJoin, joins, select, virtuals, loaders⟩ =>
    if name = wanted then some ⟨name, table, manyJoin, joins, select, virtuals, loaders⟩
    else Loader.findAmong? wanted loaders

/-- The first loader of this alias, each loader before those below it. -/
def Loader.findAmong? (wanted : String) : List Loader → Option Loader
  | [] => none
  | l :: rest => (l.find? wanted).or (Loader.findAmong? wanted rest)

end

def QueryPlan.findLoader? (p : QueryPlan) (wanted : String) : Option Loader :=
  Loader.findAmong? wanted p.loaders

end FetchPlan
