import FetchPlan.Proofs.Plan.Select

/-! What a query refers to. Its entries and joins use its own table and the tables it joins, each
only behind the join that leads to it, and the ids that its loaders are matched with are among
its entries. So every query of a plan can be run by itself. -/
namespace FetchPlan

/-- The text names a column of the table or join that goes by `name`. -/
def IsColumnOf (name text : String) : Prop := ∃ column, text = name ++ "." ++ column

namespace QueryPlan

/-- A query on `table` uses no names but its table's and those of its joins, and a join only what
stands before it. -/
structure Scoped (table : String) (plan : QueryPlan) : Prop where
  select : ∀ entry ∈ plan.select, ∃ t p column, entry = selectEntry t p column ∧
    (p = [] ∧ t = table ∨ p ≠ [] ∧ tableAlias p ∈ plan.joins.map Join.name)
  joins : ∀ before j after left right, plan.joins = before ++ j :: after →
    j.predicate = .columns left right → IsColumnOf j.name right ∧
      ∃ source, IsColumnOf source left ∧ (source = table ∨ source ∈ before.map Join.name)

/-- The id that a loader's rows are matched with, of the query's table or of one that it joins,
is selected under the name the loader expects. -/
def SelectsId (table : String) (plan : QueryPlan) (m : ManyJoin) : Prop :=
  m.idField = "id" ∧ m.fromTable = table ∧ table ++ ".id" ∈ plan.select ∨
  ∃ j ∈ plan.joins, m.idField = j.name ++ "__id" ∧ m.fromTable = j.table ∧
    j.name ++ ".id as " ++ j.name ++ "__id" ∈ plan.select

end QueryPlan

theorem RelationField.predicate_columns {relation : RelationField}
    (columns : relation.predicate source joined = .columns left right) :
    IsColumnOf source left ∧ IsColumnOf joined right := by
  unfold predicate at columns
  split at columns
  · contradiction
  · split at columns
    · obtain ⟨rfl, rfl⟩ := JoinPredicate.columns.inj columns
      exact ⟨⟨_, rfl⟩, "id", by rw [String.append_assoc]; rfl⟩
    · obtain ⟨rfl, rfl⟩ := JoinPredicate.columns.inj columns
      exact ⟨⟨"id", by rw [String.append_assoc]; rfl⟩, _, rfl⟩

theorem qualifier_below (nonempty : p ≠ []) (table : String) : qualifier table p = tableAlias p := by
  cases p with
  | nil => contradiction
  | cons => rfl

theorem selectEntry_id (table : String) (p : FieldPath) : selectEntry table p "id" =
    if p = [] then table ++ ".id" else tableAlias p ++ ".id as " ++ tableAlias p ++ "__id" := by
  cases p with
  | nil =>
    rw [if_pos rfl, selectEntry, String.append_assoc]
    rfl
  | cons first rest =>
    rw [if_neg (by simp)]
    simp [selectEntry, columnAlias, aliasSeparator, String.append_assoc]

namespace Registry

theorem Crosses.level {r : Registry} (crosses : r.Crosses e ps s) : r.Level e ps s.path s.owner := by
  obtain ⟨rest, proper, asked⟩ := crosses.crossed
  rw [Step.full, List.append_assoc] at asked
  exact level_of_crossed crosses.reached proper asked

/-- Every entry belongs to a level of the query. -/
theorem Due.level {r : Registry} (due : r.Due e ps x) : r.Level e ps x.level x.owner := by
  cases due with
  | column reached asked _ apart => exact level_of_along reached (by simp) asked apart
  | foreignKey collapsed => exact collapsed.crosses.level
  | addedId reached loads =>
    obtain ⟨_, _, _, _, proper, asked⟩ := loads
    exact level_of_crossed reached proper asked

theorem Query.entry_mem {r : Registry} (query : r.Query e ps nodes plan) (due : r.Due e ps x) :
    x.entry ∈ plan.select := by
  rw [query.select_eq]
  exact List.mem_map_of_mem (query.mem_sources.mpr due)

theorem Shapes.exists_joined {r : Registry} (shapes : r.Shapes e ps nodes) (joined : r.Joined e ps s) :
    ∃ v ∈ (r.visits e nodes).filter Visit.isJoined, v.toStep = s := by
  obtain ⟨v, listed, rfl⟩ := shapes.exists_visit joined.crosses
  exact ⟨v, List.mem_filter.mpr ⟨listed, (shapes.joined_iff listed).mpr joined⟩, rfl⟩

theorem Query.exists_join {r : Registry} (query : r.Query e ps nodes plan) (joined : r.Joined e ps s) :
    ∃ j ∈ plan.joins, j.name = tableAlias s.full ∧ j.table = s.target.table := by
  obtain ⟨v, kept, rfl⟩ := query.shapes.exists_joined joined
  exact ⟨v.join [], query.joins ▸ List.mem_map_of_mem kept, rfl, rfl⟩

/-- A table is joined after the one it is reached from. -/
theorem Shapes.joined_before {r : Registry} (shapes : r.Shapes e ps nodes)
    (split : (r.visits e nodes).filter Visit.isJoined = before ++ v :: after) :
    v.path = [] ∧ v.owner = e ∨ ∃ w ∈ before, w.full = v.path := by
  have member : v ∈ (r.visits e nodes).filter Visit.isJoined := by simp [split]
  rcases (shapes.of_mem_visits (List.mem_of_mem_filter member)).1.level with root | ⟨_, joined, ends, _⟩
  · exact .inl root
  · obtain ⟨w, kept, rfl⟩ := shapes.exists_joined joined
    have onTheWay : w.full <+: v.full := ends ▸ List.prefix_append v.path [v.relation.name]
    -- A step on the way to another is listed before it, so `w` cannot stand behind `v`.
    have ordered := (visits_ordered shapes.fits).filter Visit.isJoined
    rw [split] at kept ordered
    rcases List.mem_append.mp kept with earlier | later
    · exact .inr ⟨w, earlier, ends⟩
    · rcases List.mem_cons.mp later with rfl | later
      · exact absurd ends (by simp [Step.full])
      · have apart := (List.pairwise_cons.mp (List.pairwise_append.mp ordered).2.1).1 w later
        exact absurd onTheWay apart

theorem Query.scoped {r : Registry} (query : r.Query e ps nodes plan) : plan.Scoped e.table where
  select := by
    intro entry member
    rw [query.select_eq] at member
    obtain ⟨x, source, rfl⟩ := List.mem_map.mp member
    refine ⟨x.owner.table, x.level, x.columnName, rfl, ?_⟩
    rcases (query.mem_sources.mp source).level with ⟨root, own⟩ | ⟨s, joined, ends, _⟩
    · exact .inl ⟨root, by rw [own]⟩
    · obtain ⟨j, listed, named, _⟩ := query.exists_join joined
      rw [← ends]
      exact .inr ⟨s.full_ne_nil, List.mem_map.mpr ⟨j, listed, named⟩⟩
  joins := by
    intro before j after left right listed columns
    rw [query.joins] at listed
    obtain ⟨vs, ws, split, rfl, rest⟩ := List.map_eq_append_iff.mp listed
    obtain ⟨v, ws, rfl, rfl, rfl⟩ := List.map_eq_cons_iff.mp rest
    obtain ⟨own, other⟩ := RelationField.predicate_columns columns
    refine ⟨other, _, own, ?_⟩
    rcases query.shapes.joined_before split with ⟨root, owner⟩ | ⟨w, earlier, ends⟩
    · exact .inl (by rw [root, owner]; rfl)
    · rw [List.nil_append, ← ends, qualifier_below w.full_ne_nil, List.map_map]
      exact .inr (List.mem_map.mpr ⟨w, earlier, rfl⟩)

/-- The id that a loader is matched with is selected, asked for or not. -/
theorem Query.id_selected {r : Registry} (query : r.Query e ps nodes plan) (loaded : r.Loaded e ps s) :
    selectEntry s.owner.table s.path "id" ∈ plan.select := by
  obtain ⟨⟨reached, declared, _, rest, proper, asked⟩, toMany⟩ := loaded
  rw [Step.full, List.append_assoc] at asked
  by_cases present : s.path ++ ["id"] ∈ ps ∧ (s.owner.column? "id").isSome
  · exact query.entry_mem (.column reached present.1 present.2 (not_collapsed_of_crossed proper asked))
  · exact query.entry_mem (.addedId reached ⟨s.relation, rest, declared, toMany, proper, asked⟩ present)

theorem Query.selectsId {r : Registry} (query : r.Query e ps nodes plan) (member : l ∈ plan.loaders) :
    plan.SelectsId e.table l.manyJoin := by
  obtain ⟨v, kept, loads⟩ := exists_of_forall₂ query.loaders member
  obtain ⟨listed, toMany⟩ := List.mem_filter.mp kept
  have crosses := (query.shapes.of_mem_visits listed).1
  have selected := query.id_selected ⟨crosses, toMany⟩
  obtain ⟨_, fromTable, idField⟩ := RelationField.manyJoin_spec loads.matched
  rw [List.nil_append, idField_eq] at idField
  rw [selectEntry_id] at selected
  rcases crosses.level with ⟨root, owner⟩ | ⟨s, joined, ends, target⟩
  · rw [if_pos root] at idField selected
    rw [owner] at fromTable selected
    exact .inl ⟨idField, fromTable, selected⟩
  · have deeper : v.path ≠ [] := ends ▸ s.full_ne_nil
    obtain ⟨j, listed, named, stored⟩ := query.exists_join joined
    rw [ends] at named
    rw [if_neg deeper, ← named] at idField selected
    rw [← target, ← stored] at fromTable
    exact .inr ⟨j, listed, idField, fromTable, selected⟩

/-- In every query of a plan the select entries and the joins use only what the query has. -/
theorem compilePaths_scoped {r : Registry} (compiled : r.compilePaths e paths = .ok plan) :
    plan.Throughout QueryPlan.Scoped e.table :=
  compilePaths_throughout Query.scoped compiled

theorem compilePaths_scoped_sample : ∃ r plan,
    ofEntities [Sample.user, Sample.post, Sample.comment] = .ok r ∧
      r.compilePaths Sample.post Sample.paths = .ok plan ∧
      plan.loaders.map (fun l => l.joins.map Join.name) = [[], ["author"]] ∧
      plan.Throughout QueryPlan.Scoped "posts" := by
  obtain ⟨r, plan, registered, compiled, nested⟩ := exists_compiled
    (show Option.any (fun plan : QueryPlan => plan.loaders.map (fun l => l.joins.map Join.name) = [[], ["author"]])
      (ofEntities [Sample.user, Sample.post, Sample.comment] >>=
        (·.compilePaths Sample.post Sample.paths)).toOption = true by decide +kernel)
  exact ⟨r, plan, registered, compiled, of_decide_eq_true nested, compilePaths_scoped compiled⟩

/-- Every query of a plan selects the ids that the rows of its loaders are matched with. -/
theorem compilePaths_selectsIds {r : Registry} (compiled : r.compilePaths e paths = .ok plan) :
    plan.Throughout (fun table query => ∀ l ∈ query.loaders, query.SelectsId table l.manyJoin) e.table :=
  compilePaths_throughout (fun query _ member => query.selectsId member) compiled

theorem compilePaths_selectsIds_sample : ∃ r plan,
    ofEntities [Sample.user, Sample.post, Sample.comment] = .ok r ∧
      r.compilePaths Sample.post Sample.paths = .ok plan ∧
      plan.loaders.map (fun l => l.manyJoin.idField) = ["author__id", "id"] ∧
      plan.Throughout (fun table query => ∀ l ∈ query.loaders, query.SelectsId table l.manyJoin) "posts" := by
  obtain ⟨r, plan, registered, compiled, matched⟩ := exists_compiled
    (show Option.any (fun plan : QueryPlan => plan.loaders.map (fun l => l.manyJoin.idField) = ["author__id", "id"])
      (ofEntities [Sample.user, Sample.post, Sample.comment] >>=
        (·.compilePaths Sample.post Sample.paths)).toOption = true by decide +kernel)
  exact ⟨r, plan, registered, compiled, of_decide_eq_true matched, compilePaths_selectsIds compiled⟩

end Registry
end FetchPlan
