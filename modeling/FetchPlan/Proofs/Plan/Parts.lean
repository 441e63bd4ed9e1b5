import FetchPlan.Plan.Compile
import FetchPlan.Proofs.Alias
import FetchPlan.Proofs.Plan.Steps
import Mathlib.Data.List.Forall2

/-! What each step adds to a plan. A shape that fits its entity compiles, and the joins, the
loaders and the select entries below its own level come from the steps it makes, in order. -/
namespace FetchPlan

open Inflection (Inflector)

namespace QueryPlan

@[simp] theorem append_select (p q : QueryPlan) : (p ++ q).select = p.select ++ q.select := rfl

@[simp] theorem append_virtuals (p q : QueryPlan) : (p ++ q).virtuals = p.virtuals ++ q.virtuals := rfl

@[simp] theorem append_joins (p q : QueryPlan) : (p ++ q).joins = p.joins ++ q.joins := rfl

@[simp] theorem append_loaders (p q : QueryPlan) : (p ++ q).loaders = p.loaders ++ q.loaders := rfl

end QueryPlan

theorem ownVirtuals_below (nonempty : path ≠ []) (nodes : List FieldNode) :
    ownVirtuals path nodes = [] := by
  cases path with
  | nil => contradiction
  | cons => rfl

theorem RelationField.exists_manyJoin [Inflector] {relation : RelationField}
    (toMany : relation.kind.isToMany = true) (owner t : Entity) (path : FieldPath) :
    ∃ m, relation.manyJoin owner t path = .ok m := by
  unfold RelationField.manyJoin
  cases kind : relation.kind with
  | belongsToOne => simp [kind, RelationKind.isToMany, RelationKind.isToOne] at toMany
  | oneToOne => simp [kind, RelationKind.isToMany, RelationKind.isToOne] at toMany
  | hasMany column => exact ⟨_, rfl⟩
  | manyToMany table => exact ⟨_, rfl⟩

/-- The rows of a to-many relation are matched by a column of their own, or through a join table. -/
theorem RelationField.manyJoin_cases [Inflector] {relation : RelationField}
    (matched : relation.manyJoin owner t path = .ok m) :
    (∃ column, relation.kind = .hasMany column ∧
      m = ⟨owner.table, "id", idField path, none, t.table, column⟩) ∨
    ∃ table, relation.kind = .manyToMany table ∧
      m = ⟨owner.table, "id", idField path, some ⟨table, (orientedJunctionColumns table owner.table).1,
        (orientedJunctionColumns table owner.table).2⟩, t.table, "id"⟩ := by
  unfold RelationField.manyJoin at matched
  cases kind : relation.kind with
  | belongsToOne => simp [kind, throw, throwThe, MonadExceptOf.throw] at matched
  | oneToOne => simp [kind, throw, throwThe, MonadExceptOf.throw] at matched
  | hasMany column =>
    simp only [kind, pure, Except.pure, Except.ok.injEq] at matched
    exact .inl ⟨column, rfl, matched.symm⟩
  | manyToMany table =>
    simp only [kind, pure, Except.pure, Except.ok.injEq] at matched
    exact .inr ⟨table, rfl, matched.symm⟩

/-- The rows of a to-many relation are matched with the id of its owner. -/
theorem RelationField.manyJoin_spec [Inflector] {relation : RelationField}
    (matched : relation.manyJoin owner t path = .ok m) :
    m.toTable = t.table ∧ m.fromTable = owner.table ∧ m.idField = idField path := by
  obtain ⟨_, _, rfl⟩ | ⟨_, _, rfl⟩ := manyJoin_cases matched
  · exact ⟨rfl, rfl, rfl⟩
  · exact ⟨rfl, rfl, rfl⟩

theorem idField_eq (path : FieldPath) :
    idField path = if path = [] then "id" else tableAlias path ++ "__id" := by
  cases path with
  | nil => rfl
  | cons first rest =>
    rw [if_neg (by simp), idField, columnAlias, String.append_assoc]
    · rfl
    · simp

/-- The join a to-one step makes in a query whose level stands at `start`. -/
def Step.join (start : FieldPath) (s : Step) : Join where
  name := tableAlias (start ++ s.full)
  table := s.target.table
  predicate := s.relation.predicate (qualifier s.owner.table (start ++ s.path))
    (tableAlias (start ++ s.full))

@[simp] theorem Step.join_under (start : FieldPath) (name : String) (s : Step) :
    (s.under name).join start = s.join (start ++ [name]) := by
  simp [join, Step.full, Step.under]

namespace Visit

/-- Only the id is asked for, and the owner holds it. -/
def isCollapsed (v : Visit) : Bool :=
  v.relation.kind.isToOne && readsForeignKey v.relation v.children

def isJoined (v : Visit) : Bool :=
  v.relation.kind.isToOne && !readsForeignKey v.relation v.children

def isLoaded (v : Visit) : Bool := v.relation.kind.isToMany

/-- The select entries of a step: the foreign key for a collapsed relation, the columns of the
joined level for a joined one. -/
def select (start : FieldPath) (v : Visit) : List String :=
  if v.isCollapsed then [selectEntry v.owner.table (start ++ v.path) (foreignKey v.relation.name)]
  else if v.isJoined then (ownPlan v.target.table (start ++ v.full) v.children).select
  else []

@[simp] theorem select_under (start : FieldPath) (name : String) (v : Visit) :
    (v.under name).select start = v.select (start ++ [name]) := by
  simp [select, isCollapsed, isJoined, under, Step.under, Step.full]

end Visit

namespace Registry

theorem visits_of_idOnly {r : Registry} (idOnly : FieldNode.idOnly children = true) :
    r.visits e children = [] := by
  match children, idOnly with
  | [.column ..], _ => simp [visits, visitsOf]

section Parts

variable [Inflector]

structure Loads (r : Registry) (start : FieldPath) (v : Visit) (l : Loader) : Prop where
  named : l.name = tableAlias v.full
  stored : l.table = v.target.table
  matched : v.relation.manyJoin v.owner v.target (start ++ v.path) = .ok l.manyJoin
  body : r.compileNodes v.target [] v.children = .ok l.plan

theorem Loads.lift {r : Registry} (loads : r.Loads (start ++ [name]) v l) :
    r.Loads start (v.under name) { l with name := liftedAlias name l.name } where
  named := by rw [Visit.full_under, tableAlias_cons name v.full_ne_nil, loads.named]
  stored := loads.stored
  matched := by simpa [Visit.under, Step.under] using loads.matched
  body := loads.body

/-- `plan` holds what the steps `vs` add to a query, and nothing else. -/
structure Parts (r : Registry) (start : FieldPath) (vs : List Visit) (plan : QueryPlan) : Prop where
  select : plan.select = vs.flatMap (Visit.select start)
  virtuals : plan.virtuals = []
  joins : plan.joins = (vs.filter Visit.isJoined).map fun v => v.join start
  loaders : List.Forall₂ (r.Loads start) (vs.filter Visit.isLoaded) plan.loaders

theorem Parts.nil (r : Registry) (start : FieldPath) : r.Parts start [] {} :=
  ⟨rfl, rfl, rfl, .nil⟩

theorem Parts.append {r : Registry} (first : r.Parts start vs p) (second : r.Parts start ws q) :
    r.Parts start (vs ++ ws) (p ++ q) where
  select := by simp [first.select, second.select]
  virtuals := by simp [first.virtuals, second.virtuals]
  joins := by simp [first.joins, second.joins]
  loaders := by
    rw [List.filter_append]
    exact List.rel_append first.loaders second.loaders

theorem Parts.lift {r : Registry} (parts : r.Parts (start ++ [name]) vs p) :
    r.Parts start (vs.map (Visit.under name)) (p.lift name) where
  select := by simpa [QueryPlan.lift, List.flatMap_map] using parts.select
  virtuals := parts.virtuals
  joins := by
    rw [List.filter_map, List.map_map]
    exact parts.joins.trans (List.map_congr_left fun v _ => (Step.join_under start name v.toStep).symm)
  loaders := by
    rw [List.filter_map, QueryPlan.lift, List.forall₂_map_left_iff, List.forall₂_map_right_iff]
    exact parts.loaders.imp fun _ _ loads => loads.lift

theorem parts_collapsed {r : Registry} (toOne : relation.kind.isToOne = true)
    (collapsed : readsForeignKey relation children = true) :
    r.Parts start [⟨⟨[], e, relation, t⟩, children⟩]
      { select := [selectEntry e.table start (foreignKey relation.name)] } where
  select := by simp [Visit.select, Visit.isCollapsed, toOne, collapsed]
  virtuals := rfl
  joins := by simp [Visit.isJoined, collapsed]
  loaders := by simp [Visit.isLoaded, RelationKind.isToMany, toOne]

theorem parts_joined {r : Registry} {inner : QueryPlan} (toOne : relation.kind.isToOne = true)
    (joined : ¬ readsForeignKey relation children = true)
    (parts : r.Parts (start ++ [relation.name]) (r.visits t children) inner) :
    r.Parts start
      (⟨⟨[], e, relation, t⟩, children⟩ :: (r.visits t children).map (Visit.under relation.name))
      ({ joins := [⟨tableAlias (start ++ [relation.name]), t.table, relation.predicate
          (qualifier e.table start) (tableAlias (start ++ [relation.name]))⟩] } ++
        (ownPlan t.table (start ++ [relation.name]) children ++ inner).lift relation.name) := by
  have lifted := parts.lift
  constructor
  · rw [List.flatMap_cons, ← lifted.select]
    simp [Visit.select, Visit.isCollapsed, Visit.isJoined, toOne, joined, QueryPlan.lift, Step.full]
  · rw [QueryPlan.append_virtuals, List.nil_append, ← lifted.virtuals]
    simp [QueryPlan.lift, ownPlan, ownVirtuals_below]
  · rw [List.filter_cons_of_pos (by simp [Visit.isJoined, toOne, joined]), List.map_cons, ← lifted.joins]
    simp [QueryPlan.lift, ownPlan, Step.join, Step.full]
  · rw [List.filter_cons_of_neg (by simp [Visit.isLoaded, RelationKind.isToMany, toOne])]
    simpa [QueryPlan.lift, ownPlan] using lifted.loaders

theorem parts_loaded {r : Registry} {inner : QueryPlan} (toMany : relation.kind.isToMany = true)
    (inside : r.compileRelations t [] children = .ok inner)
    (matched : relation.manyJoin e t start = .ok m) :
    r.Parts start [⟨⟨[], e, relation, t⟩, children⟩]
      { loaders := [⟨relation.name, t.table, m, inner.joins,
          (ownPlan t.table [] children).select ++ inner.select,
          (ownPlan t.table [] children).virtuals ++ inner.virtuals, inner.loaders⟩] } := by
  have toMany' : relation.kind.isToOne = false := by simpa [RelationKind.isToMany] using toMany
  constructor
  · simp [Visit.select, Visit.isCollapsed, Visit.isJoined, toMany']
  · rfl
  · simp [Visit.isJoined, toMany']
  · rw [List.filter_cons_of_pos (by simpa [Visit.isLoaded] using toMany), List.filter_nil]
    refine .cons ⟨rfl, rfl, by simpa using matched, ?_⟩ .nil
    rw [compileNodes, inside]
    rfl

/-- A shape that fits compiles, and its relations add what its steps add. -/
theorem compileRelations_parts {r : Registry} (fits : r.Fits e nodes) (start : FieldPath) :
    ∃ plan, r.compileRelations e start nodes = .ok plan ∧ r.Parts start (r.visits e nodes) plan := by
  induction fits generalizing start with
  | nil => exact ⟨{}, rfl, .nil r start⟩
  | column _ _ _ ih =>
    obtain ⟨plan, compiled, parts⟩ := ih start
    exact ⟨_, by rw [compileRelations, compiled]; rfl, (Parts.nil r start).append parts⟩
  | virtual _ _ _ ih =>
    obtain ⟨plan, compiled, parts⟩ := ih start
    exact ⟨_, by rw [compileRelations, compiled]; rfl, (Parts.nil r start).append parts⟩
  | @object relation t children e rest declared toOne registered _ _ _ _ ihc ih =>
    obtain ⟨others, compiled, parts⟩ := ih start
    rw [visits, visitsOf_object registered, compileRelations, compiled, compileRelation,
      target_eq_ok.mpr registered]
    by_cases collapsed : readsForeignKey relation children
    · have idOnly : FieldNode.idOnly children = true := by
        simp only [readsForeignKey, Bool.and_eq_true] at collapsed
        exact collapsed.1.1
      simp only [ok_bind, collapsed, ↓reduceIte, visits_of_idOnly idOnly, List.map_nil]
      exact ⟨_, rfl, Parts.append (parts_collapsed toOne collapsed) parts⟩
    · obtain ⟨inner, inside, innerParts⟩ := ihc (start ++ [relation.name])
      simp only [ok_bind, collapsed, inside]
      exact ⟨_, rfl, Parts.append (parts_joined toOne collapsed innerParts) parts⟩
  | @array relation t children e rest declared toMany registered _ _ _ _ ihc ih =>
    obtain ⟨others, compiled, parts⟩ := ih start
    obtain ⟨inner, inside, _⟩ := ihc []
    obtain ⟨m, matched⟩ := RelationField.exists_manyJoin toMany e t start
    rw [visits, visitsOf_array registered, compileRelations, compiled, compileRelation,
      target_eq_ok.mpr registered]
    simp only [ok_bind, inside, matched]
    exact ⟨_, rfl, Parts.append (parts_loaded toMany inside matched) parts⟩

end Parts

end Registry
end FetchPlan
