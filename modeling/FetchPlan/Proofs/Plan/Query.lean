import FetchPlan.Proofs.Plan.Parts

/-! The queries of a plan. Each is the query for some paths on some entity: the root for the
paths asked for, a loader for what is left of the paths that cross its relation. A fact about
the query for arbitrary paths therefore holds of every query of every plan. -/
namespace FetchPlan

open Inflection (Inflector)

theorem map_eq_of_forall₂ (related : List.Forall₂ R l m) (agree : ∀ a b, R a b → g b = f a) :
    m.map g = l.map f := by
  induction related with
  | nil => rfl
  | cons here _ ih => rw [List.map_cons, List.map_cons, agree _ _ here, ih]

theorem exists_of_forall₂ (related : List.Forall₂ R l m) (member : b ∈ m) : ∃ a ∈ l, R a b := by
  induction related with
  | nil => contradiction
  | cons here _ ih =>
    rcases List.mem_cons.mp member with rfl | later
    · exact ⟨_, by simp, here⟩
    · obtain ⟨a, among, holds⟩ := ih later
      exact ⟨a, List.mem_cons_of_mem _ among, holds⟩

namespace Registry

/-- `plan` is the query for the paths `ps` on `e`, whose shape is `nodes`. -/
structure Query [Inflector] (r : Registry) (e : Entity) (ps : List FieldPath) (nodes : List FieldNode)
    (plan : QueryPlan) : Prop where
  shapes : r.Shapes e ps nodes
  select : plan.select =
    (ownPlan e.table [] nodes).select ++ (r.visits e nodes).flatMap (Visit.select [])
  virtuals : plan.virtuals = ownVirtuals [] nodes
  joins : plan.joins = ((r.visits e nodes).filter Visit.isJoined).map fun v => v.join []
  loaders : List.Forall₂ (r.Loads []) ((r.visits e nodes).filter Visit.isLoaded) plan.loaders

theorem Shapes.query [Inflector] {r : Registry} (shapes : r.Shapes e ps nodes)
    (compiled : r.compileNodes e [] nodes = .ok plan) : r.Query e ps nodes plan := by
  obtain ⟨relations, below, parts⟩ := compileRelations_parts shapes.fits []
  rw [compileNodes, below] at compiled
  cases compiled
  exact ⟨shapes, by simp [parts.select], by simp [parts.virtuals, ownPlan], by simp [parts.joins, ownPlan],
    by simpa [ownPlan] using parts.loaders⟩

theorem compilePaths_query [Inflector] {r : Registry} (compiled : r.compilePaths e paths = .ok plan) :
    ∃ nodes, r.Query e (requested paths) nodes plan := by
  obtain ⟨nodes, resolved, compiled⟩ := bind_eq_ok.mp compiled
  exact ⟨nodes, (resolvePaths_ok resolved).2.query compiled⟩

/-- A to-many relation that is left to a loader. -/
structure Loaded (r : Registry) (e : Entity) (ps : List FieldPath) (s : Step) : Prop where
  crosses : r.Crosses e ps s
  toMany : s.relation.kind.isToMany = true

theorem Loaded.mono {r : Registry} (more : ps ⊆ qs) (loaded : r.Loaded e ps s) : r.Loaded e qs s where
  crosses := loaded.crosses.mono more
  toMany := loaded.toMany

/-- The steps a query's loaders stand for, in the order of the loaders. -/
structure Hops (r : Registry) (e : Entity) (ps : List FieldPath) (plan : QueryPlan)
    (hops : List Step) : Prop where
  unique : (hops.map Step.full).Nodup
  loaded : ∀ s, s ∈ hops ↔ r.Loaded e ps s
  named : plan.loaders.map Loader.name = hops.map fun s => tableAlias s.full

/-- `P` holds of the query for `ps` on `e`, and of the queries of its loaders at any depth. -/
inductive InEveryQuery (r : Registry) (P : Entity → List FieldPath → QueryPlan → Prop) :
    Entity → List FieldPath → QueryPlan → Prop where
  | intro (here : P e ps plan) (hops : List Step) (listed : r.Hops e ps plan hops)
      (inside : ∀ s l, (s, l) ∈ hops.zip plan.loaders →
        InEveryQuery r P s.target (below s.full ps) l.plan) :
      InEveryQuery r P e ps plan

/-- No two steps of a query end at the same relation of the same path. -/
theorem Shapes.visits_distinct {r : Registry} (shapes : r.Shapes e ps nodes) :
    (r.visits e nodes).Pairwise fun v w => v.full ≠ w.full := by
  refine (visits_ordered shapes.fits).imp ?_
  intro v w apart same
  have prefixed : w.full <+: v.full := same ▸ List.prefix_rfl
  exact apart prefixed

theorem Shapes.nodup_steps {r : Registry} (shapes : r.Shapes e ps nodes) (keep : Visit → Bool) :
    ((((r.visits e nodes).filter keep).map Visit.toStep).map Step.full).Nodup := by
  rw [List.map_map, List.Nodup, List.pairwise_map]
  exact shapes.visits_distinct.filter _

theorem Shapes.mem_steps {r : Registry} (shapes : r.Shapes e ps nodes) {keep : Visit → Bool}
    {kept : Step → Prop} (crossed : ∀ s, kept s → r.Crosses e ps s)
    (decides : ∀ v ∈ r.visits e nodes, keep v = true ↔ kept v.toStep) :
    s ∈ ((r.visits e nodes).filter keep).map Visit.toStep ↔ kept s := by
  simp only [List.mem_map, List.mem_filter]
  constructor
  · rintro ⟨v, ⟨member, passes⟩, rfl⟩
    exact (decides v member).mp passes
  · intro passes
    obtain ⟨v, member, rfl⟩ := shapes.exists_visit (crossed s passes)
    exact ⟨v, ⟨member, (decides v member).mpr passes⟩, rfl⟩

theorem Query.hops [Inflector] {r : Registry} (query : r.Query e ps nodes plan) :
    r.Hops e ps plan (((r.visits e nodes).filter Visit.isLoaded).map Visit.toStep) where
  unique := query.shapes.nodup_steps _
  loaded s := by
    refine query.shapes.mem_steps (fun _ => Loaded.crosses) fun v member => ?_
    exact ⟨fun toMany => ⟨(query.shapes.of_mem_visits member).1, toMany⟩, Loaded.toMany⟩
  named := by
    rw [List.map_map]
    exact map_eq_of_forall₂ query.loaders fun _ _ loads => loads.named

/-- Behind a loader's relation stands the query for what is left of the paths. -/
theorem Query.inside [Inflector] {r : Registry} (query : r.Query e ps nodes plan)
    (listed : v ∈ r.visits e nodes) (loads : r.Loads [] v l) :
    r.Query v.target (below v.full ps) v.children l.plan :=
  (query.shapes.of_mem_visits listed).2.query loads.body

/-- A to-many relation that is asked for has its loader. -/
theorem Query.exists_loader [Inflector] {r : Registry} (query : r.Query e ps nodes plan)
    (loaded : r.Loaded e ps s) :
    ∃ v l, v ∈ (r.visits e nodes).filter Visit.isLoaded ∧ v.toStep = s ∧
      l ∈ plan.loaders ∧ r.Loads [] v l := by
  obtain ⟨v, listed, rfl⟩ := query.shapes.exists_visit loaded.crosses
  have kept : v ∈ (r.visits e nodes).filter Visit.isLoaded :=
    List.mem_filter.mpr ⟨listed, loaded.toMany⟩
  obtain ⟨l, member, loads⟩ := exists_of_forall₂ query.loaders.flip kept
  exact ⟨v, l, kept, rfl, member, loads⟩

/-- What holds of a query as soon as it holds of the queries of its loaders holds of every query. -/
theorem Query.induction [Inflector] {r : Registry} {motive : Entity → List FieldPath → QueryPlan → Prop}
    (step : ∀ {e ps nodes plan}, r.Query e ps nodes plan →
      (∀ v l, v ∈ (r.visits e nodes).filter Visit.isLoaded → r.Loads [] v l →
        motive v.target (below v.full ps) l.plan) → motive e ps plan)
    (query : r.Query e ps nodes plan) : motive e ps plan := by
  induction ps using below_induction generalizing e nodes plan with
  | step ps ih =>
    apply step query
    intro v l kept loads
    have listed := List.mem_of_mem_filter kept
    obtain ⟨rest, _, member⟩ := (query.shapes.of_mem_visits listed).1.crossed
    exact ih v.full rest v.full_ne_nil member (query.inside listed loads)

theorem exists_visit_of_paired {vs : List Visit} {ls : List Loader}
    (paired : (s, l) ∈ (vs.map Visit.toStep).zip ls) : ∃ v, (v, l) ∈ vs.zip ls ∧ v.toStep = s := by
  rw [List.zip_map_left] at paired
  obtain ⟨⟨v, _⟩, together, ⟨⟩⟩ := List.mem_map.mp paired
  exact ⟨v, together, rfl⟩

/-- What holds of the query for any paths on any entity holds in every query of a plan. -/
theorem Query.everywhere [Inflector] {r : Registry} {P : Entity → List FieldPath → QueryPlan → Prop}
    (holds : ∀ {e ps nodes plan}, r.Query e ps nodes plan → P e ps plan)
    (query : r.Query e ps nodes plan) : r.InEveryQuery P e ps plan := by
  refine query.induction fun query inside => .intro (holds query) _ query.hops fun s l paired => ?_
  obtain ⟨v, together, rfl⟩ := exists_visit_of_paired paired
  exact inside v l (List.of_mem_zip together).1 (List.forall₂_zip query.loaders together)

theorem compilePaths_everywhere [Inflector] {r : Registry}
    {P : Entity → List FieldPath → QueryPlan → Prop}
    (holds : ∀ {e ps nodes plan}, r.Query e ps nodes plan → P e ps plan)
    (compiled : r.compilePaths e paths = .ok plan) : r.InEveryQuery P e (requested paths) plan := by
  obtain ⟨nodes, query⟩ := compilePaths_query compiled
  exact query.everywhere holds

end Registry

/-- `P` holds of the plan as a query on `table`, and of every loader at any depth as a query on the
loader's own table. -/
inductive QueryPlan.Throughout (P : String → QueryPlan → Prop) : String → QueryPlan → Prop where
  | intro : P table plan → (∀ l ∈ plan.loaders, Throughout P l.table l.plan) → Throughout P table plan

theorem Registry.compilePaths_throughout [Inflector] {r : Registry} {P : String → QueryPlan → Prop}
    (holds : ∀ {e ps nodes plan}, r.Query e ps nodes plan → P e.table plan)
    (compiled : r.compilePaths e paths = .ok plan) : plan.Throughout P e.table := by
  obtain ⟨nodes, query⟩ := compilePaths_query compiled
  refine query.induction (motive := fun e _ plan => plan.Throughout P e.table) fun query inside => ?_
  refine .intro (holds query) fun l member => ?_
  obtain ⟨v, kept, loads⟩ := exists_of_forall₂ query.loaders member
  rw [loads.stored]
  exact inside v l kept loads

end FetchPlan
