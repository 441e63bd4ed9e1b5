import FetchPlan.Proofs.Plan.Query

/-! Which relations a query joins, which it leaves to loaders, and which it takes from a foreign
key. Joins and loaders are those of the relations that the paths cross, each once and under the
alias of its path. -/
namespace FetchPlan

theorem RelationKind.isToOne_of_ownsForeignKey {k : RelationKind} (owns : k.ownsForeignKey = true) :
    k.isToOne = true := by
  cases k <;> first | rfl | contradiction

namespace Registry

/-- Behind the relation only the id is asked for, and the owner holds it as a foreign key. -/
structure Collapsed (r : Registry) (e : Entity) (ps : List FieldPath) (s : Step) : Prop where
  crosses : r.Crosses e ps s
  owned : s.relation.kind.ownsForeignKey = true
  unjoined : s.relation.kind.customJoin = none
  idColumn : (s.target.column? "id").isSome
  idOnly : ∀ rest, rest ≠ [] → s.full ++ rest ∈ ps → rest = ["id"]

/-- A to-one relation of which more is asked for than its owner holds. -/
structure Joined (r : Registry) (e : Entity) (ps : List FieldPath) (s : Step) : Prop where
  crosses : r.Crosses e ps s
  toOne : s.relation.kind.isToOne = true
  apart : ¬ r.Collapsed e ps s

/-- More paths may ask for more than the id, but never for less. -/
theorem Collapsed.anti {r : Registry} (more : ps ⊆ qs) (crosses : r.Crosses e ps s)
    (collapsed : r.Collapsed e qs s) : r.Collapsed e ps s where
  crosses := crosses
  owned := collapsed.owned
  unjoined := collapsed.unjoined
  idColumn := collapsed.idColumn
  idOnly rest proper asked := collapsed.idOnly rest proper (more asked)

theorem Joined.mono {r : Registry} (more : ps ⊆ qs) (joined : r.Joined e ps s) : r.Joined e qs s where
  crosses := joined.crosses.mono more
  toOne := joined.toOne
  apart collapsed := joined.apart (collapsed.anti more joined.crosses)

theorem Shapes.collapsed_iff {r : Registry} (shapes : r.Shapes e ps nodes)
    (member : v ∈ r.visits e nodes) : v.isCollapsed = true ↔ r.Collapsed e ps v.toStep := by
  obtain ⟨crosses, inside⟩ := shapes.of_mem_visits member
  have nonempty : v.children ≠ [] := by
    obtain ⟨rest, proper, asked⟩ := crosses.crossed
    obtain ⟨first, rest, rfl⟩ := List.exists_cons_of_ne_nil proper
    obtain ⟨node, among, _⟩ := inside.exists_node (mem_below.mpr ⟨proper, asked⟩)
    exact List.ne_nil_of_mem among
  have idOnly := inside.idOnly_iff nonempty
  simp only [Visit.isCollapsed, readsForeignKey, Bool.and_eq_true, Option.isNone_iff_eq_none, idOnly]
  constructor
  · rintro ⟨_, ⟨⟨column, only⟩, owned⟩, unjoined⟩
    exact ⟨crosses, owned, unjoined, column, fun rest proper asked =>
      only rest (mem_below.mpr ⟨proper, asked⟩) proper⟩
  · rintro ⟨_, owned, unjoined, column, only⟩
    exact ⟨RelationKind.isToOne_of_ownsForeignKey owned, ⟨⟨column, fun p left proper =>
      only p proper (mem_below.mp left).2⟩, owned⟩, unjoined⟩

theorem Shapes.joined_iff {r : Registry} (shapes : r.Shapes e ps nodes)
    (member : v ∈ r.visits e nodes) : v.isJoined = true ↔ r.Joined e ps v.toStep := by
  have collapsed := shapes.collapsed_iff member
  have crosses := (shapes.of_mem_visits member).1
  rw [Visit.isCollapsed, Bool.and_eq_true] at collapsed
  rw [Visit.isJoined, Bool.and_eq_true, Bool.not_eq_true']
  constructor
  · rintro ⟨toOne, joined⟩
    exact ⟨crosses, toOne, fun reads => by simp [joined] at collapsed; exact collapsed reads⟩
  · rintro ⟨_, toOne, apart⟩
    exact ⟨toOne, by simpa [toOne] using mt collapsed.mp apart⟩

theorem Shapes.mem_joined {r : Registry} (shapes : r.Shapes e ps nodes) (s : Step) :
    s ∈ ((r.visits e nodes).filter Visit.isJoined).map Visit.toStep ↔ r.Joined e ps s :=
  shapes.mem_steps (fun _ => Joined.crosses) fun _ member => shapes.joined_iff member

/-- The steps behind a query's joins, a relation before those that lead on from it. -/
structure JoinsListed (r : Registry) (e : Entity) (ps : List FieldPath) (joins : List Join)
    (steps : List Step) : Prop where
  unique : (steps.map Step.full).Nodup
  joined : ∀ s, s ∈ steps ↔ r.Joined e ps s
  ordered : steps.Pairwise fun s later => ¬ later.full <+: s.full
  joins : List.Forall₂ (fun s j => j.name = tableAlias s.full ∧ j.table = s.target.table) steps joins

/-- The steps behind a query's loaders. A loader's rows are matched with the id of the owner,
which the query selects under the alias of the path to it. -/
structure LoadersListed (r : Registry) (e : Entity) (ps : List FieldPath) (plan : QueryPlan)
    (steps : List Step) : Prop extends r.Hops e ps plan steps where
  loaders : List.Forall₂ (fun s l => l.name = tableAlias s.full ∧ l.table = s.target.table ∧
    l.manyJoin.toTable = s.target.table ∧ l.manyJoin.fromTable = s.owner.table ∧
    l.manyJoin.idField = if s.path = [] then "id" else tableAlias s.path ++ "__id") steps plan.loaders

theorem Query.joinsListed {r : Registry} (query : r.Query e ps nodes plan) :
    ∃ steps, r.JoinsListed e ps plan.joins steps := by
  have shapes := query.shapes
  refine ⟨_, shapes.nodup_steps Visit.isJoined, shapes.mem_joined, ?_, ?_⟩
  · rw [List.pairwise_map]
    exact (visits_ordered shapes.fits).filter _
  · rw [query.joins, List.forall₂_map_left_iff, List.forall₂_map_right_iff, List.forall₂_same]
    exact fun v _ => ⟨rfl, rfl⟩

theorem Query.loadersListed {r : Registry} (query : r.Query e ps nodes plan) :
    ∃ steps, r.LoadersListed e ps plan steps := by
  refine ⟨_, query.hops, ?_⟩
  rw [List.forall₂_map_left_iff]
  refine query.loaders.imp fun v l loads => ?_
  obtain ⟨toTable, fromTable, idField⟩ := RelationField.manyJoin_spec loads.matched
  exact ⟨loads.named, loads.stored, toTable, fromTable, idField.trans (idField_eq _)⟩

/-- A query follows the requested paths up to their first to-many relation, joins what is asked
for behind to-one relations and leaves the rest to loaders. -/
structure RelationsExact (r : Registry) (e : Entity) (ps : List FieldPath) (plan : QueryPlan) :
    Prop where
  followed : ∀ q owner name rest, r.along? e q = some owner → q ++ name :: rest ∈ ps → rest ≠ [] →
    ∃ relation t, relation.name = name ∧ r.Crosses e ps ⟨q, owner, relation, t⟩
  joins : ∃ steps, r.JoinsListed e ps plan.joins steps
  loaders : ∃ steps, r.LoadersListed e ps plan steps

/-- In every query of a plan the joins and the loaders are exactly those of the relations that
the paths cross. -/
theorem compilePaths_relations {r : Registry} (compiled : r.compilePaths e paths = .ok plan) :
    r.InEveryQuery r.RelationsExact e (requested paths) plan := by
  apply compilePaths_everywhere _ compiled
  intro e ps nodes plan query
  exact ⟨fun q owner name rest => query.shapes.exists_step, query.joinsListed, query.loadersListed⟩

theorem exists_compiled {es : List Entity} {p : QueryPlan → Bool}
    (passes : (ofEntities es >>= (·.compilePaths e paths)).toOption.any p = true) :
    ∃ r plan, ofEntities es = .ok r ∧ r.compilePaths e paths = .ok plan ∧ p plan = true := by
  obtain ⟨plan, built, holds⟩ := exists_ok passes
  obtain ⟨r, registered, compiled⟩ := bind_eq_ok.mp built
  exact ⟨r, plan, registered, compiled, holds⟩

end Registry

namespace Sample

def user : Entity :=
  { id := "User", table := "users"
    fields := [.plain ⟨"id", .integer, false, none, none, none⟩,
      .plain ⟨"name", .string, false, none, none, none⟩,
      .relation ⟨"posts", "Post", .hasMany "author_id", false, none⟩] }

def post : Entity :=
  { id := "Post", table := "posts"
    fields := [.plain ⟨"id", .integer, false, none, none, none⟩,
      .plain ⟨"title", .string, false, none, none, none⟩, .virtual "excerpt",
      .relation ⟨"author", "User", .belongsToOne none, false, none⟩,
      .relation ⟨"editor", "User", .belongsToOne none, true, none⟩,
      .relation ⟨"comments", "Comment", .hasMany "post_id", false, none⟩] }

def comment : Entity :=
  { id := "Comment", table := "comments"
    fields := [.plain ⟨"id", .integer, false, none, none, none⟩,
      .plain ⟨"text", .text, false, none, none, none⟩,
      .relation ⟨"author", "User", .belongsToOne none, false, none⟩] }

def paths : List String :=
  ["title", "excerpt", "author.name", "author.posts.title", "editor.id", "comments.author.name"]

theorem compiles : ∃ r plan, Registry.ofEntities [user, post, comment] = .ok r ∧
    r.compilePaths post paths = .ok plan := by
  obtain ⟨r, plan, registered, compiled, _⟩ := Registry.exists_compiled
    (show Option.any (fun _ => true) (Registry.ofEntities [user, post, comment] >>=
      (·.compilePaths post paths)).toOption = true by decide +kernel)
  exact ⟨r, plan, registered, compiled⟩

end Sample

theorem Registry.compilePaths_relations_sample : ∃ r plan,
    ofEntities [Sample.user, Sample.post, Sample.comment] = .ok r ∧
      r.compilePaths Sample.post Sample.paths = .ok plan ∧
      r.InEveryQuery r.RelationsExact Sample.post (requested Sample.paths) plan := by
  obtain ⟨r, plan, registered, compiled⟩ := Sample.compiles
  exact ⟨r, plan, registered, compiled, compilePaths_relations compiled⟩

end FetchPlan
