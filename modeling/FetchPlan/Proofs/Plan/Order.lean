import FetchPlan.Proofs.Plan.Failure
import FetchPlan.Proofs.Plan.Select
import FetchPlan.Proofs.Resolution
import Mathlib.Data.List.Perm.Basic
import Mathlib.Data.List.Perm.Subperm

/-! What the order of paths decides. Everything a query holds depends on which paths are asked for;
their order, and how often each is asked for, only decides where it stands. -/
namespace FetchPlan

/-- The loaders have one alias and one table, and their rows are matched alike. -/
structure Loader.Agrees (l m : Loader) : Prop where
  name : l.name = m.name
  table : l.table = m.table
  manyJoin : l.manyJoin = m.manyJoin

namespace Loader

variable {k l m : Loader}

theorem Agrees.refl (l : Loader) : l.Agrees l := ⟨rfl, rfl, rfl⟩

theorem Agrees.symm (agrees : l.Agrees m) : m.Agrees l :=
  ⟨agrees.name.symm, agrees.table.symm, agrees.manyJoin.symm⟩

theorem Agrees.trans (first : k.Agrees l) (second : l.Agrees m) : k.Agrees m where
  name := first.name.trans second.name
  table := first.table.trans second.table
  manyJoin := first.manyJoin.trans second.manyJoin

theorem eq_of_agrees (agrees : l.Agrees m) (same : l.plan = m.plan) : l = m := by
  obtain ⟨name, table, manyJoin⟩ := agrees
  cases l
  cases m
  simp_all [plan]

end Loader

/-- The plans differ in the order of their lists only, on every level. `paired` is the second plan's
loaders in the order of the first one's. -/
inductive QueryPlan.Reordered : QueryPlan → QueryPlan → Prop where
  | intro {p q : QueryPlan} (select : p.select.Perm q.select) (virtuals : p.virtuals.Perm q.virtuals)
      (joins : p.joins.Perm q.joins) (paired : List Loader) (loaders : paired.Perm q.loaders)
      (agree : List.Forall₂ Loader.Agrees p.loaders paired)
      (inside : ∀ l m, (l, m) ∈ p.loaders.zip paired → Reordered l.plan m.plan) : Reordered p q

/-- The loaders differ in the order of lists only, their own ones and those below. -/
structure Loader.Reordered (l m : Loader) : Prop where
  agrees : l.Agrees m
  inside : l.plan.Reordered m.plan

theorem QueryPlan.reordered_iff {p q : QueryPlan} : p.Reordered q ↔
    p.select.Perm q.select ∧ p.virtuals.Perm q.virtuals ∧ p.joins.Perm q.joins ∧
      ∃ paired : List Loader, paired.Perm q.loaders ∧ List.Forall₂ Loader.Reordered p.loaders paired := by
  constructor
  · rintro ⟨select, virtuals, joins, paired, loaders, agree, inside⟩
    refine ⟨select, virtuals, joins, paired, loaders, ?_⟩
    exact List.forall₂_iff_zip.mpr ⟨agree.length_eq, fun together =>
      ⟨List.forall₂_zip agree together, inside _ _ together⟩⟩
  · rintro ⟨select, virtuals, joins, paired, loaders, alike⟩
    exact .intro select virtuals joins paired loaders (alike.imp fun _ _ => Loader.Reordered.agrees)
      fun _ _ together => (List.forall₂_zip alike together).inside

def SamePaths (ps qs : List FieldPath) : Prop := ∀ p, p ∈ ps ↔ p ∈ qs

namespace SamePaths

theorem symm (same : SamePaths ps qs) : SamePaths qs ps := fun p => (same p).symm

theorem subset (same : SamePaths ps qs) : ps ⊆ qs := fun p => (same p).mp

theorem below (same : SamePaths ps qs) (q : FieldPath) :
    SamePaths (FetchPlan.below q ps) (FetchPlan.below q qs) := by
  intro p
  rw [mem_below, mem_below, same]

theorem requested {paths others : List String} (same : ∀ path, path ∈ paths ↔ path ∈ others) :
    SamePaths (requested paths) (requested others) := by
  intro p
  simp only [FetchPlan.requested, List.mem_map, same]

end SamePaths

namespace Registry

theorem Collapsed.of_same {r : Registry} (same : SamePaths ps qs) (collapsed : r.Collapsed e ps s) :
    r.Collapsed e qs s :=
  collapsed.anti same.symm.subset (collapsed.crosses.mono same.subset)

theorem Due.of_same {r : Registry} (same : SamePaths ps qs) (due : r.Due e ps x) : r.Due e qs x := by
  cases due with
  | column reached asked column apart =>
    exact .column reached ((same _).mp asked) column fun s ends collapsed =>
      apart s ends (collapsed.of_same same.symm)
  | foreignKey collapsed => exact .foreignKey (collapsed.of_same same)
  | addedId reached loads missing =>
    obtain ⟨relation, rest, declared, toMany, proper, asked⟩ := loads
    refine .addedId reached ⟨relation, rest, declared, toMany, proper, (same _).mp asked⟩ ?_
    exact fun present => missing ⟨(same _).mpr present.1, present.2⟩

end Registry

/-- Two lists that stand for the same things in different orders can be paired. -/
theorem exists_paired {R : σ → α → Prop} {S : σ → β → Prop} (left : List.Forall₂ R as ls)
    (right : List.Forall₂ S bs ms) (order : as.Perm bs) :
    ∃ paired, paired.Perm ms ∧ List.Forall₂ (fun l m => ∃ a, R a l ∧ S a m) ls paired := by
  obtain ⟨paired, matched, arranged⟩ := List.perm_comp_forall₂ order right
  refine ⟨paired, arranged, ?_⟩
  clear right order arranged
  induction left generalizing paired with
  | nil =>
    cases matched
    exact .nil
  | cons here _ ih =>
    obtain _ | ⟨there, rest⟩ := matched
    exact .cons ⟨_, here, there⟩ (ih _ rest)

namespace Entity

theorem mem_virtualsAmong {e : Entity} : name ∈ e.virtualsAmong ps ↔
    [name] ∈ ps ∧ e.field? name = some (.virtual name) := by
  rw [virtualsAmong, mem_distinct, List.mem_filterMap]
  constructor
  · rintro ⟨p, asked, reported⟩
    split at reported
    · obtain ⟨virtual, same⟩ := Option.ite_none_right_eq_some.mp reported
      cases same
      exact ⟨asked, virtual⟩
    · contradiction
  · rintro ⟨asked, virtual⟩
    exact ⟨[name], asked, if_pos virtual⟩

theorem virtualsAmong_perm (e : Entity) (same : SamePaths ps qs) :
    (e.virtualsAmong ps).Perm (e.virtualsAmong qs) := by
  refine (List.perm_ext_iff_of_nodup (nodup_distinct _) (nodup_distinct _)).mpr fun name => ?_
  rw [← virtualsAmong, ← virtualsAmong, mem_virtualsAmong, mem_virtualsAmong, same]

end Entity

namespace Registry

theorem Query.select_perm {r : Registry} (same : SamePaths ps qs) (query : r.Query e ps nodes plan)
    (query' : r.Query e qs nodes' other) : plan.select.Perm other.select := by
  rw [query.select_eq, query'.select_eq]
  refine List.Perm.map _ ((List.perm_ext_iff_of_nodup query.nodup_sources query'.nodup_sources).mpr ?_)
  intro x
  rw [query.mem_sources, query'.mem_sources]
  exact ⟨Due.of_same same, Due.of_same same.symm⟩

/-- A query for more paths lists no fewer steps, whatever is kept of them. -/
theorem Shapes.steps_subperm {r : Registry} {keep : Visit → Bool} {kept kept' : Step → Prop}
    (shapes : r.Shapes e ps nodes)
    (listed : ∀ s, s ∈ ((r.visits e nodes).filter keep).map Visit.toStep ↔ kept s)
    (listed' : ∀ s, s ∈ ((r.visits e nodes').filter keep).map Visit.toStep ↔ kept' s)
    (more : ∀ s, kept s → kept' s) : (((r.visits e nodes).filter keep).map Visit.toStep).Subperm
      (((r.visits e nodes').filter keep).map Visit.toStep) := by
  have distinct : (((r.visits e nodes).filter keep).map Visit.toStep).Nodup :=
    .of_map _ (shapes.nodup_steps keep)
  exact distinct.subperm fun s member => (listed' s).mpr (more s ((listed s).mp member))

theorem Query.joins_eq {r : Registry} (query : r.Query e ps nodes plan) :
    plan.joins = (((r.visits e nodes).filter Visit.isJoined).map Visit.toStep).map (Step.join []) := by
  rw [query.joins, List.map_map]
  rfl

theorem Query.joined_subperm {r : Registry} (more : ps ⊆ qs) (query : r.Query e ps nodes plan)
    (query' : r.Query e qs nodes' other) : (((r.visits e nodes).filter Visit.isJoined).map Visit.toStep).Subperm
      (((r.visits e nodes').filter Visit.isJoined).map Visit.toStep) :=
  query.shapes.steps_subperm query.shapes.mem_joined query'.shapes.mem_joined fun _ => Joined.mono more

theorem Query.loaded_subperm {r : Registry} (more : ps ⊆ qs) (query : r.Query e ps nodes plan)
    (query' : r.Query e qs nodes' other) : (((r.visits e nodes).filter Visit.isLoaded).map Visit.toStep).Subperm
      (((r.visits e nodes').filter Visit.isLoaded).map Visit.toStep) :=
  query.shapes.steps_subperm query.hops.loaded query'.hops.loaded fun _ => Loaded.mono more

theorem Query.joins_perm {r : Registry} (same : SamePaths ps qs) (query : r.Query e ps nodes plan)
    (query' : r.Query e qs nodes' other) : plan.joins.Perm other.joins := by
  have steps := query.joined_subperm same.subset query'
  have steps' := query'.joined_subperm same.symm.subset query
  rw [query.joins_eq, query'.joins_eq]
  exact (steps.antisymm steps').map _

/-- A loader of a query with the step it stands for. -/
def Query.Serves (r : Registry) (e : Entity) (nodes : List FieldNode) (s : Step) (l : Loader) : Prop :=
  ∃ v, v ∈ (r.visits e nodes).filter Visit.isLoaded ∧ v.toStep = s ∧ r.Loads [] v l

theorem Query.serves {r : Registry} (query : r.Query e ps nodes plan) :
    List.Forall₂ (Query.Serves r e nodes)
      (((r.visits e nodes).filter Visit.isLoaded).map Visit.toStep) plan.loaders := by
  rw [List.forall₂_map_left_iff]
  have kept := (List.forall₂_and_left _ _).mpr ⟨fun v member => member, query.loaders⟩
  exact kept.imp fun v l loads => ⟨v, loads.1, rfl, loads.2⟩

theorem Loads.agrees {r : Registry} (loads : r.Loads [] v l) (loads' : r.Loads [] w m)
    (same : v.toStep = w.toStep) : l.Agrees m where
  name := by rw [loads.named, loads'.named, same]
  table := by rw [loads.stored, loads'.stored, same]
  manyJoin := by
    have matched := loads'.matched
    rw [← same, loads.matched] at matched
    exact Except.ok.inj matched

/-- What stands behind a step decides everything about its loader. -/
theorem Loads.eq {r : Registry} (loads : r.Loads [] v l) (loads' : r.Loads [] v m) : l = m :=
  Loader.eq_of_agrees (loads.agrees loads' rfl) (Except.ok.inj (loads.body.symm.trans loads'.body))

/-- Queries for the same paths differ in order only. -/
theorem Query.reordered {r : Registry} (query : r.Query e ps nodes plan) :
    ∀ qs nodes' other, SamePaths ps qs → r.Query e qs nodes' other → plan.Reordered other := by
  refine query.induction (motive := fun e ps plan => ∀ qs nodes' other, SamePaths ps qs →
    r.Query e qs nodes' other → plan.Reordered other) ?_
  intro e ps nodes plan query inside qs nodes' other same query'
  have steps := (query.loaded_subperm same.subset query').antisymm (query'.loaded_subperm same.symm.subset query)
  obtain ⟨paired, order, matched⟩ := exists_paired query.serves query'.serves steps
  refine QueryPlan.reordered_iff.mpr
    ⟨query.select_perm same query', ?_, query.joins_perm same query', paired, order, matched.imp ?_⟩
  · rw [query.virtuals_eq, query'.virtuals_eq]
    exact e.virtualsAmong_perm same
  · rintro l m ⟨_, ⟨v, kept, rfl, loads⟩, ⟨w, kept', same', loads'⟩⟩
    have query'' := query'.inside (List.mem_of_mem_filter kept') loads'
    rw [same'] at query''
    exact ⟨loads.agrees loads' same'.symm, inside v l kept loads _ _ _ (same.below v.full) query''⟩

theorem compilePaths_concat_of_mem {r : Registry} (member : path ∈ paths) :
    r.compilePaths e (paths ++ [path]) = r.compilePaths e paths := by
  rw [compilePaths, compilePaths, resolvePaths, resolvePaths, Selection.parse_concat_of_mem member]

/-- Lists of the same paths compile alike. Both succeed or neither does, and what they give differs
in order only; asking once more for a path does not even change the order. -/
theorem compilePaths_reordered (r : Registry) (e : Entity) {paths others : List String}
    (same : ∀ path, path ∈ paths ↔ path ∈ others) :
    ((∃ plan, r.compilePaths e paths = .ok plan) ↔ ∃ other, r.compilePaths e others = .ok other) ∧
    (∀ plan other, r.compilePaths e paths = .ok plan → r.compilePaths e others = .ok other →
      plan.Reordered other) ∧
    ∀ path ∈ paths, r.compilePaths e (paths ++ [path]) = r.compilePaths e paths := by
  have same' := SamePaths.requested same
  refine ⟨?_, fun plan other compiled compiled' => ?_, fun path => compilePaths_concat_of_mem⟩
  · rw [exists_compilePaths_iff, exists_compilePaths_iff, exists_resolvePaths_iff, exists_resolvePaths_iff]
    simp only [same' _]
  · obtain ⟨nodes, query⟩ := compilePaths_query compiled
    obtain ⟨nodes', query'⟩ := compilePaths_query compiled'
    exact query.reordered _ _ _ same' query'

end Registry

namespace Sample

/-- The sample's paths in another order, some of them twice. -/
def shuffledPaths : List String :=
  ["comments.author.name", "editor.id", "title", "author.posts.title", "author.name", "title", "excerpt",
    "author.posts.title"]

theorem mem_shuffledPaths (path : String) : path ∈ paths ↔ path ∈ shuffledPaths := by
  simp only [paths, shuffledPaths, List.mem_cons, List.not_mem_nil]
  grind

end Sample

theorem Registry.compilePaths_reordered_sample : ∃ r plan other,
    ofEntities [Sample.user, Sample.post, Sample.comment] = .ok r ∧
      r.compilePaths Sample.post Sample.paths = .ok plan ∧
      r.compilePaths Sample.post Sample.shuffledPaths = .ok other ∧
      (∀ path, path ∈ Sample.paths ↔ path ∈ Sample.shuffledPaths) ∧ plan.Reordered other ∧
      r.compilePaths Sample.post (Sample.paths ++ ["author.name"]) = .ok plan := by
  obtain ⟨r, plan, registered, compiled⟩ := Sample.compiles
  obtain ⟨both, reordered, again⟩ := compilePaths_reordered r Sample.post Sample.mem_shuffledPaths
  obtain ⟨other, compiled'⟩ := both.mp ⟨plan, compiled⟩
  exact ⟨r, plan, other, registered, compiled, compiled', Sample.mem_shuffledPaths,
    reordered plan other compiled compiled', (again "author.name" (by decide)).trans compiled⟩

end FetchPlan
