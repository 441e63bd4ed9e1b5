import FetchPlan.Proofs.Plan.Order

/-! Asking for more. Further paths can turn a foreign key into a join, never a join into a foreign
key, so a plan keeps the joins and the loaders that it has for fewer paths. The select list does not
grow with the paths: a foreign key goes when its relation is joined. -/
namespace FetchPlan

/-- The first plan's joins are among the second's, and so are its loaders, each of which holds again
no more joins and loaders than its counterpart. `paired` are the counterparts. -/
inductive QueryPlan.Within : QueryPlan → QueryPlan → Prop where
  | intro {p q : QueryPlan} (joins : p.joins.Subperm q.joins)
      (paired : List Loader) (loaders : paired.Subperm q.loaders)
      (agree : List.Forall₂ Loader.Agrees p.loaders paired)
      (inside : ∀ l m, (l, m) ∈ p.loaders.zip paired → Within l.plan m.plan) : Within p q

theorem exists_sublist_of_forall₂ {S : σ → β → Prop} (sub : as.Sublist bs) (related : List.Forall₂ S bs ms) :
    ∃ ms', ms'.Sublist ms ∧ List.Forall₂ S as ms' := by
  induction sub generalizing ms with
  | slnil => exact ⟨[], List.nil_sublist ms, .nil⟩
  | cons b _ ih =>
    obtain _ | ⟨_, rest⟩ := related
    obtain ⟨ms', sub', related'⟩ := ih rest
    exact ⟨ms', sub'.cons _, related'⟩
  | cons_cons b _ ih =>
    obtain _ | ⟨here, rest⟩ := related
    obtain ⟨ms', sub', related'⟩ := ih rest
    exact ⟨_ :: ms', sub'.cons_cons _, .cons here related'⟩

/-- If one list stands for some of the things that another stands for, it can be paired with a part of
that one. -/
theorem exists_paired_among {R : σ → α → Prop} {S : σ → β → Prop} (left : List.Forall₂ R as ls)
    (right : List.Forall₂ S bs ms) (among : as.Subperm bs) :
    ∃ paired, paired.Subperm ms ∧ List.Forall₂ (fun l m => ∃ a, R a l ∧ S a m) ls paired := by
  obtain ⟨kept, order, sub⟩ := among
  obtain ⟨ms', sub', right'⟩ := exists_sublist_of_forall₂ sub right
  obtain ⟨paired, arranged, matched⟩ := exists_paired left right' order.symm
  exact ⟨paired, arranged.subperm.trans sub'.subperm, matched⟩

theorem below_subset (more : ps ⊆ qs) (q : FieldPath) : below q ps ⊆ below q qs := by
  intro p left
  obtain ⟨proper, asked⟩ := mem_below.mp left
  exact mem_below.mpr ⟨proper, more asked⟩

namespace Registry

theorem Query.joins_subperm {r : Registry} (more : ps ⊆ qs) (query : r.Query e ps nodes plan)
    (query' : r.Query e qs nodes' other) : plan.joins.Subperm other.joins := by
  obtain ⟨kept, order, sub⟩ := query.joined_subperm more query'
  rw [query.joins_eq, query'.joins_eq]
  exact ⟨_, order.map _, sub.map _⟩

theorem Query.within {r : Registry} (query : r.Query e ps nodes plan) :
    ∀ qs nodes' other, ps ⊆ qs → r.Query e qs nodes' other → plan.Within other := by
  refine query.induction (motive := fun e ps plan => ∀ qs nodes' other, ps ⊆ qs →
    r.Query e qs nodes' other → plan.Within other) ?_
  intro e ps nodes plan query inside qs nodes' other more query'
  obtain ⟨paired, among, matched⟩ :=
    exists_paired_among query.serves query'.serves (query.loaded_subperm more query')
  refine .intro (query.joins_subperm more query') paired among ?_ fun l m together => ?_
  · exact matched.imp fun l m ⟨_, ⟨_, _, here, loads⟩, ⟨_, _, there, loads'⟩⟩ =>
      loads.agrees loads' (here.trans there.symm)
  · obtain ⟨_, ⟨v, kept, rfl, loads⟩, ⟨w, kept', same, loads'⟩⟩ := List.forall₂_zip matched together
    have query'' := query'.inside (List.mem_of_mem_filter kept') loads'
    rw [same] at query''
    exact inside v l kept loads _ _ _ (below_subset more v.full) query''

/-- Asking for more drops no join and no loader, in any query of the plan. -/
theorem compilePaths_monotone {r : Registry} {others : List String} (more : paths ⊆ others)
    (compiled : r.compilePaths e paths = .ok plan) (compiled' : r.compilePaths e others = .ok other) :
    plan.Within other := by
  obtain ⟨nodes, query⟩ := compilePaths_query compiled
  obtain ⟨nodes', query'⟩ := compilePaths_query compiled'
  exact query.within _ _ _ (List.map_subset _ more) query'

end Registry

namespace Sample

/-- The sample's paths and two more: the editor is no longer only an id, and a loader gets a join. -/
def furtherPaths : List String :=
  ["editor.name", "author.posts.editor.name"] ++ paths

end Sample

theorem Registry.compilePaths_monotone_sample : ∃ r plan other,
    ofEntities [Sample.user, Sample.post, Sample.comment] = .ok r ∧ Sample.paths ⊆ Sample.furtherPaths ∧
      r.compilePaths Sample.post Sample.paths = .ok plan ∧
      r.compilePaths Sample.post Sample.furtherPaths = .ok other ∧
      plan.joins.map Join.name = ["author"] ∧ other.joins.map Join.name = ["editor", "author"] ∧
      "posts.editor_id" ∈ plan.select ∧ "posts.editor_id" ∉ other.select ∧ plan.Within other := by
  obtain ⟨r, plan, registered, compiled, joins⟩ := exists_compiled (show
    Option.any (fun plan : QueryPlan => plan.joins.map Join.name = ["author"] ∧
        "posts.editor_id" ∈ plan.select) (ofEntities [Sample.user, Sample.post, Sample.comment] >>=
      (·.compilePaths Sample.post Sample.paths)).toOption = true by decide +kernel)
  obtain ⟨r', other, registered', compiled', joins'⟩ := exists_compiled (show
    Option.any (fun plan : QueryPlan => plan.joins.map Join.name = ["editor", "author"] ∧
        "posts.editor_id" ∉ plan.select) (ofEntities [Sample.user, Sample.post, Sample.comment] >>=
      (·.compilePaths Sample.post Sample.furtherPaths)).toOption = true by decide +kernel)
  obtain rfl : r' = r := Except.ok.inj (registered'.symm.trans registered)
  obtain ⟨first, collapsed⟩ := of_decide_eq_true joins
  obtain ⟨second, joined⟩ := of_decide_eq_true joins'
  have more : Sample.paths ⊆ Sample.furtherPaths := List.subset_append_right ..
  exact ⟨_, plan, other, registered, more, compiled, compiled', first, second, collapsed, joined,
    compilePaths_monotone more compiled compiled'⟩

end FetchPlan
