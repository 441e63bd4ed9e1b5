import FetchPlan.Plan.Normal
import FetchPlan.Proofs.Plan.Names
import FetchPlan.Proofs.Plan.Order
import FetchPlan.Proofs.Sorting

/-! What normal forms tell. Plans of one normal form differ in order only. The other way round
aliases must not repeat: joins and loaders are sorted by alias alone, and those that share one stay
as they came. -/
namespace FetchPlan

theorem Loader.normalizedAll_eq (loaders : List Loader) :
    Loader.normalizedAll loaders = loaders.map Loader.normalized := by
  induction loaders with
  | nil => rw [normalizedAll, List.map_nil]
  | cons l rest ih => rw [normalizedAll, List.map_cons, ih]

theorem Loader.normalized_agrees (l : Loader) : l.normalized.Agrees l := by
  cases l
  rw [normalized]
  exact ⟨rfl, rfl, rfl⟩

theorem Loader.plan_normalized (l : Loader) : l.normalized.plan = l.plan.normalized := by
  cases l
  rw [normalized]
  rfl

theorem Loader.normalized_eq_iff {l m : Loader} : l.normalized = m.normalized ↔
    l.Agrees m ∧ l.plan.normalized = m.plan.normalized := by
  rw [← plan_normalized, ← plan_normalized]
  constructor
  · intro same
    exact ⟨l.normalized_agrees.symm.trans (same ▸ m.normalized_agrees), congrArg Loader.plan same⟩
  · rintro ⟨agrees, same⟩
    exact eq_of_agrees (l.normalized_agrees.trans (agrees.trans m.normalized_agrees.symm)) same

namespace QueryPlan

theorem normalized_eq_iff {p q : QueryPlan} : p.normalized = q.normalized ↔
    p.select.Perm q.select ∧ p.virtuals.Perm q.virtuals ∧
      sortOn Join.name p.joins = sortOn Join.name q.joins ∧
      sortOn Loader.name (p.loaders.map Loader.normalized) =
        sortOn Loader.name (q.loaders.map Loader.normalized) := by
  rw [normalized, normalized, mk.injEq, sortOn_id_eq_iff, sortOn_id_eq_iff, Loader.normalizedAll_eq,
    Loader.normalizedAll_eq]

namespace Reordered

theorem refl (p : QueryPlan) : p.Reordered p := by
  induction p using QueryPlan.induction with
  | step p inside =>
    refine reordered_iff.mpr ⟨.rfl, .rfl, .rfl, p.loaders, .rfl, List.forall₂_same.mpr fun l member => ?_⟩
    exact ⟨.refl l, inside l member⟩

theorem refl_loader (l : Loader) : l.Reordered l := ⟨.refl l, .refl l.plan⟩

theorem refl_loaders (loaders : List Loader) : List.Forall₂ Loader.Reordered loaders loaders :=
  List.forall₂_same.mpr fun l _ => refl_loader l

/-- Any join can stand in front of its list. -/
theorem exists_front_join {p : QueryPlan} (member : j ∈ p.joins) :
    ∃ rest, p.Reordered { p with joins := j :: rest } := by
  obtain ⟨before, after, split⟩ := List.append_of_mem member
  refine ⟨before ++ after, reordered_iff.mpr ⟨.rfl, .rfl, ?_, p.loaders, .rfl, refl_loaders p.loaders⟩⟩
  rw [split]
  exact List.perm_middle

/-- Any loader can stand in front of its list, and its own query can have another order. -/
theorem exists_front_loader {p : QueryPlan} (member : l ∈ p.loaders) (alike : l.Reordered m) :
    ∃ rest, p.Reordered { p with loaders := m :: rest } := by
  obtain ⟨before, after, split⟩ := List.append_of_mem member
  refine ⟨before ++ after, reordered_iff.mpr ⟨.rfl, .rfl, .rfl, before ++ m :: after, List.perm_middle, ?_⟩⟩
  rw [split]
  exact List.rel_append (refl_loaders before) (.cons alike (refl_loaders after))

/-- Normal forms keep everything but the order. -/
theorem of_normalized_eq {p q : QueryPlan} (same : p.normalized = q.normalized) : p.Reordered q := by
  induction p using QueryPlan.induction generalizing q with
  | step p inside =>
    obtain ⟨select, virtuals, joins, loaders⟩ := normalized_eq_iff.mp same
    have forms (ls : List Loader) :
        List.Forall₂ (fun n l => l.normalized = n) (ls.map Loader.normalized) ls :=
      List.forall₂_map_left_iff.mpr (List.forall₂_same.mpr fun _ _ => rfl)
    obtain ⟨paired, order, matched⟩ :=
      exists_paired (forms p.loaders) (forms q.loaders) (perm_of_sortOn_eq loaders)
    refine reordered_iff.mpr ⟨select, virtuals, perm_of_sortOn_eq joins, paired, order, ?_⟩
    refine ((List.forall₂_and_left _ _).mpr ⟨fun _ => id, matched⟩).imp fun l m => ?_
    rintro ⟨member, n, here, there⟩
    obtain ⟨agrees, same⟩ := Loader.normalized_eq_iff.mp (here.trans there.symm)
    exact ⟨agrees, inside l member same⟩

end Reordered

/-- Joins of one query that share an alias are equal, and loaders that share one differ in order only;
the same holds inside every loader. -/
inductive Tieless : QueryPlan → Prop where
  | intro {p : QueryPlan} (joins : ∀ j ∈ p.joins, ∀ k ∈ p.joins, j.name = k.name → j = k)
      (loaders : ∀ l ∈ p.loaders, ∀ m ∈ p.loaders, l.name = m.name → l.Reordered m)
      (inside : ∀ l ∈ p.loaders, Tieless l.plan) : Tieless p

theorem Reordered.normalized_eq {p q : QueryPlan} (reordered : p.Reordered q) (tieless : p.Tieless) :
    p.normalized = q.normalized := by
  induction p using QueryPlan.induction generalizing q with
  | step p ih =>
    obtain ⟨joinsTell, loadersTell, tieless⟩ := tieless
    obtain ⟨select, virtuals, joins, paired, order, alike⟩ := reordered_iff.mp reordered
    have forms {l m : Loader} (member : l ∈ p.loaders) (alike : l.Reordered m) : l.normalized = m.normalized :=
      Loader.normalized_eq_iff.mpr ⟨alike.agrees, ih l member alike.inside (tieless l member)⟩
    have same : paired.map Loader.normalized = p.loaders.map Loader.normalized :=
      map_eq_of_forall₂ ((List.forall₂_and_left _ _).mpr ⟨fun _ => id, alike⟩)
        fun l m ⟨member, alike⟩ => (forms member alike).symm
    refine normalized_eq_iff.mpr ⟨select, virtuals, sortOn_eq_of_perm joins joinsTell, ?_⟩
    refine sortOn_eq_of_perm (same ▸ order.map Loader.normalized) fun n first n' second tie => ?_
    obtain ⟨l, member, rfl⟩ := List.mem_map.mp first
    obtain ⟨m, member', rfl⟩ := List.mem_map.mp second
    rw [l.normalized_agrees.name, m.normalized_agrees.name] at tie
    exact forms member (loadersTell l member m member' tie)

section Orderless

variable {p : QueryPlan} (orderless : ∀ q, p.Reordered q → p.normalized = q.normalized)
include orderless

/-- What stands in front of a list stays in front of what shares its alias. -/
theorem joins_tell_of_orderless (first : j ∈ p.joins) (second : k ∈ p.joins) (tie : j.name = k.name) :
    j = k := by
  obtain ⟨_, left⟩ := Reordered.exists_front_join first
  obtain ⟨_, right⟩ := Reordered.exists_front_join second
  have same := (orderless _ left).symm.trans (orderless _ right)
  exact head_eq_of_sortOn_eq (normalized_eq_iff.mp same).2.2.1 tie

theorem loaders_tell_of_orderless (first : l ∈ p.loaders) (second : m ∈ p.loaders)
    (alike : l.Reordered l') (tie : l.name = m.name) : l'.normalized = m.normalized := by
  obtain ⟨_, left⟩ := Reordered.exists_front_loader first alike
  obtain ⟨_, right⟩ := Reordered.exists_front_loader second (Reordered.refl_loader m)
  have same := (orderless _ left).symm.trans (orderless _ right)
  refine head_eq_of_sortOn_eq (normalized_eq_iff.mp same).2.2.2 ?_
  rw [l'.normalized_agrees.name, m.normalized_agrees.name, ← alike.agrees.name, tie]

end Orderless

theorem tieless_of_orderless {p : QueryPlan}
    (orderless : ∀ q, p.Reordered q → p.normalized = q.normalized) : p.Tieless := by
  induction p using QueryPlan.induction with
  | step p inside =>
    refine .intro (fun _ first _ second => joins_tell_of_orderless orderless first second) ?_ ?_
    · intro l first m second tie
      have same := loaders_tell_of_orderless orderless first second (Reordered.refl_loader l) tie
      obtain ⟨agrees, same⟩ := Loader.normalized_eq_iff.mp same
      exact ⟨agrees, .of_normalized_eq same⟩
    · intro l member
      refine inside l member fun q reordered => ?_
      have alike : l.Reordered ⟨l.name, l.table, l.manyJoin, q.joins, q.select, q.virtuals, q.loaders⟩ :=
        ⟨⟨rfl, rfl, rfl⟩, reordered⟩
      have same := loaders_tell_of_orderless orderless member member alike rfl
      exact (Loader.normalized_eq_iff.mp same).2.symm

/-- Where every query tells its names apart there are no ties. -/
theorem Throughout.tieless {p : QueryPlan} (apart : p.Throughout NamesApart table) : p.Tieless := by
  induction apart with
  | intro here _ inside =>
    refine .intro (fun j first k second tie => List.inj_on_of_nodup_map here.joins first second tie) ?_ inside
    intro l first m second tie
    rw [List.inj_on_of_nodup_map here.loaders first second tie]
    exact Reordered.refl_loader m

/-- Plans of one normal form differ in the order of their lists only. Every order of a plan's lists
gives one normal form exactly if no alias stands for two different things. -/
theorem normalized_canonical (p : QueryPlan) :
    (∀ q, p.normalized = q.normalized → p.Reordered q) ∧
    ((∀ q, p.Reordered q → p.normalized = q.normalized) ↔ p.Tieless) :=
  ⟨fun _ => Reordered.of_normalized_eq, tieless_of_orderless, fun tieless _ reordered =>
    reordered.normalized_eq tieless⟩

end QueryPlan

namespace Sample

def tagLoader : Loader :=
  { name := "tags", table := "tags", manyJoin := ⟨"posts", "id", "id", none, "tags", "post_id"⟩
    select := ["tags.name", "tags.id"] }

def commentLoader : Loader :=
  { name := "comments", table := "comments", manyJoin := ⟨"posts", "id", "id", none, "comments", "post_id"⟩
    select := ["comments.id"] }

/-- Neither the columns nor the loaders are in order. -/
def unsorted : QueryPlan := { select := ["posts.title", "posts.id"], loaders := [tagLoader, commentLoader] }

def sorted : QueryPlan :=
  { select := ["posts.id", "posts.title"]
    loaders := [commentLoader, { tagLoader with select := ["tags.id", "tags.name"] }] }

theorem unsorted_tieless : unsorted.Tieless := by
  have inside (l : Loader) (joins : l.joins = []) (loaders : l.loaders = []) :
      l.plan.Throughout QueryPlan.NamesApart l.table := by
    refine .intro ⟨?_, ?_, ?_⟩ ?_ <;> simp [Loader.plan, joins, loaders]
  have apart : unsorted.Throughout QueryPlan.NamesApart "posts" :=
    .intro ⟨by decide, by decide, by decide⟩ (List.forall_mem_cons.mpr
      ⟨inside tagLoader rfl rfl, List.forall_mem_singleton.mpr (inside commentLoader rfl rfl)⟩)
  exact apart.tieless

end Sample

theorem QueryPlan.normalized_canonical_sample : Sample.unsorted.normalized = Sample.sorted.normalized ∧
    Sample.unsorted.Reordered Sample.sorted ∧ Sample.unsorted.Tieless ∧
      ∀ q, Sample.unsorted.Reordered q → Sample.unsorted.normalized = q.normalized := by
  have same : Sample.unsorted.normalized = Sample.sorted.normalized := rfl
  obtain ⟨reordered, orderless⟩ := normalized_canonical Sample.unsorted
  exact ⟨same, reordered _ same, Sample.unsorted_tieless, orderless.mpr Sample.unsorted_tieless⟩

namespace Sample

/-- A category, its parent, and a shortcut to the parent's parent. -/
def category : Entity :=
  { id := "Category", table := "categories"
    fields := [.plain ⟨"name", .string, false, none, none, none⟩,
      .relation ⟨"parent", "Category", .belongsToOne none, true, none⟩,
      .relation ⟨"parent__parent", "Category", .belongsToOne none, true, none⟩] }

/-- The shortcut and the way it stands for are joined under one alias, in the order they were asked
for, and that order is left in the normal form. -/
theorem category_two_forms : ∃ r plan other, Registry.ofEntities [category] = .ok r ∧
    r.compilePaths category ["parent__parent.name", "parent.parent.name"] = .ok plan ∧
    r.compilePaths category ["parent.parent.name", "parent__parent.name"] = .ok other ∧
    plan.Reordered other ∧ plan.normalized ≠ other.normalized := by
  obtain ⟨⟨plan, other⟩, built, differ⟩ := exists_ok (show
    Option.any (fun plans : QueryPlan × QueryPlan => plans.1.normalized.joins ≠ plans.2.normalized.joins)
      (Registry.ofEntities [category] >>= fun r => do
        let plan ← r.compilePaths category ["parent__parent.name", "parent.parent.name"]
        let other ← r.compilePaths category ["parent.parent.name", "parent__parent.name"]
        pure (plan, other)).toOption = true
    by decide +kernel)
  obtain ⟨r, registered, built⟩ := bind_eq_ok.mp built
  obtain ⟨_, compiled, built⟩ := bind_eq_ok.mp built
  obtain ⟨_, compiled', built⟩ := bind_eq_ok.mp built
  cases built
  obtain ⟨nodes, query⟩ := Registry.compilePaths_query compiled
  obtain ⟨nodes', query'⟩ := Registry.compilePaths_query compiled'
  have same : SamePaths (requested ["parent__parent.name", "parent.parent.name"])
      (requested ["parent.parent.name", "parent__parent.name"]) :=
    .requested fun path => by simp [or_comm]
  refine ⟨r, plan, other, registered, compiled, compiled', query.reordered _ _ _ same query', fun equal => ?_⟩
  exact of_decide_eq_true differ (congrArg QueryPlan.joins equal)

end Sample
end FetchPlan
