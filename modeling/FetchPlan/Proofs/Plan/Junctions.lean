import FetchPlan.Proofs.Plan.Names
import FetchPlan.Proofs.Plan.Order

/-! The two sides of a many-to-many relation. Both read the columns of the join table off its name, which
is cut at its first separator, so a loader starts from the column of its own side exactly if the parts
found there are the two sides. -/
namespace FetchPlan

open Inflection (Inflector)

section Inflector

variable [Inflector]

theorem referenceColumn_inj :
    referenceColumn a = referenceColumn b ↔ Inflection.singularize a = Inflection.singularize b :=
  foreignKey_inj

/-- Cut at its first separator, the name of the table leaves two parts with the singular forms of `a` and
`b`, in either order. -/
def CutsBetween (joinTable a b : String) : Prop :=
  ∃ left right, Text.cutOnce aliasSeparator joinTable = some (left, right) ∧
    (Inflection.singularize left = Inflection.singularize a ∧
        Inflection.singularize right = Inflection.singularize b ∨
      Inflection.singularize left = Inflection.singularize b ∧
        Inflection.singularize right = Inflection.singularize a)

theorem CutsBetween.symm (cuts : CutsBetween joinTable a b) : CutsBetween joinTable b a := by
  obtain ⟨left, right, cut, sides⟩ := cuts
  exact ⟨left, right, cut, sides.symm⟩

theorem cutsBetween_of_flat (flat : isFlat a = true) (b : String) : CutsBetween (a ++ "__" ++ b) a b :=
  ⟨a, b, cutOnce_liftedAlias flat b, .inl ⟨rfl, rfl⟩⟩

theorem orientedJunctionColumns_of_columns (columns : junctionColumns joinTable = (left, right))
    (apart : referenceColumn own ≠ other) :
    orientedJunctionColumns joinTable own = (referenceColumn own, other) ↔
      left = referenceColumn own ∧ right = other ∨ left = other ∧ right = referenceColumn own := by
  rw [orientedJunctionColumns, columns]
  by_cases second : right = referenceColumn own <;> by_cases first : left = referenceColumn own
  · subst second first
    simp [apart]
  · subst second
    simp [first]
  · subst first
    simp [second, apart]
  · simp [first, second]

/-- The column of the own side comes first exactly if the table's name is cut between the two sides. -/
theorem orientedJunctionColumns_eq_iff (apart : Inflection.singularize own ≠ Inflection.singularize other) :
    orientedJunctionColumns joinTable own = (referenceColumn own, referenceColumn other) ↔
      CutsBetween joinTable own other := by
  have columnsApart := mt referenceColumn_inj.mp apart
  cases cut : Text.cutOnce aliasSeparator joinTable with
  | none =>
    have columns : junctionColumns joinTable = (referenceColumn joinTable, referenceColumn joinTable) := by
      rw [junctionColumns, cut]
    rw [orientedJunctionColumns_of_columns columns columnsApart]
    constructor
    · rintro (⟨left, right⟩ | ⟨left, right⟩)
      · exact absurd (left.symm.trans right) columnsApart
      · exact absurd (right.symm.trans left) columnsApart
    · rintro ⟨_, _, found, _⟩
      simp [cut] at found
  | some parts =>
    obtain ⟨left, right⟩ := parts
    have columns : junctionColumns joinTable = (referenceColumn left, referenceColumn right) := by
      rw [junctionColumns, cut]
    rw [orientedJunctionColumns_of_columns columns columnsApart]
    simp only [referenceColumn_inj, CutsBetween, cut, Option.some.injEq, Prod.mk.injEq]
    constructor
    · exact fun sides => ⟨left, right, ⟨rfl, rfl⟩, sides⟩
    · rintro ⟨_, _, ⟨rfl, rfl⟩, sides⟩
      exact sides

theorem RelationField.manyJoin_through {relation : RelationField}
    (kind : relation.kind = .manyToMany joinTable)
    (matched : relation.manyJoin owner t path = .ok m) :
    m.through = some ⟨joinTable, (orientedJunctionColumns joinTable owner.table).1,
      (orientedJunctionColumns joinTable owner.table).2⟩ := by
  obtain ⟨_, stored, _⟩ | ⟨_, stored, rfl⟩ := manyJoin_cases matched
  · cases kind.symm.trans stored
  · cases kind.symm.trans stored
    rfl

/-- A loader of a relation over the table that is named after `a` and `b`. From either side it starts at
the column of that side and leads to the other one, exactly if the name is cut between the two. -/
structure JunctionMatched (a b : String) (s : Step) (l : Loader) : Prop where
  named : l.name = tableAlias s.full
  first : s.relation.kind = .manyToMany (a ++ "__" ++ b) → s.owner.table = a →
    (l.manyJoin.through = some ⟨a ++ "__" ++ b, referenceColumn a, referenceColumn b⟩ ↔
      CutsBetween (a ++ "__" ++ b) a b)
  second : s.relation.kind = .manyToMany (a ++ "__" ++ b) → s.owner.table = b →
    (l.manyJoin.through = some ⟨a ++ "__" ++ b, referenceColumn b, referenceColumn a⟩ ↔
      CutsBetween (a ++ "__" ++ b) a b)

namespace Registry

/-- All loaders of a query, with the steps they stand for. -/
def JunctionsMatched (r : Registry) (a b : String) (e : Entity) (ps : List FieldPath)
    (plan : QueryPlan) : Prop :=
  ∃ steps, r.Hops e ps plan steps ∧ List.Forall₂ (JunctionMatched a b) steps plan.loaders

theorem Loads.through_iff {r : Registry} (loads : r.Loads start v l)
    (kind : v.relation.kind = .manyToMany joinTable)
    (apart : Inflection.singularize v.owner.table ≠ Inflection.singularize other) :
    l.manyJoin.through =
        some ⟨joinTable, referenceColumn v.owner.table, referenceColumn other⟩ ↔
      CutsBetween joinTable v.owner.table other := by
  rw [← orientedJunctionColumns_eq_iff apart, RelationField.manyJoin_through kind loads.matched]
  simp [Prod.ext_iff]

theorem Loads.junctionMatched {r : Registry} (apart : Inflection.singularize a ≠ Inflection.singularize b)
    (loads : r.Loads [] v l) : JunctionMatched a b v.toStep l where
  named := loads.named
  first := by
    rintro kind rfl
    exact loads.through_iff kind apart
  second := by
    rintro kind rfl
    rw [loads.through_iff kind apart.symm]
    exact ⟨CutsBetween.symm, CutsBetween.symm⟩

/-- In every query of a plan both sides of a many-to-many relation are linked by their own columns of the
table between them exactly if its name is cut between the two, as it is after a flat name. This is so by
any rules for regular words. -/
theorem compilePaths_junctions {r : Registry}
    (apart : Inflection.singularize a ≠ Inflection.singularize b)
    (compiled : r.compilePaths e paths = .ok plan) :
    r.InEveryQuery (r.JunctionsMatched a b) e (requested paths) plan ∧
      (isFlat a = true → CutsBetween (a ++ "__" ++ b) a b) := by
  refine ⟨compilePaths_everywhere ?_ compiled, fun flat => cutsBetween_of_flat flat b⟩
  intro e ps nodes plan query
  refine ⟨_, query.hops, ?_⟩
  rw [List.forall₂_map_left_iff]
  exact query.loaders.imp fun v l loads => loads.junctionMatched apart

end Registry

end Inflector

namespace Sample

/-- Posts in a table of any name, with tags over the join table that is named after the two. -/
def taggedPost (table : String) : Entity :=
  { id := "Post", table
    fields := [.plain ⟨"id", .integer, false, none, none, none⟩,
      .plain ⟨"title", .string, false, none, none, none⟩,
      .relation ⟨"tags", "Tag", .manyToMany (table ++ "__tags"), false, none⟩] }

def postTag (table : String) : Entity :=
  { id := "Tag", table := "tags"
    fields := [.plain ⟨"id", .integer, false, none, none, none⟩,
      .plain ⟨"name", .string, false, none, none, none⟩,
      .relation ⟨"posts", "Post", .manyToMany (table ++ "__tags"), false, none⟩] }

end Sample

theorem Registry.compilePaths_junctions_sample : ∃ r plan,
    ofEntities [Sample.taggedPost "posts", Sample.postTag "posts"] = .ok r ∧
      r.compilePaths (Sample.taggedPost "posts") ["tags.name", "tags.posts.title"] = .ok plan ∧
      Inflection.singularize "posts" ≠ Inflection.singularize "tags" ∧ isFlat "posts" = true ∧
      r.InEveryQuery (r.JunctionsMatched "posts" "tags") (Sample.taggedPost "posts")
        (requested ["tags.name", "tags.posts.title"]) plan ∧
      (isFlat "posts" = true → CutsBetween ("posts" ++ "__" ++ "tags") "posts" "tags") := by
  obtain ⟨r, plan, registered, compiled, _⟩ := exists_compiled
    (show Option.any (fun _ => true) (ofEntities [Sample.taggedPost "posts", Sample.postTag "posts"] >>=
      (·.compilePaths (Sample.taggedPost "posts") ["tags.name", "tags.posts.title"])).toOption = true
    by decide +kernel)
  have apart : Inflection.singularize "posts" ≠ Inflection.singularize "tags" := by decide +kernel
  have flat : isFlat "posts" = true := by decide +kernel
  exact ⟨r, plan, registered, compiled, apart, flat, compilePaths_junctions apart compiled⟩

namespace Sample

/-- From either side the posts of a blog and their tags are linked by the same two columns in the same
order, and neither refers to one of the two tables. -/
theorem tags_misdirected : ∃ r plan back,
    Registry.ofEntities [taggedPost "blog__posts", postTag "blog__posts"] = .ok r ∧
      r.compilePaths (postTag "blog__posts") ["posts.title"] = .ok plan ∧
      r.compilePaths (taggedPost "blog__posts") ["tags.name"] = .ok back ∧
      plan.loaders.map (·.manyJoin.through) =
        [some ⟨"blog__posts" ++ "__" ++ "tags", "blog_id", "posts__tag_id"⟩] ∧
      back.loaders.map (·.manyJoin.through) =
        [some ⟨"blog__posts" ++ "__" ++ "tags", "blog_id", "posts__tag_id"⟩] ∧
      Inflection.singularize "blog__posts" = "blog__post" ∧ Inflection.singularize "tags" = "tag" := by
  obtain ⟨⟨plan, back⟩, built, linked⟩ := exists_ok (show
    Option.any (fun plans : QueryPlan × QueryPlan =>
        plans.1.loaders.map (·.manyJoin.through) =
          [some ⟨"blog__posts" ++ "__" ++ "tags", "blog_id", "posts__tag_id"⟩] &&
        plans.2.loaders.map (·.manyJoin.through) =
          [some ⟨"blog__posts" ++ "__" ++ "tags", "blog_id", "posts__tag_id"⟩])
      (Registry.ofEntities [taggedPost "blog__posts", postTag "blog__posts"] >>= fun r =>
        r.compilePaths (postTag "blog__posts") ["posts.title"] >>= fun plan =>
        r.compilePaths (taggedPost "blog__posts") ["tags.name"] >>= fun back =>
        .ok (plan, back)).toOption = true
    by decide +kernel)
  obtain ⟨r, registered, built⟩ := bind_eq_ok.mp built
  obtain ⟨_, compiled, built⟩ := bind_eq_ok.mp built
  obtain ⟨_, compiledBack, ⟨⟩⟩ := bind_eq_ok.mp built
  simp only [Bool.and_eq_true, decide_eq_true_eq] at linked
  exact ⟨r, plan, back, registered, compiled, compiledBack, linked.1, linked.2, by decide +kernel,
    by decide +kernel⟩

end Sample
end FetchPlan
