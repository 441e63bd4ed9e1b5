import FetchPlan.Proofs.Flattening
import FetchPlan.Proofs.Plan.Relations

/-! Loaders as queries of their own. A loader fetches what its target alone compiles for the
remainders of the paths through its relation: nothing around the relation plays a part. -/
namespace FetchPlan

/-- What a dotted path says behind `q`, for a path that starts with `q` and goes on. -/
def remainder? (q : FieldPath) (path : String) : Option String :=
  (path.toList.dropPrefix? (q.dotted ++ ".").toList).map String.ofList

def remainders (q : FieldPath) (paths : List String) : List String := paths.filterMap (remainder? q)

theorem remainder?_eq_some_iff {q : FieldPath} :
    remainder? q path = some rest ↔ path = q.dotted ++ "." ++ rest := by
  simp only [remainder?, Option.map_eq_some_iff, List.dropPrefix?_eq_some_iff, beq_iff_eq]
  constructor
  · rintro ⟨chars, ⟨_, letters, rfl⟩, rfl⟩
    apply String.toList_injective
    simp [letters]
  · rintro rfl
    exact ⟨rest.toList, ⟨_, String.toList_append, rfl⟩, String.ofList_toList⟩

/-- Taking the remainder of a path is dropping its first segments. -/
theorem split_remainder? {q : FieldPath} (nonempty : q ≠ []) (free : ∀ name ∈ q, '.' ∉ name.toList)
    (path : String) : (remainder? q path).map (Text.split '.') =
      if q <+: Text.split '.' path ∧ q ≠ Text.split '.' path then
        some ((Text.split '.' path).drop q.length)
      else none := by
  cases left : remainder? q path with
  | some rest =>
    have segments : Text.split '.' path = q ++ Text.split '.' rest := by
      rw [remainder?_eq_some_iff.mp left, FieldPath.split_below nonempty free]
    have proper := Text.split_ne_nil '.' rest
    rw [segments, if_pos ⟨List.prefix_append _ _, by simpa using proper⟩, List.drop_left]
    rfl
  | none =>
    rw [if_neg]
    · rfl
    · rintro ⟨⟨rest, segments⟩, proper⟩
      have nonempty' : rest ≠ [] := by
        rintro rfl
        exact proper (by simpa using segments)
      have text : path = q.dotted ++ "." ++ FieldPath.dotted rest := by
        rw [← FieldPath.dotted_append nonempty nonempty', segments, FieldPath.dotted_split]
      rw [remainder?_eq_some_iff.mpr text] at left
      contradiction

theorem requested_remainders {q : FieldPath} (nonempty : q ≠ [])
    (free : ∀ name ∈ q, '.' ∉ name.toList) (paths : List String) :
    requested (remainders q paths) = below q (requested paths) := by
  rw [requested, remainders, List.map_filterMap, requested, below, List.filterMap_map]
  exact List.filterMap_congr fun path _ => split_remainder? nonempty free path

namespace Registry

/-- The loader of a step: its relation says how rows are matched, and it holds what the target
compiles for the remainders of the paths. -/
structure LoadsAlone (r : Registry) (paths : List String) (s : Step) (l : Loader) : Prop where
  named : l.name = tableAlias s.full
  stored : l.table = s.target.table
  matched : s.relation.manyJoin s.owner s.target s.path = .ok l.manyJoin
  body : r.compilePaths s.target (remainders s.full paths) = .ok l.plan

/-- A to-many relation that a dotted path names, behind to-one relations only. -/
structure Offers (r : Registry) (e : Entity) (s : Step) : Prop where
  reached : r.along? e s.path = some s.owner
  declared : s.owner.relation? s.relation.name = some s.relation
  registered : r.entities.get? s.relation.target = some s.target
  toMany : s.relation.kind.isToMany = true
  dotless : ∀ name ∈ s.full, '.' ∉ name.toList

/-- The loaders of a plan for `paths` on `e` are those of the to-many relations that the paths
cross, each compiled alone, and the same holds inside every loader. A relation without a loader has
no remainders, of which its target compiles nothing. -/
inductive Independent (r : Registry) : Entity → List String → QueryPlan → Prop where
  | intro (hops : List Step) (listed : r.Hops e (requested paths) plan hops)
      (loaders : List.Forall₂ (r.LoadsAlone paths) hops plan.loaders)
      (idle : ∀ s, r.Offers e s → s ∉ hops →
        r.compilePaths s.target (remainders s.full paths) = .ok {})
      (inside : ∀ s l, (s, l) ∈ hops.zip plan.loaders →
        Independent r s.target (remainders s.full paths) l.plan) :
      Independent r e paths plan

theorem Crosses.requested_remainders {r : Registry} (crosses : r.Crosses e (requested paths) s) :
    requested (remainders s.full paths) = below s.full (requested paths) := by
  obtain ⟨rest, _, asked⟩ := crosses.crossed
  exact FetchPlan.requested_remainders s.full_ne_nil
    (fun name member => not_mem_of_requested asked (List.mem_append_left rest member)) paths

theorem Shapes.compilePaths {r : Registry} (shapes : r.Shapes e (requested paths) nodes)
    (solid : ∀ p ∈ requested paths, p.any Text.isBlankText = false)
    (compiled : r.compileNodes e [] nodes = .ok plan) : r.compilePaths e paths = .ok plan := by
  obtain ⟨_, resolved⟩ := shapes
  have formed := Selection.wellFormed_ofPaths (requested paths)
  rw [Registry.compilePaths, resolvePaths, Selection.parse_eq_ok_iff.mpr ⟨solid, rfl⟩, ok_bind,
    resolveEntries_elsewhere formed resolved [], ok_bind, compiled]

theorem solid_below (solid : ∀ p ∈ ps, p.any Text.isBlankText = false) (left : p ∈ below q ps) :
    p.any Text.isBlankText = false := by
  have whole := solid _ (mem_below.mp left).2
  rw [List.any_append, Bool.or_eq_false_iff] at whole
  exact whole.2

theorem Query.loadsAlone {r : Registry} (query : r.Query e (requested paths) nodes plan)
    (solid : ∀ p ∈ requested paths, p.any Text.isBlankText = false)
    (listed : v ∈ r.visits e nodes) (loads : r.Loads [] v l) : r.LoadsAlone paths v.toStep l where
  named := loads.named
  stored := loads.stored
  matched := loads.matched
  body := by
    obtain ⟨crosses, inside⟩ := query.shapes.of_mem_visits listed
    have left := crosses.requested_remainders
    rw [← left] at inside
    exact inside.compilePaths (fun p asked => solid_below solid (left ▸ asked)) loads.body

theorem Hops.idle {r : Registry} (listed : r.Hops e (requested paths) plan hops) (offers : r.Offers e s)
    (absent : s ∉ hops) : r.compilePaths s.target (remainders s.full paths) = .ok {} := by
  have nothing : below s.full (requested paths) = [] := by
    refine List.eq_nil_iff_forall_not_mem.mpr fun p left => absent ((listed.loaded s).mpr ?_)
    obtain ⟨proper, asked⟩ := mem_below.mp left
    exact ⟨⟨offers.reached, offers.declared, offers.registered, p, proper, asked⟩, offers.toMany⟩
  have empty : remainders s.full paths = [] := by
    rw [← FetchPlan.requested_remainders s.full_ne_nil offers.dotless] at nothing
    exact List.map_eq_nil_iff.mp nothing
  rw [empty]
  rfl

theorem Query.independent {r : Registry} (query : r.Query e ps nodes plan) :
    ∀ paths, requested paths = ps → (∀ p ∈ ps, p.any Text.isBlankText = false) →
      r.Independent e paths plan := by
  -- A query only knows segments, so the induction is over all texts that have them.
  refine query.induction (motive := fun e ps plan => ∀ paths, requested paths = ps →
    (∀ p ∈ ps, p.any Text.isBlankText = false) → r.Independent e paths plan) ?_
  rintro e _ nodes plan query inside paths rfl solid
  refine .intro _ query.hops ?_ (fun s offers absent => query.hops.idle offers absent) fun s l paired => ?_
  · rw [List.forall₂_map_left_iff, List.forall₂_iff_zip]
    refine ⟨query.loaders.length_eq, fun paired => ?_⟩
    exact query.loadsAlone solid (List.mem_of_mem_filter (List.of_mem_zip paired).1)
      (List.forall₂_zip query.loaders paired)
  · obtain ⟨v, together, rfl⟩ := exists_visit_of_paired paired
    have kept := (List.of_mem_zip together).1
    have crosses := (query.shapes.of_mem_visits (List.mem_of_mem_filter kept)).1
    exact inside v l kept (List.forall₂_zip query.loaders together) _ crosses.requested_remainders
      fun p left => solid_below solid left

/-- Every loader of a plan, at any depth, holds the plan its target alone compiles for what is left
of the paths. -/
theorem compilePaths_independent {r : Registry} (compiled : r.compilePaths e paths = .ok plan) :
    r.Independent e paths plan := by
  obtain ⟨nodes, query⟩ := compilePaths_query compiled
  obtain ⟨_, resolved, _⟩ := bind_eq_ok.mp compiled
  exact query.independent paths rfl (resolvePaths_ok resolved).1

end Registry

namespace Sample

/-- Paths with a loader inside a loader that is lifted out of a join. -/
def nestedPaths : List String :=
  ["title", "author.posts.title", "comments.text", "author.posts.comments.author.name", "author.name"]

end Sample

theorem Registry.compilePaths_independent_sample : ∃ r plan,
    ofEntities [Sample.user, Sample.post, Sample.comment] = .ok r ∧
      r.compilePaths Sample.post Sample.nestedPaths = .ok plan ∧
      remainders ["author", "posts"] Sample.nestedPaths = ["title", "comments.author.name"] ∧
      plan.loaders.map (fun l => l.loaders.map Loader.name) = [["comments"], []] ∧
      r.Independent Sample.post Sample.nestedPaths plan := by
  obtain ⟨r, plan, registered, compiled, nested⟩ := exists_compiled
    (show Option.any (fun plan : QueryPlan => plan.loaders.map (fun l => l.loaders.map Loader.name) =
        [["comments"], []]) (ofEntities [Sample.user, Sample.post, Sample.comment] >>=
        (·.compilePaths Sample.post Sample.nestedPaths)).toOption = true by decide +kernel)
  exact ⟨r, plan, registered, compiled, by decide +kernel, of_decide_eq_true nested,
    compilePaths_independent compiled⟩

end FetchPlan
