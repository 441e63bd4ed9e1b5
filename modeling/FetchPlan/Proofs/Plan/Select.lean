import FetchPlan.Proofs.Plan.Relations

/-! What a query selects. Every entry of a select list has one of three sources: a column that
was asked for, the foreign key of a collapsed relation, or the id that a loader needs. -/
namespace FetchPlan

/-- Texts of one length before and behind a separator tell what stands before it. -/
theorem selectEntry_inj : selectEntry table q c = selectEntry table q d ↔ c = d := by
  constructor
  · intro same
    have chars := congrArg String.toList same
    cases q with
    | nil =>
      simp only [selectEntry, String.toList_append, List.append_assoc, List.append_cancel_left_eq] at chars
      exact String.toList_injective chars
    | cons first rest =>
      simp only [selectEntry, columnAlias, String.toList_append, List.append_assoc,
        List.append_cancel_left_eq] at chars
      have lengths := congrArg List.length chars
      simp only [List.length_append] at lengths
      exact String.toList_injective (List.append_inj chars (by omega)).1
  · rintro rfl
    rfl

/-- A select entry's origin. -/
inductive Source where
  /-- A column of `owner` that was asked for at the end of `path`. -/
  | column (path : FieldPath) (owner : Entity) (name : String)
  /-- The foreign key that stands for the id behind a relation. -/
  | foreignKey (step : Step)
  /-- The id of `owner` that loaders are matched with. -/
  | addedId (path : FieldPath) (owner : Entity)

namespace Source

def owner : Source → Entity
  | column _ owner _ | addedId _ owner => owner
  | foreignKey s => s.owner

/-- The path of the level whose table holds the column. -/
def level : Source → FieldPath
  | column path .. | addedId path _ => path
  | foreignKey s => s.path

def columnName : Source → String
  | column _ _ name => name
  | foreignKey s => FetchPlan.foreignKey s.relation.name
  | addedId .. => "id"

def entry (x : Source) : String := selectEntry x.owner.table x.level x.columnName

/-- The path of the level or of the collapsed relation that a source belongs to. -/
def place : Source → FieldPath
  | column path .. | addedId path _ => path
  | foreignKey s => s.full

end Source

def levelSources (t : Entity) (q : FieldPath) (nodes : List FieldNode) : List Source :=
  (FieldNode.columnNames nodes).map (.column q t) ++
    if nodes.any FieldNode.isArray && "id" ∉ FieldNode.columnNames nodes then [.addedId q t] else []

def Visit.sources (v : Visit) : List Source :=
  if v.isCollapsed then [.foreignKey v.toStep]
  else if v.isJoined then levelSources v.target v.full v.children
  else []

theorem ownColumns_eq (table : String) (q : FieldPath) (nodes : List FieldNode) :
    ownColumns table q nodes = (FieldNode.columnNames nodes).map (selectEntry table q) := by
  rw [ownColumns, FieldNode.columnNames, List.map_filterMap]
  congr 1
  funext node
  cases node <;> rfl

theorem ownPlan_select (t : Entity) (q : FieldPath) (nodes : List FieldNode) :
    (ownPlan t.table q nodes).select = (levelSources t q nodes).map Source.entry := by
  have missing : selectEntry t.table q "id" ∈ (FieldNode.columnNames nodes).map (selectEntry t.table q) ↔
      "id" ∈ FieldNode.columnNames nodes := by
    simp [selectEntry_inj]
  simp only [ownPlan, ownColumns_eq, levelSources, missing]
  split <;> simp [Source.entry, Source.owner, Source.level, Source.columnName, Function.comp_def]

theorem Visit.select_eq (v : Visit) : v.select [] = v.sources.map Source.entry := by
  rw [Visit.select, Visit.sources]
  split
  · rfl
  · split
    · exact ownPlan_select v.target v.full v.children
    · rfl

/-- Requested paths cross a to-many relation of `t` directly behind `q`. -/
def Entity.LoadsBehind (t : Entity) (q : FieldPath) (ps : List FieldPath) : Prop :=
  ∃ relation rest, t.relation? relation.name = some relation ∧ relation.kind.isToMany = true ∧
    rest ≠ [] ∧ q ++ relation.name :: rest ∈ ps

namespace Registry

theorem Shapes.any_isArray {r : Registry} (shapes : r.Shapes t qs nodes) :
    nodes.any FieldNode.isArray = true ↔ t.LoadsBehind [] qs := by
  rw [List.any_eq_true]
  constructor
  · rintro ⟨node, member, isArray⟩
    rcases shapes.fits.of_mem member with ⟨_, _, _, _, _, rfl⟩ | ⟨_, _, rfl⟩ |
      ⟨relation, t', children, declared, _, nonempty, ⟨_, rfl⟩ | ⟨toMany, rfl⟩⟩
    · contradiction
    · contradiction
    · contradiction
    · obtain ⟨_, _, inside⟩ := shapes.under (.inr member)
      obtain ⟨first, among⟩ := List.exists_mem_of_ne_nil _ nonempty
      obtain ⟨rest, left⟩ := inside.exists_rest among
      exact ⟨relation, _, declared, toMany, mem_below.mp left⟩
  · rintro ⟨relation, rest, declared, toMany, proper, asked⟩
    obtain ⟨node, member, named⟩ := shapes.exists_node asked
    obtain ⟨t', children, _, ⟨toOne, _⟩ | ⟨_, rfl⟩⟩ := shapes.fits.relation_of_mem member (named ▸ declared)
    · simp [RelationKind.isToMany, toOne] at toMany
    · exact ⟨_, member, rfl⟩

/-- The entries a query owes its paths: the columns asked for on every joined level, a foreign
key for each collapsed relation, and the id wherever a loader needs it unasked. -/
inductive Due (r : Registry) (e : Entity) (ps : List FieldPath) : Source → Prop where
  | column : r.along? e q = some t → q ++ [c] ∈ ps → (t.column? c).isSome →
      (∀ s, s.full = q → ¬ r.Collapsed e ps s) → Due r e ps (.column q t c)
  | foreignKey : r.Collapsed e ps s → Due r e ps (.foreignKey s)
  | addedId : r.along? e q = some t → t.LoadsBehind q ps →
      ¬ (q ++ ["id"] ∈ ps ∧ (t.column? "id").isSome) → Due r e ps (.addedId q t)

theorem mem_levelSources {r : Registry} (shapes : r.Shapes t qs nodes)
    (left : ∀ p, p ≠ [] → (p ∈ qs ↔ q ++ p ∈ ps)) :
    x ∈ levelSources t q nodes ↔
      (∃ c, x = .column q t c ∧ q ++ [c] ∈ ps ∧ (t.column? c).isSome) ∨
      (x = .addedId q t ∧ t.LoadsBehind q ps ∧ ¬ (q ++ ["id"] ∈ ps ∧ (t.column? "id").isSome)) := by
  have column (c : String) : c ∈ FieldNode.columnNames nodes ↔ q ++ [c] ∈ ps ∧ (t.column? c).isSome := by
    rw [shapes.mem_columnNames, left _ (by simp)]
  have loads : nodes.any FieldNode.isArray = true ↔ t.LoadsBehind q ps := by
    simp [shapes.any_isArray, Entity.LoadsBehind, left]
  rw [levelSources, List.mem_append]
  apply or_congr
  · simp only [List.mem_map, column]
    constructor
    · rintro ⟨c, asked, rfl⟩
      exact ⟨c, rfl, asked⟩
    · rintro ⟨c, rfl, asked⟩
      exact ⟨c, asked, rfl⟩
  · rw [List.mem_ite_nil_right, List.mem_singleton, Bool.and_eq_true, loads, decide_eq_true_eq, column]
    exact and_comm

def sources (r : Registry) (e : Entity) (nodes : List FieldNode) : List Source :=
  levelSources e [] nodes ++ (r.visits e nodes).flatMap Visit.sources

/-- Two steps of one query that end at the same relation of the same path are one. -/
theorem Crosses.eq_of_full {r : Registry} (first : r.Crosses e ps s) (second : r.Crosses e ps s')
    (same : s.full = s'.full) : s = s' := by
  obtain ⟨path, owner, relation, t⟩ := s
  obtain ⟨path', owner', relation', t'⟩ := s'
  obtain ⟨rfl, names⟩ := List.append_inj' same rfl
  obtain rfl : owner = owner' := Option.some.inj (first.reached.symm.trans second.reached)
  have declared := first.declared
  rw [show relation.name = relation'.name from (List.cons.inj names).1] at declared
  obtain rfl : relation = relation' := Option.some.inj (declared.symm.trans second.declared)
  obtain rfl : t = t' := Option.some.inj (first.registered.symm.trans second.registered)
  rfl

theorem along?_concat (r : Registry) (e : Entity) (q : FieldPath) (name : String) :
    r.along? e (q ++ [name]) = (r.along? e q).bind (r.toOne? · name) := by
  simp [along?, List.foldlM_append]

theorem Crosses.along {r : Registry} (crosses : r.Crosses e ps s)
    (toOne : s.relation.kind.isToOne = true) : r.along? e s.full = some s.target := by
  rw [Step.full, along?_concat, crosses.reached]
  exact toOne?_eq_some.mpr ⟨_, crosses.declared, toOne, crosses.registered⟩

theorem exists_step_of_along {r : Registry} (reached : r.along? e q = some t) (nonempty : q ≠ [])
    (proper : rest ≠ []) (asked : q ++ rest ∈ ps) :
    ∃ s, r.Crosses e ps s ∧ s.relation.kind.isToOne = true ∧ s.full = q ∧ s.target = t := by
  obtain ⟨path, name, rfl⟩ := (List.eq_nil_or_concat' q).resolve_left nonempty
  rw [along?_concat] at reached
  obtain ⟨owner, before, leads⟩ := Option.bind_eq_some_iff.mp reached
  obtain ⟨relation, declared, toOne, registered⟩ := toOne?_eq_some.mp leads
  obtain rfl := Entity.name_of_relation? declared
  exact ⟨⟨path, owner, relation, t⟩, ⟨before, declared, registered, rest, proper, asked⟩, toOne, rfl, rfl⟩

/-- The level of a query that stands at `q`: that of its own entity, or the table it joins there. -/
def Level (r : Registry) (e : Entity) (ps : List FieldPath) (q : FieldPath) (t : Entity) : Prop :=
  q = [] ∧ t = e ∨ ∃ s, r.Joined e ps s ∧ s.full = q ∧ s.target = t

theorem level_of_along {r : Registry} (reached : r.along? e q = some t) (proper : rest ≠ [])
    (asked : q ++ rest ∈ ps) (apart : ∀ s, s.full = q → ¬ r.Collapsed e ps s) : r.Level e ps q t := by
  by_cases root : q = []
  · subst root
    cases reached
    exact .inl ⟨rfl, rfl⟩
  · obtain ⟨s, crosses, toOne, ends, target⟩ := exists_step_of_along reached root proper asked
    exact .inr ⟨s, ⟨crosses, toOne, apart s ends⟩, ends, target⟩

/-- A relation is not collapsed if paths go on behind a relation of its target. -/
theorem not_collapsed_of_crossed {r : Registry} (proper : rest ≠ [])
    (asked : q ++ name :: rest ∈ ps) (s : Step) (ends : s.full = q) : ¬ r.Collapsed e ps s := by
  intro collapsed
  have only := collapsed.idOnly _ (by simp) (ends ▸ asked)
  exact proper (List.cons.inj only).2

theorem level_of_crossed {r : Registry} (reached : r.along? e q = some t) (proper : rest ≠ [])
    (asked : q ++ name :: rest ∈ ps) : r.Level e ps q t :=
  level_of_along reached (by simp) asked (not_collapsed_of_crossed proper asked)

theorem Query.select_eq {r : Registry} (query : r.Query e ps nodes plan) :
    plan.select = (r.sources e nodes).map Source.entry := by
  rw [query.select, ownPlan_select, sources, List.map_append, List.map_flatMap]
  congr 2
  funext v
  exact v.select_eq

theorem mem_visitSources {r : Registry} (shapes : r.Shapes e ps nodes) (member : v ∈ r.visits e nodes) :
    x ∈ v.sources ↔ (x = .foreignKey v.toStep ∧ r.Collapsed e ps v.toStep) ∨
      (r.Joined e ps v.toStep ∧ x ∈ levelSources v.target v.full v.children) := by
  rw [← shapes.collapsed_iff member, ← shapes.joined_iff member, Visit.sources]
  by_cases collapsed : v.isCollapsed = true
  · have apart : ¬ v.isJoined = true := fun joined =>
      ((shapes.joined_iff member).mp joined).apart ((shapes.collapsed_iff member).mp collapsed)
    simp [collapsed, apart]
  · by_cases joined : v.isJoined = true <;> simp [collapsed, joined]

theorem Query.due_of_mem_sources {r : Registry} (query : r.Query e ps nodes plan)
    (member : x ∈ r.sources e nodes) : r.Due e ps x := by
  have shapes := query.shapes
  rw [sources, List.mem_append, List.mem_flatMap] at member
  rcases member with own | ⟨v, listed, source⟩
  · rcases (mem_levelSources shapes fun _ _ => .rfl).mp own with ⟨c, rfl, asked, column⟩ | ⟨rfl, loads, missing⟩
    · exact .column rfl asked column fun s ends => absurd ends s.full_ne_nil
    · exact .addedId rfl loads missing
  · obtain ⟨crosses, inside⟩ := shapes.of_mem_visits listed
    rcases (mem_visitSources shapes listed).mp source with ⟨rfl, collapsed⟩ | ⟨⟨_, toOne, apart⟩, source⟩
    · exact .foreignKey collapsed
    · have reached := crosses.along toOne
      rcases (mem_levelSources inside fun p proper => mem_below.trans (and_iff_right proper)).mp source with
        ⟨c, rfl, asked, column⟩ | ⟨rfl, loads, missing⟩
      · refine .column reached asked column fun s ends collapsed => apart ?_
        exact collapsed.crosses.eq_of_full crosses ends ▸ collapsed
      · exact .addedId reached loads missing

/-- Every level has its sources among those of the query. -/
theorem Shapes.mem_sources_of_level {r : Registry} (shapes : r.Shapes e ps nodes)
    (level : r.Level e ps q t)
    (owed : (∃ c, x = .column q t c ∧ q ++ [c] ∈ ps ∧ (t.column? c).isSome) ∨
      (x = .addedId q t ∧ t.LoadsBehind q ps ∧ ¬ (q ++ ["id"] ∈ ps ∧ (t.column? "id").isSome))) :
    x ∈ r.sources e nodes := by
  rw [sources, List.mem_append, List.mem_flatMap]
  rcases level with ⟨rfl, rfl⟩ | ⟨s, joined, rfl, rfl⟩
  · exact .inl ((mem_levelSources shapes fun _ _ => .rfl).mpr owed)
  · obtain ⟨v, listed, rfl⟩ := shapes.exists_visit joined.crosses
    obtain ⟨_, inside⟩ := shapes.of_mem_visits listed
    refine .inr ⟨v, listed, (mem_visitSources shapes listed).mpr (.inr ⟨joined, ?_⟩)⟩
    exact (mem_levelSources inside fun p proper => mem_below.trans (and_iff_right proper)).mpr owed

theorem Query.mem_sources_of_due {r : Registry} (query : r.Query e ps nodes plan) (due : r.Due e ps x) :
    x ∈ r.sources e nodes := by
  have shapes := query.shapes
  cases due with
  | @column q t c reached asked column apart =>
    have level := level_of_along reached (by simp) asked apart
    exact shapes.mem_sources_of_level level (.inl ⟨c, rfl, asked, column⟩)
  | foreignKey collapsed =>
    obtain ⟨v, listed, rfl⟩ := shapes.exists_visit collapsed.crosses
    exact List.mem_append_right _ (List.mem_flatMap.mpr
      ⟨v, listed, (mem_visitSources shapes listed).mpr (.inl ⟨rfl, collapsed⟩)⟩)
  | @addedId q t reached loads missing =>
    have ⟨_, _, _, _, proper, asked⟩ := loads
    have level := level_of_crossed reached proper asked
    exact shapes.mem_sources_of_level level (.inr ⟨rfl, loads, missing⟩)

theorem Query.mem_sources {r : Registry} (query : r.Query e ps nodes plan) :
    x ∈ r.sources e nodes ↔ r.Due e ps x :=
  ⟨query.due_of_mem_sources, query.mem_sources_of_due⟩

theorem place_of_mem_level (member : x ∈ levelSources t q nodes) : x.place = q := by
  rw [levelSources, List.mem_append, List.mem_ite_nil_right] at member
  rcases member with column | ⟨_, added⟩
  · obtain ⟨c, _, rfl⟩ := List.mem_map.mp column
    rfl
  · rw [List.mem_singleton.mp added]
    rfl

theorem place_of_mem_visit (member : x ∈ Visit.sources v) : x.place = v.full := by
  rw [Visit.sources] at member
  split at member
  · rw [List.mem_singleton.mp member]
    rfl
  · split at member
    · exact place_of_mem_level member
    · contradiction

theorem Shapes.nodup_levelSources {r : Registry} (shapes : r.Shapes e ps nodes) (t : Entity)
    (q : FieldPath) : (levelSources t q nodes).Nodup := by
  have columns : (FieldNode.columnNames nodes).Nodup :=
    shapes.nodup_names.sublist (FieldNode.columnNames_sublist nodes)
  refine List.nodup_append.mpr ⟨columns.map fun c d same => by cases same; rfl, ?_, ?_⟩
  · split <;> simp
  · intro x column y added same
    obtain ⟨c, _, rfl⟩ := List.mem_map.mp column
    have isAdded := List.mem_singleton.mp (List.mem_ite_nil_right.mp added).2
    cases same.trans isAdded

/-- No source is used twice. Sources of different levels differ in their place. -/
theorem Query.nodup_sources {r : Registry} (query : r.Query e ps nodes plan) :
    (r.sources e nodes).Nodup := by
  have shapes := query.shapes
  refine List.nodup_append.mpr ⟨shapes.nodup_levelSources e [], ?_, ?_⟩
  · refine List.nodup_flatMap.mpr ⟨fun v listed => ?_, shapes.visits_distinct.imp ?_⟩
    · rw [Visit.sources]
      split
      · simp
      · split
        · exact (shapes.of_mem_visits listed).2.nodup_levelSources v.target v.full
        · exact .nil
    · intro v w apart x first second
      exact apart ((place_of_mem_visit first).symm.trans (place_of_mem_visit second))
  · intro x own y other same
    obtain ⟨v, _, source⟩ := List.mem_flatMap.mp other
    apply v.full_ne_nil
    rw [← place_of_mem_visit source, ← same, place_of_mem_level own]

end Registry

/-- The virtual fields that are asked for on the entity itself, in the order they are asked for. -/
def Entity.virtualsAmong (e : Entity) (ps : List FieldPath) : List String :=
  distinct (ps.filterMap fun
    | [name] => if e.field? name = some (.virtual name) then some name else none
    | _ => none)

namespace Registry

theorem Fits.ownVirtuals_eq {r : Registry} (fits : r.Fits e nodes) : ownVirtuals [] nodes =
    (nodes.map FieldNode.name).filter fun name => e.field? name = some (.virtual name) := by
  induction fits with
  | nil => rfl
  | @column _ _ _ name e _ column _ _ ih =>
    have apart : e.field? name ≠ some (.virtual name) := fun virtual => by
      simp [Entity.column?, virtual] at column
    simpa [ownVirtuals, FieldNode.name, apart] using ih
  | virtual virtual _ _ ih => simpa [ownVirtuals, FieldNode.name, virtual] using ih
  | object declared _ _ _ _ _ _ _ ih =>
    simpa [ownVirtuals, FieldNode.name, Entity.relation?_eq_some.mp declared] using ih
  | array declared _ _ _ _ _ _ _ ih =>
    simpa [ownVirtuals, FieldNode.name, Entity.relation?_eq_some.mp declared] using ih

theorem Query.virtuals_eq {r : Registry} (query : r.Query e ps nodes plan) :
    plan.virtuals = e.virtualsAmong ps := by
  rw [query.virtuals, query.shapes.fits.ownVirtuals_eq, query.shapes.names, filter_distinct,
    Entity.virtualsAmong, List.filter_filterMap]
  congr 1
  apply List.filterMap_congr
  intro p asked
  match p with
  | [] => rfl
  | [name] => simp [Option.filter]
  | name :: second :: rest =>
    obtain ⟨relation, _, declared, _⟩ := query.shapes.relation_of_path asked (by simp)
    simp [Entity.relation?_eq_some.mp declared, Option.filter]

/-- A requested path ends in a column or a virtual field reached through to-one relations, or it
goes on behind a to-many relation. -/
theorem Shapes.accounted {r : Registry} (shapes : r.Shapes e ps nodes) (asked : p ∈ ps)
    (nonempty : p ≠ []) :
    (∃ q c t, p = q ++ [c] ∧ r.along? e q = some t ∧
      ((t.column? c).isSome ∨ t.field? c = some (.virtual c))) ∨
    ∃ s rest, p = s.full ++ rest ∧ rest ≠ [] ∧ r.Loaded e ps s := by
  induction p generalizing e ps nodes with
  | nil => contradiction
  | cons name rest ih =>
    by_cases last : rest = []
    · subst last
      have leaf := shapes.mem_leaves.mpr ⟨asked, by simp⟩
      obtain ⟨node, member, ends⟩ := FieldNode.mem_leaves.mp leaf
      rcases shapes.fits.of_mem member with ⟨c, _, _, _, column, rfl⟩ | ⟨v, virtual, rfl⟩ |
        ⟨relation, t, children, _, _, _, stands⟩
      · obtain rfl : name = c := by simpa [FieldNode.leaves] using ends
        exact .inl ⟨[], name, e, rfl, rfl, .inl (by rw [column]; rfl)⟩
      · obtain rfl : name = v := by simpa [FieldNode.leaves] using ends
        exact .inl ⟨[], name, e, rfl, rfl, .inr virtual⟩
      · -- No path ends at a relation, since some path goes on behind it.
        have kind := stands.imp And.right And.right
        obtain ⟨_, _, inside⟩ := shapes.under (kind.imp (· ▸ member) (· ▸ member))
        have empty : [] ∈ FieldNode.leaves children ∧ relation.name = name := by
          rcases kind with rfl | rfl <;> simpa [FieldNode.leaves] using ends
        exact absurd rfl (inside.mem_leaves.mp empty.1).2
    · obtain ⟨relation, t, declared, registered⟩ := shapes.relation_of_path asked last
      obtain rfl := Entity.name_of_relation? declared
      by_cases toOne : relation.kind.isToOne = true
      · have leads := toOne?_eq_some.mpr ⟨relation, declared, toOne, registered⟩
        obtain ⟨_, _, _, _, _, _, inside⟩ := shapes.enter leads asked
        rcases ih inside (mem_below.mpr ⟨last, asked⟩) last with
          ⟨q, c, t', rfl, reached, ends⟩ | ⟨s, after, rfl, proper, crosses, toMany⟩
        · exact .inl ⟨relation.name :: q, c, t', rfl, by simpa [leads] using reached, ends⟩
        · exact .inr ⟨s.under relation.name, after, rfl, proper, crosses.under leads, toMany⟩
      · have toMany : relation.kind.isToMany = true := by simpa [RelationKind.isToMany] using toOne
        exact .inr ⟨⟨[], e, relation, t⟩, rest, rfl, last,
          ⟨⟨rfl, declared, registered, rest, last, asked⟩, toMany⟩⟩

/-- What a query does with the paths it is asked for: those that end behind to-one relations are
columns or virtual fields, and it selects exactly what these call for. -/
structure SelectExact (r : Registry) (e : Entity) (ps : List FieldPath) (plan : QueryPlan) : Prop where
  accounted : ∀ p ∈ ps, p ≠ [] →
    (∃ q c t, p = q ++ [c] ∧ r.along? e q = some t ∧
      ((t.column? c).isSome ∨ t.field? c = some (.virtual c))) ∨
    ∃ s rest, p = s.full ++ rest ∧ rest ≠ [] ∧ r.Loaded e ps s
  select : ∃ sources : List Source, sources.Nodup ∧ (∀ x, x ∈ sources ↔ r.Due e ps x) ∧
    plan.select = sources.map Source.entry
  virtuals : plan.virtuals = e.virtualsAmong ps

/-- Every query of a plan selects exactly what it owes its paths, each entry once. -/
theorem compilePaths_select {r : Registry} (compiled : r.compilePaths e paths = .ok plan) :
    r.InEveryQuery r.SelectExact e (requested paths) plan := by
  apply compilePaths_everywhere _ compiled
  intro e ps nodes plan query
  constructor
  · exact fun p => query.shapes.accounted
  · exact ⟨_, query.nodup_sources, fun x => query.mem_sources, query.select_eq⟩
  · exact query.virtuals_eq

theorem compilePaths_select_sample : ∃ r plan,
    ofEntities [Sample.user, Sample.post, Sample.comment] = .ok r ∧
      r.compilePaths Sample.post Sample.paths = .ok plan ∧
      r.InEveryQuery r.SelectExact Sample.post (requested Sample.paths) plan := by
  obtain ⟨r, plan, registered, compiled⟩ := Sample.compiles
  exact ⟨r, plan, registered, compiled, compilePaths_select compiled⟩

end Registry
end FetchPlan
