import FetchPlan.Proofs.Shape

/-! The relations one query meets. A step is a relation that requested paths cross after
to-one relations only; each is listed once, before the steps below it. -/
namespace FetchPlan

def Registry.toOne? (r : Registry) (e : Entity) (name : String) : Option Entity :=
  (e.relation? name).bind fun relation =>
    if relation.kind.isToOne then r.entities.get? relation.target else none

/-- The entity that a path of to-one relations leads to. -/
def Registry.along? (r : Registry) (e : Entity) (q : FieldPath) : Option Entity :=
  q.foldlM r.toOne? e

@[simp] theorem Registry.along?_nil (r : Registry) (e : Entity) : r.along? e [] = some e := rfl

@[simp] theorem Registry.along?_cons (r : Registry) (e : Entity) (name : String) (q : FieldPath) :
    r.along? e (name :: q) = (r.toOne? e name).bind (r.along? · q) := rfl

theorem Registry.toOne?_eq_some {r : Registry} : r.toOne? e name = some t ↔
    ∃ relation, e.relation? name = some relation ∧ relation.kind.isToOne = true ∧
      r.entities.get? relation.target = some t := by
  simp [toOne?, Option.bind_eq_some_iff]

/-- The relation `relation` of `owner`, which was reached along `path`, and its target. -/
structure Step where
  path : FieldPath
  owner : Entity
  relation : RelationField
  target : Entity

def Step.full (s : Step) : FieldPath := s.path ++ [s.relation.name]

/-- The step seen from the other side of a relation. -/
def Step.under (name : String) (s : Step) : Step := { s with path := name :: s.path }

@[simp] theorem Step.full_under (name : String) (s : Step) : (s.under name).full = name :: s.full := rfl

theorem Step.full_ne_nil (s : Step) : s.full ≠ [] := by simp [full]

/-- Some path of `ps` on `e` makes this step and goes on behind it. -/
structure Registry.Crosses (r : Registry) (e : Entity) (ps : List FieldPath) (s : Step) : Prop where
  reached : r.along? e s.path = some s.owner
  declared : s.owner.relation? s.relation.name = some s.relation
  registered : r.entities.get? s.relation.target = some s.target
  crossed : ∃ rest, rest ≠ [] ∧ s.full ++ rest ∈ ps

theorem Registry.Crosses.under {r : Registry} (leads : r.toOne? e name = some t) {s : Step}
    (crosses : r.Crosses t (below [name] ps) s) : r.Crosses e ps (s.under name) where
  reached := by simpa [Step.under, leads] using crosses.reached
  declared := crosses.declared
  registered := crosses.registered
  crossed := by
    obtain ⟨rest, proper, member⟩ := crosses.crossed
    exact ⟨rest, proper, (mem_below.mp member).2⟩

theorem Registry.Crosses.mono {r : Registry} (more : ps ⊆ qs) (crosses : r.Crosses e ps s) :
    r.Crosses e qs s where
  reached := crosses.reached
  declared := crosses.declared
  registered := crosses.registered
  crossed := by
    obtain ⟨rest, proper, asked⟩ := crosses.crossed
    exact ⟨rest, proper, more asked⟩

/-- A step together with the shape of what is asked for behind it. -/
structure Visit extends Step where
  children : List FieldNode

def Visit.under (name : String) (v : Visit) : Visit := { v with toStep := v.toStep.under name }

@[simp] theorem Visit.full_under (name : String) (v : Visit) :
    (v.under name).full = name :: v.full := rfl

namespace Registry

mutual

/-- The steps a node makes, depth first. Behind a to-many relation another query begins. -/
def visitsOf (r : Registry) (e : Entity) : FieldNode → List Visit
  | .column .. | .virtual _ => []
  | .object relation _ children =>
    match r.entities.get? relation.target with
    | some t => ⟨⟨[], e, relation, t⟩, children⟩ :: (visits r t children).map (Visit.under relation.name)
    | none => []
  | .array relation _ children =>
    match r.entities.get? relation.target with
    | some t => [⟨⟨[], e, relation, t⟩, children⟩]
    | none => []

def visits (r : Registry) (e : Entity) : List FieldNode → List Visit
  | [] => []
  | node :: rest => visitsOf r e node ++ visits r e rest

end

theorem mem_visits {r : Registry} : v ∈ r.visits e nodes ↔ ∃ node ∈ nodes, v ∈ r.visitsOf e node := by
  induction nodes with
  | nil => simp [visits]
  | cons node rest ih => simp [visits, ih]

theorem visitsOf_object {r : Registry} (registered : r.entities.get? relation.target = some t) :
    r.visitsOf e (.object relation targetId children) =
      ⟨⟨[], e, relation, t⟩, children⟩ :: (r.visits t children).map (Visit.under relation.name) := by
  rw [visitsOf, registered]

theorem visitsOf_array {r : Registry} (registered : r.entities.get? relation.target = some t) :
    r.visitsOf e (.array relation targetId children) = [⟨⟨[], e, relation, t⟩, children⟩] := by
  rw [visitsOf, registered]

theorem full_of_mem_visitsOf {r : Registry} (member : v ∈ r.visitsOf e node) :
    ∃ q, v.full = node.name :: q := by
  cases node with
  | column => simp [visitsOf] at member
  | virtual => simp [visitsOf] at member
  | object relation targetId children =>
    cases registered : r.entities.get? relation.target with
    | none => simp [visitsOf, registered] at member
    | some t =>
      rw [visitsOf_object registered] at member
      rcases List.mem_cons.mp member with rfl | member
      · exact ⟨[], rfl⟩
      · obtain ⟨inner, _, rfl⟩ := List.mem_map.mp member
        exact ⟨inner.full, rfl⟩
  | array relation targetId children =>
    cases registered : r.entities.get? relation.target with
    | none => simp [visitsOf, registered] at member
    | some t =>
      rw [visitsOf_array registered, List.mem_singleton] at member
      exact ⟨[], by rw [member]; rfl⟩

/-- Steps of a node do not lie on the way to steps of nodes with other names. -/
theorem visitsOf_apart {r : Registry} (fresh : node.name ∉ rest.map FieldNode.name)
    (first : v ∈ r.visitsOf e node) (later : w ∈ r.visits e rest) : ¬ w.full <+: v.full := by
  obtain ⟨other, among, later⟩ := mem_visits.mp later
  obtain ⟨q, eq⟩ := full_of_mem_visitsOf first
  obtain ⟨q', eq'⟩ := full_of_mem_visitsOf later
  rw [eq, eq', List.cons_prefix_cons]
  exact fun same => fresh (same.1 ▸ List.mem_map_of_mem among)

/-- A later step never lies on the way to an earlier one. -/
theorem visits_ordered {r : Registry} (fits : r.Fits e nodes) :
    (r.visits e nodes).Pairwise fun v w => ¬ w.full <+: v.full := by
  induction fits with
  | nil => exact .nil
  | column _ _ _ ih => exact ih
  | virtual _ _ _ ih => exact ih
  | object _ _ registered _ _ fresh _ ihc ih =>
    refine List.pairwise_append.mpr ⟨?_, ih, fun v first w => visitsOf_apart (by exact fresh) first⟩
    rw [visitsOf_object registered, List.pairwise_cons, List.pairwise_map]
    refine ⟨fun w later => ?_, ihc.imp fun apart => by simpa [List.cons_prefix_cons] using apart⟩
    obtain ⟨inner, _, rfl⟩ := List.mem_map.mp later
    simp [Step.full, Visit.under, Step.under]
  | array _ _ registered _ _ fresh _ _ ih =>
    refine List.pairwise_append.mpr ⟨?_, ih, fun v first w => visitsOf_apart (by exact fresh) first⟩
    rw [visitsOf_array registered]
    exact List.pairwise_singleton ..

theorem crosses_here {r : Registry} (declared : e.relation? relation.name = some relation)
    (registered : r.entities.get? relation.target = some t)
    (shapes : r.Shapes t (below [relation.name] ps) children) (nonempty : children ≠ []) :
    r.Crosses e ps ⟨[], e, relation, t⟩ := by
  obtain ⟨node, among⟩ := List.exists_mem_of_ne_nil _ nonempty
  obtain ⟨rest, member⟩ := shapes.exists_rest among
  obtain ⟨proper, asked⟩ := mem_below.mp member
  exact ⟨rfl, declared, registered, _, proper, asked⟩

/-- A listed step is a relation of the entity at hand, or a step behind one of its to-one
relations. -/
theorem Shapes.visit_cases {r : Registry} (shapes : r.Shapes e ps nodes)
    (member : v ∈ r.visits e nodes) :
    (∃ relation t children, e.relation? relation.name = some relation ∧
      r.entities.get? relation.target = some t ∧ children ≠ [] ∧
      r.Shapes t (below [relation.name] ps) children ∧ v = ⟨⟨[], e, relation, t⟩, children⟩) ∨
    ∃ name t children w, r.toOne? e name = some t ∧ r.Shapes t (below [name] ps) children ∧
      w ∈ r.visits t children ∧ v = w.under name := by
  obtain ⟨node, among, member⟩ := mem_visits.mp member
  cases node with
  | column => simp [visitsOf] at member
  | virtual => simp [visitsOf] at member
  | object relation targetId children =>
    obtain ⟨declared, toOne, nonempty⟩ := shapes.fits.of_mem_object among
    obtain ⟨t, registered, inside⟩ := shapes.under (.inl among)
    rw [visitsOf_object registered] at member
    rcases List.mem_cons.mp member with rfl | member
    · exact .inl ⟨relation, t, children, declared, registered, nonempty, inside, rfl⟩
    · obtain ⟨w, listed, rfl⟩ := List.mem_map.mp member
      exact .inr ⟨relation.name, t, children, w,
        toOne?_eq_some.mpr ⟨relation, declared, toOne, registered⟩, inside, listed, rfl⟩
  | array relation targetId children =>
    obtain ⟨declared, _, nonempty⟩ := shapes.fits.of_mem_array among
    obtain ⟨t, registered, inside⟩ := shapes.under (.inr among)
    rw [visitsOf_array registered, List.mem_singleton] at member
    exact .inl ⟨relation, t, children, declared, registered, nonempty, inside, member⟩

/-- A listed step is made by the requested paths, and behind it stands the shape of what is
left of them. -/
theorem Shapes.of_mem_visits {r : Registry} (shapes : r.Shapes e ps nodes)
    (member : v ∈ r.visits e nodes) :
    r.Crosses e ps v.toStep ∧ r.Shapes v.target (below v.full ps) v.children := by
  obtain ⟨⟨path, owner, relation, t⟩, children⟩ := v
  induction path generalizing e ps nodes with
  | nil =>
    rcases shapes.visit_cases member with ⟨_, _, _, declared, registered, nonempty, inside, eq⟩ |
      ⟨name, _, _, w, _, _, _, eq⟩
    · cases eq
      exact ⟨crosses_here declared registered inside nonempty, inside⟩
    · simp [Visit.under, Step.under] at eq
  | cons first path ih =>
    rcases shapes.visit_cases member with ⟨_, _, _, _, _, _, _, eq⟩ |
      ⟨name, t', children', w, leads, inside, listed, eq⟩
    · simp at eq
    · obtain ⟨⟨path', owner', relation', t''⟩, children''⟩ := w
      cases eq
      obtain ⟨crosses, below⟩ := ih inside listed
      exact ⟨crosses.under leads, by rwa [← below_cons] at below⟩

/-- Where a requested path crosses a to-one relation, its node holds the shape of the target. -/
theorem Shapes.enter {r : Registry} (shapes : r.Shapes e ps nodes) (leads : r.toOne? e name = some t)
    (asked : name :: rest ∈ ps) :
    ∃ relation targetId children, .object relation targetId children ∈ nodes ∧ relation.name = name ∧
      r.entities.get? relation.target = some t ∧ r.Shapes t (below [name] ps) children := by
  obtain ⟨relation, known, toOne, registered⟩ := toOne?_eq_some.mp leads
  obtain ⟨node, member, named⟩ := shapes.exists_node asked
  obtain ⟨t', children, found, ⟨_, rfl⟩ | ⟨toMany, _⟩⟩ :=
    shapes.fits.relation_of_mem member (named ▸ known)
  · obtain ⟨t', target, inside⟩ := shapes.under (.inl member)
    cases target.symm.trans registered
    obtain rfl := named
    exact ⟨relation, _, children, member, rfl, registered, inside⟩
  · simp [RelationKind.isToMany, toOne] at toMany

theorem Shapes.exists_visit {r : Registry} (shapes : r.Shapes e ps nodes)
    (crosses : r.Crosses e ps s) : ∃ v ∈ r.visits e nodes, v.toStep = s := by
  obtain ⟨path, owner, relation, target⟩ := s
  induction path generalizing e ps nodes with
  | nil =>
    obtain ⟨reached, declared, registered, rest, proper, crossed⟩ := crosses
    cases reached
    obtain ⟨node, member, named⟩ := shapes.exists_node crossed
    obtain ⟨t, children, known, stands⟩ := shapes.fits.relation_of_mem member (named ▸ declared)
    cases known.symm.trans registered
    refine ⟨⟨⟨[], _, relation, _⟩, children⟩, mem_visits.mpr ⟨node, member, ?_⟩, rfl⟩
    rcases stands with ⟨_, rfl⟩ | ⟨_, rfl⟩
    · simp [visitsOf_object known]
    · simp [visitsOf_array known]
  | cons name path ih =>
    obtain ⟨reached, declared, registered, rest, proper, crossed⟩ := crosses
    obtain ⟨t, leads, reached⟩ := Option.bind_eq_some_iff.mp reached
    obtain ⟨along, _, children, member, rfl, found, inside⟩ := shapes.enter leads crossed
    have crosses : r.Crosses t (below [along.name] ps) ⟨path, owner, relation, target⟩ :=
      ⟨reached, declared, registered, rest, proper, mem_below.mpr ⟨by simp [Step.full], crossed⟩⟩
    obtain ⟨v, listed, eq⟩ := ih inside crosses
    refine ⟨v.under along.name, mem_visits.mpr ⟨_, member, ?_⟩, ?_⟩
    · rw [visitsOf_object found]
      exact List.mem_cons_of_mem _ (List.mem_map_of_mem listed)
    · rw [Visit.under, eq]
      rfl

theorem Shapes.relation_of_path {r : Registry} (shapes : r.Shapes e ps nodes)
    (asked : name :: rest ∈ ps) (proper : rest ≠ []) :
    ∃ relation t, e.relation? name = some relation ∧ r.entities.get? relation.target = some t := by
  have leaf := shapes.mem_leaves.mpr ⟨asked, by simp⟩
  obtain ⟨node, member, ends⟩ := FieldNode.mem_leaves.mp leaf
  rcases shapes.fits.of_mem member with ⟨_, _, _, _, _, rfl⟩ | ⟨_, _, rfl⟩ |
    ⟨relation, t, children, declared, registered, _, ⟨_, rfl⟩ | ⟨_, rfl⟩⟩
  · simp [FieldNode.leaves, proper] at ends
  · simp [FieldNode.leaves, proper] at ends
  all_goals
    obtain ⟨_, rfl⟩ : rest ∈ FieldNode.leaves children ∧ relation.name = name := by
      simpa [FieldNode.leaves] using ends
    exact ⟨relation, t, declared, registered⟩

/-- No relation of a requested path is left out, up to the first to-many relation. -/
theorem Shapes.exists_step {r : Registry} (shapes : r.Shapes e ps nodes)
    (reached : r.along? e q = some owner) (asked : q ++ name :: rest ∈ ps) (proper : rest ≠ []) :
    ∃ relation t, relation.name = name ∧ r.Crosses e ps ⟨q, owner, relation, t⟩ := by
  induction q generalizing e ps nodes with
  | nil =>
    cases reached
    obtain ⟨relation, t, declared, registered⟩ := shapes.relation_of_path asked proper
    obtain rfl := Entity.name_of_relation? declared
    exact ⟨relation, t, rfl, rfl, declared, registered, rest, proper, asked⟩
  | cons first q ih =>
    obtain ⟨t', leads, reached⟩ := Option.bind_eq_some_iff.mp reached
    obtain ⟨_, _, _, _, _, _, inside⟩ := shapes.enter leads asked
    obtain ⟨relation, t, named, crosses⟩ := ih inside reached (mem_below.mpr ⟨by simp, asked⟩)
    exact ⟨relation, t, named, crosses.under leads⟩

end Registry
end FetchPlan
