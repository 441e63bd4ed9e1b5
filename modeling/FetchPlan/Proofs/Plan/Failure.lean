import FetchPlan.Proofs.Plan.Relations

/-! Why a compilation fails. Resolving leaves nothing to go wrong: every relation of a resolved
shape has a registered target, and those left to loaders are to-many. So compiling fails exactly
when resolving does, with the same error. -/
namespace FetchPlan.Registry

/-- Compiling `nodes` on `e` comes upon `node` as an entry of `owner`. -/
inductive Meets (r : Registry) : Entity → List FieldNode → Entity → FieldNode → Prop where
  | here : node ∈ nodes → Meets r e nodes e node
  | inside : .object relation targetId children ∈ nodes ∨ .array relation targetId children ∈ nodes →
      r.target e relation = .ok t → Meets r t children owner node → Meets r e nodes owner node

/-- Nothing that compiling does with an entry of `owner` by itself can fail. -/
def Unfailing (r : Registry) (owner : Entity) : FieldNode → Prop
  | .column .. | .virtual _ => True
  | .object relation .. => ∃ t, r.target owner relation = .ok t
  | .array relation .. => ∃ t, r.target owner relation = .ok t ∧
      ∀ path, ∃ m, relation.manyJoin owner t path = .ok m

theorem Shapes.unfailing {r : Registry} (shapes : r.Shapes e ps nodes) (member : node ∈ nodes) :
    r.Unfailing e node := by
  rcases shapes.fits.of_mem member with ⟨_, _, _, _, _, rfl⟩ | ⟨_, _, rfl⟩ |
    ⟨relation, t, _, _, registered, _, ⟨_, rfl⟩ | ⟨toMany, rfl⟩⟩
  · trivial
  · trivial
  · exact ⟨t, target_eq_ok.mpr registered⟩
  · exact ⟨t, target_eq_ok.mpr registered, RelationField.exists_manyJoin toMany e t⟩

/-- Every entry that compiling comes upon was resolved on the entity it is compiled on. -/
theorem Shapes.of_meets {r : Registry} (shapes : r.Shapes e ps nodes) (met : r.Meets e nodes owner node) :
    ∃ qs others, r.Shapes owner qs others ∧ node ∈ others := by
  induction met generalizing ps with
  | here member => exact ⟨ps, _, shapes, member⟩
  | inside member target _ ih =>
    obtain ⟨t, registered, below⟩ := shapes.under member
    cases (target_eq_ok.mp target).symm.trans registered
    exact ih below

theorem Shapes.exists_plan {r : Registry} (shapes : r.Shapes e ps nodes) (path : FieldPath) :
    ∃ plan, r.compileNodes e path nodes = .ok plan := by
  obtain ⟨relations, compiled, _⟩ := compileRelations_parts shapes.fits path
  exact ⟨_, by rw [compileNodes, compiled]; rfl⟩

theorem compilePaths_eq_error_iff {r : Registry} :
    r.compilePaths e paths = .error problem ↔ r.resolvePaths e paths = .error problem := by
  rw [compilePaths]
  cases resolved : r.resolvePaths e paths with
  | error other => simp
  | ok nodes =>
    obtain ⟨plan, compiled⟩ := (resolvePaths_ok resolved).2.exists_plan []
    simp [compiled]

theorem exists_compilePaths_iff {r : Registry} :
    (∃ plan, r.compilePaths e paths = .ok plan) ↔ ∃ nodes, r.resolvePaths e paths = .ok nodes := by
  constructor
  · rintro ⟨plan, compiled⟩
    obtain ⟨nodes, resolved, _⟩ := bind_eq_ok.mp compiled
    exact ⟨nodes, resolved⟩
  · rintro ⟨nodes, resolved⟩
    obtain ⟨plan, compiled⟩ := (resolvePaths_ok resolved).2.exists_plan []
    exact ⟨plan, by rw [compilePaths, resolved, ok_bind, compiled]⟩

/-- Compiling succeeds exactly when resolving does and otherwise fails with its error. No entry it
comes upon in a resolved shape lacks its target or a kind that a loader can have. -/
theorem compilePaths_failure (r : Registry) (e : Entity) (paths : List String) :
    ((∃ plan, r.compilePaths e paths = .ok plan) ↔ ∃ nodes, r.resolvePaths e paths = .ok nodes) ∧
    (∀ problem, r.compilePaths e paths = .error problem ↔ r.resolvePaths e paths = .error problem) ∧
    ∀ nodes, r.resolvePaths e paths = .ok nodes →
      (∀ path, ∃ plan, r.compileNodes e path nodes = .ok plan) ∧
      ∀ owner node, r.Meets e nodes owner node → r.Unfailing owner node := by
  refine ⟨exists_compilePaths_iff, fun _ => compilePaths_eq_error_iff, fun nodes resolved => ?_⟩
  have shapes := (resolvePaths_ok resolved).2
  refine ⟨shapes.exists_plan, fun owner node met => ?_⟩
  obtain ⟨_, _, inner, member⟩ := shapes.of_meets met
  exact inner.unfailing member

theorem compilePaths_failure_sample :
    (∃ r nodes, ofEntities [Sample.user, Sample.post, Sample.comment] = .ok r ∧
      r.resolvePaths Sample.post Sample.paths = .ok nodes ∧
      (∃ plan, r.compileNodes Sample.post ["latest"] nodes = .ok plan) ∧
      ∀ owner node, r.Meets Sample.post nodes owner node → r.Unfailing owner node) ∧
    ∃ r, ofEntities [Sample.post] = .ok r ∧
      r.resolvePaths Sample.post Sample.paths = .error (.unresolvedRelation "Post" "author" "User") ∧
      r.compilePaths Sample.post Sample.paths = .error (.unresolvedRelation "Post" "author" "User") := by
  constructor
  · obtain ⟨r, plan, registered, compiled⟩ := Sample.compiles
    obtain ⟨succeeds, _, inside⟩ := compilePaths_failure r Sample.post Sample.paths
    obtain ⟨nodes, resolved⟩ := succeeds.mp ⟨plan, compiled⟩
    exact ⟨r, nodes, registered, resolved, (inside nodes resolved).1 ["latest"], (inside nodes resolved).2⟩
  · have registered : ofEntities [Sample.post] = .ok ⟨SortedMap.empty.insert "Post" Sample.post⟩ := by
      decide +kernel
    have failed := error_of_map (show (resolvePaths ⟨SortedMap.empty.insert "Post" Sample.post⟩
      Sample.post Sample.paths).map (fun _ => ()) = .error (.unresolvedRelation "Post" "author" "User") by
      decide +kernel)
    exact ⟨_, registered, failed, ((compilePaths_failure _ _ _).2.1 _).mpr failed⟩

end FetchPlan.Registry
