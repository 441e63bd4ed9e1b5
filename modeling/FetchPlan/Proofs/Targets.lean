import FetchPlan.Proofs.PathErrors
import FetchPlan.Proofs.Plan.Failure

/-! Registered targets. Whatever is resolved, compiled or walked, only relations of registered
entities are followed, so one check of their targets leaves nothing to fail but the paths asked for. -/
namespace FetchPlan

/-- Every error of the computation is an allowed one. -/
def FailsOnly (allowed : SchemaError → Prop) (x : Except SchemaError α) : Prop :=
  ∀ problem, x = .error problem → allowed problem

namespace FailsOnly

variable {allowed : SchemaError → Prop}

theorem ok (a : α) : FailsOnly allowed (.ok a) := nofun

theorem error (admitted : allowed problem) : FailsOnly allowed (.error problem : Except SchemaError α) := by
  rintro other ⟨⟩
  exact admitted

theorem bind {x : Except SchemaError α} {f : α → Except SchemaError β} (first : FailsOnly allowed x)
    (later : ∀ a, x = .ok a → FailsOnly allowed (f a)) : FailsOnly allowed (x >>= f) := by
  cases result : x with
  | error problem => exact .error (first problem result)
  | ok a => exact later a result

end FailsOnly

/-- The fault is in a path that was asked for. -/
def SchemaError.isBadPath : SchemaError → Bool
  | .badPath .. => true
  | _ => false

theorem Selection.parse_failsOnly (entity : String) (paths : List String) :
    FailsOnly (·.isBadPath) (Selection.parse entity paths) := by
  intro problem failed
  obtain ⟨p, _, rfl⟩ := Selection.parse_eq_error_iff.mp failed
  rfl

namespace Registry

/-- Every relation of a registered entity leads to a registered one. -/
def Closed (r : Registry) : Prop :=
  ∀ key e relation, r.entities.get? key = some e → .relation relation ∈ e.fields →
    ∃ t, r.entities.get? relation.target = some t

theorem checkRelations_eq_ok_iff {r : Registry} : r.checkRelations = .ok () ↔ r.Closed := by
  have single (e : Entity) (relation : RelationField) :
      (r.target e relation >>= fun _ => pure ()) = .ok () ↔
        ∃ t, r.entities.get? relation.target = some t := by
    simp [bind_eq_ok, target_eq_ok, pure, Except.pure]
  rw [checkRelations, forM_eq_ok]
  simp only [forM_eq_ok, single, Entity.mem_relations]
  constructor
  · intro each key e relation registered declared
    exact each e (mem_all registered) relation declared
  · intro closed e member relation declared
    obtain ⟨key, registered⟩ := SortedMap.mem_values.mp member
    exact closed key e relation registered declared

/-- Without entering relations the walk looks at every target of the entity, and at nothing else. -/
theorem exists_reach_zero_iff {r : Registry} {path : FieldPath} :
    (∃ ps, r.reach queryRoot path visited e 0 = .ok ps) ↔
      ∀ relation, .relation relation ∈ e.fields → ∃ t, r.entities.get? relation.target = some t := by
  rw [exists_reach_iff]
  constructor
  · intro each relation declared
    obtain ⟨part, done⟩ := each _ declared
    obtain ⟨t, registered, _⟩ := bind_eq_ok.mp done
    exact ⟨t, target_eq_ok.mp registered⟩
  · intro each f declared
    cases f with
    | plain | virtual => exact ⟨_, rfl⟩
    | relation relation =>
      obtain ⟨t, registered⟩ := each relation declared
      rw [reachField, target_eq_ok.mpr registered]
      exact ⟨_, rfl⟩

theorem closed_iff_reachable_zero {r : Registry} :
    r.Closed ↔ ∀ id ∈ r.ids, ∃ ps, r.reachable id 0 = .ok ps := by
  constructor
  · intro closed id listed
    obtain ⟨e, registered⟩ := mem_ids.mp listed
    rw [reachable, get_eq_ok.mpr registered, ok_bind]
    exact exists_reach_zero_iff.mpr fun relation => closed id e relation registered
  · intro walks key e relation registered declared
    obtain ⟨ps, walked⟩ := walks key (mem_ids.mpr ⟨e, registered⟩)
    have walked := reachable_ok (get_eq_ok.mpr registered) walked
    exact exists_reach_zero_iff.mp ⟨ps, walked⟩ relation declared

namespace Closed

variable {r : Registry}

/-- The walk is at registered entities only, so no target is missing at any depth. -/
theorem exists_reach (closed : r.Closed) (registered : r.entities.get? key = some e)
    (queryRoot : Bool) (path : FieldPath) (visited : List String) (depth : Nat) :
    ∃ ps, r.reach queryRoot path visited e depth = .ok ps := by
  induction depth generalizing key queryRoot path visited e with
  | zero => exact exists_reach_zero_iff.mpr fun relation => closed key e relation registered
  | succ depth ih =>
    refine exists_reach_iff.mpr fun f declared => ?_
    cases f with
    | plain | virtual => exact ⟨_, rfl⟩
    | relation relation =>
      obtain ⟨t, found⟩ := closed key e relation registered declared
      rw [reachField, target_eq_ok.mpr found, ok_bind, entering]
      by_cases seen : t.id ∈ visited
      · rw [if_pos seen]
        exact ⟨_, rfl⟩
      · rw [if_neg seen]
        exact ih found _ _ _

theorem resolvePaths (closed : r.Closed) (registered : r.entities.get? key = some e) (paths : List String) :
    FailsOnly (·.isBadPath) (r.resolvePaths e paths) := by
  refine (Selection.parse_failsOnly e.id paths).bind fun entries parsed problem failed => ?_
  obtain ⟨_, rfl⟩ := Selection.parse_eq_ok_iff.mp parsed
  rcases resolveEntries_blames _ e [] failed with ⟨_, _, _, _, rfl, _⟩ |
    ⟨owner, q, name, relation, reached, declared, absent, _⟩
  · rfl
  · obtain ⟨key', known⟩ := registered_of_through? registered reached
    have held : .relation relation ∈ owner.fields :=
      List.mem_of_find?_eq_some (Entity.relation?_eq_some.mp declared)
    obtain ⟨t, found⟩ := closed key' owner relation known held
    simp [absent] at found

theorem compilePaths (closed : r.Closed) (registered : r.entities.get? key = some e) (paths : List String) :
    FailsOnly (·.isBadPath) (r.compilePaths e paths) :=
  fun problem failed => closed.resolvePaths registered paths problem (compilePaths_eq_error_iff.mp failed)

theorem compileSubset {id : String} (closed : r.Closed) (registered : r.entities.get? id = some e) (key : String) :
    FailsOnly (fun problem => problem = .unknownSubset id key ∨ problem.isBadPath) (r.compileSubset id key) := by
  rw [Registry.compileSubset, get_eq_ok.mpr registered, ok_bind]
  split
  · intro problem failed
    exact .inr (closed.compilePaths registered _ problem failed)
  · exact .error (.inl rfl)

end Closed

/-- What can still fail is the fault of the paths asked for, or of a subset that does not exist. -/
structure PathsDecide (r : Registry) : Prop where
  shape : ∀ id e paths, r.get id = .ok e → FailsOnly (·.isBadPath) (r.resolvePaths e paths)
  plan : ∀ id e paths, r.get id = .ok e → FailsOnly (·.isBadPath) (r.compilePaths e paths)
  subset : ∀ id key, id ∈ r.ids →
    FailsOnly (fun problem => problem = .unknownSubset id key ∨ problem.isBadPath) (r.compileSubset id key)
  reach : ∀ id depth, id ∈ r.ids → ∃ ps, r.reachable id depth = .ok ps

theorem Closed.pathsDecide {r : Registry} (closed : r.Closed) : r.PathsDecide where
  shape id e paths found := closed.resolvePaths (get_eq_ok.mp found) paths
  plan id e paths found := closed.compilePaths (get_eq_ok.mp found) paths
  subset id key listed := by
    obtain ⟨e, registered⟩ := mem_ids.mp listed
    exact closed.compileSubset registered key
  reach id depth listed := by
    obtain ⟨e, registered⟩ := mem_ids.mp listed
    rw [reachable, get_eq_ok.mpr registered, ok_bind]
    exact closed.exists_reach registered true [] [e.id] depth

/-- The check of all relations passes exactly if every entity can be walked without entering any, and
after it nothing but the paths asked for can fail. -/
theorem checkRelations_settles (r : Registry) :
    (r.checkRelations = .ok () ↔ ∀ id ∈ r.ids, ∃ ps, r.reachable id 0 = .ok ps) ∧
      (r.checkRelations = .ok () → r.PathsDecide) := by
  rw [checkRelations_eq_ok_iff]
  exact ⟨closed_iff_reachable_zero, Closed.pathsDecide⟩

/-- Folders and files lead to each other; files alone lead to folders that are not registered. -/
theorem checkRelations_settles_sample :
    (Sample.cabinet.checkRelations = .ok () ∧ Sample.cabinet.PathsDecide) ∧
      ∃ r, ofEntities [Sample.file] = .ok r ∧
        r.checkRelations = .error (.unresolvedRelation "File" "folder" "Folder") ∧
        ¬ ∀ id ∈ r.ids, ∃ ps, r.reachable id 0 = .ok ps := by
  constructor
  · have passed : Sample.cabinet.checkRelations = .ok () := by decide +kernel
    exact ⟨passed, (checkRelations_settles Sample.cabinet).2 passed⟩
  · have built : ofEntities [Sample.file] = .ok ⟨SortedMap.empty.insert "File" Sample.file⟩ := by
      decide +kernel
    have failed : checkRelations ⟨SortedMap.empty.insert "File" Sample.file⟩ =
        .error (.unresolvedRelation "File" "folder" "Folder") := by
      decide +kernel
    refine ⟨_, built, failed, fun walks => ?_⟩
    rw [← (checkRelations_settles _).1, failed] at walks
    contradiction

end Registry
end FetchPlan
