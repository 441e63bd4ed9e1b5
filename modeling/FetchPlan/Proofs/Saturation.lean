import FetchPlan.Proofs.Reach
import Mathlib.Data.List.Perm.Subperm

/-! Enough depth for the walk over the entity graph. The entities on the way are registered, and no
two of them are the same, so the walk runs out of entities before it runs out of depth. -/
namespace FetchPlan.Registry

/-- The ids on the way belong to different registered entities. -/
structure Trail (r : Registry) (visited : List String) : Prop where
  distinct : visited.Nodup
  registered : visited ⊆ r.all.map Entity.id

theorem Trail.length_le {r : Registry} (trail : r.Trail visited) : visited.length ≤ r.size := by
  have places := (trail.distinct.subperm trail.registered).length_le
  rwa [all, SortedMap.values, List.length_map, List.length_map] at places

theorem Trail.cons {r : Registry} (trail : r.Trail visited) (found : r.entities.get? key = some t)
    (fresh : t.id ∉ visited) : r.Trail (t.id :: visited) where
  distinct := List.nodup_cons.mpr ⟨fresh, trail.distinct⟩
  registered := List.cons_subset.mpr ⟨List.mem_map_of_mem (mem_all found), trail.registered⟩

theorem trail_root {r : Registry} (root : r.get key = .ok e) : r.Trail [e.id] where
  distinct := List.nodup_singleton _
  registered := List.cons_subset.mpr
    ⟨List.mem_map_of_mem (mem_all (get_eq_ok.mp root)), List.nil_subset _⟩

theorem entering_seen (r : Registry) (path : FieldPath) (depth : Nat) (relation : RelationField)
    (seen : t.id ∈ visited) : r.entering path visited depth relation t = none := by
  cases depth with
  | zero => rfl
  | succ left => simp [entering, seen]

theorem entering_fresh (r : Registry) (path : FieldPath) (left : Nat) (relation : RelationField)
    (fresh : t.id ∉ visited) : r.entering path visited (left + 1) relation t =
      some (r.reach relation.kind.isToMany (path ++ [relation.name]) (t.id :: visited) t left) := by
  simp [entering, fresh]

theorem fresh_of_entering {r : Registry}
    (entered : r.entering path visited depth relation t = some inside) : t.id ∉ visited := by
  intro seen
  rw [entering_seen r path depth relation seen] at entered
  contradiction

/-- Only registered entities are entered. -/
theorem reachField_congr {r : Registry}
    {enter enter' : RelationField → Entity → Option (Except SchemaError (List FieldPath))}
    (same : ∀ (relation : RelationField) t, r.entities.get? relation.target = some t →
      enter relation t = enter' relation t) :
    r.reachField queryRoot path e enter = r.reachField queryRoot path e enter' := by
  funext f
  cases f with
  | plain | virtual => rfl
  | relation relation =>
    rw [reachField, reachField]
    cases found : r.target e relation with
    | error => rfl
    | ok t => simp only [bind, Except.bind, same relation t (target_eq_ok.mp found)]

/-- A walk that may go on for as many hops as there are entities off its way does not notice how
much further it might go. -/
theorem reach_saturates {r : Registry} (trail : r.Trail visited)
    (enough : r.size ≤ depth + visited.length) (enough' : r.size ≤ depth' + visited.length) :
    r.reach queryRoot path visited e depth = r.reach queryRoot path visited e depth' := by
  induction depth using Nat.strongRecOn generalizing queryRoot path visited e depth' with
  | ind depth ih =>
    rw [reach_eq, reach_eq, reachField_congr]
    intro relation t found
    rcases Decidable.em (t.id ∈ visited) with seen | fresh
    · rw [entering_seen r path depth relation seen, entering_seen r path depth' relation seen]
    · -- One more entity was off the way, so neither walk is at its last hop.
      have onward := trail.cons found fresh
      have room : visited.length + 1 ≤ r.size := onward.length_le
      obtain ⟨left, rfl⟩ : ∃ left, depth = left + 1 := ⟨depth - 1, by omega⟩
      obtain ⟨left', rfl⟩ : ∃ left', depth' = left' + 1 := ⟨depth' - 1, by omega⟩
      rw [entering_fresh r path left relation fresh, entering_fresh r path left' relation fresh]
      have nearer : r.size ≤ left + (t.id :: visited).length := by simp; omega
      have nearer' : r.size ≤ left' + (t.id :: visited).length := by simp; omega
      rw [ih left (by omega) onward nearer nearer']

/-- Walks that start one inside the other, each behind a relation that the one before enters. -/
inductive Descends (r : Registry) : FieldPath → List String → Entity → Nat → List Hop → Prop where
  | here : r.Descends path visited e depth []
  | enter : .relation relation ∈ e.fields → r.target e relation = .ok t →
      r.entering path visited (left + 1) relation t =
        some (r.reach relation.kind.isToMany (path ++ [relation.name]) (t.id :: visited) t left) →
      r.Descends (path ++ [relation.name]) (t.id :: visited) t left hops →
      r.Descends path visited e (left + 1) (⟨relation, t⟩ :: hops)

theorem Descends.length_le {r : Registry} (descends : r.Descends path visited e depth hops)
    (trail : r.Trail visited) : hops.length + visited.length ≤ r.size := by
  induction descends with
  | here => simpa using trail.length_le
  | enter _ target entered _ ih =>
    have deeper := ih (trail.cons (target_eq_ok.mp target) (fresh_of_entering entered))
    rw [List.length_cons] at deeper ⊢
    omega

/-- With `n` entities every depth from `n - 1` on gives the same answer, and no walk is more than
`n - 1` hops inside the first one, whatever depth was asked for. -/
theorem reachable_saturates (r : Registry) (id : String) :
    (∀ depth depth', r.size - 1 ≤ depth → r.size - 1 ≤ depth' →
      r.reachable id depth = r.reachable id depth') ∧
    ∀ e depth hops, r.get id = .ok e → r.Descends [] [e.id] e depth hops → hops.length ≤ r.size - 1 := by
  constructor
  · intro depth depth' enough enough'
    rw [reachable, reachable]
    cases root : r.get id with
    | error => rfl
    | ok e => exact reach_saturates (trail_root root) (by simp; omega) (by simp; omega)
  · intro e depth hops root descends
    have bounded := descends.length_le (trail_root root)
    rw [List.length_singleton] at bounded
    omega

/-- Folders lead to files and back. With two entities one hop is all there is. -/
theorem reachable_saturates_sample : Sample.cabinet.size - 1 = 1 ∧
    Sample.cabinet.reachable "Folder" 1 = Sample.cabinet.reachable "Folder" 18446744073709551615 ∧
    ∃ hops, Sample.cabinet.get "Folder" = .ok Sample.folder ∧
      Sample.cabinet.Descends [] [Sample.folder.id] Sample.folder 18446744073709551615 hops ∧
      hops.map Hop.target = [Sample.file] ∧ hops.length ≤ Sample.cabinet.size - 1 := by
  have two : Sample.cabinet.size - 1 = 1 := by decide +kernel
  have root : Sample.cabinet.get "Folder" = .ok Sample.folder := by decide +kernel
  obtain ⟨files, declared, target⟩ : ∃ files, .relation files ∈ Sample.folder.fields ∧
      Sample.cabinet.target Sample.folder files = .ok Sample.file :=
    ⟨⟨"files", "File", .hasMany "folder_id", false, none⟩, by decide +kernel, by decide +kernel⟩
  have fresh : Sample.file.id ∉ [Sample.folder.id] := by decide +kernel
  have descends : Sample.cabinet.Descends [] [Sample.folder.id] Sample.folder 18446744073709551615
      [⟨files, Sample.file⟩] :=
    .enter declared target (entering_fresh Sample.cabinet [] _ files fresh) .here
  obtain ⟨same, bounded⟩ := reachable_saturates Sample.cabinet "Folder"
  exact ⟨two, same _ _ (by omega) (by omega), _, root, descends, rfl, bounded _ _ _ root descends⟩

end FetchPlan.Registry
