import FetchPlan.Proofs.Shape
import FetchPlan.Proofs.Text

/-! Which paths resolve. Paths share relations when they are merged, but none decides about
another: a list of paths has a shape exactly if every one of its paths resolves by itself, and a
path does if relation fields lead to the field it ends with. -/
namespace FetchPlan

/-- A path can end with a plain or a virtual field, and with `uuid` where no field has this name. -/
def Entity.IsLeaf (e : Entity) (name : String) : Prop :=
  (∃ f, e.field? name = some (.plain f)) ∨ e.field? name = some (.virtual name) ∨
    (e.field? name = none ∧ name = "uuid")

theorem Entity.isLeaf_iff {e : Entity} :
    e.IsLeaf name ↔ (e.column? name).isSome ∨ e.field? name = some (.virtual name) := by
  unfold IsLeaf column?
  cases found : e.field? name with
  | none => simp
  | some f => cases f <;> simp

namespace Registry

/-- The entity behind a relation field. -/
def behind? (r : Registry) (e : Entity) (name : String) : Option Entity :=
  (e.relation? name).bind fun relation => r.entities.get? relation.target

/-- The entity that a path of relation fields leads to, each on the target of the one before. -/
def through? (r : Registry) (e : Entity) (q : FieldPath) : Option Entity := q.foldlM r.behind? e

@[simp] theorem through?_nil (r : Registry) (e : Entity) : r.through? e [] = some e := rfl

@[simp] theorem through?_cons (r : Registry) (e : Entity) (name : String) (q : FieldPath) :
    r.through? e (name :: q) = (r.behind? e name).bind (r.through? · q) := rfl

theorem behind?_eq_some {r : Registry} : r.behind? e name = some t ↔
    ∃ relation, e.relation? name = some relation ∧ r.entities.get? relation.target = some t := by
  simp [behind?, Option.bind_eq_some_iff]

/-- Relation fields lead from registered entities to registered ones. -/
theorem registered_of_through? {r : Registry} (registered : r.entities.get? key = some e)
    (reached : r.through? e q = some owner) : ∃ key', r.entities.get? key' = some owner := by
  induction q generalizing key e with
  | nil =>
    cases reached
    exact ⟨key, registered⟩
  | cons name q ih =>
    obtain ⟨t, first, reached⟩ := Option.bind_eq_some_iff.mp reached
    obtain ⟨relation, _, found⟩ := behind?_eq_some.mp first
    exact ih found reached

/-- A path of relations with registered targets that ends in a column or a virtual field. -/
inductive Resolves (r : Registry) : Entity → FieldPath → Prop where
  | column : (e.column? name).isSome → Resolves r e [name]
  | virtual : e.field? name = some (.virtual name) → Resolves r e [name]
  | relation : e.relation? name = some relation → r.entities.get? relation.target = some t →
      Resolves r t rest → Resolves r e (name :: rest)

/-- A path resolves if relation fields lead to the entity on which its last segment is a leaf. -/
theorem resolves_iff {r : Registry} : r.Resolves e p ↔
    ∃ q last t, p = q ++ [last] ∧ r.through? e q = some t ∧ t.IsLeaf last := by
  constructor
  · intro resolves
    induction resolves with
    | column column => exact ⟨[], _, _, rfl, rfl, Entity.isLeaf_iff.mpr (.inl column)⟩
    | virtual virtual => exact ⟨[], _, _, rfl, rfl, Entity.isLeaf_iff.mpr (.inr virtual)⟩
    | relation declared registered _ ih =>
      obtain ⟨q, last, t, rfl, reached, leaf⟩ := ih
      have first := behind?_eq_some.mpr ⟨_, declared, registered⟩
      refine ⟨_ :: q, last, t, rfl, ?_, leaf⟩
      simp [first, reached]
  · rintro ⟨q, last, t, rfl, reached, leaf⟩
    induction q generalizing e with
    | nil =>
      cases reached
      rcases Entity.isLeaf_iff.mp leaf with column | virtual
      · exact .column column
      · exact .virtual virtual
    | cons name q ih =>
      obtain ⟨t', first, reached⟩ := Option.bind_eq_some_iff.mp reached
      obtain ⟨relation, declared, registered⟩ := behind?_eq_some.mp first
      exact .relation declared registered (ih reached)

theorem not_resolves_nil {r : Registry} : ¬ r.Resolves e [] := nofun

/-- A path that ends at a field does not end at a relation. -/
theorem Resolves.relation?_eq_none {r : Registry} (resolves : r.Resolves e [name]) :
    e.relation? name = none := by
  cases declared : e.relation? name with
  | none => rfl
  | some relation =>
    cases resolves with
    | column column => simp [Entity.column?_relation declared] at column
    | virtual virtual => cases virtual.symm.trans (Entity.relation?_eq_some.mp declared)
    | relation _ _ rest => exact absurd rest not_resolves_nil

theorem Resolves.behind {r : Registry} (resolves : r.Resolves e (name :: rest)) (proper : rest ≠ []) :
    ∃ relation t, e.relation? name = some relation ∧ r.entities.get? relation.target = some t ∧
      r.Resolves t rest := by
  cases resolves with
  | column | virtual => contradiction
  | relation declared registered inside => exact ⟨_, _, declared, registered, inside⟩

/-- No path goes on behind a field that is not a relation. -/
theorem below_eq_nil {r : Registry} (leaf : e.relation? name = none)
    (resolve : ∀ p ∈ ps, p ≠ [] → r.Resolves e p) : below [name] ps = [] := by
  refine List.eq_nil_iff_forall_not_mem.mpr fun rest left => ?_
  obtain ⟨proper, asked⟩ := mem_below.mp left
  obtain ⟨_, _, declared, _⟩ := (resolve _ asked (by simp)).behind proper
  simp [leaf] at declared

theorem Fits.resolves {r : Registry} (fits : r.Fits e nodes) (leaf : p ∈ FieldNode.leaves nodes) :
    r.Resolves e p := by
  induction fits generalizing p with
  | nil => simp [FieldNode.leaves] at leaf
  | column column _ _ ih =>
    rw [FieldNode.leaves, List.mem_cons] at leaf
    rcases leaf with rfl | later
    · exact .column (by rw [column]; rfl)
    · exact ih later
  | virtual virtual _ _ ih =>
    rw [FieldNode.leaves, List.mem_cons] at leaf
    rcases leaf with rfl | later
    · exact .virtual virtual
    · exact ih later
  | object declared _ registered _ _ _ _ ihc ih | array declared _ registered _ _ _ _ ihc ih =>
    rw [FieldNode.leaves, List.mem_append] at leaf
    rcases leaf with here | later
    · obtain ⟨rest, inside, rfl⟩ := List.mem_map.mp here
      exact .relation declared registered (ihc inside)
    · exact ih later

theorem exists_resolveEntries {r : Registry} {entries : List SelectionEntry}
    (each : ∀ entry ∈ entries, ∃ node, r.resolveEntry e path entry = .ok node) :
    ∃ nodes, r.resolveEntries e path entries = .ok nodes := by
  induction entries with
  | nil => exact ⟨[], rfl⟩
  | cons entry entries ih =>
    obtain ⟨here, later⟩ := List.forall_mem_cons.mp each
    obtain ⟨node, first⟩ := here
    obtain ⟨nodes, rest⟩ := ih later
    exact ⟨node :: nodes, resolveEntries_cons_ok.mpr ⟨node, nodes, first, rest, rfl⟩⟩

/-- The entry of a segment resolves if all paths through it do. -/
theorem exists_resolveEntry {r : Registry} {path : FieldPath} (asked : name :: rest ∈ ps)
    (resolve : ∀ p ∈ ps, p ≠ [] → r.Resolves e p)
    (inner : ∀ t, (∀ p ∈ below [name] ps, p ≠ [] → r.Resolves t p) →
      ∃ nodes, r.resolveEntries t (path ++ [name]) (Selection.ofPaths (below [name] ps)) = .ok nodes) :
    ∃ node, r.resolveEntry e path (Selection.entryOf ps name) = .ok node := by
  have whole := resolve _ asked (by simp)
  by_cases leaf : e.relation? name = none
  · rw [Selection.entryOf, below_eq_nil leaf resolve]
    cases whole with
    | column column =>
      obtain ⟨⟨scalar, nullable, length⟩, column⟩ := Option.isSome_iff_exists.mp column
      exact ⟨_, resolveEntry_column column path _⟩
    | virtual virtual => exact ⟨_, resolveEntry_virtual virtual path _⟩
    | relation declared => simp [leaf] at declared
  · have through : [name] ∉ ps := fun ends => leaf (resolve _ ends (by simp)).relation?_eq_none
    have proper : rest ≠ [] := by
      rintro rfl
      exact through asked
    obtain ⟨relation, t, declared, registered, _⟩ := whole.behind proper
    obtain ⟨nodes, inside⟩ := inner t fun p left nonempty => by
      obtain ⟨_, t', declared', registered', inside⟩ :=
        (resolve _ (mem_below.mp left).2 (by simp)).behind nonempty
      cases declared.symm.trans declared'
      cases registered.symm.trans registered'
      exact inside
    have nonempty : Selection.ofPaths (below [name] ps) ≠ [] :=
      Selection.ofPaths_ne_nil (mem_below.mpr ⟨proper, asked⟩) proper
    rw [Selection.entryOf, decide_eq_false through]
    exact ⟨_, resolveEntry_relation declared nonempty registered inside⟩

theorem exists_shape {r : Registry} (resolve : ∀ p ∈ ps, p ≠ [] → r.Resolves e p) (path : FieldPath) :
    ∃ nodes, r.resolveEntries e path (Selection.ofPaths ps) = .ok nodes := by
  induction ps using below_induction generalizing e path with
  | step ps ih =>
    refine exists_resolveEntries fun entry listed => ?_
    obtain ⟨name, rest, asked, rfl⟩ := Selection.exists_path_of_mem listed
    exact exists_resolveEntry asked resolve fun t inside => ih [name] rest (by simp) asked inside _

/-- Paths have a shape exactly if each of them resolves. -/
theorem exists_shapes_iff {r : Registry} :
    (∃ nodes, r.Shapes e ps nodes) ↔ ∀ p ∈ ps, p ≠ [] → r.Resolves e p := by
  constructor
  · rintro ⟨nodes, shapes⟩ p asked proper
    exact shapes.fits.resolves (shapes.mem_leaves.mpr ⟨asked, proper⟩)
  · intro resolve
    obtain ⟨nodes, resolved⟩ := exists_shape resolve []
    exact ⟨nodes, [], resolved⟩

theorem exists_resolvePaths_iff {r : Registry} : (∃ nodes, r.resolvePaths e paths = .ok nodes) ↔
    ∀ p ∈ requested paths, p.any Text.isBlankText = false ∧ r.Resolves e p := by
  constructor
  · rintro ⟨nodes, resolved⟩ p asked
    obtain ⟨solid, shapes⟩ := resolvePaths_ok resolved
    obtain ⟨path, _, rfl⟩ := List.mem_map.mp asked
    exact ⟨solid _ asked, exists_shapes_iff.mp ⟨nodes, shapes⟩ _ asked (Text.split_ne_nil '.' path)⟩
  · intro good
    have solid : ∀ p ∈ requested paths, p.any Text.isBlankText = false := fun p asked => (good p asked).1
    obtain ⟨nodes, resolved⟩ := exists_shape (fun p asked _ => (good p asked).2) []
    exact ⟨nodes, by rw [resolvePaths, Selection.parse_eq_ok_iff.mpr ⟨solid, rfl⟩, ok_bind, resolved]⟩

theorem exists_resolvePath_iff {r : Registry} : (∃ nodes, r.resolvePaths e [path] = .ok nodes) ↔
    (Text.split '.' path).any Text.isBlankText = false ∧ r.Resolves e (Text.split '.' path) := by
  rw [exists_resolvePaths_iff]
  simp [requested]

/-- A list of paths resolves exactly if each of them does alone. One path does if none of its segments
is blank and relation fields with registered targets lead to a leaf. Its segments are what dots stand
between. -/
theorem resolvePaths_pathwise (r : Registry) (e : Entity) :
    (∀ paths, (∃ nodes, r.resolvePaths e paths = .ok nodes) ↔
      ∀ path ∈ paths, ∃ nodes, r.resolvePaths e [path] = .ok nodes) ∧
    (∀ path, (∃ nodes, r.resolvePaths e [path] = .ok nodes) ↔
      (∀ name ∈ Text.split '.' path, Text.isBlankText name = false) ∧
      ∃ q last t, Text.split '.' path = q ++ [last] ∧ r.through? e q = some t ∧ t.IsLeaf last) ∧
    ∀ path segments, FieldPath.Segments path segments ↔ segments = Text.split '.' path := by
  refine ⟨?_, ?_, fun _ _ => FieldPath.segments_iff⟩
  · intro paths
    simp only [exists_resolvePath_iff]
    rw [exists_resolvePaths_iff, requested]
    exact List.forall_mem_map
  · intro path
    rw [exists_resolvePath_iff, resolves_iff]
    simp only [List.any_eq_false, Bool.not_eq_true]

end Registry
end FetchPlan
