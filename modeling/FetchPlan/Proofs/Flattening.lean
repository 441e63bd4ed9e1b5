import FetchPlan.Proofs.Selection
import FetchPlan.Proofs.Text

/-! Selections and the paths in them. Flattening lists every path of a selection once, and merging
the listed paths gives the selection back, with its entries in the same order on every level. -/
namespace FetchPlan

theorem not_mem_of_requested (asked : p ∈ requested paths) (member : name ∈ p) : '.' ∉ name.toList := by
  obtain ⟨path, _, rfl⟩ := List.mem_map.mp asked
  exact Text.not_mem_of_mem_split member

/-- Paths that their texts determine are requested by these texts. -/
theorem requested_dotted {ps : List FieldPath} (each : ∀ p ∈ ps, Text.split '.' p.dotted = p) :
    requested (ps.map FieldPath.dotted) = ps := by
  rw [requested, List.map_map]
  exact (List.map_congr_left each).trans (List.map_id ps)

namespace Selection

/-- Merges more paths into a selection. -/
def insertAll (s : Selection) (ps : List FieldPath) : Selection := ps.foldl (fun s p => insert p s) s

theorem ofPaths_append (ps qs : List FieldPath) : ofPaths (ps ++ qs) = insertAll (ofPaths ps) qs := by
  simp [ofPaths, insertAll]

theorem exists_name_of_mem {e : SelectionEntry} (member : p ∈ e.fieldPaths) : ∃ rest, p = e.name :: rest := by
  obtain ⟨name, terminal, children⟩ := e
  rw [SelectionEntry.fieldPaths, List.mem_append] at member
  rcases member with here | below
  · cases terminal with
    | false => contradiction
    | true => exact ⟨[], List.mem_singleton.mp here⟩
  · obtain ⟨rest, _, rfl⟩ := List.mem_map.mp below
    exact ⟨rest, rfl⟩

theorem mem_fieldPaths : p ∈ fieldPaths s ↔ ∃ e ∈ s, p ∈ e.fieldPaths := by
  induction s with
  | nil => simp [fieldPaths]
  | cons e rest ih => simp [fieldPaths, ih]

theorem name_mem_of_mem_fieldPaths (member : p ∈ fieldPaths s) :
    ∃ name rest, p = name :: rest ∧ name ∈ s.map SelectionEntry.name := by
  obtain ⟨e, among, member⟩ := mem_fieldPaths.mp member
  obtain ⟨rest, rfl⟩ := exists_name_of_mem member
  exact ⟨e.name, rest, rfl, List.mem_map_of_mem among⟩

theorem ne_nil_of_mem_fieldPaths (member : p ∈ fieldPaths s) : p ≠ [] := by
  obtain ⟨name, rest, rfl, _⟩ := name_mem_of_mem_fieldPaths member
  simp

/-- Paths with other first segments pass an entry by. -/
theorem insertAll_cons (apart : ∀ p ∈ ps, ∃ name rest, p = name :: rest ∧ name ≠ e.name) :
    insertAll (e :: s) ps = e :: insertAll s ps := by
  induction ps generalizing s with
  | nil => rfl
  | cons p ps ih =>
    obtain ⟨here, later⟩ := List.forall_mem_cons.mp apart
    obtain ⟨name, rest, rfl, different⟩ := here
    have passed : insert (name :: rest) (e :: s) = e :: insert (name :: rest) s := by
      rw [insert_cons, insert_cons, update, if_neg different.symm]
    rw [insertAll, List.foldl_cons, passed]
    exact ih later

/-- Paths that begin with the name of the only entry are merged below it. -/
theorem insertAll_below (proper : ∀ p ∈ ps, p ≠ []) (name : String) (terminal : Bool)
    (children : Selection) : insertAll [⟨name, terminal, children⟩] (ps.map (name :: ·)) =
      [⟨name, terminal, insertAll children ps⟩] := by
  induction ps generalizing children with
  | nil => rfl
  | cons p ps ih =>
    obtain ⟨nonempty, later⟩ := List.forall_mem_cons.mp proper
    have merged : insert (name :: p) [⟨name, terminal, children⟩] =
        [⟨name, terminal, insert p children⟩] := by
      simp [insert_cons, update, grow, nonempty]
    rw [List.map_cons, insertAll, List.foldl_cons, merged]
    exact ih later _

theorem ofPaths_entry {e : SelectionEntry} (proper : e.terminal = true ∨ e.children ≠ [])
    (inner : ofPaths (fieldPaths e.children) = e.children) : ofPaths e.fieldPaths = [e] := by
  obtain ⟨name, terminal, children⟩ := e
  have nonempty : ∀ p ∈ fieldPaths children, p ≠ [] := fun p => ne_nil_of_mem_fieldPaths
  rw [SelectionEntry.fieldPaths]
  cases terminal with
  | true =>
    rw [if_pos rfl, ofPaths_append]
    have merged := insertAll_below nonempty name true []
    rw [show insertAll [] (fieldPaths children) = children from inner] at merged
    exact merged
  | false =>
    -- The first path below makes the entry; the others are merged into it.
    cases listed : fieldPaths children with
    | nil =>
      rw [listed] at inner
      have childless : children = [] := inner.symm
      simp [childless] at proper
    | cons q qs =>
      rw [listed] at inner nonempty
      obtain ⟨first, others⟩ := List.forall_mem_cons.mp nonempty
      have made : insert (name :: q) [] = [⟨name, false, insert q []⟩] := by
        simp [insert_cons, update, grow, first]
      have merged := insertAll_below others name false (insert q [])
      rw [show insertAll (insert q []) qs = children from inner] at merged
      rw [if_neg (by simp), List.nil_append, List.map_cons, ofPaths, List.foldl_cons, made]
      exact merged

/-- Merging the paths of a selection gives it back. -/
theorem ofPaths_fieldPaths (formed : WellFormed s) : ofPaths (fieldPaths s) = s := by
  induction formed with
  | nil => rfl
  | @cons e rest proper _ fresh _ inner ih =>
    rw [fieldPaths, ofPaths_append, ofPaths_entry proper inner, insertAll_cons]
    · exact congrArg (e :: ·) ih
    · intro p member
      obtain ⟨name, q, rfl, among⟩ := name_mem_of_mem_fieldPaths member
      exact ⟨name, q, rfl, fun same => fresh (same ▸ among)⟩

theorem nodup_entry {e : SelectionEntry} (inner : (fieldPaths e.children).Nodup) : e.fieldPaths.Nodup := by
  obtain ⟨name, terminal, children⟩ := e
  have below : ((fieldPaths children).map (name :: ·)).Nodup :=
    inner.map fun p q same => (List.cons.inj same).2
  rw [SelectionEntry.fieldPaths]
  cases terminal with
  | false => simpa using below
  | true =>
    have apart : [name] ∉ (fieldPaths children).map (name :: ·) := by
      intro again
      obtain ⟨p, member, same⟩ := List.mem_map.mp again
      exact ne_nil_of_mem_fieldPaths member (List.cons.inj same).2
    exact List.nodup_cons.mpr ⟨apart, below⟩

theorem nodup_fieldPaths (formed : WellFormed s) : (fieldPaths s).Nodup := by
  induction formed with
  | nil => exact .nil
  | @cons e rest _ _ fresh _ inner ih =>
    rw [fieldPaths]
    refine List.nodup_append'.mpr ⟨nodup_entry inner, ih, fun p first later => ?_⟩
    obtain ⟨q, rfl⟩ := exists_name_of_mem first
    obtain ⟨name, q', same, among⟩ := name_mem_of_mem_fieldPaths later
    exact fresh ((List.cons.inj same).1 ▸ among)

theorem mem_fieldPaths_requested {paths : List String} :
    p ∈ fieldPaths (ofPaths (requested paths)) ↔ p ∈ requested paths := by
  rw [mem_fieldPaths_ofPaths]
  refine and_iff_left_of_imp fun asked => ?_
  obtain ⟨path, _, rfl⟩ := List.mem_map.mp asked
  exact Text.split_ne_nil '.' path

theorem split_dotted_of_mem {paths : List String} (member : p ∈ fieldPaths (ofPaths (requested paths))) :
    Text.split '.' p.dotted = p :=
  FieldPath.split_dotted (ne_nil_of_mem_fieldPaths member) fun _ =>
    not_mem_of_requested (mem_fieldPaths_requested.mp member)

/-- The texts listed for a selection have the segments that were merged into it. -/
theorem requested_paths (paths : List String) :
    requested (ofPaths (requested paths)).paths = fieldPaths (ofPaths (requested paths)) :=
  requested_dotted fun _ => split_dotted_of_mem

theorem nodup_paths (paths : List String) : (ofPaths (requested paths)).paths.Nodup := by
  have segments : (requested (ofPaths (requested paths)).paths).Nodup := by
    rw [requested_paths]
    exact nodup_fieldPaths (wellFormed_ofPaths _)
  exact .of_map _ segments

theorem mem_paths {paths : List String} : path ∈ (ofPaths (requested paths)).paths ↔ path ∈ paths := by
  constructor
  · intro listed
    obtain ⟨q, member, rfl⟩ := List.mem_map.mp listed
    obtain ⟨asked, among, rfl⟩ := List.mem_map.mp (mem_fieldPaths_requested.mp member)
    rwa [FieldPath.dotted_split]
  · intro asked
    have member : Text.split '.' path ∈ requested paths := List.mem_map_of_mem asked
    exact List.mem_map.mpr ⟨_, mem_fieldPaths_requested.mpr member, FieldPath.dotted_split path⟩

theorem parse_paths_eq (entity : String) {paths : List String}
    (solid : ∀ p ∈ requested paths, p.any Text.isBlankText = false) :
    parse entity (ofPaths (requested paths)).paths = .ok (ofPaths (requested paths)) := by
  refine parse_eq_ok_iff.mpr ⟨?_, ?_⟩
  · rw [requested_paths]
    exact fun p member => solid p (mem_fieldPaths_requested.mp member)
  · rw [requested_paths]
    exact (ofPaths_fieldPaths (wellFormed_ofPaths _)).symm

/-- An accepted list of paths is flattened to its distinct texts, and these are read back as the same
selection. A list is refused exactly if one of its paths has a blank segment. -/
theorem parse_inverse (entity : String) (paths : List String) :
    (∀ s, parse entity paths = .ok s →
      s.paths.Nodup ∧ (∀ path, path ∈ s.paths ↔ path ∈ paths) ∧
      (∀ other, parse other s.paths = .ok s) ∧ WellFormed s) ∧
    ((∃ problem, parse entity paths = .error problem) ↔
      ∃ path ∈ paths, ∃ name ∈ Text.split '.' path, Text.isBlankText name = true) := by
  constructor
  · intro s parsed
    obtain ⟨solid, rfl⟩ := parse_eq_ok_iff.mp parsed
    exact ⟨nodup_paths paths, fun path => mem_paths, fun other => parse_paths_eq other solid,
      wellFormed_ofPaths _⟩
  · rw [exists_error_iff, requested]
    simp only [List.mem_map, exists_exists_and_eq_and, List.any_eq_true]

end Selection

/-- Paths that end where others go on, and that come back to relations after others. -/
def Sample.tangledPaths : List String :=
  ["title", "author.name", "author", "comments.text", "author.posts.id", "title", "author.name"]

theorem Selection.parse_inverse_sample :
    (∃ s, parse "Post" Sample.tangledPaths = .ok s ∧
      s.paths = ["title", "author", "author.name", "author.posts.id", "comments.text"] ∧ s.paths.Nodup ∧
      (∀ path, path ∈ s.paths ↔ path ∈ Sample.tangledPaths) ∧ (∀ other, parse other s.paths = .ok s) ∧
      WellFormed s) ∧
    ∃ problem, parse "Post" ["title", "author. .name"] = .error problem := by
  constructor
  · have parsed : parse "Post" Sample.tangledPaths = .ok (ofPaths (requested Sample.tangledPaths)) :=
      parse_eq_ok_iff.mpr ⟨by decide +kernel, rfl⟩
    obtain ⟨accepted, _⟩ := parse_inverse "Post" Sample.tangledPaths
    exact ⟨_, parsed, by decide +kernel, accepted _ parsed⟩
  · exact (parse_inverse _ _).2.mpr (by decide +kernel)

end FetchPlan
