import FetchPlan.Selection
import FetchPlan.Uniqueness
import Mathlib.Data.List.Induction
import Mathlib.Data.List.Nodup

/-! Selections as functions of the paths asked for. A level has one entry for each first
segment, in order of first appearance, and below an entry stands the selection of what is left
of the paths that pass through it. -/
namespace FetchPlan

section Distinct

variable [DecidableEq α]

theorem distinct_concat (l : List α) (a : α) :
    distinct (l ++ [a]) = if a ∈ distinct l then distinct l else distinct l ++ [a] := by
  rw [distinct, List.foldl_append]
  rfl

@[simp] theorem mem_distinct {l : List α} : a ∈ distinct l ↔ a ∈ l := by
  induction l using List.reverseRecOn generalizing a with
  | nil => simp [distinct]
  | append_singleton l b ih =>
    rw [distinct_concat, apply_ite (a ∈ ·)]
    simp only [List.mem_append, List.mem_singleton, ih]
    by_cases known : b ∈ l
    · simp only [known, ↓reduceIte]
      exact ⟨.inl, fun h => h.elim id (· ▸ known)⟩
    · simp [known]

theorem nodup_distinct (l : List α) : (distinct l).Nodup := by
  induction l using List.reverseRecOn with
  | nil => simp [distinct]
  | append_singleton l a ih =>
    rw [distinct_concat]
    split
    · exact ih
    · rename_i fresh
      exact List.nodup_append.mpr ⟨ih, by simp, by simp only [List.mem_singleton]; grind⟩

theorem filter_distinct (keep : α → Bool) (l : List α) :
    (distinct l).filter keep = distinct (l.filter keep) := by
  induction l using List.reverseRecOn with
  | nil => rfl
  | append_singleton l a ih =>
    rw [distinct_concat, List.filter_append, apply_ite (List.filter keep), List.filter_append, ih]
    by_cases kept : keep a
    · simp only [List.filter_cons, kept, ↓reduceIte, List.filter_nil, distinct_concat, mem_distinct,
        List.mem_filter, and_true]
    · simp [kept]

end Distinct

def requested (paths : List String) : List FieldPath := paths.map (Text.split '.')

/-- What is left of the paths that run on below `q`. -/
def below (q : FieldPath) (ps : List FieldPath) : List FieldPath :=
  ps.filterMap fun p => if q <+: p ∧ q ≠ p then some (p.drop q.length) else none

theorem mem_below : p ∈ below q ps ↔ p ≠ [] ∧ q ++ p ∈ ps := by
  simp only [below, List.mem_filterMap, Option.ite_none_right_eq_some, Option.some.injEq]
  constructor
  · rintro ⟨_, member, ⟨⟨rest, rfl⟩, proper⟩, rfl⟩
    simp_all
  · rintro ⟨nonempty, member⟩
    exact ⟨q ++ p, member, ⟨List.prefix_append .., by simpa using nonempty⟩, by simp⟩

/-- Going below a relation and then below the rest of a path is going below the path. -/
theorem below_cons (name : String) (q : FieldPath) (ps : List FieldPath) :
    below (name :: q) ps = below q (below [name] ps) := by
  simp only [below, List.filterMap_filterMap]
  congr 1
  funext p
  match p with
  | [] => simp
  | [first] => by_cases same : name = first <;> simp [same, List.cons_prefix_cons]
  | first :: second :: rest => by_cases same : name = first <;> simp [same, List.cons_prefix_cons]

/-- The names of a level are the first segments of its paths. -/
theorem mem_distinct_heads {ps : List FieldPath} :
    name ∈ distinct (ps.filterMap List.head?) ↔ ∃ rest, name :: rest ∈ ps := by
  rw [mem_distinct, List.mem_filterMap]
  constructor
  · rintro ⟨p, member, head⟩
    obtain ⟨rest, rfl⟩ := List.head?_eq_some_iff.mp head
    exact ⟨rest, member⟩
  · rintro ⟨rest, member⟩
    exact ⟨_, member, rfl⟩

theorem exists_length_bound (ps : List FieldPath) : ∃ bound, ∀ p ∈ ps, p.length ≤ bound := by
  induction ps with
  | nil => exact ⟨0, nofun⟩
  | cons p ps ih =>
    obtain ⟨bound, short⟩ := ih
    exact ⟨max p.length bound, List.forall_mem_cons.mpr
      ⟨Nat.le_max_left .., fun q member => Nat.le_trans (short q member) (Nat.le_max_right ..)⟩⟩

/-- What holds of paths as soon as it holds of what is left of them behind the first segments of
one of them holds of all paths. -/
theorem below_induction {motive : List FieldPath → Prop}
    (step : ∀ ps, (∀ q rest, q ≠ [] → q ++ rest ∈ ps → motive (below q ps)) → motive ps)
    (ps : List FieldPath) : motive ps := by
  -- Paths get shorter behind every segment, so a bound on their lengths carries the induction.
  obtain ⟨bound, short⟩ := exists_length_bound ps
  induction bound using Nat.strongRecOn generalizing ps with
  | ind bound ih =>
    apply step
    intro q rest proper asked
    have positive : 0 < q.length := List.length_pos_of_ne_nil proper
    have shorter {p : FieldPath} (member : q ++ p ∈ ps) : q.length + p.length ≤ bound := by
      simpa using short _ member
    have room := shorter asked
    apply ih (bound - q.length) (by omega)
    intro p left
    have bounded := shorter (mem_below.mp left).2
    omega

namespace Selection

def ofPaths (ps : List FieldPath) : Selection := ps.foldl (fun s p => insert p s) []

/-- The entry of a first segment in the selection of some paths. -/
def entryOf (ps : List FieldPath) (name : String) : SelectionEntry :=
  ⟨name, decide ([name] ∈ ps), ofPaths (below [name] ps)⟩

/-- What inserting a path does to the entry of its first segment, given the rest of the path. -/
def grow (rest : FieldPath) (e : SelectionEntry) : SelectionEntry :=
  if rest = [] then { e with terminal := true } else { e with children := insert rest e.children }

theorem insert_cons (name : String) (rest : FieldPath) (s : Selection) :
    insert (name :: rest) s = update name (grow rest) s := by
  cases rest <;> rfl

theorem ofPaths_concat (ps : List FieldPath) (p : FieldPath) :
    ofPaths (ps ++ [p]) = insert p (ofPaths ps) := by
  simp [ofPaths]

/-- Updating a level given by its names updates the one entry of the name, or adds it. -/
theorem update_map {names : List String} {f g : String → SelectionEntry} (unique : names.Nodup)
    (named : ∀ n, (f n).name = n) (others : ∀ n, n ≠ name → g n = f n)
    (own : g name = change (f name)) (blank : name ∉ names → f name = { name }) :
    update name change (names.map f) =
      (if name ∈ names then names else names ++ [name]).map g := by
  induction names with
  | nil => simp [update, own, blank]
  | cons n names ih =>
    obtain ⟨fresh, unique⟩ := List.nodup_cons.mp unique
    rw [List.map_cons, update, named]
    by_cases same : n = name
    · subst same
      have rest : names.map g = names.map f :=
        List.map_congr_left fun m member => others m fun eq => fresh (eq ▸ member)
      simp [own, rest]
    · rw [if_neg same, ih unique fun absent => blank (by simp [Ne.symm same, absent])]
      by_cases member : name ∈ names <;> simp [member, Ne.symm same, others n same]

theorem below_concat_other (different : n ≠ name) (ps : List FieldPath) (rest : FieldPath) :
    below [n] (ps ++ [name :: rest]) = below [n] ps := by
  simp [below, List.cons_prefix_cons, different]

theorem below_concat_same (name : String) (ps : List FieldPath) (rest : FieldPath) :
    below [name] (ps ++ [name :: rest]) = below [name] ps ++ if rest = [] then [] else [rest] := by
  by_cases last : rest = [] <;> simp [below, List.cons_prefix_cons, last, eq_comm]

theorem entryOf_concat_other (different : n ≠ name) (ps : List FieldPath) (rest : FieldPath) :
    entryOf (ps ++ [name :: rest]) n = entryOf ps n := by
  simp [entryOf, below_concat_other different, different]

theorem entryOf_concat_same (name : String) (ps : List FieldPath) (rest : FieldPath) :
    entryOf (ps ++ [name :: rest]) name = grow rest (entryOf ps name) := by
  by_cases last : rest = []
  · simp [entryOf, grow, below_concat_same, last]
  · simp [entryOf, grow, below_concat_same, last, ofPaths_concat, Ne.symm last]

theorem entryOf_absent (absent : name ∉ ps.filterMap List.head?) : entryOf ps name = { name } := by
  have unseen (p : FieldPath) : name :: p ∉ ps := fun member =>
    absent (List.mem_filterMap.mpr ⟨_, member, rfl⟩)
  have nothing : below [name] ps = [] :=
    List.eq_nil_iff_forall_not_mem.mpr fun p member => unseen p (mem_below.mp member).2
  simp [entryOf, unseen, nothing, ofPaths]

/-- A selection level by level: the first segments in order, each with what is below it. -/
theorem ofPaths_eq (ps : List FieldPath) :
    ofPaths ps = (distinct (ps.filterMap List.head?)).map (entryOf ps) := by
  induction ps using List.reverseRecOn with
  | nil => rfl
  | append_singleton ps p ih =>
    rw [ofPaths_concat, List.filterMap_append]
    cases p with
    | nil =>
      have same : entryOf (ps ++ [[]]) = entryOf ps := by
        funext n
        simp [entryOf, below]
      simpa [insert, same, List.filterMap_cons] using ih
    | cons name rest =>
      rw [insert_cons, ih, update_map (nodup_distinct _) (fun _ => rfl)
        (fun n different => entryOf_concat_other different ps rest)
        (entryOf_concat_same name ps rest) (fun absent => entryOf_absent (mt mem_distinct.mpr absent))]
      simp [distinct_concat]

/-- A path that is there already changes nothing when it is inserted once more. -/
theorem ofPaths_concat_of_mem (member : p ∈ ps) : ofPaths (ps ++ [p]) = ofPaths ps := by
  induction p generalizing ps with
  | nil => rw [ofPaths_concat, insert]
  | cons name rest ih =>
    have seen : name ∈ ps.filterMap List.head? := List.mem_filterMap.mpr ⟨_, member, rfl⟩
    have entries : entryOf (ps ++ [name :: rest]) = entryOf ps := by
      funext n
      by_cases same : n = name
      · rw [same, entryOf_concat_same]
        by_cases last : rest = []
        · simp [grow, entryOf, last, last ▸ member]
        · have left : rest ∈ below [name] ps := mem_below.mpr ⟨last, member⟩
          simp [grow, entryOf, last, ← ofPaths_concat, ih left]
      · exact entryOf_concat_other same ps rest
    rw [ofPaths_eq, ofPaths_eq ps, entries, List.filterMap_append]
    simp [distinct_concat, seen]

/-- Every entry is that of a segment with which one of the paths begins. -/
theorem exists_path_of_mem (listed : entry ∈ ofPaths ps) :
    ∃ name rest, name :: rest ∈ ps ∧ entry = entryOf ps name := by
  rw [ofPaths_eq] at listed
  obtain ⟨name, seen, rfl⟩ := List.mem_map.mp listed
  obtain ⟨rest, asked⟩ := mem_distinct_heads.mp seen
  exact ⟨name, rest, asked, rfl⟩

theorem names_ofPaths (ps : List FieldPath) :
    (ofPaths ps).map SelectionEntry.name = distinct (ps.filterMap List.head?) := by
  rw [ofPaths_eq, List.map_map]
  exact List.map_id'' (fun _ => rfl) _

theorem mem_fieldPaths_update (grown : ∀ e : SelectionEntry, e.name = name →
      (p ∈ (change e).fieldPaths ↔ p = q ∨ p ∈ e.fieldPaths)) :
    p ∈ fieldPaths (update name change s) ↔ p = q ∨ p ∈ fieldPaths s := by
  induction s with
  | nil => simp [update, fieldPaths, grown, SelectionEntry.fieldPaths]
  | cons e s ih =>
    rw [update]
    split
    · rename_i same
      simp [fieldPaths, grown e same, or_assoc]
    · simp [fieldPaths, ih, or_left_comm]

theorem mem_fieldPaths_insert {q : FieldPath} (nonempty : q ≠ []) :
    p ∈ fieldPaths (insert q s) ↔ p = q ∨ p ∈ fieldPaths s := by
  induction q generalizing p s with
  | nil => contradiction
  | cons name rest ih =>
    rw [insert_cons]
    refine mem_fieldPaths_update fun e same => ?_
    obtain ⟨_, terminal, children⟩ := e
    subst same
    by_cases last : rest = []
    · subst last
      cases terminal <;> simp [grow, SelectionEntry.fieldPaths]
    · simp only [grow, last, ↓reduceIte, SelectionEntry.fieldPaths, List.mem_append, List.mem_map,
        ih last]
      grind

theorem mem_fieldPaths_ofPaths : p ∈ fieldPaths (ofPaths ps) ↔ p ∈ ps ∧ p ≠ [] := by
  induction ps using List.reverseRecOn with
  | nil => simp [ofPaths, fieldPaths]
  | append_singleton ps q ih =>
    rw [ofPaths_concat]
    by_cases empty : q = []
    · subst empty
      simp only [insert, ih, List.mem_append, List.mem_singleton]
      grind
    · rw [mem_fieldPaths_insert empty, ih]
      simp only [List.mem_append, List.mem_singleton]
      grind

/-- On every level the names differ, and every entry ends a path or has entries below it. -/
inductive WellFormed : List SelectionEntry → Prop where
  | nil : WellFormed []
  | cons {e : SelectionEntry} {rest : List SelectionEntry} :
      (e.terminal = true ∨ e.children ≠ []) → WellFormed e.children →
      e.name ∉ rest.map SelectionEntry.name → WellFormed rest → WellFormed (e :: rest)

theorem wellFormed_map {names : List String} {f : String → SelectionEntry}
    (named : ∀ n, (f n).name = n) (unique : names.Nodup)
    (proper : ∀ n ∈ names, (f n).terminal = true ∨ (f n).children ≠ [])
    (inner : ∀ n ∈ names, WellFormed (f n).children) : WellFormed (names.map f) := by
  induction names with
  | nil => exact .nil
  | cons n names ih =>
    obtain ⟨fresh, unique⟩ := List.nodup_cons.mp unique
    refine .cons (proper n (by simp)) (inner n (by simp)) ?_
      (ih unique (fun m member => proper m (by simp [member])) fun m member => inner m (by simp [member]))
    rw [named, List.map_map]
    rwa [show names.map (SelectionEntry.name ∘ f) = names from List.map_id'' named _]

theorem ofPaths_ne_nil (member : p ∈ ps) (nonempty : p ≠ []) : ofPaths ps ≠ [] := by
  intro empty
  have held := mem_fieldPaths_ofPaths.mpr ⟨member, nonempty⟩
  simp [empty, fieldPaths] at held

theorem wellFormed_ofPaths (ps : List FieldPath) : WellFormed (ofPaths ps) := by
  induction ps using below_induction with
  | step ps ih =>
    rw [ofPaths_eq]
    refine wellFormed_map (fun _ => rfl) (nodup_distinct _) (fun name seen => ?_) fun name seen => ?_
    all_goals
      obtain ⟨rest, member⟩ := mem_distinct_heads.mp seen
    · by_cases last : rest = []
      · exact .inl (by simpa [entryOf, last] using member)
      · exact .inr (ofPaths_ne_nil (mem_below.mpr ⟨last, member⟩) last)
    · exact ih [name] rest (by simp) member

/-- The first path with a blank segment is refused; without one, the segments are merged. -/
theorem parse_eq (entity : String) (paths : List String) : parse entity paths =
    match (requested paths).find? (·.any Text.isBlankText) with
    | some p => .error (.badPath entity p .emptySegment)
    | none => .ok (ofPaths (requested paths)) := by
  suffices ∀ start : Selection, paths.foldlM (fun s path =>
      let segments := Text.split '.' path
      if segments.any Text.isBlankText then throw (.badPath entity segments .emptySegment)
      else pure (insert segments s)) start =
      match (requested paths).find? (·.any Text.isBlankText) with
      | some p => Except.error (SchemaError.badPath entity p .emptySegment)
      | none => .ok ((requested paths).foldl (fun s p => insert p s) start) from this []
  induction paths with
  | nil => exact fun start => rfl
  | cons path paths ih =>
    intro start
    rw [List.foldlM_cons, requested, List.map_cons, List.find?_cons, List.foldl_cons, ← requested]
    by_cases blank : (Text.split '.' path).any Text.isBlankText = true
    · simp only [blank, ↓reduceIte]
      rfl
    · simp only [blank, Bool.false_eq_true, ↓reduceIte, pure_bind, ih]

/-- Paths without blank segments are accepted, and give the selection of their segments. -/
theorem parse_eq_ok_iff {paths : List String} : parse entity paths = .ok s ↔
    (∀ p ∈ requested paths, p.any Text.isBlankText = false) ∧ s = ofPaths (requested paths) := by
  rw [parse_eq]
  cases first : (requested paths).find? (·.any Text.isBlankText) with
  | none =>
    have solid : ∀ p ∈ requested paths, p.any Text.isBlankText = false := by
      simpa only [Bool.not_eq_true] using List.find?_eq_none.mp first
    exact ⟨fun parsed => ⟨solid, (Except.ok.inj parsed).symm⟩, fun h => congrArg _ h.2.symm⟩
  | some p =>
    have blank := List.find?_some first
    have asked : p ∈ requested paths := List.mem_of_find?_eq_some first
    simp only [reduceCtorEq, false_iff]
    rintro ⟨solid, -⟩
    simp [solid p asked] at blank

theorem parse_eq_error_iff {paths : List String} : parse entity paths = .error problem ↔
    ∃ p, (requested paths).find? (·.any Text.isBlankText) = some p ∧
      problem = .badPath entity p .emptySegment := by
  rw [parse_eq]
  cases (requested paths).find? (·.any Text.isBlankText) <;> simp [eq_comm]

theorem exists_error_iff {paths : List String} : (∃ problem, parse entity paths = .error problem) ↔
    ∃ p ∈ requested paths, p.any Text.isBlankText = true := by
  simp only [parse_eq_error_iff]
  rw [← List.find?_isSome, Option.isSome_iff_exists]
  constructor
  · rintro ⟨_, p, first, _⟩
    exact ⟨p, first⟩
  · rintro ⟨p, first⟩
    exact ⟨_, p, first, rfl⟩

/-- Reading a path once more after all others changes nothing, where reading fails included. -/
theorem parse_concat_of_mem {paths : List String} (member : path ∈ paths) :
    parse entity (paths ++ [path]) = parse entity paths := by
  cases parsed : parse entity paths with
  | error problem =>
    rw [parse] at parsed
    rw [parse, List.foldlM_append, parsed]
    rfl
  | ok s =>
    obtain ⟨solid, rfl⟩ := parse_eq_ok_iff.mp parsed
    have asked : Text.split '.' path ∈ requested paths := List.mem_map_of_mem member
    have more : requested (paths ++ [path]) = requested paths ++ [Text.split '.' path] := by
      simp [requested]
    rw [parse_eq_ok_iff, more, ofPaths_concat_of_mem asked]
    refine ⟨fun p among => ?_, rfl⟩
    rcases List.mem_append.mp among with among | last
    · exact solid p among
    · exact List.mem_singleton.mp last ▸ solid _ asked

end Selection
end FetchPlan
