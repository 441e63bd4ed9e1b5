/-! Finite maps from text, kept as a list with strictly increasing keys. Two maps with
the same entries are therefore the same value, whatever order they were filled in. -/
namespace FetchPlan

/-- Puts an entry in its place and replaces the one that has its key. -/
def insertSorted (key : String) (value : α) : List (String × α) → List (String × α)
  | [] => [(key, value)]
  | (k, v) :: rest =>
    if key < k then (key, value) :: (k, v) :: rest
    else if key = k then (key, value) :: rest
    else (k, v) :: insertSorted key value rest

theorem mem_insertSorted {key : String} {value : α} {e : String × α} {l : List (String × α)}
    (h : e ∈ insertSorted key value l) : e = (key, value) ∨ e ∈ l := by
  induction l with
  | nil => simpa [insertSorted] using h
  | cons hd tl ih =>
    obtain ⟨k, v⟩ := hd
    rw [insertSorted] at h
    split at h
    · simpa using h
    · split at h
      · rcases List.mem_cons.1 h with h | h
        · exact .inl h
        · exact .inr (List.mem_cons_of_mem _ h)
      · rcases List.mem_cons.1 h with h | h
        · exact .inr (h ▸ List.mem_cons_self)
        · exact (ih h).imp id (List.mem_cons_of_mem _)

theorem insertSorted_pairwise (key : String) (value : α) {l : List (String × α)}
    (h : l.Pairwise (·.1 < ·.1)) : (insertSorted key value l).Pairwise (·.1 < ·.1) := by
  induction l with
  | nil => simp [insertSorted]
  | cons hd tl ih =>
    obtain ⟨k, v⟩ := hd
    obtain ⟨hk, ht⟩ := List.pairwise_cons.1 h
    rw [insertSorted]
    split
    · rename_i lt
      refine List.pairwise_cons.2 ⟨fun e he => ?_, h⟩
      rcases List.mem_cons.1 he with rfl | he
      · exact lt
      · exact String.lt_trans lt (hk e he)
    · split
      · rename_i eq
        subst eq
        exact List.pairwise_cons.2 ⟨hk, ht⟩
      · rename_i nlt ne
        refine List.pairwise_cons.2 ⟨fun e he => ?_, ih ht⟩
        rcases mem_insertSorted he with rfl | he
        · apply Decidable.byContradiction
          intro other
          exact ne (String.le_antisymm (String.not_lt.1 other) (String.not_lt.1 nlt))
        · exact hk e he

theorem find?_insertSorted (key : String) (value : α) (wanted : String) (l : List (String × α)) :
    (insertSorted key value l).find? (·.1 = wanted) =
      if key = wanted then some (key, value) else l.find? (·.1 = wanted) := by
  induction l with
  | nil => by_cases found : key = wanted <;> simp [insertSorted, found]
  | cons hd tl ih =>
    obtain ⟨k, v⟩ := hd
    rw [insertSorted]
    split
    · by_cases found : key = wanted <;> simp [found]
    · split
      · rename_i eq
        subst eq
        by_cases found : key = wanted <;> simp [found]
      · rename_i ne
        by_cases found : k = wanted
        · simp [found, found ▸ ne]
        · simp [found, ih]

/-- A key behind all others goes to the end. -/
theorem insertSorted_of_forall_lt {key : String} (value : α) {l : List (String × α)}
    (last : ∀ e ∈ l, e.1 < key) : insertSorted key value l = l ++ [(key, value)] := by
  induction l with
  | nil => rfl
  | cons hd tl ih =>
    obtain ⟨k, v⟩ := hd
    have lt : k < key := last (k, v) List.mem_cons_self
    have ne : key ≠ k := fun same => String.lt_irrefl k (same ▸ lt)
    rw [insertSorted, if_neg (String.lt_asymm lt), if_neg ne,
      ih fun e member => last e (List.mem_cons_of_mem _ member), List.cons_append]

structure SortedMap (α : Type) where
  entries : List (String × α)
  sorted : entries.Pairwise (·.1 < ·.1)
  deriving DecidableEq

namespace SortedMap

def empty : SortedMap α := ⟨[], .nil⟩

instance : Inhabited (SortedMap α) := ⟨empty⟩

def insert (m : SortedMap α) (key : String) (value : α) : SortedMap α :=
  ⟨insertSorted key value m.entries, insertSorted_pairwise key value m.sorted⟩

/-- The map of some entries; a later entry replaces an earlier one with its key. -/
def ofList (l : List (String × α)) : SortedMap α :=
  l.foldl (fun m e => m.insert e.1 e.2) empty

def get? (m : SortedMap α) (key : String) : Option α :=
  (m.entries.find? (·.1 = key)).map (·.2)

theorem get?_insert (m : SortedMap α) (key : String) (value : α) (wanted : String) :
    (m.insert key value).get? wanted = if key = wanted then some value else m.get? wanted := by
  rw [get?, insert, find?_insertSorted]
  split <;> rfl

def contains (m : SortedMap α) (key : String) : Bool := m.entries.any (·.1 = key)

def keys (m : SortedMap α) : List String := m.entries.map (·.1)

def values (m : SortedMap α) : List α := m.entries.map (·.2)

def size (m : SortedMap α) : Nat := m.entries.length

theorem get?_eq_some_iff {m : SortedMap α} : m.get? key = some a ↔ (key, a) ∈ m.entries := by
  rw [get?, Option.map_eq_some_iff]
  constructor
  · rintro ⟨⟨k, a⟩, found, rfl⟩
    have named : k = key := by simpa using List.find?_some found
    exact named ▸ List.mem_of_find?_eq_some found
  · intro member
    obtain ⟨before, after, split⟩ := List.append_of_mem member
    have sorted := m.sorted
    rw [split] at sorted
    have smaller := (List.pairwise_append.mp sorted).2.2
    refine ⟨(key, a), ?_, rfl⟩
    rw [List.find?_eq_some_iff_append]
    refine ⟨by simp, before, after, split, fun e earlier => ?_⟩
    have lt : e.1 < key := smaller e earlier (key, a) List.mem_cons_self
    have ne : e.1 ≠ key := fun same => String.lt_irrefl key (same ▸ lt)
    simp [ne]

theorem mem_keys {m : SortedMap α} : key ∈ m.keys ↔ ∃ a, m.get? key = some a := by
  simp [keys, get?_eq_some_iff]

theorem mem_values {m : SortedMap α} : a ∈ m.values ↔ ∃ key, m.get? key = some a := by
  simp [values, get?_eq_some_iff]

theorem mem_keys_insert {m : SortedMap α} {value : α} :
    k ∈ (m.insert key value).keys ↔ k = key ∨ k ∈ m.keys := by
  simp only [mem_keys, get?_insert]
  by_cases same : key = k
  · simp [same]
  · simp [same, Ne.symm same]

theorem mem_keys_ofList {l : List (String × α)} : k ∈ (ofList l).keys ↔ k ∈ l.map (·.1) := by
  have filled (m : SortedMap α) :
      k ∈ (l.foldl (fun m e => m.insert e.1 e.2) m).keys ↔ k ∈ m.keys ∨ k ∈ l.map (·.1) := by
    induction l generalizing m with
    | nil => simp
    | cons e rest ih =>
      rw [List.foldl_cons, ih, mem_keys_insert, List.map_cons, List.mem_cons, or_comm (a := k = e.1), or_assoc]
  rw [ofList, filled]
  exact or_iff_right List.not_mem_nil

/-- The entries of a map, taken in order, fill an equal one. -/
theorem ofList_entries (m : SortedMap α) : ofList m.entries = m := by
  have filled (l : List (String × α)) (n : SortedMap α) (sorted : (n.entries ++ l).Pairwise (·.1 < ·.1)) :
      (l.foldl (fun n e => n.insert e.1 e.2) n).entries = n.entries ++ l := by
    induction l generalizing n with
    | nil => simp
    | cons e rest ih =>
      have last : ∀ e' ∈ n.entries, e'.1 < e.1 := fun e' member =>
        (List.pairwise_append.mp sorted).2.2 e' member e List.mem_cons_self
      have entries : (n.insert e.1 e.2).entries = n.entries ++ [e] := insertSorted_of_forall_lt e.2 last
      rw [List.foldl_cons, ih _ (by simpa [entries] using sorted), entries, List.append_assoc, List.singleton_append]
  have entries := filled m.entries empty m.sorted
  cases m
  rw [ofList, SortedMap.mk.injEq]
  exact entries

theorem keys_increasing (m : SortedMap α) : m.keys.Pairwise (· < ·) :=
  List.pairwise_map.mpr m.sorted

/-- Maps that answer every look-up alike are the same value. -/
theorem ext_get? {m n : SortedMap α} (same : ∀ key, m.get? key = n.get? key) : m = n := by
  have distinct (k : SortedMap α) : k.entries.Nodup := by
    refine List.Pairwise.imp ?_ k.sorted
    rintro e _ lt rfl
    exact String.lt_irrefl _ lt
  have members (e : String × α) : e ∈ m.entries ↔ e ∈ n.entries := by
    rw [← get?_eq_some_iff, ← get?_eq_some_iff, same]
  have perm : m.entries.Perm n.entries :=
    (List.perm_ext_iff_of_nodup (distinct m) (distinct n)).mpr members
  have entries : m.entries = n.entries := by
    refine List.Perm.eq_of_pairwise (fun e e' _ _ lt gt => ?_) m.sorted n.sorted perm
    exact absurd gt (String.lt_asymm lt)
  cases m
  cases n
  congr

end SortedMap
end FetchPlan
