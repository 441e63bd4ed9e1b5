import FetchPlan.Sorting
import Mathlib.Data.List.Basic

/-! What sorting by a key does and what it leaves alone. The values stay the same ones, and those of
one key stay in order; so the order they came in is only forgotten where keys differ. -/
namespace FetchPlan

section Key

variable [LT κ] [DecidableLT κ] (key : α → κ)

theorem insertOn_perm (a : α) (l : List α) : (insertOn key a l).Perm (a :: l) := by
  induction l with
  | nil => exact .rfl
  | cons b rest ih =>
    rw [insertOn]
    split
    · exact (ih.cons b).trans (.swap a b rest)
    · exact .rfl

theorem sortOn_perm (l : List α) : (sortOn key l).Perm l := by
  induction l with
  | nil => exact .rfl
  | cons a rest ih => exact (insertOn_perm key a _).trans (ih.cons a)

/-- Nothing but the key of a value tells where it goes. -/
theorem map_insertOn (f : β → α) (b : β) (l : List β) :
    (insertOn (fun b => key (f b)) b l).map f = insertOn key (f b) (l.map f) := by
  induction l with
  | nil => rfl
  | cons c rest ih =>
    rw [insertOn, List.map_cons, insertOn]
    split
    · rw [List.map_cons, ih]
    · rfl

theorem map_sortOn (f : β → α) (l : List β) : (sortOn (fun b => key (f b)) l).map f = sortOn key (l.map f) := by
  induction l with
  | nil => rfl
  | cons b rest ih => rw [sortOn, map_insertOn, ih, List.map_cons, sortOn]

variable {key}

theorem perm_of_sortOn_eq (same : sortOn key l = sortOn key m) : l.Perm m :=
  (sortOn_perm key l).symm.trans (same ▸ sortOn_perm key m)

variable [LE κ] [Std.LawfulOrderLT κ]

/-- A value is put before those that have its key already. -/
theorem filter_insertOn [DecidableEq κ] (k : κ) (a : α) (l : List α) :
    (insertOn key a l).filter (key · = k) = (a :: l).filter (key · = k) := by
  induction l with
  | nil => rfl
  | cons b rest ih =>
    rw [insertOn]
    split
    · rename_i less
      rw [List.filter_cons, ih]
      by_cases here : key a = k
      · have there : key b ≠ k := fun same => Std.lt_irrefl (here ▸ same ▸ less)
        simp [here, there]
      · simp [List.filter_cons, here]
    · rfl

/-- Sorting is stable. -/
theorem filter_sortOn [DecidableEq κ] (k : κ) (l : List α) :
    (sortOn key l).filter (key · = k) = l.filter (key · = k) := by
  induction l with
  | nil => rfl
  | cons a rest ih => rw [sortOn, filter_insertOn, List.filter_cons, List.filter_cons, ih]

/-- Of the values of one key, the first one stays in front. -/
theorem head_eq_of_sortOn_eq [DecidableEq κ] (same : sortOn key (a :: l) = sortOn key (b :: m))
    (tie : key a = key b) : a = b := by
  have kept := congrArg (List.filter (key · = key b)) same
  rw [filter_sortOn, filter_sortOn, List.filter_cons_of_pos (by simpa using tie),
    List.filter_cons_of_pos (by simp)] at kept
  exact (List.cons.inj kept).1

variable [Std.IsLinearOrder κ]

theorem insertOn_sorted (a : α) (sorted : l.Pairwise fun b c => key b ≤ key c) :
    (insertOn key a l).Pairwise fun b c => key b ≤ key c := by
  induction l with
  | nil => exact List.pairwise_singleton _ a
  | cons b rest ih =>
    obtain ⟨first, later⟩ := List.pairwise_cons.mp sorted
    rw [insertOn]
    split
    · rename_i less
      refine List.pairwise_cons.mpr ⟨fun c member => ?_, ih later⟩
      rcases List.mem_cons.mp ((insertOn_perm key a rest).mem_iff.mp member) with rfl | member
      · exact Std.le_of_lt less
      · exact first c member
    · rename_i notLess
      have least : key a ≤ key b := Std.not_lt.mp notLess
      refine List.pairwise_cons.mpr ⟨List.forall_mem_cons.mpr ⟨least, fun c member => ?_⟩, sorted⟩
      exact Std.le_trans least (first c member)

theorem sortOn_sorted (l : List α) : (sortOn key l).Pairwise fun b c => key b ≤ key c := by
  induction l with
  | nil => exact .nil
  | cons a rest ih => exact insertOn_sorted a ih

theorem sortOn_increasing (distinct : (l.map key).Nodup) : (sortOn key l).Pairwise fun a b => key a < key b := by
  have apart := ((sortOn_perm key l).map key).nodup_iff.mpr distinct
  refine ((sortOn_sorted l).and (List.pairwise_map.mp apart)).imp ?_
  rintro a b ⟨le, ne⟩
  exact Std.lt_of_le_of_ne le ne

/-- Where no key belongs to two values, sorting forgets the order they came in. -/
theorem sortOn_eq_of_perm (order : l.Perm m) (tell : ∀ a ∈ l, ∀ b ∈ l, key a = key b → a = b) :
    sortOn key l = sortOn key m := by
  have sorted := ((sortOn_perm key l).trans order).trans (sortOn_perm key m).symm
  refine sorted.eq_of_pairwise (fun a b first second le ge => ?_) (sortOn_sorted l) (sortOn_sorted m)
  have first := (sortOn_perm key l).mem_iff.mp first
  have second := order.mem_iff.mpr ((sortOn_perm key m).mem_iff.mp second)
  exact tell a first b second (Std.le_antisymm le ge)

end Key

theorem sortOn_id_eq_iff [LT κ] [DecidableLT κ] [LE κ] [Std.LawfulOrderLT κ] [Std.IsLinearOrder κ]
    {l m : List κ} : sortOn id l = sortOn id m ↔ l.Perm m :=
  ⟨perm_of_sortOn_eq, fun order => sortOn_eq_of_perm order fun _ _ _ _ same => same⟩

end FetchPlan
