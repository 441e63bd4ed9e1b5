import FetchPlan.Proofs.Text

/-! Texts as lines, each ended by a newline. A text that was written line by line has the lines it was
written with exactly if none of them holds a newline; otherwise it has more. -/
namespace FetchPlan.Text

/-- No newline stands in the text. -/
def OneLine (s : String) : Prop := '\n' ∉ s.toList

instance (s : String) : Decidable (OneLine s) := inferInstanceAs (Decidable ('\n' ∉ s.toList))

/-- The lines of a text. What stands behind the last newline is none of them. -/
def lines (s : String) : List String := (split '\n' s).dropLast

def ofLines (ls : List String) : String := String.join (ls.map (· ++ "\n"))

@[simp] theorem oneLine_append : OneLine (s ++ t) ↔ OneLine s ∧ OneLine t := by
  simp [OneLine]

theorem oneLine_join (separator : OneLine sep) : OneLine (join sep ps) ↔ ∀ s ∈ ps, OneLine s := by
  fun_induction join with
  | case1 => exact iff_of_true (by decide) (List.forall_mem_nil _)
  | case2 s => rw [List.forall_mem_singleton]
  | case3 s t rest ih => simp [separator, ih]

theorem length_splitOn [BEq α] [LawfulBEq α] (sep : α) (s : List α) :
    (s.splitOn sep).length = s.count sep + 1 := by
  induction s with
  | nil => rfl
  | cons a s ih =>
    rw [List.splitOn_cons_eq_if_modifyHead, List.count_cons]
    split <;> simp [ih]

theorem length_lines (s : String) : (lines s).length = s.toList.count '\n' := by
  simp [lines, split_eq, length_splitOn]

theorem ofLines_cons (l : String) (ls : List String) :
    (ofLines (l :: ls)).toList = l.toList ++ '\n' :: (ofLines ls).toList := by
  simp [ofLines]

theorem length_lines_ofLines_cons (l : String) (ls : List String) :
    (lines (ofLines (l :: ls))).length = l.toList.count '\n' + 1 + (lines (ofLines ls)).length := by
  rw [length_lines, length_lines, ofLines_cons, List.count_append, List.count_cons_self]
  omega

theorem le_length_lines_ofLines (ls : List String) : ls.length ≤ (lines (ofLines ls)).length := by
  induction ls with
  | nil => exact Nat.zero_le _
  | cons l ls ih =>
    rw [length_lines_ofLines_cons, List.length_cons]
    omega

theorem length_lines_ofLines_iff :
    (lines (ofLines ls)).length = ls.length ↔ ∀ l ∈ ls, OneLine l := by
  induction ls with
  | nil => simp [ofLines, length_lines]
  | cons l ls ih =>
    have least := le_length_lines_ofLines ls
    rw [List.forall_mem_cons, ← ih, OneLine, ← List.count_eq_zero, length_lines_ofLines_cons,
      List.length_cons]
    omega

theorem split_ofLines (single : ∀ l ∈ ls, OneLine l) : split '\n' (ofLines ls) = ls ++ [""] := by
  induction ls with
  | nil => rfl
  | cons l ls ih =>
    obtain ⟨first, others⟩ := List.forall_mem_cons.mp single
    rw [split_eq, ofLines_cons, List.splitOn_append_cons_self_of_not_mem first, List.map_cons, ← split_eq,
      ih others, String.ofList_toList, List.cons_append]

/-- The lines a text was written with are its lines if none of them is broken. -/
theorem lines_ofLines_iff : lines (ofLines ls) = ls ↔ ∀ l ∈ ls, OneLine l := by
  constructor
  · exact fun same => length_lines_ofLines_iff.mp (congrArg List.length same)
  · exact fun single => by rw [lines, split_ofLines single, List.dropLast_concat]

end FetchPlan.Text
