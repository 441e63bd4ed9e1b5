import FetchPlan.Alias
import FetchPlan.Proofs.Text

/-! Aliases and the paths they stand for. An alias tells its path only if the segments leave the
separator recognizable, which registration does not ask of them. -/
namespace FetchPlan

theorem tableAlias_cons (name : String) (nonempty : q ≠ []) :
    tableAlias (name :: q) = liftedAlias name (tableAlias q) := by
  cases q with
  | nil => contradiction
  | cons => rfl

theorem tableAlias_concat (nonempty : q ≠ []) (name : String) :
    tableAlias (q ++ [name]) = columnAlias q name :=
  Text.join_append aliasSeparator nonempty (by simp)

theorem foreignKey_inj : foreignKey a = foreignKey b ↔ a = b := by
  simp [foreignKey]

/-- A name in which no separator starts, not even one that the next segment would complete. -/
def isFlat (name : String) : Bool := (Text.cutOnce aliasSeparator (name ++ "_")).isNone

theorem isFlat_iff : isFlat name = true ↔ ¬ ['_', '_'] <:+: name.toList ++ ['_'] := by
  rw [← Text.cut_eq_none_iff (by simp)]
  simp [isFlat, Text.cutOnce, aliasSeparator]

theorem isFlat_foreignKey (flat : isFlat name = true) : isFlat (foreignKey name) = true := by
  rw [isFlat_iff] at flat ⊢
  have letters : (foreignKey name).toList ++ ['_'] = name.toList ++ ['_'] ++ ['i'] ++ ['d'] ++ ['_'] := by
    simp [foreignKey]
  rw [letters, List.infix_concat_iff, List.infix_concat_iff, List.infix_concat_iff]
  rintro (ends | ends | ends | inside)
  · simpa [List.cons_prefix_cons] using List.reverse_prefix.mpr ends
  · simpa [List.cons_prefix_cons] using List.reverse_prefix.mpr ends
  · simpa [List.cons_prefix_cons] using List.reverse_prefix.mpr ends
  · exact flat inside

theorem cutOnce_of_flat (flat : isFlat name = true) : Text.cutOnce aliasSeparator name = none := by
  have absent : ¬ ['_', '_'] <:+: name.toList := fun inside =>
    isFlat_iff.mp flat (List.infix_append_of_infix_left inside)
  rw [Text.cutOnce]
  exact congrArg _ ((Text.cut_eq_none_iff (by simp)).mpr absent)

theorem cutOnce_liftedAlias (flat : isFlat name = true) (loader : String) :
    Text.cutOnce aliasSeparator (liftedAlias name loader) = some (name, loader) := by
  have absent := (Text.cut_eq_none_iff (by simp)).mpr (isFlat_iff.mp flat)
  have first := Text.cut_append (show aliasSeparator.toList ≠ [] by decide) absent loader.toList
  rw [Text.cutOnce, liftedAlias, String.toList_append, String.toList_append, List.append_assoc, first]
  simp

/-- Flat segments can be read off the alias they make. -/
theorem tableAlias_injective {p q : FieldPath} (nonempty : p ≠ []) (nonempty' : q ≠ [])
    (flat : ∀ name ∈ p, isFlat name = true) (flat' : ∀ name ∈ q, isFlat name = true)
    (same : tableAlias p = tableAlias q) : p = q := by
  induction p generalizing q with
  | nil => contradiction
  | cons a p ih =>
    obtain ⟨b, q, rfl⟩ := List.exists_cons_of_ne_nil nonempty'
    have flatA := flat a (by simp)
    have flatB := flat' b (by simp)
    have cuts := congrArg (Text.cutOnce aliasSeparator) same
    by_cases last : p = [] <;> by_cases last' : q = []
    · subst last last'
      exact congrArg (fun name => [name]) same
    · subst last
      rw [tableAlias_cons b last', cutOnce_liftedAlias flatB] at cuts
      cases (cutOnce_of_flat flatA).symm.trans cuts
    · subst last'
      rw [tableAlias_cons a last, cutOnce_liftedAlias flatA] at cuts
      cases cuts.trans (cutOnce_of_flat flatB)
    · rw [tableAlias_cons a last, tableAlias_cons b last', cutOnce_liftedAlias flatA,
        cutOnce_liftedAlias flatB] at cuts
      obtain ⟨rfl, rest⟩ := Prod.mk.inj (Option.some.inj cuts)
      rw [ih last last' (fun n member => flat n (by simp [member]))
        (fun n member => flat' n (by simp [member])) rest]

def FlatPaths (ps : List FieldPath) : Prop := ∀ p ∈ ps, ∀ name ∈ p, isFlat name = true

instance (ps : List FieldPath) : Decidable (FlatPaths ps) :=
  inferInstanceAs (Decidable (∀ p ∈ ps, ∀ name ∈ p, isFlat name = true))

theorem FlatPaths.left (flat : FlatPaths ps) (asked : q ++ rest ∈ ps) :
    ∀ name ∈ q, isFlat name = true :=
  fun name member => flat _ asked name (List.mem_append_left _ member)

end FetchPlan
