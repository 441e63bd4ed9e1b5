import FetchPlan.Inflection
import FetchPlan.Proofs.Text.Lines

/-! Singular forms bring no newline into a text: a rule keeps letters of the word and adds letters of its
own. -/
namespace FetchPlan.Inflection

/-- What a rule writes in place of an ending. -/
def Rule.written : Rule → String
  | whole _ singular | opening _ singular => singular
  | stem _ replacement | dropping _ _ replacement | keeping _ _ replacement => replacement

theorem rules_written : ∀ rule ∈ rules, Text.OneLine rule.written := by
  decide

theorem beforeEnding_sublist (found : beforeEnding ending reversed = some before) :
    before.Sublist reversed := by
  obtain ⟨_, same⟩ := Option.ite_none_right_eq_some.mp found
  cases same
  exact List.drop_sublist ..

theorem oneLine_lastRun (clean : '\n' ∉ reversed) : Text.OneLine (String.ofList (lastRun reversed)) := by
  have within : '\n' ∉ reversed.takeWhile Text.isWordChar := fun member =>
    clean ((List.takeWhile_sublist _).subset member)
  simpa [Text.OneLine, lastRun] using within

theorem Rule.oneLine_apply {rule : Rule} (clean : '\n' ∉ word) (written : Text.OneLine rule.written)
    (applied : rule.apply word = some s) : Text.OneLine s := by
  have before {ending : String} {rest : List Char} (found : beforeEnding ending word.reverse = some rest) :
      '\n' ∉ rest := fun member => clean (List.mem_reverse.mp ((beforeEnding_sublist found).subset member))
  cases rule with
  | whole ending singular =>
    obtain ⟨_, _, rfl⟩ := Option.map_eq_some_iff.mp applied
    exact written
  | opening beginning singular =>
    obtain ⟨_, same⟩ := Option.ite_none_right_eq_some.mp applied
    cases same
    exact written
  | stem ending replacement =>
    obtain ⟨_, found, rfl⟩ := Option.map_eq_some_iff.mp applied
    exact Text.oneLine_append.mpr ⟨oneLine_lastRun (before found), written⟩
  | dropping excluded ending replacement =>
    rw [apply] at applied
    split at applied
    · rename_i c rest found
      obtain ⟨_, same⟩ := Option.ite_none_left_eq_some.mp applied
      cases same
      have rest := List.not_mem_of_not_mem_cons (before found)
      exact Text.oneLine_append.mpr ⟨oneLine_lastRun rest, written⟩
    · contradiction
  | keeping excluded ending replacement =>
    rw [apply] at applied
    split at applied
    · rename_i rest found
      cases applied
      have rest := List.not_mem_of_not_mem_cons (List.not_mem_of_not_mem_cons (before found))
      have kept : Text.OneLine "qu" := by decide
      simp [oneLine_lastRun rest, kept, show Text.OneLine replacement from written]
    · rename_i c rest _ found
      obtain ⟨other, rest⟩ := List.ne_and_not_mem_of_not_mem_cons (before found)
      obtain ⟨_, applied⟩ := Option.ite_none_left_eq_some.mp applied
      split at applied <;> cases applied
      · exact oneLine_lastRun rest
      · have kept : Text.OneLine (String.ofList [c]) := by simpa [Text.OneLine] using other
        rw [String.ofList_append]
        exact Text.oneLine_append.mpr ⟨Text.oneLine_append.mpr ⟨oneLine_lastRun rest, kept⟩, written⟩
    · contradiction

theorem oneLine_regularSingular (clean : Text.OneLine word) : Text.OneLine (regularSingular word) := by
  rw [regularSingular]
  split
  · exact clean
  · split
    · rename_i found
      have known : ∀ x ∈ exact, Text.OneLine x.2 := by decide
      exact known _ (List.mem_of_find?_eq_some found)
    · cases applied : rules.findSome? (Rule.apply word.toList) with
      | none => exact clean
      | some singular =>
        obtain ⟨rule, member, applied⟩ := List.exists_of_findSome?_eq_some applied
        exact Rule.oneLine_apply clean (rules_written rule member) applied

theorem oneLine_singularize (clean : Text.OneLine word) : Text.OneLine (singularize word) := by
  rw [singularize]
  split
  · rename_i found
    have known : ∀ x ∈ irregular, Text.OneLine x.1 := by decide
    exact known _ (List.mem_of_find?_eq_some found)
  · exact oneLine_regularSingular clean

end FetchPlan.Inflection
