import FetchPlan.FieldPath

/-! Cutting and joining text. Dotted paths and their segments determine each other as long as no
segment contains a dot, and the segments of a path never do. -/
namespace FetchPlan

namespace Text

theorem cut_eq_none_iff {s : List Char} (nonempty : word ≠ []) :
    cut word s = none ↔ ¬ word <:+: s := by
  induction s with
  | nil => simp [cut, nonempty]
  | cons c s ih =>
    rw [cut, List.infix_cons_iff, ← List.isPrefixOf_iff_prefix]
    by_cases here : word.isPrefixOf (c :: s) = true
    · simp [here]
    · simp [here, ih]

theorem cut_of_prefix (nonempty : word ≠ []) (rest : List Char) :
    cut word (word ++ rest) = some ([], rest) := by
  cases word with
  | nil => contradiction
  | cons c word =>
    have here : (c :: word).isPrefixOf (c :: (word ++ rest)) = true := by
      rw [List.isPrefixOf_iff_prefix]
      exact List.prefix_append (c :: word) rest
    rw [List.cons_append, cut, if_pos here, ← List.cons_append, List.drop_left]

/-- If a word is not completed within `s` and its own beginning, it occurs first behind `s`. -/
theorem cut_append {s : List Char} (nonempty : word ≠ [])
    (absent : cut word (s ++ word.dropLast) = none) (rest : List Char) :
    cut word (s ++ (word ++ rest)) = some (s, rest) := by
  induction s with
  | nil => exact cut_of_prefix nonempty rest
  | cons c s ih =>
    rw [List.cons_append, cut] at absent
    split at absent
    · contradiction
    · rename_i apart
      have apart' : ¬ word.isPrefixOf (c :: (s ++ (word ++ rest))) = true := by
        intro starts
        apply apart
        rw [List.isPrefixOf_iff_prefix] at starts ⊢
        have longer : c :: (s ++ word.dropLast) <+: c :: (s ++ (word ++ rest)) := by
          refine (List.prefix_cons_inj c).mpr ((List.prefix_append_right_inj s).mpr ?_)
          exact (List.dropLast_prefix word).trans (List.prefix_append word rest)
        refine List.prefix_of_prefix_length_le starts longer ?_
        simp only [List.length_cons, List.length_append, List.length_dropLast]
        omega
      rw [List.cons_append, cut, if_neg apart', ih (by simpa using absent)]
      rfl

theorem cut_eq_some_iff {s : List Char} : cut word s = some (left, right) ↔ s = left ++ (word ++ right) ∧
    ∀ left' right', s = left' ++ (word ++ right') → left.length ≤ left'.length := by
  induction s generalizing left with
  | nil => cases word <;> simp +contextual [cut, eq_comm]
  | cons c s ih =>
    rw [cut]
    by_cases here : word.isPrefixOf (c :: s) = true
    · obtain ⟨rest, split⟩ := List.isPrefixOf_iff_prefix.mp here
      rw [if_pos here, ← split, List.drop_left]
      constructor
      · intro found
        cases found
        exact ⟨rfl, fun _ _ _ => Nat.zero_le _⟩
      · rintro ⟨parts, first⟩
        have none_before : left = [] := List.length_eq_zero_iff.mp (Nat.le_zero.mp (first [] rest rfl))
        subst none_before
        rw [List.append_cancel_left parts]
    · rw [if_neg here, Option.map_eq_some_iff]
      constructor
      · rintro ⟨⟨before, after⟩, found, same⟩
        cases same
        obtain ⟨parts, first⟩ := ih.mp found
        refine ⟨congrArg (c :: ·) parts, fun left' right' parts' => ?_⟩
        cases left' with
        | nil => exact absurd (List.isPrefixOf_iff_prefix.mpr ⟨right', parts'.symm⟩) here
        | cons _ left' => exact Nat.succ_le_succ (first left' right' (List.cons.inj parts').2)
      · rintro ⟨parts, first⟩
        cases left with
        | nil => exact absurd (List.isPrefixOf_iff_prefix.mpr ⟨right, parts.symm⟩) here
        | cons _ left =>
          obtain ⟨rfl, rest⟩ := List.cons.inj parts
          refine ⟨(left, right), ih.mpr ⟨rest, fun left' right' parts' => ?_⟩, rfl⟩
          exact Nat.le_of_succ_le_succ (first (c :: left') right' (congrArg (c :: ·) parts'))

/-- A word first occurs in a text with these parts before and behind it. -/
structure FirstCut (word s left right : String) : Prop where
  parts : s = left ++ word ++ right
  first : ∀ left' right', s = left' ++ word ++ right' → left.length ≤ left'.length

theorem cutOnce_eq_some_iff {word s : String} :
    cutOnce word s = some (left, right) ↔ FirstCut word s left right := by
  have letters (l r : String) : s = l ++ word ++ r ↔ s.toList = l.toList ++ (word.toList ++ r.toList) := by
    rw [← String.toList_inj, String.toList_append, String.toList_append, List.append_assoc]
  have found : cutOnce word s = some (left, right) ↔
      cut word.toList s.toList = some (left.toList, right.toList) := by
    rw [cutOnce, Option.map_eq_some_iff]
    constructor
    · rintro ⟨⟨before, after⟩, found, same⟩
      cases same
      simpa using found
    · intro found
      exact ⟨_, found, by simp⟩
  rw [found, cut_eq_some_iff]
  constructor
  · rintro ⟨parts, first⟩
    exact ⟨(letters left right).mpr parts, fun l r parts' => first _ _ ((letters l r).mp parts')⟩
  · rintro ⟨parts, first⟩
    refine ⟨(letters left right).mp parts, fun before after parts' => ?_⟩
    have shorter := first (.ofList before) (.ofList after) ((letters _ _).mpr (by simpa using parts'))
    simpa only [String.length_toList, String.length_ofList] using shorter

theorem pieces_eq_splitOn [DecidableEq α] (sep : α) (s : List α) : pieces sep s = s.splitOn sep := by
  induction s with
  | nil => rfl
  | cons a s ih =>
    rw [pieces, List.splitOn_cons_eq_if_modifyHead, ih]
    cases rest : s.splitOn sep with
    | nil => exact absurd rest (List.splitOn_ne_nil sep s)
    | cons => by_cases same : a = sep <;> simp [same]

theorem split_eq (sep : Char) (s : String) : split sep s = (s.toList.splitOn sep).map String.ofList := by
  rw [split, pieces_eq_splitOn]

theorem split_ne_nil (sep : Char) (s : String) : split sep s ≠ [] := by
  simp [split_eq]

theorem not_mem_of_mem_splitOn [BEq α] [LawfulBEq α] {sep : α} (member : piece ∈ List.splitOn sep s) :
    sep ∉ piece := by
  induction s generalizing piece with
  | nil => simp_all
  | cons a s ih =>
    rw [List.splitOn_cons_eq_if_modifyHead] at member
    obtain ⟨first, rest, parts⟩ := List.exists_cons_of_ne_nil (List.splitOn_ne_nil sep s)
    rw [parts] at member ih
    by_cases same : a = sep
    · simp only [same, beq_self_eq_true, ↓reduceIte, List.mem_cons] at member
      rcases member with rfl | member
      · simp
      · exact ih (List.mem_cons.mpr member)
    · simp only [beq_iff_eq, same, ↓reduceIte, List.modifyHead_cons, List.mem_cons] at member
      rcases member with rfl | member
      · have absent : sep ∉ first := ih (by simp)
        simp [Ne.symm same, absent]
      · exact ih (List.mem_cons_of_mem _ member)

theorem not_mem_of_mem_split (member : piece ∈ split sep s) : sep ∉ piece.toList := by
  rw [split_eq] at member
  obtain ⟨chars, among, rfl⟩ := List.mem_map.mp member
  simpa using not_mem_of_mem_splitOn among

theorem toList_join (sep : String) (ps : List String) :
    (join sep ps).toList = sep.toList.intercalate (ps.map String.toList) := by
  fun_induction join with
  | case1 => rfl
  | case2 s => simp
  | case3 s t rest ih => simp [ih, List.intercalate]

theorem join_append (sep : String) (nonempty : ps ≠ []) (nonempty' : qs ≠ []) :
    join sep (ps ++ qs) = join sep ps ++ sep ++ join sep qs := by
  induction ps with
  | nil => contradiction
  | cons p ps ih =>
    obtain ⟨q, qs, rfl⟩ := List.exists_cons_of_ne_nil nonempty'
    cases ps with
    | nil => rfl
    | cons p' ps =>
      rw [List.cons_append, List.cons_append, join, ← List.cons_append, ih (by simp), join]
      simp only [String.append_assoc]

end Text

namespace FieldPath

theorem dotted_append {p q : FieldPath} (nonempty : p ≠ []) (nonempty' : q ≠ []) :
    dotted (p ++ q) = p.dotted ++ "." ++ q.dotted :=
  Text.join_append "." nonempty nonempty'

theorem dotted_split (s : String) : dotted (Text.split '.' s) = s := by
  apply String.toList_injective
  rw [dotted, Text.toList_join, Text.split_eq, List.map_map]
  simp [Function.comp_def, List.intercalate_splitOn]

theorem split_dotted {p : FieldPath} (nonempty : p ≠ []) (free : ∀ name ∈ p, '.' ∉ name.toList) :
    Text.split '.' p.dotted = p := by
  have free' : ∀ chars ∈ p.map String.toList, '.' ∉ chars := by simpa using free
  have parts := List.splitOn_intercalate '.' free' (by simpa using nonempty)
  rw [Text.split_eq, dotted, Text.toList_join, show ".".toList = ['.'] from rfl, parts, List.map_map]
  simp [Function.comp_def]

/-- The segments of a text. A dot stands between any two of them, and in none. -/
structure Segments (s : String) (p : FieldPath) : Prop where
  nonempty : p ≠ []
  free : ∀ name ∈ p, '.' ∉ name.toList
  joined : p.dotted = s

theorem segments_iff : Segments s p ↔ p = Text.split '.' s := by
  constructor
  · rintro ⟨nonempty, free, rfl⟩
    exact (split_dotted nonempty free).symm
  · rintro rfl
    exact ⟨Text.split_ne_nil '.' s, fun _ => Text.not_mem_of_mem_split, dotted_split s⟩

/-- Splitting takes a path apart at any of its dots first. -/
theorem split_below {p : FieldPath} (nonempty : p ≠ []) (free : ∀ name ∈ p, '.' ∉ name.toList)
    (rest : String) : Text.split '.' (p.dotted ++ "." ++ rest) = p ++ Text.split '.' rest := by
  have letters : (p.dotted ++ "." ++ rest).toList = p.dotted.toList ++ '.' :: rest.toList := by simp
  rw [Text.split_eq, letters, List.splitOn_append_cons_self, List.map_append, ← Text.split_eq,
    split_dotted nonempty free, ← Text.split_eq]

end FieldPath
end FetchPlan
