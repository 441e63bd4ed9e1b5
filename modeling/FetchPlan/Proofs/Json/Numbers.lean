import FetchPlan.Json.Printer
import FetchPlan.Json.Token
import Mathlib.Data.List.TakeWhile

/-! Integers in JSON. The digits printed for an integer are read as the same integer, as long as it
fits 64 bits, with a sign or without. -/
namespace FetchPlan

namespace Text

theorem exists_of_mem_toDigits {n : Nat} (member : c ∈ Nat.toDigits 10 n) :
    ∃ d < 10, c = Nat.digitChar d := by
  induction n using Nat.strongRecOn with
  | ind n ih =>
    rw [Nat.toDigits_eq_if (by decide)] at member
    split at member
    · rename_i small
      exact ⟨n, small, List.mem_singleton.mp member⟩
    · rcases List.mem_append.mp member with front | last
      · exact ih (n / 10) (by omega) front
      · exact ⟨n % 10, by omega, List.mem_singleton.mp last⟩

theorem digit?_digitChar {d : Nat} (small : d < 10) : digit? 10 d.digitChar = some d := by
  have each : ∀ d < 10, digit? 10 (Nat.digitChar d) = some d := by decide
  exact each d small

theorem isDecimal_of_mem_toDigits {n : Nat} (member : c ∈ Nat.toDigits 10 n) : isDecimal c = true := by
  obtain ⟨d, small, rfl⟩ := exists_of_mem_toDigits member
  rw [isDecimal, digit?_digitChar small]
  rfl

theorem decimal_concat (front : List Char) {d : Nat} (small : d < 10) :
    decimal (front ++ [d.digitChar]) = 10 * decimal front + d := by
  rw [decimal, List.foldl_append]
  simp [digit?_digitChar small, decimal]

theorem decimal_toDigits (n : Nat) : decimal (Nat.toDigits 10 n) = n := by
  induction n using Nat.strongRecOn with
  | ind n ih =>
    rw [Nat.toDigits_eq_if (by decide)]
    split
    · rename_i small
      exact (decimal_concat [] small).trans (Nat.zero_add n)
    · rw [decimal_concat _ (Nat.mod_lt n (by decide)), ih (n / 10) (by omega)]
      omega

/-- Only zero begins with a zero. -/
theorem eq_zero_of_head?_toDigits {n : Nat} (leading : (Nat.toDigits 10 n).head? = some '0') : n = 0 := by
  induction n using Nat.strongRecOn with
  | ind n ih =>
    rw [Nat.toDigits_eq_if (by decide)] at leading
    split at leading
    · simpa using leading
    · rw [List.head?_append, List.head?_eq_some_head Nat.toDigits_ne_nil, Option.some_or,
        ← List.head?_eq_some_head] at leading
      have := ih (n / 10) (by omega) leading
      omega

end Text

namespace Json

/-- Characters of words, that is of numbers and of the three names. -/
def InWord (c : Char) : Prop := c ≠ '"' ∧ isGap c = false ∧ punctuation? c = none

instance (c : Char) : Decidable (InWord c) := inferInstanceAs (Decidable (_ ∧ _ ∧ _))

/-- The sign and the digits of an integer are read as a number without a fraction. -/
theorem number?_sign (negative : Bool) (n : Nat) : ∃ literal,
    number? ((if negative then ['-'] else []) ++ Nat.toDigits 10 n) =
      some (numberValue negative (Nat.toDigits 10 n) [] 0 true literal) := by
  have decimals : ∀ c ∈ Nat.toDigits 10 n, Text.isDecimal c = true :=
    fun _ => Text.isDecimal_of_mem_toDigits
  have whole := List.takeWhile_eq_self_iff.mpr decimals
  have rest := List.dropWhile_eq_nil_iff.mpr decimals
  have nonempty : Nat.toDigits 10 n ≠ [] := Nat.toDigits_ne_nil
  have leading : ¬ ((Nat.toDigits 10 n).head? = some '0' ∧ (Nat.toDigits 10 n).length > 1) := by
    rintro ⟨zero, long⟩
    rw [Text.eq_zero_of_head?_toDigits zero] at long
    exact absurd long (by decide)
  have unsigned : (Nat.toDigits 10 n).head? ≠ some '-' := by
    intro sign
    have := decimals '-' (List.mem_of_head? sign)
    contradiction
  refine ⟨String.ofList ((if negative then ['-'] else []) ++ Nat.toDigits 10 n), ?_⟩
  cases negative <;> simp [number?, whole, rest, nonempty, leading, unsigned, Text.fraction?, Text.exponent?]

theorem toList_toString (n : Int) :
    (toString n).toList = (if n < 0 then ['-'] else []) ++ Nat.toDigits 10 n.natAbs := by
  rw [Int.toString_eq_repr, Int.repr_eq_if]
  by_cases negative : n < 0
  · have size : (-n).toNat = n.natAbs := by omega
    have unsigned : ¬ 0 ≤ n := by omega
    simp [negative, unsigned, size]
  · have size : n.toNat = n.natAbs := by omega
    simp [negative, Int.not_lt.mp negative, size]

theorem eq_sign_or_digit (member : c ∈ (toString (n : Int)).toList) :
    c = '-' ∨ ∃ d < 10, c = Nat.digitChar d := by
  rw [toList_toString] at member
  rcases List.mem_append.mp member with sign | digit
  · split at sign
    · exact .inl (List.mem_singleton.mp sign)
    · contradiction
  · exact .inr (Text.exists_of_mem_toDigits digit)

theorem inWord_of_mem_toString (member : c ∈ (toString (n : Int)).toList) : InWord c := by
  have each : ∀ d < 10, InWord (Nat.digitChar d) := by decide
  rcases eq_sign_or_digit member with rfl | ⟨d, small, rfl⟩
  · decide
  · exact each d small

theorem toString_ne_nil (n : Int) : (toString n).toList ≠ [] := by
  rw [toList_toString]
  exact List.append_ne_nil_of_right_ne_nil _ Nat.toDigits_ne_nil

/-- No integer is one of the three names. -/
theorem word?_toString_eq_number? (n : Int) : word? (toString n).toList = number? (toString n).toList := by
  have unlettered : 'l' ∉ (toString n).toList ∧ 'e' ∉ (toString n).toList := by
    have each : ∀ d < 10, Nat.digitChar d ≠ 'l' ∧ Nat.digitChar d ≠ 'e' := by decide
    constructor <;> intro letter <;> rcases eq_sign_or_digit letter with sign | ⟨d, small, same⟩
    · contradiction
    · exact (each d small).1 same.symm
    · contradiction
    · exact (each d small).2 same.symm
  have unnamed (word : List Char) (letter : 'l' ∈ word ∨ 'e' ∈ word) : (toString n).toList ≠ word := by
    rintro rfl
    exact letter.elim unlettered.1 unlettered.2
  rw [word?, if_neg (unnamed _ (by decide)), if_neg (unnamed _ (by decide)), if_neg (unnamed _ (by decide))]

/-- An integer of 64 bits is read as it was printed. -/
theorem word?_toString {n : Int} (low : -Int.ofNat (Nat.pow 2 63) ≤ n) (high : n < Int.ofNat UInt64.size) :
    word? (toString n).toList = some (.integer n) := by
  obtain ⟨literal, read⟩ := number?_sign (decide (n < 0)) n.natAbs
  simp only [decide_eq_true_eq] at read
  rw [word?_toString_eq_number?, toList_toString, read, numberValue, Text.decimal_toDigits]
  simp only [Int.ofNat_eq_natCast] at low high ⊢
  by_cases negative : n < 0
  · have size : 0 < n.natAbs ∧ n.natAbs ≤ Nat.pow 2 63 := by omega
    have same : -(n.natAbs : Int) = n := by omega
    simp only [negative, size, same, decide_true, Bool.and_self, if_true]
  · have size : n.natAbs < UInt64.size := by omega
    have same : (n.natAbs : Int) = n := by omega
    simp only [negative, size, same, decide_true, decide_false, Bool.and_self, Bool.and_false, Bool.false_and,
      Bool.not_false, if_true, Bool.false_eq_true, if_false]

end Json
end FetchPlan
