import FetchPlan.Proofs.Json.Numbers
import Mathlib.Data.List.Basic

/-! Printed JSON and its tokens. A piece of printed text makes tokens wherever it stands; it closes
them if no later character can go on with the last one. -/
namespace FetchPlan

namespace Text

/-- No character is half of another one. -/
theorem not_half (c : Char) : isLead c.toNat = false ∧ isTrail c.toNat = false := by
  have valid : c.toNat < 0xD800 ∨ 0xDFFF < c.toNat ∧ c.toNat < 0x110000 := c.valid
  simp only [isLead, isTrail, Bool.and_eq_false_iff, decide_eq_false_iff_not]
  omega

theorem charsOfUnits_toNat (cs : List Char) : charsOfUnits (cs.map Char.toNat) = some cs := by
  induction cs with
  | nil => rfl
  | cons c cs ih =>
    cases cs with
    | nil => simp [charsOfUnits, not_half]
    | cons d cs =>
      rw [List.map_cons, List.map_cons, charsOfUnits, ← List.map_cons, ih]
      simp [not_half]

end Text

namespace Json

theorem digit?_hexDigit {d : Nat} (h : d < 16) : Text.digit? 16 (hexDigit d) = some d := by
  have all : ∀ d < 16, Text.digit? 16 (hexDigit d) = some d := by decide
  exact all d h

namespace Scanner

/-- Inside of quotes, an escaped character is read as the character. -/
theorem foldlM_escapeChar (tokens : List Token) (units : List Nat) (c : Char) :
    (escapeChar c).foldlM step ⟨tokens, .text units⟩ = some ⟨tokens, .text (c.toNat :: units)⟩ := by
  unfold escapeChar
  split_ifs with quote backslash b f n r t low
  · subst quote; rfl
  · subst backslash; rfl
  · subst b; rfl
  · subst f; rfl
  · subst n; rfl
  · subst r; rfl
  · subst t; rfl
  · have high := digit?_hexDigit (show c.toNat / 16 < 16 by omega)
    have rest := digit?_hexDigit (show c.toNat % 16 < 16 by omega)
    have whole : 16 * (c.toNat / 16) + c.toNat % 16 = c.toNat := Nat.div_add_mod c.toNat 16
    have zero : Text.digit? 16 '0' = some 0 := by decide
    simp [step, stepText, stepEscape, stepUnit, high, rest, zero, whole]
  · simp [step, stepText, quote, backslash, low]

theorem foldlM_escaped (tokens : List Token) (units : List Nat) (cs : List Char) :
    (cs.flatMap escapeChar).foldlM step ⟨tokens, .text units⟩ =
      some ⟨tokens, .text ((cs.map Char.toNat).reverse ++ units)⟩ := by
  induction cs generalizing units with
  | nil => rfl
  | cons c cs ih =>
    rw [List.flatMap_cons, List.foldlM_append, foldlM_escapeChar]
    simp [ih]

end Scanner

/-- Read from outside of any token, the characters make these tokens and leave the last one closed. -/
def Closes (cs : List Char) (ts : List Token) : Prop :=
  ∀ before, cs.foldlM Scanner.step ⟨before, .nothing⟩ = some ⟨ts.reverse ++ before, .nothing⟩

/-- Read from outside of any token, the characters make these tokens. The last one may be a word that
more characters could go on with. -/
def Makes (cs : List Char) (ts : List Token) : Prop :=
  ∀ before, ∃ s, cs.foldlM Scanner.step ⟨before, .nothing⟩ = some s ∧ s.finish = some (ts.reverse ++ before)

theorem Closes.makes (closes : Closes cs ts) : Makes cs ts := fun before => ⟨_, closes before, rfl⟩

theorem Makes.nil : Makes [] [] := fun before => ⟨⟨before, .nothing⟩, rfl, rfl⟩

theorem Closes.then_makes (closes : Closes cs ts) (makes : Makes ds us) : Makes (cs ++ ds) (ts ++ us) := by
  intro before
  obtain ⟨s, read, finish⟩ := makes (ts.reverse ++ before)
  refine ⟨s, ?_, by simp [finish]⟩
  rw [List.foldlM_append, closes before]
  exact read

theorem Scanner.step_of_finish {s : Scanner} (finish : s.finish = some ts) (c : Char) :
    ∃ read, s.step c = s.stepOutside read c := by
  obtain ⟨tokens, pending⟩ := s
  cases pending with
  | nothing => exact ⟨[], rfl⟩
  | word read => exact ⟨read, rfl⟩
  | text | escape | unit => contradiction

theorem Makes.gap (makes : Makes cs ts) (gap : isGap c = true) : Closes (cs ++ [c]) ts := by
  intro before
  obtain ⟨s, read, finish⟩ := makes before
  obtain ⟨word, outside⟩ := Scanner.step_of_finish finish c
  have unquoted : c ≠ '"' := by
    rintro rfl
    contradiction
  rw [List.foldlM_append, read]
  simp [outside, Scanner.stepOutside, unquoted, gap, finish]

theorem Closes.gaps (closes : Closes cs ts) (gaps : ∀ c ∈ ds, isGap c = true) : Closes (cs ++ ds) ts := by
  induction ds generalizing cs with
  | nil => rwa [List.append_nil]
  | cons d ds ih =>
    rw [List.append_cons]
    exact ih (closes.makes.gap (gaps d List.mem_cons_self)) fun c member => gaps c (List.mem_cons_of_mem d member)

/-- The first gap ends a word, the others change nothing. -/
theorem Makes.gaps (makes : Makes cs ts) (gaps : ∀ c ∈ ds, isGap c = true) : Makes (cs ++ ds) ts := by
  cases ds with
  | nil => rwa [List.append_nil]
  | cons d ds =>
    rw [List.append_cons]
    have closed := makes.gap (gaps d List.mem_cons_self)
    exact (closed.gaps fun c member => gaps c (List.mem_cons_of_mem d member)).makes

theorem solid_of_punctuation (mark : punctuation? c = some t) : c ≠ '"' ∧ isGap c = false := by
  unfold punctuation? at mark
  split at mark
  · decide
  · decide
  · decide
  · decide
  · decide
  · decide
  · contradiction

theorem Makes.punctuation (makes : Makes cs ts) (mark : punctuation? c = some t) :
    Closes (cs ++ [c]) (ts ++ [t]) := by
  intro before
  obtain ⟨s, read, finish⟩ := makes before
  obtain ⟨word, outside⟩ := Scanner.step_of_finish finish c
  obtain ⟨unquoted, solid⟩ := solid_of_punctuation mark
  rw [List.foldlM_append, read]
  simp [outside, Scanner.stepOutside, unquoted, solid, mark, finish]

theorem closes_quoted (s : String) : Closes (quoted s) [.text (some s)] := by
  intro before
  have chars := Text.charsOfUnits_toNat s.toList
  have opened : Scanner.step ⟨before, .nothing⟩ '"' = some ⟨before, .text []⟩ := rfl
  simp only [quoted, List.foldlM_cons, List.foldlM_append, opened, Option.bind_eq_bind, Option.bind_some,
    Scanner.foldlM_escaped]
  simp [Scanner.step, Scanner.stepText, chars]

theorem Scanner.step_inWord (inWord : InWord c) (s : Scanner) (read : List Char) :
    s.stepOutside read c = some { s with pending := .word (c :: read) } := by
  obtain ⟨unquoted, solid, unmarked⟩ := inWord
  simp [stepOutside, unquoted, solid, unmarked]

theorem makes_word (nonempty : cs ≠ []) (inWord : ∀ c ∈ cs, InWord c) (value : word? cs = some v) :
    Makes cs [.scalar v] := by
  have grows (tokens : List Token) (ds read : List Char) (inWord : ∀ c ∈ ds, InWord c) :
      ds.foldlM Scanner.step ⟨tokens, .word read⟩ = some ⟨tokens, .word (ds.reverse ++ read)⟩ := by
    induction ds generalizing read with
    | nil => rfl
    | cons d ds ih =>
      have first : Scanner.step ⟨tokens, .word read⟩ d = some ⟨tokens, .word (d :: read)⟩ :=
        Scanner.step_inWord (inWord d List.mem_cons_self) _ read
      rw [List.foldlM_cons, first]
      simp [ih (d :: read) fun c member => inWord c (List.mem_cons_of_mem d member)]
  obtain ⟨c, cs, rfl⟩ := List.exists_cons_of_ne_nil nonempty
  intro before
  have first : Scanner.step ⟨before, .nothing⟩ c = some ⟨before, .word [c]⟩ :=
    Scanner.step_inWord (inWord c List.mem_cons_self) _ []
  refine ⟨⟨before, .word (cs.reverse ++ [c])⟩, ?_, ?_⟩
  · rw [List.foldlM_cons, first]
    exact grows before cs [c] fun d member => inWord d (List.mem_cons_of_mem c member)
  · simp [Scanner.finish, value]

end Json
end FetchPlan
