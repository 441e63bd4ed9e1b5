import Mathlib.Data.List.Forall2

/-! Steps that may fail, one after another. A run that ends well took every step, and one that fails stops at
the first step that does. -/
namespace FetchPlan

@[simp] theorem ok_bind (a : α) (f : α → Except ε β) : (.ok a >>= f) = f a := rfl

@[simp] theorem error_bind (problem : ε) (f : α → Except ε β) : (.error problem >>= f) = .error problem := rfl

theorem bind_eq_ok {x : Except ε α} {f : α → Except ε β} :
    (x >>= f) = .ok b ↔ ∃ a, x = .ok a ∧ f a = .ok b := by
  cases x <;> simp [bind, Except.bind]

theorem bind_eq_error {x : Except ε α} {f : α → Except ε β} :
    (x >>= f) = .error problem ↔ x = .error problem ∨ ∃ a, x = .ok a ∧ f a = .error problem := by
  cases x <;> simp [bind, Except.bind]

theorem unless_ok {passes : Bool} {x : Except ε α}
    (done : (if !passes then throw problem else x) = .ok a) : passes = true ∧ x = .ok a := by
  cases passes with
  | false => cases done
  | true => exact ⟨rfl, done⟩

theorem unless_error {passes : Bool} {x : Except ε α}
    (failed : (if !passes then throw fault else x) = .error problem) :
    passes = false ∧ problem = fault ∨ passes = true ∧ x = .error problem := by
  cases passes with
  | false => exact .inl ⟨rfl, (Except.error.inj failed).symm⟩
  | true => exact .inr ⟨rfl, failed⟩

theorem exists_ok {x : Except ε α} {p : α → Bool} (passes : x.toOption.any p = true) :
    ∃ a, x = .ok a ∧ p a = true := by
  cases x with
  | error => contradiction
  | ok a => exact ⟨a, rfl, passes⟩

theorem error_of_map {x : Except ε α} {f : α → β} (failed : x.map f = .error problem) : x = .error problem := by
  cases x with
  | error other => exact congrArg _ (Except.error.inj failed)
  | ok a => contradiction

/-- A run that ends well came past its guard. -/
theorem guard_ok [Decidable c] {rest : PUnit → Except ε α}
    (passed : (if c then throw problem >>= rest else rest ⟨⟩) = .ok a) : ¬ c ∧ rest ⟨⟩ = .ok a := by
  split at passed
  · contradiction
  · exact ⟨‹_›, passed⟩

theorem guard_error [Decidable c] {rest : PUnit → Except ε α}
    (failed : (if c then throw fault >>= rest else rest ⟨⟩) = .error problem) :
    c ∧ problem = fault ∨ rest ⟨⟩ = .error problem := by
  split at failed
  · cases failed
    exact .inl ⟨‹_›, rfl⟩
  · exact .inr failed

section Errors

variable {x : Except ε α} {f : ε → ε'}

theorem mapError_eq_ok : x.mapError f = .ok a ↔ x = .ok a := by
  cases x with
  | error cause => exact iff_of_false nofun nofun
  | ok b =>
    constructor
    · intro done
      exact congrArg _ (Except.ok.inj done)
    · rintro ⟨⟩
      rfl

theorem mapError_eq_error : x.mapError f = .error problem ↔ ∃ cause, x = .error cause ∧ f cause = problem := by
  cases x with
  | error cause =>
    constructor
    · intro failed
      exact ⟨cause, rfl, Except.error.inj failed⟩
    · rintro ⟨_, ⟨⟩, rfl⟩
      rfl
  | ok a => exact iff_of_false nofun fun ⟨_, failed, _⟩ => nomatch failed

end Errors

theorem forM_eq_ok {f : α → Except ε Unit} {l : List α} :
    l.forM f = .ok () ↔ ∀ a ∈ l, f a = .ok () := by
  induction l with
  | nil => simp [List.forM, pure, Except.pure]
  | cons a rest ih =>
    rw [List.forM, bind_eq_ok, List.forall_mem_cons, ← ih]
    constructor
    · rintro ⟨⟨⟩, first, later⟩
      exact ⟨first, later⟩
    · rintro ⟨first, later⟩
      exact ⟨(), first, later⟩

theorem forM_error {f : α → Except ε Unit} {l : List α} (failed : l.forM f = .error problem) :
    ∃ a ∈ l, f a = .error problem := by
  induction l with
  | nil => contradiction
  | cons a rest ih =>
    rcases bind_eq_error.mp failed with here | ⟨_, _, later⟩
    · exact ⟨a, List.mem_cons_self, here⟩
    · obtain ⟨b, member, failed⟩ := ih later
      exact ⟨b, List.mem_cons_of_mem a member, failed⟩

theorem mapM_ok [Inhabited β] {f : α → Except ε β} {l : List α} (done : l.mapM f = .ok bs) :
    ∃ g : α → β, (∀ a ∈ l, f a = .ok (g a)) ∧ bs = l.map g := by
  refine ⟨fun a => (f a).toOption.getD default, ?_⟩
  induction l generalizing bs with
  | nil =>
    cases done
    exact ⟨nofun, rfl⟩
  | cons a rest ih =>
    rw [List.mapM_cons] at done
    obtain ⟨b, first, done⟩ := bind_eq_ok.mp done
    obtain ⟨bs, later, done⟩ := bind_eq_ok.mp done
    cases done
    obtain ⟨each, rfl⟩ := ih later
    exact ⟨List.forall_mem_cons.mpr ⟨by simp only [first]; rfl, each⟩, by rw [List.map_cons, first]; rfl⟩

theorem mapM_eq_ok {f : α → Except ε β} {l : List α} :
    l.mapM f = .ok bs ↔ List.Forall₂ (fun a b => f a = .ok b) l bs := by
  induction l generalizing bs with
  | nil => simp [pure, Except.pure, eq_comm]
  | cons a rest ih =>
    rw [List.mapM_cons, bind_eq_ok, List.forall₂_cons_left_iff]
    simp only [bind_eq_ok, pure, Except.pure, Except.ok.injEq, ih]
    constructor
    · rintro ⟨b, first, bs, later, rfl⟩
      exact ⟨b, bs, first, later, rfl⟩
    · rintro ⟨b, bs, first, later, rfl⟩
      exact ⟨b, first, bs, later, rfl⟩

/-- A run over values depends on no more of them than each of its steps does. -/
theorem mapM_congr_of_map {f : α → Except ε β} {g : α → γ} {l m : List α} (same : l.map g = m.map g)
    (each : ∀ a b, g a = g b → f a = f b) : l.mapM f = m.mapM f := by
  induction l generalizing m with
  | nil => rw [List.map_eq_nil_iff.mp same.symm]
  | cons a rest ih =>
    cases m with
    | nil => cases same
    | cons b rest' =>
      obtain ⟨first, later⟩ := List.cons.inj same
      rw [List.mapM_cons, List.mapM_cons, each a b first, ih later]

theorem exists_mapM_iff {f : α → Except ε β} {l : List α} :
    (∃ bs, l.mapM f = .ok bs) ↔ ∀ a ∈ l, ∃ b, f a = .ok b := by
  induction l with
  | nil => simp [pure, Except.pure]
  | cons a rest ih =>
    rw [List.mapM_cons, List.forall_mem_cons, ← ih]
    simp only [bind_eq_ok, pure, Except.pure, Except.ok.injEq]
    constructor
    · rintro ⟨_, b, first, bs, later, rfl⟩
      exact ⟨⟨b, first⟩, bs, later⟩
    · rintro ⟨⟨b, first⟩, bs, later⟩
      exact ⟨_, b, first, bs, later, rfl⟩

theorem mapM_eq_error {f : α → Except ε β} {l : List α} : l.mapM f = .error problem ↔
    ∃ before a after, l = before ++ a :: after ∧ (∀ b ∈ before, ∃ c, f b = .ok c) ∧ f a = .error problem := by
  induction l with
  | nil => simp [pure, Except.pure]
  | cons a rest ih =>
    rw [List.mapM_cons, bind_eq_error]
    constructor
    · rintro (here | ⟨b, first, failed⟩)
      · exact ⟨[], a, rest, rfl, nofun, here⟩
      · rcases bind_eq_error.mp failed with later | ⟨_, _, done⟩
        · obtain ⟨before, c, after, rfl, earlier, failed⟩ := ih.mp later
          exact ⟨a :: before, c, after, rfl, List.forall_mem_cons.mpr ⟨⟨b, first⟩, earlier⟩, failed⟩
        · cases done
    · rintro ⟨before, c, after, parts, earlier, failed⟩
      cases before with
      | nil =>
        cases parts
        exact .inl failed
      | cons b before =>
        cases parts
        obtain ⟨⟨d, first⟩, earlier⟩ := List.forall_mem_cons.mp earlier
        have later := ih.mpr ⟨before, c, after, rfl, earlier, failed⟩
        exact .inr ⟨d, first, bind_eq_error.mpr (.inl later)⟩

end FetchPlan
