import Mathlib.Data.List.Perm.Basic

/-!
# What a computation throws

Whether a computation in `Except` throws, through `bind`, `mapM` and a fold
whose state stays a conjunction. A `mapM` throws just when one of its elements
does, so that, which error it is aside, its outcome does not depend on the order.
-/

namespace Lib
set_option autoImplicit false

variable {ε α β : Type}

/-- It does not return. -/
def Throws (x : Except ε α) : Prop := ∃ e, x = .error e

@[simp] theorem throws_error (e : ε) : Throws (.error e : Except ε α) := ⟨e, rfl⟩

@[simp] theorem not_throws_ok (a : α) : ¬Throws (.ok a : Except ε α) := by
  rintro ⟨e, thrown⟩
  cases thrown

theorem throws_or_ok (x : Except ε α) : Throws x ∨ ∃ a, x = .ok a := by
  cases x with
  | error e => exact .inl ⟨e, rfl⟩
  | ok a => exact .inr ⟨a, rfl⟩

theorem throws_iff_toOption {x : Except ε α} : Throws x ↔ x.toOption = none := by
  cases x with
  | error e => simp [Except.toOption]
  | ok a => simp [Except.toOption]

theorem throws_bind {x : Except ε α} {f : α → Except ε β} :
    Throws (x >>= f) ↔ Throws x ∨ ∃ a, x = .ok a ∧ Throws (f a) := by
  cases x with
  | error e => simp [bind, Except.bind]
  | ok a => simp [bind, Except.bind]

theorem throws_map {x : Except ε α} {f : α → β} : Throws (x.map f) ↔ Throws x := by
  cases x with
  | error e => simp [Except.map]
  | ok a => simp [Except.map]

theorem toOption_map (x : Except ε α) (f : α → β) : (x.map f).toOption = x.toOption.map f := by
  cases x <;> rfl

variable {f : α → Except ε β}

theorem throws_mapM {xs : List α} : Throws (xs.mapM f) ↔ ∃ x ∈ xs, Throws (f x) := by
  induction xs with
  | nil => simp [pure, Except.pure]
  | cons x xs ih =>
    rw [List.mapM_cons, throws_bind]
    simp only [throws_bind, ih, List.mem_cons, exists_eq_or_imp, pure, Except.pure, not_throws_ok, and_false,
      exists_false, or_false]
    constructor
    · rintro (first | ⟨y, -, later⟩)
      · exact .inl first
      · exact .inr later
    · rintro (first | later)
      · exact .inl first
      · rcases throws_or_ok (f x) with first | ⟨y, first⟩
        · exact .inl first
        · exact .inr ⟨y, first, later⟩

theorem throws_filterM {p : α → Except ε Bool} {xs : List α} : Throws (xs.filterM p) ↔
    ∃ x ∈ xs, Throws (p x) := by
  have collected (acc : List α) : Throws (xs.filterAuxM p acc) ↔ ∃ x ∈ xs, Throws (p x) := by
    induction xs generalizing acc with
    | nil => simp [List.filterAuxM, pure, Except.pure]
    | cons x xs ih =>
      rw [List.filterAuxM, throws_bind]
      simp only [ih, List.mem_cons, exists_eq_or_imp]
      constructor
      · rintro (first | ⟨b, -, later⟩)
        · exact .inl first
        · exact .inr later
      · rintro (first | later)
        · exact .inl first
        · rcases throws_or_ok (p x) with first | ⟨b, first⟩
          · exact .inl first
          · exact .inr ⟨b, first, later⟩
  rw [List.filterM, throws_bind, collected]
  simp [pure, Except.pure]

theorem mapM_of_ok {g : α → β} {xs : List α} (result : ∀ x ∈ xs, f x = .ok (g x)) :
    xs.mapM f = .ok (xs.map g) := by
  induction xs with
  | nil => rfl
  | cons x xs ih =>
    rw [List.mapM_cons, result x (by simp), ih fun y member => result y (by simp [member])]
    rfl

/-- The outcome of a `mapM`, where `bad` says which elements throw. -/
theorem toOption_mapM {bad : α → Bool} {g : α → β} {xs : List α}
    (outcome : ∀ x ∈ xs, (f x).toOption = if bad x then none else some (g x)) :
    (xs.mapM f).toOption = if xs.any bad then none else some (xs.map g) := by
  by_cases some_ : xs.any bad = true
  · rw [if_pos some_, ← throws_iff_toOption, throws_mapM]
    obtain ⟨x, member, thrown⟩ := List.any_eq_true.1 some_
    exact ⟨x, member, throws_iff_toOption.2 (by rw [outcome x member, if_pos thrown])⟩
  · rw [if_neg some_, mapM_of_ok (g := g) fun x member => ?_]
    · rfl
    · have fine : bad x = false := by
        by_contra thrown
        exact some_ (List.any_eq_true.2 ⟨x, member, by simpa using thrown⟩)
      have returned := outcome x member
      simp only [fine, Bool.false_eq_true, if_false] at returned
      cases result : f x with
      | error e => simp [result, Except.toOption] at returned
      | ok y =>
        rw [result] at returned
        cases returned
        rfl

end Lib
