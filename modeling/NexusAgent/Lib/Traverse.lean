import Mathlib.Data.List.Forall2

/-!
# Results, one after the other

`List.mapM` with a function that may fail: the results of all elements in order, or the error of
the first element that fails.
-/

namespace Lib

variable {ε α β : Type}

theorem bind_ok_iff {x : Except ε α} {f : α → Except ε β} {y : β} :
    (x >>= f) = .ok y ↔ ∃ a, x = .ok a ∧ f a = .ok y := by
  cases x <;> simp [bind, Except.bind]

theorem bind_error_iff {x : Except ε α} {f : α → Except ε β} {e : ε} :
    (x >>= f) = .error e ↔ x = .error e ∨ ∃ a, x = .ok a ∧ f a = .error e := by
  cases x <;> simp [bind, Except.bind]

/-- A traversal succeeds if each step does. -/
theorem mapM_ok_cons {f : α → Except ε β} {x : α} {xs : List α} {ys : List β} :
    (x :: xs).mapM f = .ok ys ↔ ∃ y ys', f x = .ok y ∧ xs.mapM f = .ok ys' ∧ ys = y :: ys' := by
  rw [List.mapM_cons]
  simp only [bind_ok_iff, pure, Except.pure, Except.ok.injEq]
  grind

/-- It fails with the first step that fails. -/
theorem mapM_error_cons {f : α → Except ε β} {x : α} {xs : List α} {e : ε} :
    (x :: xs).mapM f = .error e ↔
      f x = .error e ∨ ∃ y, f x = .ok y ∧ xs.mapM f = .error e := by
  rw [List.mapM_cons]
  simp [bind_error_iff, pure, Except.pure]

/-- **All results**, in order. -/
theorem mapM_ok_iff {f : α → Except ε β} {xs : List α} {ys : List β} :
    xs.mapM f = .ok ys ↔ List.Forall₂ (fun x y => f x = .ok y) xs ys := by
  induction xs generalizing ys with
  | nil =>
    rw [List.mapM_nil, List.forall₂_nil_left_iff]
    simp [pure, Except.pure, eq_comm]
  | cons x xs ih =>
    rw [mapM_ok_cons, List.forall₂_cons_left_iff]
    simp only [ih]

/-- What stands beside an element. -/
theorem forall₂_mem {R : α → β → Prop} {xs : List α} {ys : List β} (h : List.Forall₂ R xs ys) {x : α}
    (h_x : x ∈ xs) : ∃ y ∈ ys, R x y := by
  obtain ⟨i, h_i, rfl⟩ := List.getElem_of_mem h_x
  have h_i' : i < ys.length := h.length_eq ▸ h_i
  exact ⟨_, List.getElem_mem h_i', h.get h_i h_i'⟩

/-- **The first error**, after results only. -/
theorem mapM_error_iff {f : α → Except ε β} {xs : List α} {e : ε} :
    xs.mapM f = .error e ↔
      ∃ before x after ys, xs = before ++ x :: after ∧ before.mapM f = .ok ys ∧ f x = .error e := by
  induction xs with
  | nil =>
    rw [List.mapM_nil]
    refine ⟨fun h => (by cases h), ?_⟩
    rintro ⟨before, x, after, ys, h_eq, -⟩
    exact absurd (congrArg List.length h_eq) (by simp)
  | cons x xs ih =>
    rw [mapM_error_cons, ih]
    constructor
    · -- the first element raises, or a later one does after it
      rintro (h_x | ⟨y, h_y, before, x', after, ys, rfl, h_before, h_x'⟩)
      · exact ⟨[], x, xs, [], rfl, rfl, h_x⟩
      · exact ⟨x :: before, x', after, y :: ys, rfl,
          mapM_ok_cons.mpr ⟨y, ys, h_y, h_before, rfl⟩, h_x'⟩
    · rintro ⟨before, x', after, ys, h_eq, h_before, h_x'⟩
      cases before with
      | nil =>
        obtain ⟨rfl, rfl⟩ := List.cons_eq_cons.mp h_eq
        exact .inl h_x'
      | cons b before =>
        obtain ⟨rfl, rfl⟩ := List.cons_eq_cons.mp h_eq
        obtain ⟨y, ys', h_y, h_ys, -⟩ := mapM_ok_cons.mp h_before
        exact .inr ⟨y, h_y, before, x', after, ys', rfl, h_ys, h_x'⟩

/-- Functions that agree wherever the first does not fail with `e` have the same results. -/
theorem mapM_congr_of_ne {f g : α → Except ε β} {e : ε} {xs : List α}
    (h : ∀ x ∈ xs, f x ≠ .error e → g x = f x) (h_ne : xs.mapM f ≠ .error e) :
    xs.mapM g = xs.mapM f := by
  induction xs with
  | nil => rfl
  | cons x xs ih =>
    -- the first element does not raise `e`
    have h_x : f x ≠ .error e := fun h_x => h_ne (mapM_error_cons.mpr (.inl h_x))
    rw [List.mapM_cons, List.mapM_cons, h x List.mem_cons_self h_x]
    cases h_f : f x with
    -- any other error ends both in the same way
    | error e' => rfl
    | ok y =>
      -- and the rest does not raise `e` either
      rw [ih (fun x' h_x' => h x' (List.mem_cons_of_mem x h_x'))]
      exact fun h_xs => h_ne (mapM_error_cons.mpr (.inr ⟨y, h_f, h_xs⟩))

end Lib
