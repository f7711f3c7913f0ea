import Mathlib

/-!
# Parts of lists that are all of them

A part of a list is a permutation of the whole only when nothing is missing, also when the list
is put together from several (`perm_flatMap_iff`), and sorting shows in which order rows with
equal keys were (`orderedInsert_swap`). A sum over a list may leave out what counts for nothing
(`sum_filter_of_zero`).
-/

namespace Lib

variable {α β : Type}

/-- Leaving out what counts for nothing. -/
theorem sum_filter_of_zero {f : α → ℕ} {p : α → Bool} (xs : List α)
    (h : ∀ x ∈ xs, p x = false → f x = 0) : ((xs.filter p).map f).sum = (xs.map f).sum := by
  induction xs with
  | nil => rfl
  | cons x xs ih =>
    rw [List.forall_mem_cons] at h
    rw [List.filter_cons, List.map_cons, List.sum_cons, ← ih h.2]
    split_ifs with h_p
    · rfl
    · rw [h.1 (by simpa using h_p), Nat.zero_add]

/-- Parts put together are a part of what is put together. -/
theorem subperm_flatMap {xs : List α} {f g : α → List β} (h : ∀ x ∈ xs, (f x).Subperm (g x)) :
    (xs.flatMap f).Subperm (xs.flatMap g) := by
  induction xs with
  | nil => exact List.Subperm.refl _
  | cons x xs ih =>
    rw [List.flatMap_cons, List.flatMap_cons]
    exact (h x List.mem_cons_self).append (ih fun y hy => h y (List.mem_cons_of_mem _ hy))

/-- **Of lists put together from parts, none may miss anything.** -/
theorem perm_flatMap_iff {xs : List α} {f g : α → List β} (h : ∀ x ∈ xs, (f x).Subperm (g x)) :
    (xs.flatMap f).Perm (xs.flatMap g) ↔ ∀ x ∈ xs, (f x).Perm (g x) := by
  induction xs with
  | nil => simp
  | cons x xs ih =>
    have h_x := h x List.mem_cons_self
    have ih := ih fun y hy => h y (List.mem_cons_of_mem _ hy)
    -- no part has more elements than its counterpart
    have h_len := (subperm_flatMap fun y hy => h y (List.mem_cons_of_mem _ hy)).length_le
    rw [List.flatMap_cons, List.flatMap_cons, List.forall_mem_cons]
    constructor
    · intro h_perm
      have h_sum := h_perm.length_eq
      rw [List.length_append, List.length_append] at h_sum
      -- so the head's parts are as long as each other
      have h_head : (f x).Perm (g x) := h_x.perm_of_length_le (by omega)
      refine ⟨h_head, ih.mp ?_⟩
      exact (List.perm_append_left_iff (f x)).mp (h_perm.trans (h_head.symm.append_right _))
    · rintro ⟨h_head, h_tail⟩
      exact h_head.append (ih.mpr h_tail)

/-- Filtering further drops nothing only when the second test follows from the first. -/
theorem map_filter_perm_iff {xs : List α} {f : α → β} {p q : α → Bool} :
    ((xs.filter fun x => p x && q x).map f).Perm ((xs.filter q).map f) ↔
      ∀ x ∈ xs, q x = true → p x = true := by
  have h_sub : List.Sublist (xs.filter fun x => p x && q x) (xs.filter q) := by
    rw [← List.filter_filter]
    exact List.filter_sublist
  constructor
  · intro h x hx h_q
    have h_len : (xs.filter q).length ≤ (xs.filter fun x => p x && q x).length := by
      simpa using h.length_eq.ge
    have h_mem : x ∈ xs.filter fun x => p x && q x := by
      -- a sublist of the same length is the list
      rw [h_sub.eq_of_length_le h_len]
      exact List.mem_filter.mpr ⟨hx, h_q⟩
    have h_both := (List.mem_filter.mp h_mem).2
    rw [Bool.and_eq_true] at h_both
    exact h_both.1
  · intro h
    have h_eq : (xs.filter fun x => p x && q x) = xs.filter q := by
      refine List.filter_congr fun x hx => ?_
      by_cases h_q : q x = true
      · simp [h x hx h_q, h_q]
      · simp [h_q]
    rw [h_eq]

/-- Two rows that compare equal are told apart by the order they are inserted in. -/
theorem orderedInsert_swap (key : α → ℤ) {a b : α} (h_key : key a = key b) (xs : List α)
    (h : (xs.orderedInsert (fun x y => key x ≤ key y) b).orderedInsert
        (fun x y => key x ≤ key y) a =
      (xs.orderedInsert (fun x y => key x ≤ key y) a).orderedInsert
        (fun x y => key x ≤ key y) b) :
    a = b := by
  induction xs with
  | nil =>
    -- one of them comes first in either order
    simp only [List.orderedInsert, h_key, le_refl, if_true] at h
    exact (List.cons.inj h).1
  | cons x xs ih =>
    -- both are inserted in front of the head, or both behind it
    by_cases h_le : key b ≤ key x
    · simp only [List.orderedInsert, h_key, h_le, le_refl, if_true] at h
      exact (List.cons.inj h).1
    · simp only [List.orderedInsert, h_key, h_le, if_false] at h
      exact ih (List.cons.inj h).2

end Lib
