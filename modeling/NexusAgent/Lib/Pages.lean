import Mathlib.Data.List.Sort

/-!
# Pages of a list

A listing that looks things up page by page agrees with the pages of what it finds exactly when
everything that is not found comes last (`pages_filterMap_iff`). Sorting and filtering commute
(`insertionSort_filter`), so that a page of the sorted whole is found in a sorted part as soon
as the part has the first rows (`take_filter_of_forall`).
-/

namespace Lib

variable {α β : Type}

/-- `results[offset : offset + limit]`. -/
def page (limit offset : ℕ) (results : List α) : List α := (results.drop offset).take limit

theorem page_zero (offset : ℕ) (results : List α) : page 0 offset results = [] := List.take_zero

/-- A page is the end of the first results. -/
theorem page_eq_drop_take (limit offset : ℕ) (results : List α) :
    page limit offset results = (results.take (offset + limit)).drop offset := by
  rw [page, List.drop_take, Nat.add_sub_cancel_left]

theorem map_page (f : α → β) (limit offset : ℕ) (results : List α) :
    (page limit offset results).map f = page limit offset (results.map f) := by
  rw [page, page, List.map_take, List.map_drop]

/-! ### Looking up page by page -/

/-- What is found comes before what is not. -/
def FoundFirst (f : α → Option β) (xs : List α) : Prop :=
  xs.filter (fun x => (f x).isSome) <+: xs

/-- Where no value is missing, `map` is `filterMap`. -/
theorem map_some_filterMap {f : α → Option β} {xs : List α} (h : ∀ x ∈ xs, (f x).isSome = true) :
    xs.map f = (xs.filterMap f).map some := by
  induction xs with
  | nil => rfl
  | cons x xs ih =>
    obtain ⟨y, h_y⟩ := Option.isSome_iff_exists.mp (h x List.mem_cons_self)
    rw [List.map_cons, List.filterMap_cons_some h_y, List.map_cons, h_y,
      ih fun z hz => h z (List.mem_cons_of_mem _ hz)]

/-- A page of one. -/
theorem page_one (k : ℕ) (xs : List α) : page 1 k xs = xs[k]?.toList := by
  rw [page, List.take_one, List.head?_drop]

/-- The pages of what is found, when it comes first. -/
theorem filterMap_page {f : α → Option β} {xs : List α} (h : FoundFirst f xs) (limit offset : ℕ) :
    (page limit offset xs).filterMap f = page limit offset (xs.filterMap f) := by
  obtain ⟨missed, h_xs⟩ := h
  set found := xs.filter (fun x => (f x).isSome) with h_found
  have h_some : ∀ x ∈ found, (f x).isSome = true := fun x hx => (List.mem_filter.mp hx).2
  -- the rows found are all in the first part, so the second part has none
  have h_missed : ∀ x ∈ missed, f x = none := by
    have h_filter : found ++ missed.filter (fun x => (f x).isSome) = found := by
      conv_rhs => rw [h_found, ← h_xs, List.filter_append]
      rw [List.filter_eq_self.mpr h_some]
    intro x hx
    have h_nil := List.append_right_eq_self.mp h_filter
    simpa using List.filter_eq_nil_iff.mp h_nil x hx
  have h_none : ∀ ys : List α, ys ⊆ missed → ys.filterMap f = [] := fun ys h_ys =>
    List.filterMap_eq_nil_iff.mpr fun y hy => h_missed y (h_ys hy)
  have h_values := map_some_filterMap h_some
  have h_lift : ∀ ys : List α, ∀ zs : List β, ys.map f = zs.map some → ys.filterMap f = zs := by
    intro ys zs h_eq
    calc ys.filterMap f
        = (ys.map f).filterMap id := by rw [List.filterMap_map]; rfl
      _ = zs := by rw [h_eq, List.filterMap_map]; exact List.filterMap_some
  have h_all : xs.filterMap f = found.filterMap f := by
    rw [← h_xs, List.filterMap_append, h_none missed (List.Subset.refl _), List.append_nil]
  rw [h_all]
  calc (page limit offset xs).filterMap f
      = (page limit offset found).filterMap f := by
        -- the part of the page behind the rows found adds nothing
        rw [page, ← h_xs, List.drop_append, List.take_append, List.filterMap_append]
        rw [h_none _ fun y hy => List.mem_of_mem_drop (List.mem_of_mem_take hy), List.append_nil]
        rfl
    _ = page limit offset (found.filterMap f) := by
        refine h_lift _ _ ?_
        rw [map_page, map_page, h_values]

/-- **Pages looked up one by one are the pages of one list** exactly when what is found comes
first. The list is all that is found. -/
theorem pages_filterMap_iff {f : α → Option β} {xs : List α} {values : List β} :
    (∀ limit offset, 1 ≤ limit → (page limit offset xs).filterMap f = page limit offset values) ↔
      FoundFirst f xs ∧ xs.filterMap f = values := by
  constructor
  · intro h
    have h_values : xs.filterMap f = values := by
      -- one page that holds everything
      have h_all := h (xs.length + values.length + 1) 0 (by omega)
      rw [page, page, List.drop_zero, List.drop_zero, List.take_of_length_le (by omega),
        List.take_of_length_le (by omega)] at h_all
      exact h_all
    -- the pages of one item say which items are found
    have h_one : ∀ k (hk : k < xs.length), (f (xs.get ⟨k, hk⟩)).isSome = true ↔
        k < values.length := by
      intro k hk
      have h_k := h 1 k le_rfl
      rw [page_one, page_one, List.getElem?_eq_getElem hk] at h_k
      have h_len := congrArg List.length h_k
      by_cases h_lt : k < values.length
      · rw [List.getElem?_eq_getElem h_lt] at h_len
        cases h_f : f xs[k] <;> simp [h_f] at h_len ⊢
        exact h_lt
      · rw [List.getElem?_eq_none (not_lt.mp h_lt)] at h_len
        cases h_f : f xs[k] <;> simp [h_f] at h_len ⊢
        exact not_lt.mp h_lt
    refine ⟨?_, h_values⟩
    -- so the found ones are the first ones
    have h_take : xs.filter (fun x => (f x).isSome) = xs.take values.length := by
      conv_lhs => rw [← List.take_append_drop values.length xs, List.filter_append]
      have h_head : (xs.take values.length).filter (fun x => (f x).isSome) =
          xs.take values.length := by
        refine List.filter_eq_self.mpr fun x hx => ?_
        obtain ⟨k, hk, rfl⟩ := List.getElem_of_mem hx
        rw [List.getElem_take]
        rw [List.length_take] at hk
        exact (h_one k (by omega)).mpr (by omega)
      have h_tail : (xs.drop values.length).filter (fun x => (f x).isSome) = [] := by
        refine List.filter_eq_nil_iff.mpr fun x hx => ?_
        obtain ⟨k, hk, rfl⟩ := List.getElem_of_mem hx
        rw [List.getElem_drop]
        rw [List.length_drop] at hk
        exact fun h_some => absurd ((h_one (values.length + k) (by omega)).mp h_some) (by omega)
      rw [h_head, h_tail, List.append_nil]
    rw [FoundFirst, h_take]
    exact List.take_prefix _ _
  · rintro ⟨h_first, rfl⟩ limit offset -
    exact filterMap_page h_first limit offset

/-! ### Sorting a part -/

/-- The first rows, when all of them are in the part. -/
theorem take_filter_of_forall {p : α → Bool} {xs : List α} {n : ℕ}
    (h : ∀ x ∈ xs.take n, p x = true) : (xs.filter p).take n = xs.take n := by
  have h_filter : xs.filter p = xs.take n ++ (xs.drop n).filter p := by
    conv_lhs => rw [← List.take_append_drop n xs, List.filter_append, List.filter_eq_self.mpr h]
  rw [h_filter, List.take_append, List.take_take, min_self]
  by_cases h_len : n ≤ xs.length
  · simp [h_len]
  · rw [List.drop_eq_nil_of_le (not_le.mp h_len).le]
    simp

section Sorting

variable {r : α → α → Prop} [DecidableRel r]

/-- A row that comes before all others is inserted in front. -/
theorem orderedInsert_of_forall {a : α} {xs : List α} (h : ∀ x ∈ xs, r a x) :
    xs.orderedInsert r a = a :: xs := by
  cases xs with
  | nil => rfl
  | cons x xs => rw [List.orderedInsert, if_pos (h x List.mem_cons_self)]

/-- Filtering commutes with inserting into a sorted list. -/
theorem orderedInsert_filter [IsTrans α r] {p : α → Bool} {a : α} {xs : List α}
    (h : xs.Pairwise r) :
    (xs.orderedInsert r a).filter p =
      if p a = true then (xs.filter p).orderedInsert r a else xs.filter p := by
  induction xs with
  | nil => by_cases h_a : p a = true <;> simp [h_a]
  | cons x xs ih =>
    rw [List.pairwise_cons] at h
    by_cases h_r : r a x
    · -- the new element comes first, also among those that are kept
      have h_front : ((x :: xs).filter p).orderedInsert r a = a :: (x :: xs).filter p := by
        refine orderedInsert_of_forall fun y hy => ?_
        rcases List.mem_cons.mp (List.mem_of_mem_filter hy) with rfl | hy
        · exact h_r
        · exact trans_of r h_r (h.1 y hy)
      rw [List.orderedInsert, if_pos h_r, List.filter_cons, h_front]
    · -- or it goes behind the head
      rw [List.orderedInsert, if_neg h_r, List.filter_cons, ih h.2, List.filter_cons]
      by_cases h_x : p x = true <;> by_cases h_a : p a = true <;> simp [h_x, h_a, h_r]

/-- **Sorting a part of a list** is taking the part of the sorted list. -/
theorem insertionSort_filter [Std.Total r] [IsTrans α r] (p : α → Bool) (xs : List α) :
    (xs.filter p).insertionSort r = (xs.insertionSort r).filter p := by
  induction xs with
  | nil => rfl
  | cons x xs ih =>
    rw [List.insertionSort_cons, orderedInsert_filter (List.pairwise_insertionSort r xs),
      List.filter_cons]
    by_cases h_x : p x = true
    · rw [if_pos h_x, if_pos h_x, List.insertionSort_cons, ih]
    · rw [if_neg h_x, if_neg h_x, ih]

end Sorting

end Lib
