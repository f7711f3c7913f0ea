import Mathlib.Data.List.Perm.Subperm
import Mathlib.Data.List.Sort

/-!
# Rows in the order of a key

`OrderBy` is a database's way to put rows in the order of a key: rows with equal keys may come
in any order. A query that takes the first `n` of them returns a row for sure when fewer than
`n` others may come before it, and never returns it when at least `n` must
(`forall_mem_take_iff`, `forall_not_mem_take_iff`).
-/

namespace Lib

variable {α : Type}

/-- A way to put rows in the order of a key. -/
structure OrderBy (α : Type) where
  orderBy : (α → ℤ) → List α → List α
  perm : ∀ key rows, (orderBy key rows).Perm rows
  ordered : ∀ key rows, (orderBy key rows).Pairwise fun a b => key a ≤ key b

namespace OrderBy

/-- The order by a key where, among equal keys, the rows that satisfy `late` come last. -/
def LateOrder (key : α → ℤ) (late : α → Prop) (a b : α) : Prop :=
  key a < key b ∨ key a = key b ∧ (late a → late b)

/-- Of any two rows one may come first. -/
theorem lateOrder_total (key : α → ℤ) (late : α → Prop) (a b : α) :
    LateOrder key late a b ∨ LateOrder key late b a := by
  unfold LateOrder
  rcases lt_trichotomy (key a) (key b) with h | h | h
  · exact Or.inl (Or.inl h)
  · by_cases h_late : late a → late b
    · exact Or.inl (Or.inr ⟨h, h_late⟩)
    · exact Or.inr (Or.inr ⟨h.symm, fun _ => (Classical.not_imp.mp h_late).1⟩)
  · exact Or.inr (Or.inl h)

/-- The order is transitive. -/
theorem lateOrder_trans {key : α → ℤ} {late : α → Prop} {a b c : α}
    (h : LateOrder key late a b) (h' : LateOrder key late b c) : LateOrder key late a c := by
  unfold LateOrder at *
  rcases h with h | ⟨h, h_late⟩ <;> rcases h' with h' | ⟨h', h_late'⟩
  · exact Or.inl (h.trans h')
  · exact Or.inl (h'.symm ▸ h)
  · exact Or.inl (h ▸ h')
  · exact Or.inr ⟨h.trans h', fun hc => h_late' (h_late hc)⟩

/-- The order is one by the keys. -/
theorem LateOrder.key_le {key : α → ℤ} {late : α → Prop} {a b : α}
    (h : LateOrder key late a b) : key a ≤ key b := by
  rcases h with h | h
  · exact h.le
  · exact h.1.le

/-- Rows in the order of a key, as they come. -/
theorem pairwise_stable (key : α → ℤ) (rows : List α) :
    (rows.insertionSort fun a b => key a ≤ key b).Pairwise fun a b => key a ≤ key b := by
  have : Std.Total fun a b : α => key a ≤ key b := ⟨fun a b => le_total (key a) (key b)⟩
  have : IsTrans α fun a b => key a ≤ key b := ⟨fun _ _ _ h h' => le_trans h h'⟩
  exact List.pairwise_insertionSort _ rows

/-- The database that leaves rows with equal keys as they come. -/
def stable : OrderBy α where
  orderBy key rows := rows.insertionSort fun a b => key a ≤ key b
  perm _ rows := List.perm_insertionSort _ rows
  ordered := pairwise_stable

instance : Inhabited (OrderBy α) := ⟨stable⟩

open Classical in
/-- Sorting gives that order. -/
theorem pairwise_lateOrder (late : α → Prop) (key : α → ℤ) (rows : List α) :
    (rows.insertionSort (LateOrder key late)).Pairwise (LateOrder key late) := by
  have : Std.Total (LateOrder key late) := ⟨lateOrder_total key late⟩
  have : IsTrans α (LateOrder key late) := ⟨fun _ _ _ => lateOrder_trans⟩
  exact List.pairwise_insertionSort _ rows

open Classical in
/-- The database that keeps the rows with `late` behind. -/
noncomputable def behind (late : α → Prop) : OrderBy α where
  orderBy key rows := rows.insertionSort (LateOrder key late)
  perm _ rows := List.perm_insertionSort _ rows
  ordered key rows := (pairwise_lateOrder late key rows).imp LateOrder.key_le

theorem pairwise_behind (late : α → Prop) (key : α → ℤ) (rows : List α) :
    ((behind late).orderBy key rows).Pairwise (LateOrder key late) :=
  pairwise_lateOrder late key rows

theorem mem_orderBy (o : OrderBy α) (key : α → ℤ) {rows : List α} {s : α} :
    s ∈ o.orderBy key rows ↔ s ∈ rows :=
  (o.perm key rows).mem_iff

theorem nodup_orderBy (o : OrderBy α) {key : α → ℤ} {rows : List α} (h : rows.Nodup) :
    (o.orderBy key rows).Nodup :=
  (o.perm key rows).nodup_iff.mpr h

/-! ### The first rows -/

variable [DecidableEq α]

/-- The rows that have to come before `s`. -/
def before (key : α → ℤ) (rows : List α) (s : α) : List α := rows.filter fun r => key r < key s

/-- The rows that may come before `s`. -/
def notAfter (key : α → ℤ) (rows : List α) (s : α) : List α :=
  rows.filter fun r => r ≠ s ∧ key r ≤ key s

omit [DecidableEq α] in
/-- A row in the middle is taken if the rows in front of it leave room. -/
theorem mem_take_middle {xs ys : List α} {s : α} (h : s ∉ xs) (n : ℕ) :
    s ∈ (xs ++ s :: ys).take n ↔ xs.length < n := by
  rw [List.take_append, List.mem_append]
  constructor
  · -- not among those in front, so it is in what is taken of the rest
    rintro (h_mem | h_mem)
    · exact absurd (List.mem_of_mem_take h_mem) h
    · by_contra h_le
      rw [Nat.sub_eq_zero_of_le (not_lt.mp h_le)] at h_mem
      simp at h_mem
  · intro h_lt
    obtain ⟨k, hk⟩ := Nat.exists_eq_succ_of_ne_zero (Nat.sub_ne_zero_of_lt h_lt)
    right
    rw [hk]
    simp

/-- A row of distinct ones, between those that come before it and those after. -/
theorem exists_split (o : OrderBy α) (key : α → ℤ) {rows : List α} {s : α} (h : rows.Nodup)
    (hs : s ∈ rows) :
    ∃ xs ys, o.orderBy key rows = xs ++ s :: ys ∧ s ∉ xs ∧ xs.Nodup ∧
      (before key rows s).length ≤ xs.length ∧ xs.length ≤ (notAfter key rows s).length := by
  obtain ⟨xs, ys, h_eq⟩ := List.append_of_mem ((o.mem_orderBy key).mpr hs)
  have h_nodup : (xs ++ s :: ys).Nodup := h_eq ▸ o.nodup_orderBy h
  have h_not : s ∉ xs := fun hx =>
    (List.nodup_append.mp h_nodup).2.2 s hx s List.mem_cons_self rfl
  have h_order := o.ordered key rows
  rw [h_eq, List.pairwise_append, List.pairwise_cons] at h_order
  obtain ⟨-, ⟨h_after, -⟩, h_before⟩ := h_order
  have h_xs : xs.Nodup := (List.nodup_append.mp h_nodup).1
  refine ⟨xs, ys, h_eq, h_not, h_xs, ?_, ?_⟩
  · -- what has a smaller key cannot come after
    refine (List.Nodup.subperm (h.filter _) fun r hr => ?_).length_le
    obtain ⟨h_r, h_lt⟩ := List.mem_filter.mp hr
    rw [decide_eq_true_eq] at h_lt
    rw [← o.mem_orderBy key, h_eq, List.mem_append, List.mem_cons] at h_r
    rcases h_r with h_r | rfl | h_r
    · exact h_r
    · exact absurd h_lt (lt_irrefl _)
    · exact absurd h_lt (not_lt.mpr (h_after r h_r))
  · refine (List.Nodup.subperm h_xs fun r hr => List.mem_filter.mpr ⟨?_, ?_⟩).length_le
    · rw [← o.mem_orderBy key, h_eq]
      exact List.mem_append_left _ hr
    · have h_ne : r ≠ s := fun h_rs => h_not (h_rs ▸ hr)
      simpa [h_ne] using h_before r hr s List.mem_cons_self

/-- Kept behind, a row comes after all that may come before it. -/
theorem split_behind {key : α → ℤ} {rows xs ys : List α} {s : α} (h : rows.Nodup)
    (h_eq : (behind (· = s)).orderBy key rows = xs ++ s :: ys) :
    (notAfter key rows s).length ≤ xs.length := by
  have h_order := pairwise_behind (· = s) key rows
  rw [h_eq, List.pairwise_append, List.pairwise_cons] at h_order
  refine (List.Nodup.subperm (h.filter _) fun r hr => ?_).length_le
  obtain ⟨h_r, h_le⟩ := List.mem_filter.mp hr
  rw [decide_eq_true_eq] at h_le
  -- every row that is not after `s` stands in front of it
  rw [← (behind (· = s)).mem_orderBy key, h_eq, List.mem_append, List.mem_cons] at h_r
  rcases h_r with h_r | rfl | h_r
  · exact h_r
  · -- a row behind would have a greater key, or be `s` itself
    exact absurd rfl h_le.1
  · rcases h_order.2.1.1 r h_r with h_lt | ⟨-, h_late⟩
    · exact absurd h_le.2 (not_le.mpr h_lt)
    · exact absurd (h_late rfl) h_le.1

omit [DecidableEq α] in
/-- With all others kept behind, only what has to come before a row does. -/
theorem split_ahead {key : α → ℤ} {rows xs ys : List α} {s : α}
    (h_eq : (behind (· ≠ s)).orderBy key rows = xs ++ s :: ys) (h_not : s ∉ xs) (h_xs : xs.Nodup) :
    xs.length ≤ (before key rows s).length := by
  have h_order := pairwise_behind (· ≠ s) key rows
  rw [h_eq, List.pairwise_append] at h_order
  refine (List.Nodup.subperm h_xs fun r hr => List.mem_filter.mpr ⟨?_, ?_⟩).length_le
  · rw [← (behind (· ≠ s)).mem_orderBy key, h_eq]
    exact List.mem_append_left _ hr
  · -- a row in front of `s` has a smaller key, as `s` comes first among its equals
    rcases h_order.2.2 r hr s List.mem_cons_self with h_lt | ⟨-, h_late⟩
    · simpa using h_lt
    · have h_ne : r ≠ s := fun h_rs => h_not (h_rs ▸ hr)
      exact absurd rfl (h_late h_ne)

/-- **A row is among the first `n` in every order** exactly when fewer than `n` others may come
before it. -/
theorem forall_mem_take_iff {key : α → ℤ} {rows : List α} {s : α} (h : rows.Nodup)
    (hs : s ∈ rows) (n : ℕ) :
    (∀ o : OrderBy α, s ∈ (o.orderBy key rows).take n) ↔ (notAfter key rows s).length < n := by
  constructor
  · -- the order that puts `s` last among its equals decides
    intro h_all
    obtain ⟨xs, ys, h_eq, h_not, -, -, -⟩ := (behind (· = s)).exists_split key h hs
    have h_mem := h_all (behind (· = s))
    rw [h_eq, mem_take_middle h_not] at h_mem
    exact (split_behind h h_eq).trans_lt h_mem
  · intro h_lt o
    obtain ⟨xs, ys, h_eq, h_not, -, -, h_le⟩ := o.exists_split key h hs
    rw [h_eq, mem_take_middle h_not]
    exact h_le.trans_lt h_lt

/-- **A row is in no order among the first `n`** exactly when at least `n` have to come before
it. -/
theorem forall_not_mem_take_iff {key : α → ℤ} {rows : List α} {s : α} (h : rows.Nodup)
    (hs : s ∈ rows) (n : ℕ) :
    (∀ o : OrderBy α, s ∉ (o.orderBy key rows).take n) ↔ n ≤ (before key rows s).length := by
  constructor
  · -- the order that puts `s` first among its equals decides
    intro h_all
    obtain ⟨xs, ys, h_eq, h_not, h_xs, -, -⟩ := (behind (· ≠ s)).exists_split key h hs
    have h_mem := h_all (behind (· ≠ s))
    rw [h_eq, mem_take_middle h_not, not_lt] at h_mem
    exact h_mem.trans (split_ahead h_eq h_not h_xs)
  · intro h_le o
    obtain ⟨xs, ys, h_eq, h_not, -, h_before, -⟩ := o.exists_split key h hs
    rw [h_eq, mem_take_middle h_not, not_lt]
    exact h_le.trans h_before

omit [DecidableEq α] in
/-- Two rows, the first of which need not come later, in this order. -/
theorem exists_before {key : α → ℤ} {rows : List α} {s t : α} (hs : s ∈ rows) (ht : t ∈ rows)
    (h_ne : s ≠ t) (h_le : key s ≤ key t) :
    ∃ o : OrderBy α, List.Sublist [s, t] (o.orderBy key rows) := by
  -- `t` comes last among its equals
  refine ⟨behind (· = t), ?_⟩
  have h_order := pairwise_behind (· = t) key rows
  obtain ⟨xs, ys, h_eq⟩ := List.append_of_mem (((behind (· = t)).mem_orderBy key).mpr ht)
  rw [h_eq] at h_order ⊢
  rw [List.pairwise_append, List.pairwise_cons] at h_order
  -- so `s` cannot stand behind it
  have h_s : s ∈ xs := by
    have h_mem := ((behind (· = t)).mem_orderBy key).mpr hs
    rw [h_eq, List.mem_append, List.mem_cons] at h_mem
    rcases h_mem with h_mem | h_mem | h_mem
    · exact h_mem
    · exact absurd h_mem h_ne
    · rcases h_order.2.1.1 s h_mem with h_lt | ⟨-, h_late⟩
      · exact absurd h_le (not_le.mpr h_lt)
      · exact absurd (h_late rfl) h_ne
  exact (List.singleton_sublist.mpr h_s).append (List.singleton_sublist.mpr List.mem_cons_self)

end OrderBy
end Lib
