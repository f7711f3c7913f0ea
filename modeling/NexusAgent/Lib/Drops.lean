import Mathlib

/-!
# The drops of a sequence of levels

A level starts somewhere and moves from one value to the next. An account that books every
move downwards and no move upwards ends with `drops`, the sum of the falls. What was
gained at best is the way down from the start to the lowest level reached.

* `depth_le_drops`: the account never has less than that.
* `drops_le_iff`: it has no more exactly when the level is a `Valley`, one that never falls
  again once it rose.
-/

namespace Lib.Levels

/-- The moves of a level that starts at `b` and goes through `xs`. -/
def moves (b : ℕ) (xs : List ℕ) : List (ℕ × ℕ) := (b :: xs).zip xs

/-- The sum of the falls. -/
def drops (b : ℕ) (xs : List ℕ) : ℕ := ((moves b xs).map fun m => m.1 - m.2).sum

/-- The lowest level reached, the start included. -/
def lowest (b : ℕ) : List ℕ → ℕ
  | [] => b
  | x :: xs => min b (lowest x xs)

/-- Once the level rose, it never falls again. -/
def Valley (b : ℕ) (xs : List ℕ) : Prop :=
  (moves b xs).Pairwise fun m m' => m.1 < m.2 → m'.1 ≤ m'.2

instance (b : ℕ) (xs : List ℕ) : Decidable (Valley b xs) :=
  inferInstanceAs (Decidable (List.Pairwise _ _))

variable {b x m : ℕ} {xs : List ℕ}

@[simp] theorem moves_nil : moves b [] = [] := rfl

@[simp] theorem moves_cons : moves b (x :: xs) = (b, x) :: moves x xs := rfl

@[simp] theorem drops_nil : drops b [] = 0 := rfl

@[simp] theorem drops_cons : drops b (x :: xs) = (b - x) + drops x xs := by
  simp [drops]

/-- One more move. -/
theorem drops_concat (b x : ℕ) (xs : List ℕ) :
    drops b (xs ++ [x]) = drops b xs + (xs.getLast?.getD b - x) := by
  induction xs generalizing b with
  | nil => simp
  | cons y ys ih =>
    rw [List.cons_append, drops_cons, drops_cons, ih, List.getLast?_cons]
    simp [Nat.add_assoc]

theorem lowest_le_start : lowest b xs ≤ b := by
  cases xs with
  | nil => exact Nat.le_refl b
  | cons x xs => exact Nat.min_le_left _ _

/-- The lowest one is below each. -/
theorem lowest_le_of_mem (h : x ∈ xs) : lowest b xs ≤ x := by
  induction xs generalizing b with
  | nil => cases h
  | cons y ys ih =>
    rcases List.mem_cons.mp h with rfl | h
    · exact (Nat.min_le_right _ _).trans lowest_le_start
    · exact (Nat.min_le_right _ _).trans (ih h)

/-- The lowest value is the bound or one of the list. -/
theorem lowest_eq_or_mem (b : ℕ) (xs : List ℕ) : lowest b xs = b ∨ lowest b xs ∈ xs := by
  induction xs generalizing b with
  | nil => exact .inl rfl
  | cons x xs ih =>
    rw [lowest]
    rcases min_choice b (lowest x xs) with h | h
    · exact .inl h
    · rw [h]
      rcases ih x with h_start | h_mem
      · exact .inr (List.mem_cons.mpr (.inl h_start))
      · exact .inr (List.mem_cons_of_mem _ h_mem)

/-- The falls go down to the lowest level at least. -/
theorem depth_le_drops (b : ℕ) (xs : List ℕ) : b - lowest b xs ≤ drops b xs := by
  induction xs generalizing b with
  | nil => simp [lowest]
  | cons x xs ih =>
    have h_rest := ih x
    rw [lowest, drops_cons]
    omega

theorem drops_eq_zero_iff : drops b xs = 0 ↔ ∀ m ∈ moves b xs, m.1 ≤ m.2 := by
  rw [drops, List.sum_eq_zero_iff, List.forall_mem_map]
  simp only [Nat.sub_eq_zero_iff_le]

/-- **The account of the falls has no more than the depth reached** exactly when the level
never falls again once it rose. -/
theorem drops_le_iff (b : ℕ) (xs : List ℕ) : drops b xs ≤ b - lowest b xs ↔ Valley b xs := by
  induction xs generalizing b with
  | nil => simp [lowest, Valley]
  | cons x xs ih =>
    have h_depth := depth_le_drops x xs
    have h_start : lowest x xs ≤ x := lowest_le_start
    rw [Valley, moves_cons, List.pairwise_cons]
    rcases le_or_gt x b with h_fall | h_rise
    · -- the first move is down: it counts in full
      have h_low : lowest b (x :: xs) = lowest x xs := min_eq_right (h_start.trans h_fall)
      have h_first : ∀ m ∈ moves x xs, b < x → m.1 ≤ m.2 := fun _ _ h => absurd h h_fall.not_gt
      rw [and_iff_right h_first, ← Valley, ← ih, drops_cons, h_low]
      omega
    · -- the first move is up: from here on every fall is too much
      have h_low : lowest b (x :: xs) = min b (lowest x xs) := rfl
      rw [drops_cons, h_low, Nat.sub_eq_zero_of_le h_rise.le, Nat.zero_add]
      constructor
      · intro h
        have h_zero : drops x xs = 0 := by omega
        have h_flat := drops_eq_zero_iff.mp h_zero
        exact ⟨fun m h_m _ => h_flat m h_m, List.pairwise_of_forall_mem_list fun m h_m m' h_m' _ =>
          h_flat m' h_m'⟩
      · rintro ⟨h_flat, -⟩
        rw [drops_eq_zero_iff.mpr fun m h_m => h_flat m h_m h_rise]
        exact Nat.zero_le _

end Lib.Levels
