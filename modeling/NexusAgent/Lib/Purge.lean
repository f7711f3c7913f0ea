import Mathlib.Data.List.Basic

/-!
# Purged runs

A state that many parties act on keeps a party apart from the others when what the party can see
of it is the same as if only its own actions had been run. It is enough to look at one action: an
own action changes the view by the view alone, and an action of the others leaves it.
-/

namespace Lib

variable {State Op View : Type} {exec : State → Op → State} {view : State → View}
  (permitted own : Op → Prop) [DecidablePred own]

/-- **What a party sees is due to its own actions.** -/
theorem view_purged
    (h_own : ∀ s t op, permitted op → own op → view s = view t → view (exec s op) = view (exec t op))
    (h_other : ∀ s op, permitted op → ¬own op → view (exec s op) = view s) {ops : List Op}
    (h_ops : ∀ op ∈ ops, permitted op) {s t : State} (h : view s = view t) :
    view (ops.foldl exec s) = view ((ops.filter own).foldl exec t) := by
  induction ops generalizing s t with
  | nil => exact h
  | cons op ops ih =>
    obtain ⟨h_op, h_rest⟩ := List.forall_mem_cons.mp h_ops
    -- one's own operation is done on both sides, another's on one only
    by_cases h_mine : own op
    · rw [List.filter_cons_of_pos (by simpa using h_mine)]
      exact ih h_rest (h_own s t op h_op h_mine h)
    · rw [List.filter_cons_of_neg (by simpa using h_mine)]
      exact ih h_rest ((h_other s op h_op h_mine).trans h)

end Lib
