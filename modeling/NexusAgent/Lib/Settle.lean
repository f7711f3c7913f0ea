import Mathlib.Tactic.Common
import Mathlib.Data.Nat.Notation

/-!
# Settling for a candidate

A search goes down a chain of candidates, `next` leading from each to the one tried after
it, and settles for the first that is good, or for the last of the chain. `Settles` is the
outcome as a relation, so that it can be spoken about without the loop that finds it.

* `Settles.unique`: there is one outcome.
* `Settles.good_of_last`: the outcome is good if the ends of chains are.
-/

namespace Lib

variable {α β : Type*}

/-- The search that starts at a candidate settles for another. -/
inductive Settles (good : α → Prop) (next : α → Option α) : α → α → Prop
  | good {x : α} (h_good : good x) : Settles good next x x
  | last {x : α} (h_bad : ¬good x) (h_next : next x = none) : Settles good next x x
  | step {x y z : α} (h_bad : ¬good x) (h_next : next x = some y)
      (h_rest : Settles good next y z) : Settles good next x z

namespace Settles

variable {good : α → Prop} {next : α → Option α} {x y z : α}

/-- There is one place where the search settles. -/
theorem unique (h : Settles good next x y) (h' : Settles good next x z) : y = z := by
  induction h with
  | good h_good =>
    -- at a good place it stops
    cases h' with
    | good => rfl
    | last h_bad => exact absurd h_good h_bad
    | step h_bad => exact absurd h_good h_bad
  | last h_bad h_next =>
    -- at the last place it stops as well
    cases h' with
    | good h_good => exact absurd h_good h_bad
    | last => rfl
    | step _ h_next' => cases h_next.symm.trans h_next'
  | step h_bad h_next _ ih =>
    -- elsewhere both go on to the same place
    cases h' with
    | good h_good => exact absurd h_good h_bad
    | last _ h_next' => cases h_next.symm.trans h_next'
    | step _ h_next' h_rest' =>
      obtain rfl := Option.some.inj (h_next.symm.trans h_next')
      exact ih h_rest'

/-- The outcome is good if whatever a chain can end with is. -/
theorem good_of_last (h : Settles good next x y) (h_last : ∀ x, next x = none → good x) :
    good y := by
  induction h with
  | good h_good => exact h_good
  | last h_bad h_next => exact absurd (h_last _ h_next) h_bad
  | step _ _ _ ih => exact ih

end Settles
end Lib
