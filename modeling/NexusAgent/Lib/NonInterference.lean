import Mathlib.Data.List.Basic

/-!
# Calls that do not disturb each other

Two parties call one system, one call after another. Neither disturbs the first if it hears what it
would have heard by itself: every call of it returns the same when the calls of the other are left
out (`Undisturbed`).

* `undisturbed_of_related`: it is enough to relate the states that look the same to the first
  party. Its own calls return the same from related states and keep them related, and a call of
  the other leads to a related state.
-/

namespace Lib

variable {σ α ρ : Type}

/-- What the calls of one party return, along a sequence of calls. -/
def heard (step : α → σ → ρ × σ) (mine : α → Bool) : List α → σ → List ρ
  | [], _ => []
  | a :: as, s =>
    if mine a then (step a s).1 :: heard step mine as (step a s).2
    else heard step mine as (step a s).2

/-- From `s`, the calls that are not `mine` make no difference to those that are, whatever the
allowed calls are. -/
def Undisturbed (step : α → σ → ρ × σ) (mine : α → Bool) (allowed : α → Prop) (s : σ) : Prop :=
  ∀ as, (∀ a ∈ as, allowed a) → heard step mine as s = heard step mine (as.filter mine) s

variable {step : α → σ → ρ × σ} {mine : α → Bool} {allowed : α → Prop}

/-- **States that look the same** to one party hear the same. -/
theorem undisturbed_of_related (R : σ → σ → Prop)
    (h_mine : ∀ a s t, allowed a → mine a = true → R s t →
      (step a s).1 = (step a t).1 ∧ R (step a s).2 (step a t).2)
    (h_other : ∀ a s t, allowed a → mine a = false → R s t → R (step a s).2 t)
    {s : σ} (h : R s s) : Undisturbed step mine allowed s := by
  -- two related states hear the same, with the others' actions left out on one side
  have h_run : ∀ as s t, (∀ a ∈ as, allowed a) → R s t →
      heard step mine as s = heard step mine (as.filter mine) t := by
    intro as
    induction as with
    | nil => exact fun s t _ _ => rfl
    | cons a as ih =>
      intro s t h_as h_st
      obtain ⟨h_a, h_rest⟩ := List.forall_mem_cons.mp h_as
      cases h_turn : mine a with
      -- one's own action: both sides take it
      | true =>
        obtain ⟨h_same, h_next⟩ := h_mine a s t h_a h_turn h_st
        rw [List.filter_cons_of_pos h_turn, heard, heard, if_pos h_turn, if_pos h_turn, h_same,
          ih _ _ h_rest h_next]
      -- another's action: only one side takes it, and stays related
      | false =>
        have h_not : ¬ mine a = true := by simp [h_turn]
        rw [List.filter_cons_of_neg h_not, heard, if_neg h_not]
        exact ih _ _ h_rest (h_other a s t h_a h_turn h_st)
  exact fun as h_as => h_run as s s h_as h

end Lib
