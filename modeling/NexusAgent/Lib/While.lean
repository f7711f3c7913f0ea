import Mathlib.Data.Sum.Basic
import Mathlib.Logic.Relation
import Mathlib.Tactic.Common
import Mathlib.Data.Nat.Notation

/-!
# Loops that are left from within

One pass of a `while True` loop goes on with a state or leaves the loop with one. `Passes` relates
the state before the loop, the number of passes and the state it is left with; `Visited` are the
states that passes begin with.

* `exists_passes`: a measure that every pass but the last lowers bounds the number of passes.
* `Visited.invariant`: what a pass hands on to the next.
* `Passes.run_eq`: the loop as a function, with fuel.
* `Passes.simulate`: two loops that keep step.
-/

namespace Lib

variable {σ τ : Type*} {body : σ → σ ⊕ σ} {s t u : σ} {n m : ℕ}

/-- The loop is left after so many passes. -/
inductive Passes (body : σ → σ ⊕ σ) : σ → ℕ → σ → Prop
  | leave {s t : σ} (h : body s = .inr t) : Passes body s 1 t
  | again {s t u : σ} {n : ℕ} (h : body s = .inl t) (h_rest : Passes body t n u) :
    Passes body s (n + 1) u

/-- The states that passes begin with. -/
def Visited (body : σ → σ ⊕ σ) : σ → σ → Prop :=
  Relation.ReflTransGen fun s t => body s = .inl t

/-- The loop with a bound on its passes. -/
def runPasses (body : σ → σ ⊕ σ) : ℕ → σ → σ
  | 0, s => s
  | n + 1, s =>
    match body s with
    | .inl t => runPasses body n t
    | .inr t => t

/-- **Termination**: a measure bounds the number of passes. -/
theorem exists_passes (μ : σ → ℕ) (h : ∀ s t, body s = .inl t → μ t < μ s) (s : σ) :
    ∃ n t, n ≤ μ s + 1 ∧ Passes body s n t := by
  induction h_measure : μ s using Nat.strongRecOn generalizing s with
  | ind k ih =>
    cases h_body : body s with
    | inr t => exact ⟨1, t, by omega, .leave h_body⟩
    | inl t =>
      have h_lt := h s t h_body
      obtain ⟨n, u, h_n, h_rest⟩ := ih (μ t) (h_measure ▸ h_lt) t rfl
      exact ⟨n + 1, u, by omega, .again h_body h_rest⟩

/-- The loop, run with enough fuel. -/
theorem Passes.run_eq (h : Passes body s n t) (h_fuel : n ≤ m) : runPasses body m s = t := by
  induction h generalizing m with
  | leave h_body =>
    obtain ⟨m, rfl⟩ := Nat.exists_eq_add_of_le' h_fuel
    rw [runPasses, h_body]
  | @again _ _ _ n h_body _ ih =>
    obtain ⟨m, rfl⟩ : ∃ k, m = k + 1 := ⟨m - 1, by omega⟩
    rw [runPasses, h_body]
    exact ih (Nat.le_of_succ_le_succ h_fuel)

/-- The loop is left from a state it visited. -/
theorem Passes.exists_last (h : Passes body s n t) : ∃ u, Visited body s u ∧ body u = .inr t := by
  induction h with
  | leave h_body => exact ⟨_, .refl, h_body⟩
  | again h_body _ ih =>
    obtain ⟨u, h_u, h_last⟩ := ih
    exact ⟨u, .head h_body h_u, h_last⟩

/-- **The invariant rule.** -/
theorem Visited.invariant {I : σ → Prop} (h_step : ∀ s t, I s → body s = .inl t → I t)
    (h_start : I s) (h : Visited body s t) : I t := by
  induction h with
  | refl => exact h_start
  | tail _ h_body ih => exact h_step _ _ ih h_body

/-- **Two loops that keep step** are left after as many passes. -/
theorem Passes.simulate {body' : τ → τ ⊕ τ} {R S : σ → τ → Prop}
    (h_step : ∀ s s', R s s' → Sum.LiftRel R S (body s) (body' s')) (h : Passes body s n t) :
    ∀ {s'}, R s s' → ∃ t', Passes body' s' n t' ∧ S t t' := by
  induction h with
  | @leave s t h_body =>
    intro s' h_s
    have h_lift := h_step s s' h_s
    rw [h_body] at h_lift
    cases h_body' : body' s' with
    -- one loop leaves and the other goes on: the bodies are not related
    | inl t' => rw [h_body'] at h_lift; cases h_lift
    | inr t' =>
      rw [h_body'] at h_lift
      exact ⟨t', .leave h_body', Sum.liftRel_inr_inr.mp h_lift⟩
  | @again s t _ _ h_body _ ih =>
    intro s' h_s
    have h_lift := h_step s s' h_s
    rw [h_body] at h_lift
    cases h_body' : body' s' with
    | inr t' => rw [h_body'] at h_lift; cases h_lift
    | inl t' =>
      rw [h_body'] at h_lift
      obtain ⟨u', h_rest, h_u⟩ := ih (Sum.liftRel_inl_inl.mp h_lift)
      exact ⟨u', .again h_body' h_rest, h_u⟩

end Lib
