import Mathlib.Data.List.Induction

/-!
# Systems of interleaved actions

A system is a step function: an action leads from a state to a next one, or is not possible
there. `runSteps` runs a list of actions, so a statement about every list is one about every
interleaving of the parties the actions belong to.

* `runSteps_append`, `runSteps_concat`: a run in two parts, and by its last action.
* `runSteps_invariant`: what one step keeps, a run keeps.
* `runSteps_history`: the same for what relates a state to the actions that led there.
* `observed`: a system with an observer of its steps, whose runs are those of the system.
* `EachStep`, `runSteps_history_of_each`: the same for runs whose every action meets a
  condition on the state it is taken in; `eachStep_congr`: two conditions that agree where an
  invariant holds.
-/

namespace Lib

variable {σ α : Type*} {step : σ → α → Option σ}

/-- The state after a list of actions, if each of them was possible. -/
def runSteps (step : σ → α → Option σ) : σ → List α → Option σ
  | s, [] => some s
  | s, a :: as => (step s a).bind fun t => runSteps step t as

@[simp] theorem runSteps_nil (s : σ) : runSteps step s [] = some s := rfl

theorem runSteps_cons (s : σ) (a : α) (as : List α) :
    runSteps step s (a :: as) = (step s a).bind fun t => runSteps step t as := rfl

/-- Two lists of actions run one after the other. -/
theorem runSteps_append (s : σ) (as bs : List α) :
    runSteps step s (as ++ bs) = (runSteps step s as).bind fun t => runSteps step t bs := by
  induction as generalizing s with
  | nil => rfl
  | cons a as ih =>
    rw [List.cons_append, runSteps_cons, runSteps_cons, Option.bind_assoc]
    congr 1
    ext1 t
    exact ih t

/-- A run that ends with one more action. -/
theorem runSteps_concat {s u : σ} {as : List α} {a : α} :
    runSteps step s (as ++ [a]) = some u ↔
      ∃ t, runSteps step s as = some t ∧ step t a = some u := by
  rw [runSteps_append, Option.bind_eq_some_iff]
  simp [runSteps_cons]

/-- A run that begins with one action. -/
theorem runSteps_cons_eq_some {s u : σ} {as : List α} {a : α} :
    runSteps step s (a :: as) = some u ↔
      ∃ t, step s a = some t ∧ runSteps step t as = some u := by
  rw [runSteps_cons, Option.bind_eq_some_iff]

/-- A run in two parts. -/
theorem runSteps_append_eq_some {s u : σ} {as bs : List α} :
    runSteps step s (as ++ bs) = some u ↔
      ∃ t, runSteps step s as = some t ∧ runSteps step t bs = some u := by
  rw [runSteps_append, Option.bind_eq_some_iff]

/-- **The history rule**: what holds of the start and is kept by one more action holds of
every run, with the actions that led to the state. -/
theorem runSteps_history {I : List α → σ → Prop} {s₀ : σ} (h_init : I [] s₀)
    (h_step : ∀ as s a t, runSteps step s₀ as = some s → I as s → step s a = some t →
      I (as ++ [a]) t) :
    ∀ {as s}, runSteps step s₀ as = some s → I as s := by
  intro as
  -- along the actions from the last one backwards
  induction as using List.reverseRecOn with
  | nil =>
    intro s h
    obtain rfl := Option.some.inj h
    exact h_init
  | append_singleton as a ih =>
    intro u h
    obtain ⟨t, h_t, h_a⟩ := runSteps_concat.mp h
    exact h_step as t a u h_t (ih h_t) h_a

/-- **The invariant rule.** -/
theorem runSteps_invariant {I : σ → Prop} {s₀ : σ} (h_init : I s₀)
    (h_step : ∀ s a t, I s → step s a = some t → I t) {as : List α} {s : σ}
    (h : runSteps step s₀ as = some s) : I s :=
  runSteps_history (I := fun _ => I) h_init (fun _ s a t _ hI => h_step s a t hI) h

/-! ### Observers -/

variable {ω : Type*} {next : σ → α → ω → ω}

/-- The system with an observer, who sees the state before each action. -/
def observed (step : σ → α → Option σ) (next : σ → α → ω → ω) (w : σ × ω) (a : α) :
    Option (σ × ω) :=
  (step w.1 a).map fun t => (t, next w.1 a w.2)

/-- An observed step is the step together with its observation. -/
theorem observed_eq_some {w v : σ × ω} {a : α} :
    observed step next w a = some v ↔ step w.1 a = some v.1 ∧ v.2 = next w.1 a w.2 := by
  rw [observed, Option.map_eq_some_iff]
  constructor
  · rintro ⟨t, h_t, rfl⟩
    exact ⟨h_t, rfl⟩
  · rintro ⟨h_t, h_o⟩
    exact ⟨v.1, h_t, by rw [← h_o]⟩

/-- Every run can be observed. -/
theorem exists_runSteps_observed {s t : σ} {as : List α} (h : runSteps step s as = some t)
    (next : σ → α → ω → ω) (o : ω) :
    ∃ p, runSteps (observed step next) (s, o) as = some (t, p) := by
  induction as generalizing s o with
  | nil =>
    obtain rfl := Option.some.inj h
    exact ⟨o, rfl⟩
  | cons a as ih =>
    obtain ⟨u, h_u, h_rest⟩ := runSteps_cons_eq_some.mp h
    obtain ⟨p, h_p⟩ := ih h_rest (next s a o)
    exact ⟨p, runSteps_cons_eq_some.mpr ⟨(u, next s a o), observed_eq_some.mpr ⟨h_u, rfl⟩, h_p⟩⟩

/-! ### Conditions on the steps of a run -/

/-- Every action of a run is taken in a state where `C` allows it. -/
def EachStep (step : σ → α → Option σ) (C : σ → α → Prop) : σ → List α → Prop
  | _, [] => True
  | s, a :: as => C s a ∧ ∀ t ∈ step s a, EachStep step C t as

instance EachStep.decidable {C : σ → α → Prop} [∀ s a, Decidable (C s a)] :
    (s : σ) → (as : List α) → Decidable (EachStep step C s as)
  | _, [] => inferInstanceAs (Decidable True)
  | s, a :: as =>
    have : ∀ t, Decidable (EachStep step C t as) := fun t => EachStep.decidable t as
    inferInstanceAs (Decidable (C s a ∧ ∀ t ∈ step s a, EachStep step C t as))

/-- A condition on each step of two lists holds on each of both. -/
theorem eachStep_append {C : σ → α → Prop} {s : σ} {as bs : List α} :
    EachStep step C s (as ++ bs) ↔
      EachStep step C s as ∧ ∀ t, runSteps step s as = some t → EachStep step C t bs := by
  induction as generalizing s with
  | nil => simp [EachStep]
  | cons a as ih =>
    simp only [List.cons_append, EachStep, ih, runSteps_cons_eq_some]
    constructor
    · rintro ⟨h_a, h_rest⟩
      -- the first step, and what follows it
      exact ⟨⟨h_a, fun t h_t => (h_rest t h_t).1⟩, fun u ⟨t, h_t, h_u⟩ => (h_rest t h_t).2 u h_u⟩
    · rintro ⟨⟨h_a, h_as⟩, h_bs⟩
      exact ⟨h_a, fun t h_t => ⟨h_as t h_t, fun u h_u => h_bs u ⟨t, h_t, h_u⟩⟩⟩

/-- The history rule for runs whose every action meets a condition. -/
theorem runSteps_history_of_each {C : σ → α → Prop} {I : List α → σ → Prop} {s₀ : σ}
    (h_init : I [] s₀)
    (h_step : ∀ as s a t, runSteps step s₀ as = some s → I as s → C s a → step s a = some t →
      I (as ++ [a]) t) {as : List α} {s : σ} (h : runSteps step s₀ as = some s)
    (h_each : EachStep step C s₀ as) : I as s := by
  refine runSteps_history (I := fun as s => EachStep step C s₀ as → I as s) (fun _ => h_init) ?_ h
    h_each
  intro as s a t h_s ih h_a h_each'
  obtain ⟨h_as, h_last⟩ := eachStep_append.mp h_each'
  exact h_step as s a t h_s (ih h_as) (h_last s h_s).1 h_a

/-- A condition that implies another wherever an invariant holds that it keeps. -/
theorem EachStep.imp_of_invariant {C C' : σ → α → Prop} {I : σ → Prop}
    (h_step : ∀ s a t, I s → C s a → step s a = some t → I t)
    (h_imp : ∀ s a, I s → C s a → C' s a) {s : σ} (h_init : I s) {as : List α}
    (h : EachStep step C s as) : EachStep step C' s as := by
  induction as generalizing s with
  | nil => trivial
  | cons a as ih =>
    exact ⟨h_imp s a h_init h.1,
      fun t h_t => ih (h_step s a t h_init h.1 h_t) (h.2 t h_t)⟩

/-- A prefix of a run whose every action meets a condition. -/
theorem EachStep.of_prefix {C : σ → α → Prop} {s : σ} {as bs : List α} (h_pre : bs <+: as)
    (h : EachStep step C s as) : EachStep step C s bs := by
  obtain ⟨cs, rfl⟩ := h_pre
  exact (eachStep_append.mp h).1

/-- A condition that does not ask the observer. -/
theorem eachStep_observed {C : σ → α → Prop} {s : σ} {o : ω} {as : List α} :
    EachStep (observed step next) (fun w a => C w.1 a) (s, o) as ↔ EachStep step C s as := by
  induction as generalizing s o with
  | nil => exact Iff.rfl
  | cons a as ih =>
    refine and_congr Iff.rfl ⟨fun h t h_t => ?_, fun h w h_w => ?_⟩
    · exact ih.mp (h (t, next s a o) (observed_eq_some.mpr ⟨h_t, rfl⟩))
    · exact ih.mpr (h w.1 (observed_eq_some.mp h_w).1)

/-- Conditions that agree wherever an invariant holds are met by the same runs. -/
theorem eachStep_congr {C C' : σ → α → Prop} {I : σ → Prop} {s₀ : σ} (h_init : I s₀)
    (h_step : ∀ s a t, I s → step s a = some t → I t) (h_iff : ∀ s a, I s → (C s a ↔ C' s a))
    (as : List α) : EachStep step C s₀ as ↔ EachStep step C' s₀ as := by
  induction as generalizing s₀ with
  | nil => exact Iff.rfl
  | cons a as ih =>
    exact and_congr (h_iff s₀ a h_init)
      (forall₂_congr fun t h_t => ih (h_step s₀ a t h_init h_t))

end Lib
