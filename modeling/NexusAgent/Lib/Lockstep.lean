import NexusAgent.Lib.Prog

/-!
# Two programs in lockstep

`InStep R x y s t` says that the program `x` from the state `s` and the program `y` from
the state `t` return or raise the same, in states that `R` relates. The rules follow the
text of the two programs, which may differ in what they do to the part of the state that
`R` overlooks; they may work on different types of state.

`inStep_loop` is the rule for two loops: their bodies have to keep step at the states the
first one visits.
-/

namespace Lib
namespace Prog

variable {σ τ ε α β : Type} {R : σ → τ → Prop} {s : σ} {t : τ}

/-- `x` from `s` and `y` from `t` end alike, in related states. -/
def InStep (R : σ → τ → Prop) (x : Prog σ ε α) (y : Prog τ ε α) (s : σ) (t : τ) : Prop :=
  (x s).1 = (y t).1 ∧ R (x s).2 (y t).2

/-! ### Single steps -/

theorem inStep_pure (v : α) (h : R s t) :
    InStep R (pure v : Prog σ ε α) (pure v) s t :=
  ⟨rfl, h⟩

theorem inStep_throw (e : ε) (h : R s t) :
    InStep R (throw e : Prog σ ε α) (throw e) s t :=
  ⟨rfl, h⟩

theorem inStep_modify {f : σ → σ} {g : τ → τ} (h : R (f s) (g t)) :
    InStep R (modify f : Prog σ ε Unit) (modify g) s t :=
  ⟨rfl, h⟩

theorem inStep_update {f : σ → α × σ} {g : τ → α × τ} (h_value : (f s).1 = (g t).1)
    (h : R (f s).2 (g t).2) : InStep R (update f : Prog σ ε α) (update g) s t :=
  ⟨congrArg Except.ok h_value, h⟩

/-! ### Composed programs -/

theorem bind_of_ok {x : Prog σ ε α} {f : α → Prog σ ε β} {v : α} {s' : σ}
    (h : x s = (.ok v, s')) : (x >>= f) s = f v s' := by
  simp only [bind, h]

theorem bind_of_error {x : Prog σ ε α} {f : α → Prog σ ε β} {e : ε} {s' : σ}
    (h : x s = (.error e, s')) : (x >>= f) s = (.error e, s') := by
  simp only [bind, h]

/-- Two parts in lockstep, followed by parts that are in lockstep where both have returned. -/
theorem InStep.bind_both {x : Prog σ ε α} {y : Prog τ ε α} {f : α → Prog σ ε β}
    {g : α → Prog τ ε β} (h : InStep R x y s t)
    (h_rest : ∀ v s' t', x s = (.ok v, s') → y t = (.ok v, t') → R s' t' →
      InStep R (f v) (g v) s' t') :
    InStep R (x >>= f) (y >>= g) s t := by
  obtain ⟨h_value, h_state⟩ := h
  rcases hx : x s with ⟨e | v, s'⟩ <;> rcases hy : y t with ⟨e' | v', t'⟩ <;>
    rw [hx, hy] at h_value h_state <;> cases h_value
  · -- both raise the same, and neither goes on
    unfold InStep
    rw [bind_of_error hx, bind_of_error hy]
    exact ⟨rfl, h_state⟩
  · -- both return the same value, and both go on
    unfold InStep
    rw [bind_of_ok hx, bind_of_ok hy]
    exact h_rest v s' t' hx hy h_state

/-- Two parts in lockstep, followed by parts that are in lockstep at what they return. -/
theorem InStep.bind {x : Prog σ ε α} {y : Prog τ ε α} {f : α → Prog σ ε β}
    {g : α → Prog τ ε β} (h : InStep R x y s t)
    (h_rest : ∀ v s' t', x s = (.ok v, s') → R s' t' → InStep R (f v) (g v) s' t') :
    InStep R (x >>= f) (y >>= g) s t :=
  h.bind_both fun v s' t' h_x _ => h_rest v s' t' h_x

/-- Both programs read their states first. -/
theorem inStep_get {f : σ → Prog σ ε α} {g : τ → Prog τ ε α} (h : InStep R (f s) (g t) s t) :
    InStep R (get >>= f) (get >>= g) s t :=
  h

/-- Both programs branch on the same condition. -/
theorem inStep_ite {c : Prop} [Decidable c] {x x' : Prog σ ε α} {y y' : Prog τ ε α}
    (h : c → InStep R x y s t) (h' : ¬c → InStep R x' y' s t) :
    InStep R (if c then x else x') (if c then y else y') s t := by
  by_cases hc : c
  · rw [if_pos hc, if_pos hc]
    exact h hc
  · rw [if_neg hc, if_neg hc]
    exact h' hc

/-- The same program over a component on which the states agree. -/
theorem inStep_zoom {υ δ : Type} {view : σ → υ} {view' : τ → υ} {put : σ → υ → σ}
    {put' : τ → υ → τ} (raise : δ → ε) (x : Prog υ δ α) (h_view : view s = view' t)
    (h : ∀ u, R (put s u) (put' t u)) :
    InStep R (zoom view put raise x) (zoom view' put' raise x) s t := by
  unfold InStep zoom
  rw [← h_view]
  rcases x (view s) with ⟨e | v, u⟩ <;> exact ⟨rfl, h u⟩

theorem InStep.attempt {x : Prog σ ε α} {y : Prog τ ε α} (h : InStep R x y s t) :
    InStep R (attempt x) (attempt y) s t :=
  ⟨congrArg Except.ok h.1, h.2⟩

/-- Tasks in lockstep, run along one schedule. -/
theorem inStep_gatherFrom {task : ℕ → Prog σ ε β} {task' : ℕ → Prog τ ε β}
    (h_task : ∀ i s t, R s t → InStep R (task i) (task' i) s t) (schedule : List ℕ)
    (done : List (ℕ × Except ε β)) (h : R s t) :
    InStep R (gatherFrom task done schedule) (gatherFrom task' done schedule) s t := by
  induction schedule generalizing done s t with
  | nil => exact inStep_pure done h
  | cons i schedule ih =>
    unfold gatherFrom
    refine (h_task i s t h).attempt.bind fun r s' t' _ h' => ?_
    exact ih (done ++ [(i, r)]) h'

/-- Tasks that keep two states related do so in any schedule. -/
theorem inStep_gather {task : ℕ → Prog σ ε β} {task' : ℕ → Prog τ ε β}
    (h_task : ∀ i s t, R s t → InStep R (task i) (task' i) s t) (schedule : List ℕ) (n : ℕ)
    (h : R s t) : InStep R (gather task schedule n) (gather task' schedule n) s t := by
  unfold gather
  refine (inStep_gatherFrom h_task schedule [] h).bind fun outcomes s' t' _ h' => ?_
  cases firstError outcomes with
  | some e => exact inStep_throw e h'
  | none => exact inStep_pure _ h'

/-! ### Loops -/

/-- **Two loops in lockstep.** The conditions agree at related states, and the bodies keep
step at every state the first loop visits. -/
theorem inStep_loop {cond : σ → Bool} {cond' : τ → Bool} {body : Prog σ ε Ctl}
    {body' : Prog τ ε Ctl} (h_cond : ∀ s t, R s t → cond s = cond' t) (n : ℕ)
    (h_body : ∀ s' t', Visits cond body s s' → cond s' = true → R s' t' →
      InStep R body body' s' t') (h : R s t) :
    InStep R (loop cond body n) (loop cond' body' n) s t := by
  induction n generalizing s t with
  | zero =>
    unfold InStep loop
    rw [h_cond s t h]
    exact ⟨rfl, h⟩
  | succ n ih =>
    unfold InStep loop
    simp only [← h_cond s t h]
    by_cases hc : cond s = true
    · rw [if_pos hc, if_pos hc]
      obtain ⟨h_value, h_state⟩ := h_body s t .refl hc h
      rcases hs : body s with ⟨e | c, s'⟩ <;> rcases ht : body' t with ⟨e' | c', t'⟩ <;>
        rw [hs, ht] at h_value h_state <;> cases h_value
      · exact ⟨rfl, h_state⟩
      · cases c with
        | stop => exact ⟨rfl, h_state⟩
        | next =>
          -- what the first loop visits after this pass, it visits from `s` on
          refine ih (fun u v h_visits => ?_) h_state
          exact h_body u v (.head ⟨hc, hs⟩ h_visits)
    · rw [if_neg hc, if_neg hc]
      exact ⟨rfl, h⟩

end Prog
end Lib
