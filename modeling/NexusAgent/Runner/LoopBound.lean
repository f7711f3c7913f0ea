import NexusAgent.Runner.AllowList

/-!
# How often a run calls the model

A pass of the loop calls the model at most once. A pass that goes on moves to the next turn
or uses up a retry, and moving on refills the retries of one turn at most; so what is left of
`turn_limit * (1 + structured_output_max_retries)` passes shrinks with every pass, whatever
the model, the hooks and the tools do.

* `TurnStep.passesLeft_lt`: one pass.
* `llmCalls_bounded`: a run makes no more calls than that, and its loop ends.
-/

open Lib

namespace Nexus

variable {a : StoreAdapter} {env : Env a} {stream : Bool} {limit : ℕ} {s s' : RunState a}

/-- The calls of a run so far. -/
def llmCalls (s : RunState a) : ℕ := s.trace.countP Obs.isCall

/-- The passes a run can still make from the head of its loop. -/
def passesLeft (env : Env a) (limit : ℕ) (s : RunState a) : ℕ :=
  budget env limit s - env.config.structuredOutputMaxRetries

/-! ### One pass -/

/-- A pass calls the model at most once. -/
theorem TurnStep.llmCalls_le {o : Except RunError Prog.Ctl} (h : TurnStep env stream s o s') :
    llmCalls s' ≤ llmCalls s + 1 := by
  unfold llmCalls
  -- a turn makes no call, or one
  rcases h.callFirst with ⟨-, h_trace⟩ | ⟨builds, sent, after, h_trace, h_builds, h_after⟩
  · rw [h_trace]
    exact Nat.le_succ _
  · -- a context that is built is no call
    have h_none : builds.countP Obs.isCall = 0 := by
      refine List.countP_eq_zero.mpr fun o ho => ?_
      obtain ⟨degraded, dropped, rfl⟩ := h_builds o ho
      exact Bool.false_ne_true
    calc
      s'.trace.countP Obs.isCall
        = s.trace.countP Obs.isCall + (builds.countP Obs.isCall + (after.countP Obs.isCall + 1)) := by
          rw [h_trace, List.countP_append, List.countP_append, List.countP_cons_of_pos rfl]
      _ ≤ s.trace.countP Obs.isCall + 1 := by rw [h_none, countP_afterCall h_after]

/-- A loop that goes on has a pass left. -/
theorem passesLeft_pos (h : s.runTurnIndex < limit) : 0 < passesLeft env limit s :=
  Nat.sub_pos_of_lt (lt_budget h)

/-- **A pass that goes on leaves fewer.** -/
theorem TurnStep.passesLeft_lt (h : TurnStep env stream s (.ok .next) s')
    (h_lt : s.runTurnIndex < limit)
    (h_retries : s.structRetriesRemaining ≤ env.config.structuredOutputMaxRetries) :
    passesLeft env limit s' < passesLeft env limit s := by
  have h_budget := (h.budget_lt h_lt h_retries).1
  have h_left : env.config.structuredOutputMaxRetries < budget env limit s := lt_budget h_lt
  unfold passesLeft
  omega

/-! ### Whole runs -/

/-- What holds at the head of the loop: the calls made and the passes left are within the
bound, and so are the retries left. -/
structure WithinBound (env : Env a) (limit : ℕ) (s : RunState a) : Prop where
  calls : llmCalls s + passesLeft env limit s ≤
    limit * (1 + env.config.structuredOutputMaxRetries)
  retries : s.structRetriesRemaining ≤ env.config.structuredOutputMaxRetries

/-- No pass leads out of the bound, the last one included. -/
theorem WithinBound.llmCalls_le (h : WithinBound env limit s) (h_lt : s.runTurnIndex < limit)
    {o : Except RunError Prog.Ctl} (h_step : TurnStep env stream s o s') :
    llmCalls s' ≤ limit * (1 + env.config.structuredOutputMaxRetries) := by
  have h_one := h_step.llmCalls_le
  have h_pos : 0 < passesLeft env limit s := passesLeft_pos h_lt
  have h_calls := h.calls
  omega

/-- A turn that goes on keeps within the bound. -/
theorem WithinBound.next (h : WithinBound env limit s) (h_lt : s.runTurnIndex < limit)
    (h_step : TurnStep env stream s (.ok .next) s') : WithinBound env limit s' where
  calls := by
    have h_one := h_step.llmCalls_le
    have h_left := h_step.passesLeft_lt h_lt h.retries
    have h_calls := h.calls
    omega
  retries := (h_step.budget_lt h_lt h.retries).2

/-- The start is within the bound. -/
theorem withinBound_startRun (env : Env a) (stream : Bool) (args : RunArgs) (st : Store a)
    (limit : ℕ) : WithinBound env limit (startRun env stream args st) where
  calls := by
    have h_left : passesLeft env limit (startRun env stream args st) =
        limit * (1 + env.config.structuredOutputMaxRetries) := by
      unfold passesLeft budget
      rw [startRun_retries, Nat.add_sub_cancel, Nat.add_comm 1]
      rfl
    rw [h_left]
    exact (Nat.zero_add _).le
  retries := le_rfl

/-- **The loop ends** within the passes the bound allows, and no call leads out of it. -/
theorem wp_loop_withinBound (env : Env a) (stream : Bool) (limit n : ℕ)
    (h : WithinBound env limit s) (h_n : passesLeft env limit s ≤ n) :
    Prog.wp (Prog.loop (loopCond limit) (turn env stream) n)
      (fun c t => c ≠ .outOfFuel ∧ llmCalls t ≤ limit * (1 + env.config.structuredOutputMaxRetries))
      (fun _ t => llmCalls t ≤ limit * (1 + env.config.structuredOutputMaxRetries)) s := by
  -- the loop's condition is that of the limit
  have h_head : ∀ {s : RunState a}, loopCond limit s = true → s.runTurnIndex < limit :=
    fun h_cond => by simpa [loopCond] using h_cond
  refine Prog.wp_loop (passesLeft env limit) (fun s _ h_cond => passesLeft_pos (h_head h_cond))
    ?_ ?_ n s h h_n
  · intro s h_s h_cond
    have h_lt := h_head h_cond
    refine Prog.wp_mono (wp_turn env stream s) (fun c s' h_step => ?_)
      (fun e s' h_step => h_s.llmCalls_le h_lt h_step)
    -- the next turn has one pass less
    cases c with
    | next => exact ⟨h_s.next h_lt h_step, h_step.passesLeft_lt h_lt h_s.retries⟩
    | stop => exact ⟨by decide, h_s.llmCalls_le h_lt h_step⟩
  · -- the limit is reached
    intro s h_s _
    exact ⟨by decide, (Nat.le_add_right _ _).trans h_s.calls⟩

/-- **A run calls the model at most `turn_limit * (1 + structured_output_max_retries)`
times**, and its loop ends on its own after that many passes at the latest. -/
theorem llmCalls_bounded (env : Env a) (stream : Bool) (args : RunArgs) (st : Store a) :
    llmCalls (execRun env stream args st) ≤
        turnLimit env args * (1 + env.config.structuredOutputMaxRetries) ∧
      ∀ n, turnLimit env args * (1 + env.config.structuredOutputMaxRetries) ≤ n →
        (Prog.loop (loopCond (turnLimit env args)) (turn env stream) n
          (startRun env stream args st)).1 ≠ .ok .outOfFuel := by
  have h_start := withinBound_startRun env stream args st (turnLimit env args)
  have h_left : passesLeft env (turnLimit env args) (startRun env stream args st) ≤
      turnLimit env args * (1 + env.config.structuredOutputMaxRetries) :=
    (Nat.le_add_left _ _).trans h_start.calls
  refine ⟨?_, fun n h_n h_out => ?_⟩
  · -- the loop is given more passes than it can make
    have h_fuel : turnLimit env args * (1 + env.config.structuredOutputMaxRetries) ≤
        runFuel env (turnLimit env args) := by
      unfold runFuel
      rw [Nat.add_comm 1]
      exact Nat.mul_le_mul_right _ (Nat.le_succ _)
    have h_loop := wp_loop_withinBound env stream _ _ h_start (h_left.trans h_fuel)
    unfold llmCalls at h_loop ⊢
    rw [execRun_trace]
    unfold runLoop
    unfold Prog.wp at h_loop
    rcases h_run : Prog.loop (loopCond (turnLimit env args)) (turn env stream)
        (runFuel env (turnLimit env args)) (startRun env stream args st) with ⟨e | c, t⟩ <;>
      rw [h_run] at h_loop
    · show (raised stream e t).trace.countP Obs.isCall ≤ _
      rw [raised_trace]
      exact h_loop
    · dsimp only
      split_ifs <;> exact h_loop.2
  · -- more passes than it can make: it has not run out
    have h_loop := wp_loop_withinBound env stream _ n h_start (h_left.trans h_n)
    unfold Prog.wp at h_loop
    rcases h_run : Prog.loop (loopCond (turnLimit env args)) (turn env stream) n
        (startRun env stream args st) with ⟨e | c, t⟩ <;> rw [h_run] at h_loop h_out
    · cases h_out
    · exact h_loop.1 (Except.ok.inj h_out)

end Nexus
