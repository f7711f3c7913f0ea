import NexusAgent.Runner.Accounting
import NexusAgent.Runner.Agreement

/-!
# The events of a streaming run

What a caller who reads a streaming run to its end is told: one `final_response`, at the end,
and a `paused` event if the run pauses.

* `EventGrammar`: what is promised of the events of a run.
* `Heard`: how many `paused` events were streamed so far, with no `final_response` yet; one
  lemma for each part of a pass says what it adds.
* `PausesTwice`: a pass whose sequential branch comes to a call that waits. The branch streams
  a `paused` event, and so does the pass once the turn is stored.
* `events_grammatical_iff`: the promise holds exactly of the runs without such a pass.
-/

open Lib

namespace Nexus

variable {a : StoreAdapter}

/-! ### The promise -/

/-- A `paused` event. -/
def StreamEvent.isPaused : StreamEvent → Bool
  | .paused .. => true
  | _ => false

/-- A `final_response` event. -/
def StreamEvent.isFinal : StreamEvent → Bool
  | .finalResponse _ => true
  | _ => false

/-- The events of a run that ended with a status: exactly one `final_response`, which is the
last event, at most one `paused` event, and one exactly if the run paused. -/
structure EventGrammar (events : List StreamEvent) (status : RunStatus) : Prop where
  final : (events.filter StreamEvent.isFinal).length = 1 ∧
    events.getLast?.map StreamEvent.isFinal = some true
  once : events.countP StreamEvent.isPaused ≤ 1
  paused : (∃ e ∈ events, e.isPaused = true) ↔ status = .paused

/-! ### Passes that pause twice -/

/-- Whether the sequential branch, from the call at place `pos` on, comes to a call that
waits: nobody cancels before, and the calls before it are answered at once. -/
def pausesInSequence (env : Env a) (k : ℕ) : ℕ → List ToolCallRequest → Bool
  | _, [] => false
  | pos, req :: reqs =>
    !env.cancelCall k pos && match callFate env req with
      | .raises => false
      | .waits => true
      | .answered _ => pausesInSequence env k (pos + 1) reqs

/-- The pass that makes call `k` pauses within the sequential branch: it is not cancelled up
to its response, and the sequential branch comes to a call that waits. -/
def PausesTwice (env : Env a) (k : ℕ) : Prop :=
  env.cancelTurn k = false ∧ Uncancelled env k ∧
    ∃ raw, callResponse env true k = .ok raw ∧
      useParallel env (acceptedResponse env k raw).toolCalls = false ∧
      pausesInSequence env k 0 (acceptedResponse env k raw).toolCalls = true

/-! ### What was heard so far -/

/-- So far `n` `paused` events were streamed, and no `final_response`. -/
structure Heard (n : ℕ) (s : RunState a) : Prop where
  paused : s.events.countP StreamEvent.isPaused = n
  final : ∀ e ∈ s.events, e.isFinal = false

namespace Heard

variable {n : ℕ} {s t : RunState a}

theorem of_events (h : Heard n s) (h_events : t.events = s.events) : Heard n t where
  paused := by rw [h_events, h.paused]
  final := by rw [h_events]; exact h.final

/-- One more event, to a caller who listens. -/
theorem emit (h : Heard n s) {e : StreamEvent} (h_final : e.isFinal = false) :
    Heard (n + if e.isPaused then 1 else 0) { s with events := s.events ++ [e] } where
  paused := by
    show (s.events ++ [e]).countP _ = _
    rw [List.countP_append, h.paused, List.countP_singleton]
  final := by
    intro e' h_e'
    rcases List.mem_append.mp h_e' with h_old | h_new
    · exact h.final e' h_old
    · rw [List.mem_singleton.mp h_new]
      exact h_final

end Heard

section Parts

variable {n : ℕ} {s : RunState a} {Q : Unit → RunState a → Prop}
  {E : RunError → RunState a → Prop}

/-- An event that is neither. -/
theorem wp_emit_other {e : StreamEvent} (h_paused : e.isPaused = false)
    (h_final : e.isFinal = false) (h : Heard n s)
    (h_rest : ∀ events, Heard n (s.withEvents events) → Q () (s.withEvents events)) :
    Prog.wp (emit true e) Q E s := by
  refine h_rest (s.events ++ [e]) ?_
  have h_emit := h.emit h_final
  rwa [h_paused] at h_emit

/-- A `paused` event. -/
theorem wp_emitPaused_heard (h : Heard n s)
    (h_rest : ∀ events, Heard (n + 1) (s.withEvents events) → Q () (s.withEvents events)) :
    Prog.wp (emitPaused true) Q E s := by
  have h_emit : Heard (n + 1) { s with events := s.events ++
      [.paused s.session.sessionId s.session.pendingInteractions] } :=
    h.emit (e := .paused s.session.sessionId s.session.pendingInteractions) rfl
  exact h_rest _ h_emit

end Parts

/-! ### Handling tool calls -/

theorem HandleStep.events {env : Env a} {req : ToolCallRequest} {s t : RunState a}
    {o : Except RunError Handled} (h : HandleStep env req s o t) : t.events = s.events := by
  cases h <;> rfl

/-- What a handler that returns leaves of the status. -/
theorem HandleStep.status {env : Env a} {req : ToolCallRequest} {s t : RunState a} {r : Handled}
    (h : HandleStep env req s (.ok r) t) :
    (callFate env req = .waits ∧ r.paused = true ∧ t.status = .paused) ∨
      ((∃ key, callFate env req = .answered key) ∧ r.paused = false ∧ t.status = s.status) := by
  cases h with
  | deferred _ _ _ _ _ h_fate => exact .inl ⟨h_fate, rfl, rfl⟩
  | unknown _ _ _ _ _ _ h_fate => exact .inr ⟨⟨_, h_fate⟩, rfl, rfl⟩
  | executed _ _ _ _ _ _ _ h_fate => exact .inr ⟨⟨_, h_fate⟩, rfl, rfl⟩

/-- The state after the sequential branch: it paused with a `paused` event of its own, or it
answered all calls. -/
def AfterSequence (env : Env a) (k pos : ℕ) (calls : List ToolCallRequest) (n : ℕ)
    (s t : RunState a) : Prop :=
  if pausesInSequence env k pos calls then t.status = .paused ∧ Heard (n + 1) t
  else t.status = s.status ∧ Heard n t

/-- What is heard of a sequence of calls. -/
theorem wp_runSequential_heard (env : Env a) (k : ℕ) (calls : List ToolCallRequest) (pos n : ℕ)
    (s : RunState a) (h : Heard n s) :
    Prog.wp (runSequential env true k pos calls)
      (fun _ t => AfterSequence env k pos calls n s t)
      (fun _ t => pausesInSequence env k pos calls = false ∧ Heard n t) s := by
  induction calls generalizing pos s with
  | nil => exact ⟨rfl, h⟩
  | cons req calls ih =>
    unfold runSequential raiseIfCancelled
    rw [Prog.wp_bind, Prog.wp_ite]
    refine ⟨fun h_cancel => ⟨by simp [pausesInSequence, h_cancel], h⟩, fun h_cancel => ?_⟩
    rw [Bool.not_eq_true] at h_cancel
    simp only [Prog.wp_pure, Prog.wp_bind, Prog.wp_get]
    refine wp_emit_other rfl rfl h fun es h_es => ?_
    refine Prog.wp_mono (wp_handleTool env k pos req _) ?_ ?_
    · intro r t h_step
      have h_t : Heard n t := h_es.of_events h_step.events
      -- whether or not a result event is emitted, the rest goes on the same way
      have h_rest : ∀ es', Heard n (t.withEvents es') → Prog.wp (if r.paused = true then do
            emitPaused true
            pure [r]
          else do
            let hs ← runSequential env true k (pos + 1) calls
            pure (r :: hs))
          (fun _ u => AfterSequence env k pos (req :: calls) n s u)
          (fun _ u => pausesInSequence env k pos (req :: calls) = false ∧ Heard n u)
          (t.withEvents es') := by
        intro es' h_es'
        rw [Prog.wp_ite]
        rcases h_step.status with ⟨h_fate, h_paused, h_status⟩ | ⟨⟨key, h_fate⟩, h_paused, h_status⟩
        · refine ⟨fun _ => ?_, fun h_not => absurd h_paused h_not⟩
          rw [Prog.wp_bind]
          refine wp_emitPaused_heard h_es' fun es'' h_es'' => ?_
          show AfterSequence env k pos (req :: calls) n s _
          rw [AfterSequence, if_pos (by simp [pausesInSequence, h_cancel, h_fate])]
          exact ⟨h_status, h_es''⟩
        · refine ⟨fun h_true => absurd h_true (by simp [h_paused]), fun _ => ?_⟩
          have h_later : pausesInSequence env k pos (req :: calls) =
              pausesInSequence env k (pos + 1) calls := by
            simp [pausesInSequence, h_cancel, h_fate]
          rw [Prog.wp_bind, h_later]
          refine Prog.wp_mono (ih (pos + 1) _ h_es') ?_ (fun _ _ h => h)
          intro hs u h_u
          show AfterSequence env k pos (req :: calls) n s u
          unfold AfterSequence at h_u ⊢
          rw [h_later]
          split_ifs at h_u ⊢ with h_pauses
          · exact h_u
          · exact ⟨h_u.1.trans h_status, h_u.2⟩
      rw [Prog.wp_ite]
      refine ⟨fun _ => ?_, fun _ => h_rest t.events h_t⟩
      rw [Prog.wp_bind]
      exact wp_emit_other rfl rfl h_t h_rest
    · intro e t h_step
      have h_fate : callFate env req = .raises := h_step.raises_iff.mpr ⟨e, rfl⟩
      exact ⟨by simp [pausesInSequence, h_fate], h_es.of_events h_step.events⟩

/-- The parallel branch streams nothing. -/
theorem wp_runParallel_heard (env : Env a) (k : ℕ) (calls : List ToolCallRequest) (n : ℕ)
    (s : RunState a) (h : Heard n s) :
    Prog.wp (runParallel env k calls)
      (fun _ t => (t.status = s.status ∨ t.status = .paused) ∧ Heard n t) (fun _ t => Heard n t)
      s := by
  unfold runParallel Prog.gather
  simp only [Prog.wp_bind]
  -- each task keeps what is heard, whichever ran before it
  have h_task : ∀ i ∈ (env.gatherOrder k calls.length).val,
      ∀ (outs : List (ℕ × Except RunError Handled)) (t : RunState a),
      ((t.status = s.status ∨ t.status = .paused) ∧ Heard n t) →
      Prog.wp (handleAt env k calls i)
        (fun _ u => (u.status = s.status ∨ u.status = .paused) ∧ Heard n u)
        (fun _ u => (u.status = s.status ∨ u.status = .paused) ∧ Heard n u) t := by
    rintro i - outs t ⟨h_status, h_t⟩
    unfold handleAt
    cases calls[i]? with
    | none => exact ⟨h_status, h_t⟩
    | some req =>
      refine Prog.wp_mono (wp_handleTool env k i req t) ?_ ?_
      · intro r u h_step
        refine ⟨?_, h_t.of_events h_step.events⟩
        rcases h_step.status with ⟨-, -, h_u⟩ | ⟨-, -, h_u⟩
        · exact .inr h_u
        · exact h_u ▸ h_status
      · intro e u h_step
        refine ⟨?_, h_t.of_events h_step.events⟩
        cases h_step <;> exact h_status
  refine Prog.wp_mono (Prog.wp_gatherFrom (J := fun _ t =>
    (t.status = s.status ∨ t.status = .paused) ∧ Heard n t) _ h_task [] s ⟨.inl rfl, h⟩) ?_
    (fun _ _ h => h)
  rintro outs t ⟨h_t, -⟩
  cases Prog.firstError outs with
  | some e => exact h_t.2
  | none => exact h_t

/-- Whether the handling of a response streams a `paused` event of its own. -/
def PausesInTools (env : Env a) (k : ℕ) (calls : List ToolCallRequest) : Prop :=
  useParallel env calls = false ∧ pausesInSequence env k 0 calls = true

/-- Handling a response: with a `paused` event of its own, or with none. -/
theorem wp_runTools_heard (env : Env a) (k : ℕ) (calls : List ToolCallRequest) (s : RunState a)
    (h_status : s.status = .completed) (h : Heard 0 s) :
    Prog.wp (runTools env true k calls)
      (fun _ t => (PausesInTools env k calls ∧ t.status = .paused ∧ Heard 1 t) ∨
        (¬PausesInTools env k calls ∧ (t.status = .completed ∨ t.status = .paused) ∧ Heard 0 t))
      (fun _ t => ¬PausesInTools env k calls ∧ Heard 0 t) s := by
  unfold runTools PausesInTools
  rw [Prog.wp_ite]
  refine ⟨fun h_par => ?_, fun h_seq => ?_⟩
  · -- in parallel no call emits a pause
    rw [Prog.wp_bind]
    refine Prog.wp_mono (wp_runParallel_heard env k calls 0 s h) ?_ ?_
    · rintro handled t ⟨h_t, h_heard⟩
      exact .inr ⟨by simp [h_par], h_status ▸ h_t, h_heard⟩
    · exact fun _ t h_heard => ⟨by simp [h_par], h_heard⟩
  · rw [Bool.not_eq_true] at h_seq
    rw [Prog.wp_bind]
    -- in sequence one does if the sequence comes to it
    refine Prog.wp_mono (wp_runSequential_heard env k calls 0 0 s h) ?_ ?_
    · intro handled t h_after
      unfold AfterSequence at h_after
      split_ifs at h_after with h_pauses
      · exact .inl ⟨⟨h_seq, h_pauses⟩, h_after.1, h_after.2⟩
      · exact .inr ⟨fun h_in => h_pauses h_in.2, .inl (h_after.1.trans h_status), h_after.2⟩
    · rintro e t ⟨h_pauses, h_heard⟩
      exact ⟨by simp [h_pauses], h_heard⟩

/-! ### One pass -/

/-- The run goes on: nothing was said of a pause or of the end. -/
structure Quiet (s : RunState a) : Prop where
  status : s.status = .completed
  heard : Heard 0 s

/-- The run was left: with one `paused` event if it paused. -/
def Left (t : RunState a) : Prop := if t.status = .paused then Heard 1 t else Heard 0 t

theorem Quiet.left {s : RunState a} (h : Quiet s) : Left s := by
  rw [Left, if_neg (by simp [h.status])]
  exact h.heard

theorem Left.of_paused {t : RunState a} (h_status : t.status = .paused) (h : Heard 1 t) :
    Left t := by
  rw [Left, if_pos h_status]
  exact h

/-- What a pass that makes call `k` and does not raise leaves. -/
def PassHeard (env : Env a) (k : ℕ) (c : Prog.Ctl) (t : RunState a) : Prop :=
  match c with
  | .next => Quiet t ∧ ¬PausesTwice env k
  | .stop => (PausesTwice env k ∧ t.status = .paused ∧ Heard 2 t) ∨ (¬PausesTwice env k ∧ Left t)

/-- Opening a turn is quiet: no pause, no final response. -/
theorem wp_openTurn_quiet (env : Env a) (k : ℕ) {s : RunState a} (h : Quiet s) :
    Prog.wp (openTurn env true k) (fun _ t => Quiet t) (fun _ _ => False) s := by
  obtain ⟨h_built, -⟩ := built_prepareTurn env k s
  unfold openTurn
  simp only [Prog.wp_bind, Prog.wp_update, Prog.wp_get]
  generalize prepareTurn env k s = r at h_built
  obtain ⟨⟨messages, saved⟩, t⟩ := r
  -- building the context changes neither the status nor the events
  have h_t : t.status = .completed ∧ Heard 0 t := by
    have h_rest := h_built.rest
    dsimp only at h_rest
    refine ⟨?_, h.heard.of_events ?_⟩
    · rw [h_rest, ← h.status]
    · rw [h_rest]
  have h_counted : Heard 0 (countSavings env messages t).2 := h_t.2.of_events rfl
  refine wp_emit_other rfl rfl h_counted fun events h_events => ?_
  exact ⟨h_t.1, h_events.of_events rfl⟩

/-- The events of a chunk are neither. -/
theorem chunkEvents_other (turnIndex : ℕ) (chunk : LLMStreamChunk) :
    ∀ e ∈ chunkEvents turnIndex chunk, e.isPaused = false ∧ e.isFinal = false := by
  intro e h_e
  unfold chunkEvents at h_e
  simp only [List.mem_append, Option.mem_toList, Option.map_eq_some_iff] at h_e
  rcases h_e with ⟨text, -, rfl⟩ | ⟨text, -, rfl⟩ <;> exact ⟨rfl, rfl⟩

/-- Reading the chunks is quiet. -/
theorem wp_streamFrom_quiet (env : Env a) (k turnIndex : ℕ) (chunks : List LLMStreamChunk) (i : ℕ)
    (acc : StreamAcc) (s : RunState a) (h : Quiet s) :
    Prog.wp (streamFrom env k turnIndex i acc chunks) (fun _ t => Quiet t) (fun _ t => Quiet t) s := by
  induction chunks generalizing i acc s with
  | nil => exact h
  | cons chunk chunks ih =>
    unfold streamFrom raiseIfCancelled
    rw [Prog.wp_bind, Prog.wp_ite]
    refine ⟨fun _ => h, fun _ => ?_⟩
    simp only [Prog.wp_pure, Prog.wp_bind, Prog.wp_modify]
    -- a chunk's events are neither a pause nor final
    have h_other := chunkEvents_other turnIndex chunk
    refine ih (i + 1) (acc.add chunk) _ ⟨h.status, ?_, ?_⟩
    · show (s.events ++ chunkEvents turnIndex chunk).countP _ = 0
      rw [List.countP_append, h.heard.paused, List.countP_eq_zero.mpr]
      intro e h_e
      simp [(h_other e h_e).1]
    · intro e h_e
      rcases List.mem_append.mp h_e with h_old | h_new
      · exact h.heard.final e h_old
      · exact (h_other e h_new).2

/-- The model call of a streaming run. -/
theorem wp_callLLM_quiet (env : Env a) (k turnIndex : ℕ) {s : RunState a} (h : Quiet s) :
    Prog.wp (callLLM env true k turnIndex)
      (fun r t => Uncancelled env k ∧ callResponse env true k = .ok r ∧ Quiet t)
      (fun _ t => ¬(Uncancelled env k ∧ ∃ r, callResponse env true k = .ok r) ∧ Quiet t) s := by
  refine Prog.wp_mono (Prog.wp_and (wp_callLLM env true k turnIndex s) (?_ : Prog.wp _
    (fun _ t => Quiet t) (fun _ t => Quiet t) s)) ?_ ?_
  · unfold callLLM
    simp only [Bool.not_true, Bool.false_eq_true, if_false, Prog.wp_bind]
    refine Prog.wp_mono (wp_streamFrom_quiet env k turnIndex _ 0 {} s h) ?_ (fun _ _ h_t => h_t)
    intro acc t h_t
    -- the stream failed, or its response is made
    cases (env.proxy.chatStream k).failure with
    | some e => exact h_t
    | none => cases acc.response env.limits <;> exact h_t
  · rintro r t ⟨⟨⟨h_raw, h_free⟩, -⟩, h_t⟩
    exact ⟨h_free rfl, h_raw, h_t⟩
  · rintro e t ⟨⟨h_cause, -⟩, h_t⟩
    refine ⟨?_, h_t⟩
    rintro ⟨h_uncancelled, r, h_r⟩
    -- it was cancelled or it failed
    rcases h_cause with ⟨-, -, h_cancelled⟩ | ⟨msg, -, h_failed⟩
    · exact h_cancelled h_uncancelled
    · rw [h_r] at h_failed
      cases h_failed

/-- The end of a turn, for any way to go on that stays quiet. -/
theorem wp_endTurn_left (env : Env a) (k : ℕ) {onward : Run a Prog.Ctl} {s : RunState a}
    (h : Quiet s) (h_onward : Prog.wp onward (fun _ t => Quiet t) (fun _ t => Heard 0 t) s) :
    Prog.wp (endTurn env true k onward)
      (fun c t => match c with
        | .next => Quiet t
        | .stop => Left t) (fun _ t => Heard 0 t) s := by
  unfold endTurn
  rw [Prog.wp_ite]
  -- stopped: the run is left without a pause
  refine ⟨fun _ => ?_, fun _ => ?_⟩
  · show Left _
    rw [Left, if_neg (by simp)]
    exact h.heard.of_events rfl
  · split
    · exact ⟨h.status, h.heard.of_events rfl⟩
    · simp only [Prog.wp_bind, Prog.wp_get]
      rw [Prog.wp_ite]
      refine ⟨fun _ => ?_, fun _ => ?_⟩
      · -- a pause for a human, with its event
        simp only [pauseForHuman, Prog.wp_bind, Prog.wp_modify, Prog.wp_pure]
        refine wp_emitPaused_heard (n := 0) (h.heard.of_events rfl) fun events h_events => ?_
        exact Left.of_paused rfl h_events
      · -- otherwise the loop goes on, or stops as it is
        refine Prog.wp_mono h_onward (fun c t h_t => ?_) (fun _ _ h => h)
        cases c with
        | next => exact h_t
        | stop => exact h_t.left

/-- The final answer. -/
theorem wp_finalAnswer_left (env : Env a) (k : ℕ) (r : LLMResponse) (savings : ℕ) {s : RunState a}
    (h : Quiet s) :
    Prog.wp (finalAnswer env true k r savings)
      (fun c t => match c with
        | .next => Quiet t
        | .stop => Left t) (fun _ t => Heard 0 t) s := by
  unfold finalAnswer
  simp only [Prog.wp_bind, Prog.wp_modify]
  refine wp_endTurn_left env k ⟨h.status, h.heard.of_events rfl⟩ ?_
  exact ⟨h.status, h.heard.of_events rfl⟩

/-- A turn with tool calls: a second `paused` event comes after one of the handling itself. -/
theorem wp_toolTurn_left (env : Env a) (k : ℕ) (r : LLMResponse) (saved savings : ℕ)
    {s : RunState a} (h : Quiet s) :
    Prog.wp (toolTurn env true k r saved savings)
      (fun c t => (PausesInTools env k r.toolCalls ∧ c = .stop ∧ t.status = .paused ∧ Heard 2 t) ∨
        (¬PausesInTools env k r.toolCalls ∧ match c with
          | .next => Quiet t
          | .stop => Left t))
      (fun _ t => ¬PausesInTools env k r.toolCalls ∧ Heard 0 t) s := by
  unfold toolTurn
  rw [Prog.wp_bind]
  refine Prog.wp_mono (wp_runTools_heard env k r.toolCalls s h.status h.heard) ?_ (fun _ _ h => h)
  rintro ⟨handled, n⟩ t h_tools
  simp only [Prog.wp_bind, Prog.wp_modify, Prog.wp_get]
  rw [Prog.wp_ite]
  refine ⟨fun h_paused => ?_, fun h_running => ?_⟩
  · simp only [Prog.wp_bind, Prog.wp_modify]
    rcases h_tools with ⟨h_in, -, h_t⟩ | ⟨h_out, -, h_t⟩
    · exact wp_emitPaused_heard (n := 1) (h_t.of_events rfl) fun events h_events =>
        .inl ⟨h_in, rfl, h_paused, h_events⟩
    · exact wp_emitPaused_heard (n := 0) (h_t.of_events rfl) fun events h_events =>
        .inr ⟨h_out, Left.of_paused h_paused h_events⟩
  · -- a run that was not paused by its calls heard nothing from them
    replace h_running : t.status ≠ .paused := h_running
    rcases h_tools with ⟨-, h_paused, -⟩ | ⟨h_out, h_status, h_t⟩
    · exact absurd h_paused h_running
    have h_completed : t.status = .completed := h_status.resolve_right h_running
    simp only [Prog.wp_bind, Prog.wp_modify]
    refine Prog.wp_mono (wp_endTurn_left env k ⟨h_completed, h_t.of_events rfl⟩ ?_)
      (fun c u h_u => .inr ⟨h_out, h_u⟩) (fun _ u h_u => ⟨h_out, h_u⟩)
    rw [Prog.wp_ite]
    exact ⟨fun _ => h_t.of_events rfl, fun _ => ⟨h_completed, h_t.of_events rfl⟩⟩

/-- **One pass**, from a state in which nothing was said yet. -/
theorem wp_turn_heard (env : Env a) {s : RunState a} (h : Quiet s) :
    Prog.wp (turn env true) (fun c t => PassHeard env s.calls c t)
      (fun _ t => ¬PausesTwice env s.calls ∧ Heard 0 t) s := by
  unfold turn raiseIfCancelled
  simp only [Prog.wp_bind, Prog.wp_update]
  rw [Prog.wp_ite]
  refine ⟨fun h_cancel => ⟨fun h_twice => ?_, h.heard.of_events rfl⟩, fun h_cancel => ?_⟩
  · simp [h_twice.1] at h_cancel
  rw [Bool.not_eq_true] at h_cancel
  rw [Prog.wp_pure]
  have h_called : Quiet { s with calls := s.calls + 1 } := ⟨h.status, h.heard.of_events rfl⟩
  refine Prog.wp_mono (wp_openTurn_quiet env s.calls h_called) ?_ (fun _ _ h => h.elim)
  rintro ⟨saved, savings⟩ t h_t
  simp only [Prog.wp_get]
  refine Prog.wp_mono (wp_callLLM_quiet env s.calls _ h_t) ?_ ?_
  · rintro raw t' ⟨h_free, h_raw, h_t'⟩
    -- the response decides whether the pass pauses twice
    have h_twice : PausesTwice env s.calls ↔
        PausesInTools env s.calls (acceptedResponse env s.calls raw).toolCalls := by
      refine ⟨?_, fun h_in => ⟨h_cancel, h_free, raw, h_raw, h_in⟩⟩
      rintro ⟨-, -, raw', h_raw', h_in⟩
      rw [h_raw] at h_raw'
      exact Except.ok.inj h_raw' ▸ h_in
    have h_no_calls : (acceptedResponse env s.calls raw).toolCalls = [] →
        ¬PausesTwice env s.calls := by
      rw [h_twice]
      rintro h_nil ⟨-, h_pauses⟩
      rw [h_nil] at h_pauses
      cases h_pauses
    simp only [Prog.wp_modify]
    have h_counted : Quiet (t'.countTokens (acceptedResponse env s.calls raw).usage) :=
      ⟨h_t'.status, h_t'.heard.of_events rfl⟩
    refine Prog.wp_mono (wp_checkStructured env (acceptedResponse env s.calls raw) _) ?_ ?_
    · rintro again u h_check
      split_ifs at h_check with h_again
      · obtain ⟨e, h_fail, -, rfl⟩ := h_check
        rw [if_pos h_again]
        exact ⟨⟨h_counted.status, h_counted.heard.of_events rfl⟩,
          h_no_calls (toolCalls_of_structuredFailure h_fail)⟩
      · have h_u : Quiet u := by
          cases h_check with
          | unasked => exact h_counted
          | valid => exact ⟨h_counted.status, h_counted.heard.of_events rfl⟩
        rw [if_neg h_again, Prog.wp_ite]
        refine ⟨fun h_final => ?_, fun _ => ?_⟩
        · obtain ⟨h_nil, -⟩ := Bool.and_eq_true_iff.mp h_final
          have h_once := h_no_calls (by simpa using h_nil)
          refine Prog.wp_mono (wp_finalAnswer_left env s.calls _ savings h_u) ?_
            (fun _ v h_v => ⟨h_once, h_v⟩)
          intro c v h_v
          cases c with
          | next => exact ⟨h_v, h_once⟩
          | stop => exact .inr ⟨h_once, h_v⟩
        · refine Prog.wp_mono (wp_toolTurn_left env s.calls _ saved savings h_u) ?_ ?_
          · rintro c v (⟨h_in, rfl, h_paused, h_v⟩ | ⟨h_out, h_v⟩)
            · exact .inl ⟨h_twice.mpr h_in, h_paused, h_v⟩
            · have h_once := mt h_twice.mp h_out
              cases c with
              | next => exact ⟨h_v, h_once⟩
              | stop => exact .inr ⟨h_once, h_v⟩
          · rintro e v ⟨h_out, h_v⟩
            exact ⟨mt h_twice.mp h_out, h_v⟩
    · rintro e u ⟨msg, rfl, rfl, h_fail⟩
      exact ⟨h_no_calls (toolCalls_of_structuredFailure h_fail), h_counted.heard⟩
  · rintro e t' ⟨h_failed, h_t'⟩
    refine ⟨?_, h_t'.heard⟩
    rintro ⟨-, h_free, raw, h_raw, -⟩
    exact h_failed ⟨h_free, raw, h_raw⟩

/-- A pass that paused the run was not counted. -/
theorem TurnStep.index_of_paused {env : Env a} {stream : Bool} {s s' : RunState a}
    (h : TurnStep env stream s (.ok .stop) s') (h_status : s.status = .completed)
    (h_paused : s'.status = .paused) : s'.runTurnIndex = s.runTurnIndex := by
  -- a turn that ended is paused by the human in the loop only
  have h_ended : ∀ {final : Bool} {u t : RunState a}, u.status ≠ .paused →
      EndTurn env s.calls final u (.ok .stop) t → t.status = .paused →
      t.runTurnIndex = u.runTurnIndex := by
    intro final u t h_u h_end h_t
    generalize h_o : (Except.ok Prog.Ctl.stop : Except RunError Prog.Ctl) = o at h_end
    cases h_end with
    | stopped => cases h_t
    | injected => cases h_o
    | human => rfl
    | timedOut => cases h_o
    | onward => exact absurd h_t h_u
  generalize h_o : (Except.ok Prog.Ctl.stop : Except RunError Prog.Ctl) = o at h
  cases h with
  | cancelled => cases h_o
  | callFailed => cases h_o
  | retried => cases h_o
  | rejected => cases h_o
  | answered h_reply h_accepted _ _ savings h_end =>
    subst h_o
    obtain ⟨-, h_index, h_running⟩ := h_reply.counted
    obtain ⟨-, h_index', h_running'⟩ := h_accepted.counted
    have h_u := h_running'.trans (h_running.trans h_status)
    refine (h_ended ?_ h_end h_paused).trans (h_index'.trans h_index)
    exact fun h => absurd (h_u.symm.trans h) (by decide)
  | toolsRaised => cases h_o
  | paused h_reply h_accepted _ h_effect _ _ _ _ h_w =>
    subst h_w
    exact h_effect.counted.2.trans (h_accepted.counted.2.1.trans h_reply.counted.2.1)
  | handled h_reply h_accepted _ h_effect _ h_running _ _ h_end =>
    subst h_o
    refine (h_ended ?_ h_end h_paused).trans
      (h_effect.counted.2.trans (h_accepted.counted.2.1.trans h_reply.counted.2.1))
    exact h_running

/-! ### Whole runs -/

section Run

variable {env : Env a} {args : RunArgs} {st : Store a}

/-- At the head of the loop nothing was said of a pause or of the end. -/
theorem quiet_head {s : RunState a}
    (h : HeadOf env true (turnLimit env args) (startRun env true args st) s) : Quiet s := by
  induction h with
  | refl => exact ⟨rfl, rfl, fun e h_e => by rw [List.mem_singleton.mp h_e]; rfl⟩
  | tail _ h_pass ih =>
    have h_heard := Prog.wp_ok (wp_turn_heard env ih) h_pass.2
    exact h_heard.1

/-- The run is left with the events of the pass that paused it. -/
theorem runLoop_of_paused {s s' : RunState a} (h_turn : TurnOf env true args st s)
    (h_body : turn env true s = (.ok .stop, s')) (h_paused : s'.status = .paused) :
    runLoop env true (turnLimit env args) (startRun env true args st) = s' := by
  obtain ⟨h_head, h_lt⟩ := h_turn
  have h_cond : loopCond (turnLimit env args) s = true := by simpa [loopCond] using h_lt
  have h_loop := Prog.loop_of_last h_head h_cond h_body (by simp) (loop_ne_outOfFuel env true args st)
  have h_step := Prog.wp_ok (x := turn env true) (wp_turn env true s) h_body
  have h_index := h_step.index_of_paused (quiet_head h_head).status h_paused
  unfold runLoop
  rw [h_loop]
  exact if_neg (by omega)

/-- A run with a pass that pauses twice. -/
theorem runLoop_heard_twice {s : RunState a} (h_turn : TurnOf env true args st s)
    (h_twice : PausesTwice env s.calls) :
    Heard 2 (runLoop env true (turnLimit env args) (startRun env true args st)) := by
  have h_heard := wp_turn_heard env (quiet_head h_turn.1)
  rcases h_body : turn env true s with ⟨e | c, s'⟩
  · -- a turn that raises does not pause twice
    exact absurd h_twice (Prog.wp_error h_heard h_body).1
  · have h_pass : PassHeard env s.calls c s' := Prog.wp_ok h_heard h_body
    cases c with
    -- nor does one that goes on
    | next => exact absurd h_twice h_pass.2
    | stop =>
      -- so it stopped, and the loop with it
      rcases h_pass with ⟨-, h_paused, h_two⟩ | ⟨h_once, -⟩
      · rw [runLoop_of_paused h_turn h_body h_paused]
        exact h_two
      · exact absurd h_twice h_once

/-- The limit check after the loop, of a state that did not pause. -/
theorem Left.of_limit {s : RunState a} {limit : ℕ} (h : Left s) (h_running : s.status ≠ .paused) :
    Left (if limit ≤ s.runTurnIndex then { s with status := .maxTurnsReached } else s) := by
  split_ifs
  · rw [Left, if_neg h_running] at h
    rw [Left, if_neg (by simp)]
    exact h.of_events rfl
  · exact h

/-- A run that raised is left without a pause. -/
theorem Left.of_raised {s : RunState a} (h : Heard 0 s) (e : RunError) : Left (raised true e s) := by
  cases e with
  | cancelled =>
    rw [Left, if_neg (by simp [raised])]
    exact (h.emit (e := .event "Run cancelled.") rfl).of_events rfl
  | timeout message =>
    rw [Left, if_neg (by simp [raised])]
    exact (h.emit (e := .error message) rfl).of_events rfl
  | error message =>
    rw [Left, if_neg (by simp [raised])]
    exact (h.emit (e := .error message) rfl).of_events rfl

/-- A run without such a pass. -/
theorem runLoop_left (h_once : ∀ s, TurnOf env true args st s → ¬PausesTwice env s.calls) :
    Left (runLoop env true (turnLimit env args) (startRun env true args st)) := by
  rcases @Prog.loop_ends _ _ (loopCond (turnLimit env args)) (turn env true)
    (runFuel env (turnLimit env args)) (startRun env true args st) with
    ⟨s, c, h_head, -, h_loop⟩ | ⟨s, s', h_head, h_cond, h_body, h_loop⟩ |
      ⟨s, e, s', h_head, h_cond, h_body, h_loop⟩
  · have h_s := quiet_head h_head
    unfold runLoop
    rw [h_loop]
    exact h_s.left.of_limit (by simp [h_s.status])
  · have h_turn : TurnOf env true args st s := ⟨h_head, by simpa [loopCond] using h_cond⟩
    have h_pass := Prog.wp_ok (wp_turn_heard env (quiet_head h_head)) h_body
    have h_left : Left s' := by
      rcases h_pass with ⟨h_twice, -⟩ | ⟨-, h_left⟩
      · -- a turn that pauses twice is excluded
        exact absurd h_twice (h_once s h_turn)
      · exact h_left
    by_cases h_paused : s'.status = .paused
    · rwa [runLoop_of_paused h_turn h_body h_paused]
    · unfold runLoop
      rw [h_loop]
      exact h_left.of_limit h_paused
  · have h_pass := Prog.wp_error (wp_turn_heard env (quiet_head h_head)) h_body
    unfold runLoop
    rw [h_loop]
    exact Left.of_raised h_pass.2 e

/-- The events and the status of a run are those of its loop, with the final response. -/
theorem execRun_events (env : Env a) (args : RunArgs) (st : Store a) :
    (execRun env true args st).events =
      (runLoop env true (turnLimit env args) (startRun env true args st)).events ++
        [.finalResponse (resultOf (finishRun env
          (runLoop env true (turnLimit env args) (startRun env true args st))))] := by
  unfold execRun finishRun curateAtEnd
  dsimp only
  rw [if_pos rfl]
  split_ifs <;> rfl

/-- What is heard of a whole run. -/
theorem eventGrammar_of_heard {n : ℕ} {s : RunState a} (h : Heard n s) (r : RunResult)
    (status : RunStatus) :
    EventGrammar (s.events ++ [.finalResponse r]) status ↔
      n ≤ 1 ∧ (0 < n ↔ status = .paused) := by
  -- the final response is no pause
  have h_count : (s.events ++ [StreamEvent.finalResponse r]).countP StreamEvent.isPaused = n := by
    rw [List.countP_append, h.paused]
    rfl
  have h_some : (∃ e ∈ s.events ++ [StreamEvent.finalResponse r], e.isPaused = true) ↔ 0 < n := by
    rw [← h_count, List.countP_pos_iff]
  -- and no event before it is final
  have h_none : s.events.filter StreamEvent.isFinal = [] :=
    List.filter_eq_nil_iff.mpr fun e h_e => by simp [h.final e h_e]
  constructor
  · intro h_grammar
    exact ⟨h_count ▸ h_grammar.once, h_some.symm.trans h_grammar.paused⟩
  · rintro ⟨h_once, h_iff⟩
    -- one final event, at the end
    refine ⟨⟨?_, ?_⟩, h_count.le.trans h_once, h_some.trans h_iff⟩
    · rw [List.filter_append, h_none]
      rfl
    · rw [List.getLast?_concat]
      rfl

/-- **The grammar of a streaming run** holds exactly when no pass of it pauses within the
sequential branch. -/
theorem events_grammatical_iff (env : Env a) (args : RunArgs) (st : Store a) :
    EventGrammar (execRun env true args st).events (execRun env true args st).status ↔
      ∀ s, TurnOf env true args st s → ¬PausesTwice env s.calls := by
  rw [execRun_events, execRun_status]
  constructor
  · intro h_grammar s h_turn h_twice
    -- two pauses are one too many
    have h_once := ((eventGrammar_of_heard (runLoop_heard_twice h_turn h_twice) _ _).mp h_grammar).1
    exact absurd h_once (by decide)
  · intro h_once
    -- otherwise the loop leaves at most one, and the status agrees
    have h_left := runLoop_left h_once
    unfold Left at h_left
    split_ifs at h_left with h_paused
    · rw [eventGrammar_of_heard h_left]
      simp [h_paused]
    · rw [eventGrammar_of_heard h_left]
      simp [h_paused]

end Run

/-- An agent whose model asks the user for something. -/
def askingEnv : Env .memory where
  proxy :=
    { chat := fun _ => .error "not streamed"
      chatStream := fun _ =>
        { chunks := [{ toolCalls :=
            [⟨0, some "c1", none, none, some ⟨some "request_user_input", some "\x7b\x7d"⟩⟩] }] } }

/-- **The user is asked**: the run pauses, and says so twice. -/
theorem not_eventGrammar :
    (execRun askingEnv true { userMessage := "Book it." } (.empty _)).status = .paused ∧
      ¬EventGrammar (execRun askingEnv true { userMessage := "Book it." } (.empty _)).events
        (execRun askingEnv true { userMessage := "Book it." } (.empty _)).status := by
  refine ⟨by decide +kernel, fun h => ?_⟩
  have h_two : (execRun askingEnv true { userMessage := "Book it." } (.empty _)).events.countP
      StreamEvent.isPaused = 2 := by decide +kernel
  have h_once := h.once
  rw [h_two] at h_once
  omega

end Nexus
