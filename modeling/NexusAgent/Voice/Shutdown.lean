import NexusAgent.Voice.Duplex

/-!
# The end of the input

The output loop stops when it has read `DONE` and the current response is done, which it looks
at when it reads `DONE` and each `RESP_DONE`. A response that was cancelled before its first
step puts no `RESP_DONE`: if the loop has read `DONE` before it is done, nothing wakes the loop
any more.

* `DuplexState.Stuck`: the loop waits and nothing can happen.
* `loop_never_stuck`: no state is stuck where `DONE` never finds such a response.
* `stuck_after_cancel`: a run into a stuck state.
-/

namespace Nexus.Voice

open Lib

variable {σ ε : Type} {vad : VADAdapter σ} {cfg : VADConfig} {s t : DuplexState σ ε}

/-- The task was cancelled before its first step, and is not done yet. -/
def ResponseTask.Doomed (c : ResponseTask) : Prop :=
  c.phase = .created ∧ c.cancelling = true

instance (c : ResponseTask) : Decidable c.Doomed :=
  inferInstanceAs (Decidable (_ ∧ _))

/-- The audio input is exhausted, every response is done and the queue is empty, and the
output loop still waits on it. -/
def DuplexState.Stuck (s : DuplexState σ ε) : Prop :=
  s.readerOver = true ∧ (∀ c ∈ s.tasks, c.done = true) ∧ s.queue = [] ∧ s.loop = .looping

instance [DecidableEq ε] (s : DuplexState σ ε) : Decidable s.Stuck :=
  inferInstanceAs (Decidable (_ ∧ _ ∧ _ ∧ _))

/-- The output loop reads `DONE` over no response that was cancelled before its first step. -/
def ReadsEnd (s : DuplexState σ ε) (a : DuplexAction ε) : Prop :=
  a = .get → s.queue.head? = some .done → ∀ c ∈ s.current, ¬c.Doomed

instance [DecidableEq ε] (s : DuplexState σ ε) (a : DuplexAction ε) : Decidable (ReadsEnd s a) :=
  inferInstanceAs (Decidable (_ → _ → ∀ c ∈ s.current, ¬c.Doomed))

/-! ### What a frame leaves alone -/

@[simp] theorem maybeFireBargeIn_readerOver :
    (maybeFireBargeIn cfg s).readerOver = s.readerOver := by
  unfold maybeFireBargeIn
  split
  · rfl
  · split <;> simp [DuplexState.put]

@[simp] theorem maybeFireBargeIn_inputDone :
    (maybeFireBargeIn cfg s).inputDone = s.inputDone := by
  unfold maybeFireBargeIn
  split
  · rfl
  · split <;> simp [DuplexState.put]

@[simp] theorem done_mem_maybeFireBargeIn :
    .done ∈ (maybeFireBargeIn cfg s).queue ↔ .done ∈ s.queue := by
  unfold maybeFireBargeIn
  split
  · rfl
  · split <;> simp

/-- A frame neither ends the reader nor the input. -/
theorem onFrame_open (vad : VADAdapter σ) (cfg : VADConfig) (s : DuplexState σ ε) (frame : Frame) :
    (onFrame vad cfg s frame).readerOver = s.readerOver ∧
      (onFrame vad cfg s frame).inputDone = s.inputDone := by
  unfold onFrame
  dsimp only
  split
  · split <;> simp [DuplexState.put]
  · exact ⟨rfl, rfl⟩
  · split
    · simp
    · split <;> exact ⟨rfl, rfl⟩

/-- The reader puts `DONE` at the end of the input only. -/
theorem done_mem_onFrame (vad : VADAdapter σ) (cfg : VADConfig) (s : DuplexState σ ε)
    (frame : Frame) : .done ∈ (onFrame vad cfg s frame).queue ↔ .done ∈ s.queue := by
  unfold onFrame
  dsimp only
  split
  · split <;> simp
  · rfl
  · split
    · simp
    · split <;> rfl

/-! ### The invariant -/

/-- `DONE` is put when the reader is over, and is on its way or was read while the generator is
open. Once it was read, a `RESP_DONE` is on its way or the current response will put one. -/
structure Wakes (s : DuplexState σ ε) : Prop where
  ended : .done ∈ s.queue → s.readerOver = true
  input : s.inputDone = true → s.readerOver = true ∧ s.loop ≠ .announcing
  sentinel : s.readerOver = true → s.loop ≠ .closed → .done ∈ s.queue ∨ s.inputDone = true
  response : s.inputDone = true → s.loop = .looping →
    ∃ c, s.current = some c ∧ ¬c.Doomed ∧ (c.done = true → .respDone ∈ s.queue)

namespace Wakes

/-- The start wakes up. -/
theorem init (vad : VADAdapter σ) (v : σ) (greets : Bool) :
    Wakes (duplexInit vad v greets : DuplexState σ ε) where
  ended h := by simp [duplexInit] at h
  input h := by simp [duplexInit] at h
  sentinel h := by simp [duplexInit] at h
  response h := by simp [duplexInit] at h

/-- A state that wakes up is not stuck. -/
theorem not_stuck (h : Wakes s) : ¬s.Stuck := by
  rintro ⟨h_over, h_done, h_queue, h_loop⟩
  have h_input : s.inputDone = true := by
    rcases h.sentinel h_over (by simp [h_loop]) with h_mem | h_input
    · simp [h_queue] at h_mem
    · exact h_input
  obtain ⟨c, h_c, -, h_resp⟩ := h.response h_input h_loop
  obtain ⟨i, -, h_c⟩ := DuplexState.current_eq_some.mp h_c
  simpa [h_queue] using h_resp (h_done c (List.mem_of_getElem? h_c))

theorem inputDone_of_reading (h : Wakes s) (h_over : s.readerOver = false) :
    s.inputDone = false := by
  by_contra h_input
  simp [(h.input (by simpa using h_input)).1] at h_over

/-- While the reader goes on, `DONE` is nowhere. -/
theorem of_reading (h : Wakes s) (h_over : s.readerOver = false) (h_same : t.readerOver = false)
    (h_done : .done ∈ t.queue ↔ .done ∈ s.queue) (h_input : t.inputDone = s.inputDone) :
    Wakes t where
  ended h_mem := by simp [h.ended (h_done.mp h_mem)] at h_over
  input h_true := by simp [h_input, h.inputDone_of_reading h_over] at h_true
  sentinel h_true := by simp [h_same] at h_true
  response h_true := by simp [h_input, h.inputDone_of_reading h_over] at h_true

/-- A task puts an event, or `RESP_DONE`. -/
theorem put (h : Wakes s) (item : QueueItem ε) (h_item : item ≠ .done) : Wakes (s.put item) where
  ended h_mem := h.ended (by simpa [h_item.symm] using h_mem)
  input := h.input
  sentinel h_over h_loop := (h.sentinel h_over h_loop).imp_left fun h_mem => by simp [h_mem]
  response h_input h_loop := by
    obtain ⟨c, h_c, h_doomed, h_resp⟩ := h.response h_input h_loop
    exact ⟨c, h_c, h_doomed, fun h_done => by simp [h_resp h_done]⟩

/-- A task in its next phase. -/
theorem toPhase (h : Wakes s) {i : ℕ} {phase : TaskPhase} (h_phase : phase ≠ .created)
    (h_done : phase = .finished → s.inputDone = true → s.loop = .looping →
      s.responseTask = some i → .respDone ∈ s.queue) : Wakes (s.toPhase i phase) where
  ended := h.ended
  input := h.input
  sentinel := h.sentinel
  response h_input h_loop := by
    obtain ⟨c, h_c, h_doomed, h_resp⟩ := h.response h_input h_loop
    obtain ⟨k, h_k, h_c⟩ := DuplexState.current_eq_some.mp h_c
    -- the current task is this one, or another
    by_cases h_ki : k = i
    · subst h_ki
      -- if it ends now, its marker is in the queue
      refine ⟨{ c with phase := phase }, DuplexState.current_eq_some.mpr ⟨k, h_k, ?_⟩, ?_, ?_⟩
      · simp [DuplexState.toPhase, h_c]
      · exact fun h => h_phase h.1
      · exact fun h => h_done (by simpa [ResponseTask.done] using h) h_input h_loop h_k
    · refine ⟨c, DuplexState.current_eq_some.mpr ⟨k, h_k, ?_⟩, h_doomed, h_resp⟩
      simpa [DuplexState.toPhase, List.getElem?_modify, Ne.symm h_ki] using h_c

/-- The output loop hands an item on. -/
theorem pass (h : Wakes s) {item : QueueItem ε} {queue : List (QueueItem ε)}
    (h_queue : s.queue = item :: queue) (h_done : item ≠ .done) (h_resp : item ≠ .respDone) :
    Wakes { s with queue := queue } where
  ended h_mem := h.ended (by simp [h_queue, show QueueItem.done ∈ queue from h_mem])
  input := h.input
  sentinel h_over h_loop := (h.sentinel h_over h_loop).imp_left fun h_mem => by
    simpa [h_queue, h_done.symm] using h_mem
  response h_input h_loop := by
    obtain ⟨c, h_c, h_doomed, h_mem⟩ := h.response h_input h_loop
    exact ⟨c, h_c, h_doomed, fun h_c => by simpa [h_queue, h_resp.symm] using h_mem h_c⟩

/-- The output loop takes an item. -/
theorem get (h : Wakes s) {item : QueueItem ε} {queue : List (QueueItem ε)}
    (h_loop : s.loop = .looping) (h_queue : s.queue = item :: queue)
    (h_reads : item = .done → ∀ c ∈ s.current, ¬c.Doomed) :
    Wakes (onItem { s with queue := queue } item) := by
  have h_ended (h_mem : .done ∈ queue) : s.readerOver = true := h.ended (by simp [h_queue, h_mem])
  have h_open : s.loop ≠ .announcing := by simp [h_loop]
  cases item with
  | done =>
    have h_over := h.ended (by simp [h_queue])
    simp only [onItem]
    split
    · exact ⟨h_ended, fun _ => ⟨h_over, by simp⟩, fun _ h => absurd rfl h, fun _ h => by cases h⟩
    · next h_resp =>
      obtain ⟨c, h_c, h_done⟩ := DuplexState.responding_eq_true.mp (not_not.mp h_resp)
      refine ⟨h_ended, fun _ => ⟨h_over, h_open⟩, fun _ _ => .inr rfl, fun _ _ => ?_⟩
      exact ⟨c, h_c, h_reads rfl c h_c, fun h => by simp [h_done] at h⟩
  | respDone =>
    simp only [onItem]
    split
    · next h_close =>
      exact ⟨h_ended, fun h_input => ⟨(h.input h_input).1, by simp⟩, fun _ h => absurd rfl h,
        fun _ h => by cases h⟩
    · next h_open' =>
      refine ⟨h_ended, h.input, fun h_over h_loop' => ?_, fun h_input h_loop' => ?_⟩
      · exact (h.sentinel h_over h_loop').imp_left fun h_mem => by simpa [h_queue] using h_mem
      · -- the response was not done when its `RESP_DONE`, or another, was read
        obtain ⟨c, h_c, h_doomed, -⟩ := h.response h_input h_loop'
        refine ⟨c, h_c, h_doomed, fun h_done => absurd ⟨h_input, ?_⟩ h_open'⟩
        have h_c' : (({ s with queue := queue } : DuplexState σ ε)).current = some c := h_c
        simp [DuplexState.responding, h_c', h_done]
  | speechStart => exact h.pass h_queue (by simp) (by simp)
  | bargeIn => exact h.pass h_queue (by simp) (by simp)
  | reply event => exact h.pass h_queue (by simp) (by simp)

/-- **A step of any party.** -/
theorem step (h : Wakes s) {a : DuplexAction ε} (h_reads : ReadsEnd s a)
    (h_step : duplexStep vad cfg s a = some t) : Wakes t := by
  cases a with
  | frame frame =>
    obtain ⟨h_over, h_t⟩ := Option.ite_none_left_eq_some.mp h_step
    have h_over : s.readerOver = false := by simpa using h_over
    rw [← Option.some.inj h_t]
    exact h.of_reading h_over ((onFrame_open vad cfg s frame).1.trans h_over)
      (done_mem_onFrame vad cfg s frame) (onFrame_open vad cfg s frame).2
  | inputEnd =>
    obtain ⟨h_over, h_t⟩ := Option.ite_none_left_eq_some.mp h_step
    have h_input := h.inputDone_of_reading (by simpa using h_over)
    rw [← Option.some.inj h_t]
    refine ⟨fun _ => rfl, fun h_true => ?_, fun _ _ => .inl (by simp), fun h_true => ?_⟩
    · simp [DuplexState.put, h_input] at h_true
    · simp [DuplexState.put, h_input] at h_true
  | first i =>
    simp only [duplexStep] at h_step
    split at h_step
    · next c h_c =>
      obtain ⟨h_phase, h_t⟩ := Option.ite_none_right_eq_some.mp h_step
      rw [← Option.some.inj h_t]
      refine h.toPhase (by split <;> simp) fun h_fin h_input h_loop h_i => ?_
      -- cancelled before its first step, the current response would be doomed
      obtain ⟨c', h_c', h_doomed, -⟩ := h.response h_input h_loop
      obtain ⟨k, h_k, h_c'⟩ := DuplexState.current_eq_some.mp h_c'
      obtain rfl : k = i := Option.some.inj (h_k.symm.trans h_i)
      obtain rfl : c' = c := Option.some.inj (h_c'.symm.trans h_c)
      refine absurd ⟨h_phase, ?_⟩ h_doomed
      by_contra h_cancel
      simp [h_cancel] at h_fin
    · cases h_step
  | emit i event =>
    simp only [duplexStep] at h_step
    split at h_step
    · obtain ⟨-, h_t⟩ := Option.ite_none_right_eq_some.mp h_step
      rw [← Option.some.inj h_t]
      exact h.put _ (by simp)
    · cases h_step
  | finish i =>
    simp only [duplexStep] at h_step
    split at h_step
    · obtain ⟨-, h_t⟩ := Option.ite_none_right_eq_some.mp h_step
      rw [← Option.some.inj h_t]
      -- `RESP_DONE` is there when the task is done
      exact (h.put .respDone (by simp)).toPhase (by simp) fun _ _ _ _ => by simp
    · cases h_step
  | enter =>
    obtain ⟨h_loop, h_t⟩ := Option.ite_none_right_eq_some.mp h_step
    rw [← Option.some.inj h_t]
    have h_input : s.inputDone = false := by
      by_contra h_input
      exact (h.input (by simpa using h_input)).2 h_loop
    refine ⟨h.ended, fun h_true => ?_, fun h_over _ => ?_, fun h_true => ?_⟩
    · simp [h_input] at h_true
    · exact h.sentinel h_over (by simp [h_loop])
    · simp [h_input] at h_true
  | get =>
    simp only [duplexStep] at h_step
    split at h_step
    · next item queue h_loop h_queue =>
      rw [← Option.some.inj h_step]
      exact h.get h_loop h_queue fun h_item => h_reads rfl (by simp [h_queue, h_item])
    · cases h_step
  | close =>
    simp only [duplexStep] at h_step
    split at h_step
    · rw [← Option.some.inj h_step]
      exact ⟨h.ended, fun h_true => ⟨(h.input h_true).1, by simp⟩, fun _ h => absurd rfl h,
        fun _ h => by cases h⟩
    · rw [← Option.some.inj h_step]
      refine ⟨fun _ => by simp, fun _ => by simp, fun _ h => by simp at h, fun _ h => by simp at h⟩
    · cases h_step

end Wakes

/-- **The loop never waits for nothing**: in a run where the loop reads `DONE` over no response
that was cancelled before its first step and is not done, no state is stuck. -/
theorem loop_never_stuck (vad : VADAdapter σ) (cfg : VADConfig) (v : σ) (greets : Bool)
    {as : List (DuplexAction ε)} {s : DuplexState σ ε}
    (h_run : runSteps (duplexStep vad cfg) (duplexInit vad v greets) as = some s)
    (h_reads : EachStep (duplexStep vad cfg) ReadsEnd (duplexInit vad v greets) as) :
    ¬s.Stuck :=
  (runSteps_history_of_each (I := fun _ s => Wakes s) (.init vad v greets)
    (fun _ _ _ _ _ h h_read h_step => h.step h_read h_step) h_run h_reads).not_stuck

/-- One sample a millisecond; speech interrupts at its first frame. -/
def promptBargeIn : VADConfig where
  threshold := 1 / 2
  silenceMs := 1
  minSpeechMs := 0
  bargeInMinSpeechMs := 0
  sampleRate := 1000

/-- An utterance and the start of another come from the microphone at one go, and the input
ends; the output loop reads all that was put before the response has its first step. -/
def cancelledBeforeStart : List (DuplexAction Unit) :=
  [.enter, .frame [0, 96], .frame [0, 0], .frame [0, 96], .inputEnd, .get, .get, .get, .get,
    .first 0]

/-- **A stuck state**: the response was cancelled before its first step. -/
theorem stuck_after_cancel :
    ¬∀ s ∈ runSteps (duplexStep (EnergyVAD.adapter promptBargeIn) promptBargeIn)
      (duplexInit (EnergyVAD.adapter promptBargeIn) {} false) cancelledBeforeStart, ¬s.Stuck := by
  decide +kernel

/-- The same frames, where the response has its first step before it is cancelled. -/
def cancelledAfterStart : List (DuplexAction Unit) :=
  [.enter, .frame [0, 96], .frame [0, 0], .first 0, .frame [0, 96], .inputEnd, .get, .get, .get,
    .get, .finish 0]

/-- A response cancelled at its start does not leave the loop stuck. -/
theorem not_stuck_after_start :
    ∃ s, runSteps (duplexStep (EnergyVAD.adapter promptBargeIn) promptBargeIn)
      (duplexInit (EnergyVAD.adapter promptBargeIn) {} false) cancelledAfterStart = some s ∧
    ¬s.Stuck := by
  have h_some : (runSteps (duplexStep (EnergyVAD.adapter promptBargeIn) promptBargeIn)
      (duplexInit (EnergyVAD.adapter promptBargeIn) {} false)
      cancelledAfterStart).isSome = true := by
    decide +kernel
  obtain ⟨s, h_run⟩ := Option.isSome_iff_exists.mp h_some
  exact ⟨s, h_run,
    loop_never_stuck (EnergyVAD.adapter promptBargeIn) promptBargeIn {} false h_run (by decide +kernel)⟩

end Nexus.Voice
