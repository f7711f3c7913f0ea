import NexusAgent.Voice.Duplex

/-!
# Barge-in

What the user says over a response is measured by a counter of the reader, while the VAD
measures the utterance for itself. An observer of the frames says what was heard over the
current response; the results compare that with what the loop did.

* `Overlap`: the stretch of speech over the current response, and whether one was long enough.
* `one_response_iff`: responses are one at a time where each utterance that ends over one had
  a long enough stretch.
* `two_responses`: a short utterance over a response starts a second one beside it.
* `heardLoud`: the loud audio of the stretch of speech.
* `bargeIn_of_loud`: a barge-in has heard enough of it, if no quiet frame was counted.
* `bargeIn_after_click`: a click and the silence after it interrupt a response.
-/

namespace Nexus.Voice

open Lib

variable {σ ε : Type} {vad : VADAdapter σ} {cfg : VADConfig} {s t : DuplexState σ ε}

/-! ### One response at a time -/

/-- The task runs and produces output. -/
def ResponseTask.Producing (c : ResponseTask) : Prop :=
  c.phase = .running ∧ c.cancelling = false

theorem ResponseTask.Producing.inFlight {c : ResponseTask} (h : c.Producing) : c.InFlight :=
  ⟨by simp [h.1], h.2⟩

namespace DuplexState

/-- At most one task runs and produces output. -/
def OneResponse (s : DuplexState σ ε) : Prop :=
  ∀ (i j : ℕ) (c d : ResponseTask), s.tasks[i]? = some c → s.tasks[j]? = some d →
    c.Producing → d.Producing → i = j

/-- No task but the current one is in flight, and the current one is the last. -/
structure OnlyCurrent (s : DuplexState σ ε) : Prop where
  last : s.tasks.length = s.responseTask.elim 0 Nat.succ
  only : ∀ (i : ℕ) (c : ResponseTask), s.tasks[i]? = some c → c.InFlight → s.responseTask = some i

/-- At most one response is producing then. -/
theorem OnlyCurrent.oneResponse (h : s.OnlyCurrent) : s.OneResponse := by
  intro i j c d h_c h_d h_out h_out'
  have h_i := h.only i c h_c h_out.inFlight
  have h_j := h.only j d h_d h_out'.inFlight
  exact Option.some.inj (h_i.symm.trans h_j)

end DuplexState

/-- What was heard over the current response, read off the frames: how long the present
stretch of speech is, if one started over the response, and whether one was long enough. -/
structure Overlap where
  heardMs : Option ℚ := none
  longEnough : Bool := false

/-- What a frame adds. -/
def Overlap.hear (cfg : VADConfig) (o : Overlap) (ms : ℚ) : Overlap where
  heardMs := some ms
  longEnough := o.longEnough || decide ((bargeNeedMs cfg : ℚ) ≤ ms)

/-- The observer of the frames. -/
def Overlap.next (vad : VADAdapter σ) (cfg : VADConfig) (s : DuplexState σ ε) :
    DuplexAction ε → Overlap → Overlap
  | .frame frame, o =>
    match (vad.processFrame s.vad frame).1 with
    | some .speechStart =>
      if s.responding then o.hear cfg (frameMs cfg frame) else { o with heardMs := none }
    | some .speechEnd => {}
    | none =>
      match o.heardMs with
      | some ms => o.hear cfg (ms + frameMs cfg frame)
      | none => o
  | _, o => o

/-- The action is a frame that the reader gets and at which an utterance ends. -/
def EndsUtterance (vad : VADAdapter σ) (s : DuplexState σ ε) : DuplexAction ε → Prop
  | .frame frame => s.readerOver = false ∧ (vad.processFrame s.vad frame).1 = some .speechEnd
  | _ => False

/-- An utterance ends only while the reader is there. -/
theorem EndsUtterance.reader {a : DuplexAction ε} (h : EndsUtterance vad s a) :
    s.readerOver = false := by
  cases a with
  | frame frame => exact h.1
  | _ => exact h.elim

/-- The tasks that were there stay as they are. -/
theorem EndsUtterance.step {a : DuplexAction ε} (h : EndsUtterance vad s a) (cfg : VADConfig) :
    ∃ t, duplexStep vad cfg s a = some t ∧
      ∀ i < s.tasks.length, t.tasks[i]? = s.tasks[i]? := by
  cases a with
  | frame frame =>
    refine ⟨onFrame vad cfg s frame, by simp [duplexStep, h.1], fun i h_i => ?_⟩
    simp [onFrame, h.2, List.getElem?_append_left h_i]
  | _ => exact h.elim

/-- An utterance ends over no response in flight: the response is done, or a stretch of speech
over it had been as long as a barge-in needs. -/
def EndsHeard (vad : VADAdapter σ) (w : DuplexState σ ε × Overlap) (a : DuplexAction ε) : Prop :=
  EndsUtterance vad w.1 a → w.1.responding = false ∨ w.2.longEnough = true

/-- When an utterance ends, every response that was in flight is cancelled before the new one
is there. -/
def EndCancels (vad : VADAdapter σ) (cfg : VADConfig) (s : DuplexState σ ε)
    (a : DuplexAction ε) : Prop :=
  EndsUtterance vad s a → ∀ t, duplexStep vad cfg s a = some t →
    ∀ (i : ℕ) (c : ResponseTask), i < s.tasks.length → t.tasks[i]? = some c → ¬c.InFlight

/-- What the observer knows of the loop. -/
structure Overlap.Knows (o : Overlap) (cfg : VADConfig) (s : DuplexState σ ε) : Prop where
  /-- The reader cancels the response exactly after a stretch that was long enough. -/
  cancelled : ∀ c, s.current = some c → c.done = false → s.readerOver = false →
    (c.cancelling = true ↔ o.longEnough = true)
  /-- Until then the counter is the length of the stretch. -/
  counter : s.responding = true → s.readerOver = false → o.longEnough = false →
    (s.bargePending = true ↔ o.heardMs.isSome) ∧
      ∀ ms, o.heardMs = some ms → s.bargeMs = ms

namespace Overlap.Knows

variable {o : Overlap}

/-- At the start nothing was heard. -/
theorem init (vad : VADAdapter σ) (cfg : VADConfig) (v : σ) (greets : Bool) :
    Overlap.Knows {} cfg (duplexInit vad v greets : DuplexState σ ε) where
  cancelled c h_c _ _ := by
    obtain ⟨i, h_i, h_c⟩ := DuplexState.current_eq_some.mp h_c
    cases greets with
    | false => cases h_i
    | true =>
      obtain rfl := Option.some.inj h_i
      obtain rfl := Option.some.inj h_c
      simp
  counter _ _ _ := by simp [duplexInit]

/-- The other parties do nothing that the observer would not know. -/
theorem beside (h : o.Knows cfg s) (h_step : BesideReader s t) : o.Knows cfg t where
  cancelled c h_c h_done h_over := by
    obtain ⟨i, h_i, h_c⟩ := DuplexState.current_eq_some.mp h_c
    obtain ⟨c₀, h_c₀, h_done₀, -, h_same⟩ := h_step.task i c h_c
    rw [h_same h_over]
    rw [h_step.responseTask] at h_i
    exact h.cancelled c₀ (DuplexState.current_eq_some.mpr ⟨i, h_i, h_c₀⟩) (h_done₀ h_done)
      (h_step.reader h_over)
  counter h_resp h_over h_long := by
    rw [h_step.bargePending, h_step.bargeMs]
    exact h.counter (h_step.responding h_resp) (h_step.reader h_over) h_long

/-- A stretch that was long enough stays so until the utterance ends. -/
theorem longEnough_next (cfg : VADConfig) {frame : Frame}
    (h_ev : (vad.processFrame s.vad frame).1 ≠ some .speechEnd) (h_long : o.longEnough = true) :
    (o.next vad cfg s (.frame frame)).longEnough = true := by
  simp only [Overlap.next]
  -- a start of speech counts this frame, and an end is excluded
  split
  · split
    · simp [Overlap.hear, h_long]
    · exact h_long
  · contradiction
  · split
    · simp [Overlap.hear, h_long]
    · exact h_long

/-- Before that, the observer hears what the counter counts. -/
theorem next_of_counted (h : o.Knows cfg s) (h_resp : s.responding = true)
    (h_over : s.readerOver = false) (h_long : o.longEnough = false) {frame : Frame} {ms : ℚ}
    (h_ms : Counted vad cfg s frame ms) : o.next vad cfg s (.frame frame) = o.hear cfg ms := by
  cases h_ms with
  | start h_ev => simp [Overlap.next, h_ev, h_resp]
  | more h_ev h_pending =>
    obtain ⟨h_iff, h_count⟩ := h.counter h_resp h_over h_long
    obtain ⟨ms, h_heard⟩ := Option.isSome_iff_exists.mp (h_iff.mp h_pending)
    simp [Overlap.next, h_ev, h_heard, h_count ms h_heard]

/-- A frame that is counted ends no utterance. -/
theorem event_ne_end {frame : Frame} {ms : ℚ} (h_ms : Counted vad cfg s frame ms) :
    (vad.processFrame s.vad frame).1 ≠ some .speechEnd := by
  cases h_ms with
  | start h_ev => simp [h_ev]
  | more h_ev _ => simp [h_ev]

/-- The same tasks give the same response. -/
theorem current_congr (h_tasks : t.tasks = s.tasks) (h_task : t.responseTask = s.responseTask) :
    t.current = s.current := by
  rw [DuplexState.current, DuplexState.current, h_tasks, h_task]

/-- **A frame.** -/
theorem frame (h : o.Knows cfg s) (h_over : s.readerOver = false) (frame : Frame) :
    (o.next vad cfg s (.frame frame)).Knows cfg (onFrame vad cfg s frame) := by
  obtain ⟨fresh, -, h_step⟩ := onFrame_frameStep vad cfg s frame
  cases h_step with
  | ended h_ev utterance h_tasks h_task h_pending =>
    -- a new response, over which nothing was heard yet
    have h_next : o.next vad cfg s (.frame frame) = {} := by simp [Overlap.next, h_ev]
    rw [h_next]
    refine ⟨fun c h_c _ _ => ?_, fun _ _ _ => by simp [h_pending]⟩
    rw [DuplexState.current, h_tasks, h_task] at h_c
    simp only [Option.bind_some, List.getElem?_concat_length, Option.some.injEq] at h_c
    simp [← h_c]
  | idle h_ev h_resp h_tasks h_task =>
    have h_none : (onFrame vad cfg s frame).responding = false := by
      rw [DuplexState.responding, current_congr h_tasks h_task]
      exact h_resp
    refine ⟨fun c h_c h_done _ => ?_, fun h_resp' _ _ => by simp [h_none] at h_resp'⟩
    simp [DuplexState.responding, h_c, h_done] at h_none
  | unheard h_ev h_resp h_was h_tasks h_task h_pending =>
    have h_current := current_congr h_tasks h_task
    have h_end : (vad.processFrame s.vad frame).1 ≠ some .speechEnd := by simp [h_ev]
    cases h_long : o.longEnough with
    | true =>
      have h_long' := longEnough_next cfg h_end h_long
      refine ⟨fun c h_c h_done _ => ?_, fun _ _ h => by simp [h_long'] at h⟩
      rw [h_current] at h_c
      simpa [h_long', h_long] using h.cancelled c h_c h_done h_over
    | false =>
      obtain ⟨h_iff, -⟩ := h.counter h_resp h_over h_long
      have h_heard : o.heardMs = none := by simpa [h_was] using h_iff
      have h_next : o.next vad cfg s (.frame frame) = o := by simp [Overlap.next, h_ev, h_heard]
      rw [h_next]
      refine ⟨fun c h_c h_done _ => ?_, fun _ _ _ => by simp [h_pending, h_heard]⟩
      exact h.cancelled c (h_current ▸ h_c) h_done h_over
  | counting ms h_ms h_resp h_lt h_tasks h_task h_pending h_count =>
    have h_current := current_congr h_tasks h_task
    cases h_long : o.longEnough with
    | true =>
      have h_long' := longEnough_next cfg (event_ne_end h_ms) h_long
      refine ⟨fun c h_c h_done _ => ?_, fun _ _ h => by simp [h_long'] at h⟩
      rw [h_current] at h_c
      simpa [h_long', h_long] using h.cancelled c h_c h_done h_over
    | false =>
      rw [h.next_of_counted h_resp h_over h_long h_ms]
      have h_long' : (o.hear cfg ms).longEnough = false := by
        simp [Overlap.hear, h_long, h_lt]
      refine ⟨fun c h_c h_done _ => ?_, fun _ _ _ => ?_⟩
      · rw [h_current] at h_c
        simpa [h_long', h_long] using h.cancelled c h_c h_done h_over
      · simp [h_pending, Overlap.hear, h_count]
  | interrupting ms h_ms h_resp h_ge h_tasks h_task =>
    have h_long' : (o.next vad cfg s (.frame frame)).longEnough = true := by
      cases h_long : o.longEnough with
      | true => exact longEnough_next cfg (event_ne_end h_ms) h_long
      | false =>
        rw [h.next_of_counted h_resp h_over h_long h_ms]
        simp [Overlap.hear, h_ge]
    refine ⟨fun c h_c h_done _ => ?_, fun _ _ h => by simp [h_long'] at h⟩
    -- the response has just been cancelled
    have h_current : (onFrame vad cfg s frame).current = s.cancelCurrent.current :=
      current_congr h_tasks (by rw [h_task, DuplexState.cancelCurrent_responseTask])
    rw [h_current, DuplexState.cancelCurrent_current] at h_c
    obtain ⟨c₀, -, rfl⟩ := Option.map_eq_some_iff.mp h_c
    rw [ResponseTask.cancel_done] at h_done
    exact iff_of_true (ResponseTask.cancel_cancelling h_done) h_long'

/-- **A step of any party.** -/
theorem step (h : o.Knows cfg s) {a : DuplexAction ε} (h_step : duplexStep vad cfg s a = some t) :
    (o.next vad cfg s a).Knows cfg t := by
  by_cases h_frame : ∃ frame, a = .frame frame
  · obtain ⟨frame, rfl⟩ := h_frame
    obtain ⟨h_over, h_t⟩ := Option.ite_none_left_eq_some.mp h_step
    obtain rfl := Option.some.inj h_t
    exact h.frame (by simpa using h_over) frame
  · have h_next : o.next vad cfg s a = o := by
      cases a <;> first | rfl | exact absurd ⟨_, rfl⟩ h_frame
    rw [h_next]
    exact h.beside (duplexStep_besideReader h_step fun frame h_a => h_frame ⟨frame, h_a⟩)

/-- What was heard says whether the current response is in flight. -/
theorem heard_iff (h : o.Knows cfg s) (h_over : s.readerOver = false) :
    (s.responding = false ∨ o.longEnough = true) ↔ ∀ c, s.current = some c → ¬c.InFlight := by
  cases h_c : s.current with
  | none => simp [DuplexState.responding, h_c]
  | some c =>
    cases h_done : c.done with
    | true => simp [DuplexState.responding, h_c, ResponseTask.inFlight_iff, h_done]
    | false =>
      have h_iff := h.cancelled c h_c h_done h_over
      simp [DuplexState.responding, h_c, ResponseTask.inFlight_iff, h_done, ← h_iff]

end Overlap.Knows

namespace DuplexState.OnlyCurrent

/-- At the start only the current response is in flight. -/
theorem init (vad : VADAdapter σ) (v : σ) (greets : Bool) :
    (duplexInit vad v greets : DuplexState σ ε).OnlyCurrent where
  last := by cases greets <;> rfl
  only i c h_c _ := by
    cases greets with
    | false => simp [duplexInit] at h_c
    | true =>
      obtain ⟨h_i, -⟩ := List.getElem?_eq_some_iff.mp h_c
      obtain rfl : i = 0 := by simpa [duplexInit] using h_i
      rfl

/-- What leaves the reader alone keeps that. -/
theorem beside (h : s.OnlyCurrent) (h_step : BesideReader s t) : t.OnlyCurrent where
  last := by rw [h_step.length, h_step.responseTask, h.last]
  only i c h_c h_flight := by
    obtain ⟨c₀, h_c₀, h_done, h_cancel, -⟩ := h_step.task i c h_c
    rw [h_step.responseTask]
    rw [ResponseTask.inFlight_iff] at h_flight
    refine h.only i c₀ h_c₀ (ResponseTask.inFlight_iff.mpr ⟨h_done h_flight.1, ?_⟩)
    by_contra h_c
    rw [h_cancel (by simpa using h_c)] at h_flight
    exact absurd h_flight.2 (by simp)

/-- Where the tasks stay as they are, so does what is in flight. -/
theorem of_tasks_eq (h : s.OnlyCurrent) (h_tasks : t.tasks = s.tasks)
    (h_task : t.responseTask = s.responseTask) : t.OnlyCurrent where
  last := by rw [h_tasks, h_task, h.last]
  only i c h_c h_flight := by
    rw [h_task]
    exact h.only i c (h_tasks ▸ h_c) h_flight

/-- A frame, where an utterance ends over no response in flight. -/
theorem frame (h : s.OnlyCurrent) (frame : Frame)
    (h_end : (vad.processFrame s.vad frame).1 = some .speechEnd →
      ∀ c, s.current = some c → ¬c.InFlight) : (onFrame vad cfg s frame).OnlyCurrent := by
  obtain ⟨fresh, -, h_step⟩ := onFrame_frameStep vad cfg s frame
  cases h_step with
  | ended h_ev utterance h_tasks h_task =>
    refine ⟨by simp [h_tasks, h_task], fun i c h_c h_flight => ?_⟩
    rw [h_tasks] at h_c
    rcases lt_or_ge i s.tasks.length with h_lt | h_ge
    · -- a task in flight from before would be the current one, which the end of speech rules out
      rw [List.getElem?_append_left h_lt] at h_c
      have h_i := h.only i c h_c h_flight
      exact absurd h_flight (h_end h_ev c (DuplexState.current_eq_some.mpr ⟨i, h_i, h_c⟩))
    · obtain ⟨h_i, -⟩ := List.getElem?_eq_some_iff.mp h_c
      rw [h_task, Option.some.injEq]
      rw [List.length_append, List.length_singleton] at h_i
      omega
  | idle _ _ h_tasks h_task => exact h.of_tasks_eq h_tasks h_task
  | unheard _ _ _ h_tasks h_task => exact h.of_tasks_eq h_tasks h_task
  | counting _ _ _ _ h_tasks h_task => exact h.of_tasks_eq h_tasks h_task
  | interrupting _ _ _ _ h_tasks h_task =>
    refine ⟨by rw [h_tasks, DuplexState.cancelCurrent_tasks_length, h_task, h.last], ?_⟩
    intro i c h_c h_flight
    rw [h_tasks, DuplexState.cancelCurrent_getElem?] at h_c
    obtain ⟨c₀, h_c₀, rfl⟩ := Option.map_eq_some_iff.mp h_c
    rw [h_task]
    split at h_flight
    · assumption
    · exact h.only i c₀ h_c₀ h_flight

end DuplexState.OnlyCurrent

/-- The observed loop and its observer. -/
structure Observed (cfg : VADConfig) (w : DuplexState σ ε × Overlap) : Prop where
  knows : w.2.Knows cfg w.1
  only : w.1.OnlyCurrent

/-- Where every utterance ends over no response in flight, only the current response is. -/
theorem Observed.step {w w' : DuplexState σ ε × Overlap} {a : DuplexAction ε}
    (h : Observed cfg w) (h_end : EndsHeard vad w a)
    (h_step : observed (duplexStep vad cfg) (Overlap.next vad cfg) w a = some w') :
    Observed cfg w' := by
  obtain ⟨h_t, h_o⟩ := observed_eq_some.mp h_step
  -- what was heard follows from the step itself
  refine ⟨h_o ▸ h.knows.step h_t, ?_⟩
  -- a frame is the reader's, all else is beside it
  by_cases h_frame : ∃ frame, a = .frame frame
  · obtain ⟨frame, rfl⟩ := h_frame
    obtain ⟨h_over, h_t⟩ := Option.ite_none_left_eq_some.mp h_t
    rw [← Option.some.inj h_t]
    have h_over : w.1.readerOver = false := by simpa using h_over
    exact h.only.frame frame fun h_ev =>
      (h.knows.heard_iff h_over).mp (h_end ⟨h_over, h_ev⟩)
  · exact h.only.beside (duplexStep_besideReader h_t fun frame h_a => h_frame ⟨frame, h_a⟩)

/-- **Responses are one at a time**, and every response in flight at the end of an utterance is
cancelled before the next one is there, exactly in the runs where every utterance that ends
over a response that is not done had a stretch of speech as long as a barge-in needs. -/
theorem one_response_iff (vad : VADAdapter σ) (cfg : VADConfig) (v : σ) (greets : Bool)
    (as : List (DuplexAction ε)) :
    ((∀ bs s, bs <+: as → runSteps (duplexStep vad cfg) (duplexInit vad v greets) bs = some s →
        s.OneResponse) ∧
      EachStep (duplexStep vad cfg) (EndCancels vad cfg) (duplexInit vad v greets) as) ↔
    EachStep (observed (duplexStep vad cfg) (Overlap.next vad cfg)) (EndsHeard vad)
      (duplexInit vad v greets, {}) as := by
  have h_init : Observed (ε := ε) cfg (duplexInit vad v greets, {}) :=
    ⟨.init vad cfg v greets, .init vad v greets⟩
  constructor
  · rintro ⟨-, h_each⟩
    -- a response that was not long enough spoken over is still in flight after the frame
    refine EachStep.imp_of_invariant (I := fun w => w.2.Knows cfg w.1)
      (fun w a w' h _ h_step => ?_) (fun w a h_knows h_cancels h_ends => ?_) h_init.knows
      (eachStep_observed.mpr h_each)
    · obtain ⟨h_t, h_o⟩ := observed_eq_some.mp h_step
      exact h_o ▸ h.step h_t
    · refine (h_knows.heard_iff h_ends.reader).mpr fun c h_c h_flight => ?_
      obtain ⟨i, -, h_i⟩ := DuplexState.current_eq_some.mp h_c
      obtain ⟨t, h_t, h_tasks⟩ := h_ends.step cfg
      obtain ⟨h_lt, -⟩ := List.getElem?_eq_some_iff.mp h_i
      exact h_cancels h_ends t h_t i c h_lt ((h_tasks i h_lt).trans h_i) h_flight
  · intro h_each
    refine ⟨fun bs s h_pre h_run => ?_, ?_⟩
    · obtain ⟨o, h_obs⟩ := exists_runSteps_observed h_run (Overlap.next vad cfg) {}
      have h_only := runSteps_history_of_each (I := fun _ w => Observed cfg w) h_init
        (fun _ w a w' _ h h_end h_step => h.step h_end h_step) h_obs (h_each.of_prefix h_pre)
      exact h_only.only.oneResponse
    · refine eachStep_observed.mp (EachStep.imp_of_invariant (I := Observed cfg)
        (fun w a w' h h_end h_step => h.step h_end h_step)
        (fun w a h h_end h_ends => ?_) h_init h_each)
      intro t h_t i c h_lt h_c h_flight
      obtain ⟨u, h_u, h_tasks⟩ := h_ends.step cfg
      obtain rfl : u = t := Option.some.inj (h_u.symm.trans h_t)
      rw [h_tasks i h_lt] at h_c
      have h_i := h.only.only i c h_c h_flight
      exact (h.knows.heard_iff h_ends.reader).mp (h_end h_ends) c
        (DuplexState.current_eq_some.mpr ⟨i, h_i, h_c⟩) h_flight

/-- A sample of three quarters of the full scale, and a sample of silence. -/
def loudFrame : Frame := [0, 96]

def quietFrame : Frame := [0, 0]

/-- One sample a millisecond, turns that end after one millisecond of silence. -/
def shortTurns : VADConfig where
  threshold := 1 / 2
  silenceMs := 1
  minSpeechMs := 0
  bargeInMinSpeechMs := 3
  sampleRate := 1000

/-- An utterance of two milliseconds, and another one over its response. -/
def twoUtterances : List (DuplexAction Unit) :=
  [.frame loudFrame, .frame quietFrame, .first 0, .emit 0 (),
    .frame loudFrame, .frame quietFrame, .first 1, .emit 0 (), .emit 1 ()]

/-- Two utterances leave two responses running. -/
theorem twoUtterances_tasks :
    (runSteps (duplexStep (EnergyVAD.adapter shortTurns) shortTurns)
        (duplexInit (EnergyVAD.adapter shortTurns) {} false) twoUtterances).map (·.tasks) =
      some [⟨some (loudFrame ++ quietFrame), .running, false⟩,
        ⟨some (loudFrame ++ quietFrame), .running, false⟩] := by
  decide +kernel

/-- **Two responses at once**: the second utterance was too short for a barge-in, and the
response to it starts beside the first, which goes on. -/
theorem two_responses :
    ¬∀ bs s, bs <+: twoUtterances →
      runSteps (duplexStep (EnergyVAD.adapter shortTurns) shortTurns)
        (duplexInit (EnergyVAD.adapter shortTurns) {} false) bs = some s → s.OneResponse := by
  intro h
  obtain ⟨s, h_run, h_tasks⟩ := Option.map_eq_some_iff.mp twoUtterances_tasks
  have h_one := h _ s (List.prefix_refl _) h_run 0 1 _ _ (by rw [h_tasks]; rfl)
    (by rw [h_tasks]; rfl) ⟨rfl, rfl⟩ ⟨rfl, rfl⟩
  cases h_one

/-! ### What a barge-in has heard -/

/-- The observer of the loud audio: how much of it came over the response since speech started,
none outside of speech. -/
def heardLoud (cfg : VADConfig) (s : DuplexState EnergyVAD ε) :
    DuplexAction ε → Option ℚ → Option ℚ
  | .frame frame, heard =>
    let ms := if s.responding ∧ isSpeech cfg.threshold frame then frameMs cfg frame else 0
    match (EnergyVAD.processFrame cfg s.vad frame).1 with
    | some .speechStart => some ms
    | some .speechEnd => none
    | none =>
      -- a click that is discarded ends the speech without an event
      if (EnergyVAD.processFrame cfg s.vad frame).2.inSpeech then heard.map (· + ms) else none
  | _, heard => heard

/-- A barge-in that is reported has heard enough loud audio. -/
def BargeInHeard (cfg : VADConfig) (w : DuplexState EnergyVAD ε × Option ℚ)
    (a : DuplexAction ε) : Prop :=
  ∀ w', observed (duplexStep (EnergyVAD.adapter cfg) cfg) (heardLoud cfg) w a = some w' →
    .bargeIn ∈ w'.1.queue.drop w.1.queue.length → ∃ ms ∈ w'.2, (bargeNeedMs cfg : ℚ) ≤ ms

instance [DecidableEq ε] (cfg : VADConfig) (w : DuplexState EnergyVAD ε × Option ℚ)
    (a : DuplexAction ε) : Decidable (BargeInHeard cfg w a) :=
  inferInstanceAs (Decidable (∀ w' ∈ observed (duplexStep (EnergyVAD.adapter cfg) cfg)
      (heardLoud cfg) w a,
    .bargeIn ∈ w'.1.queue.drop w.1.queue.length → ∃ ms ∈ w'.2, (bargeNeedMs cfg : ℚ) ≤ ms))

/-- While a barge-in is pending over a response that is not done, a frame at which the VAD
reports nothing is loud, or empty. -/
def CountsLoud (cfg : VADConfig) (s : DuplexState EnergyVAD ε) : DuplexAction ε → Prop
  | .frame frame => s.bargePending = true → s.responding = true →
    (EnergyVAD.processFrame cfg s.vad frame).1 = none →
      isSpeech cfg.threshold frame = true ∨ frame = []
  | _ => True

instance (cfg : VADConfig) (s : DuplexState EnergyVAD ε) (a : DuplexAction ε) :
    Decidable (CountsLoud cfg s a) :=
  match a with
  | .frame frame => inferInstanceAs (Decidable (s.bargePending = true → s.responding = true →
      (EnergyVAD.processFrame cfg s.vad frame).1 = none →
        isSpeech cfg.threshold frame = true ∨ frame = []))
  | .inputEnd => inferInstanceAs (Decidable True)
  | .first _ => inferInstanceAs (Decidable True)
  | .emit _ _ => inferInstanceAs (Decidable True)
  | .finish _ => inferInstanceAs (Decidable True)
  | .enter => inferInstanceAs (Decidable True)
  | .get => inferInstanceAs (Decidable True)
  | .close => inferInstanceAs (Decidable True)

/-- The counter of the reader against the loud audio that was heard. -/
structure LoudCounter (cfg : VADConfig) (w : DuplexState EnergyVAD ε × Option ℚ) : Prop where
  speech : w.2.isSome ↔ w.1.vad.inSpeech = true
  counter : w.1.bargePending = true → w.1.responding = true →
    w.1.bargeMs < bargeNeedMs cfg ∧ ∀ ms ∈ w.2, ms = w.1.bargeMs

namespace LoudCounter

variable {cfg : VADConfig} {w : DuplexState EnergyVAD ε × Option ℚ} {frame : Frame}

/-- Audio is heard within speech only. -/
theorem heardLoud_isSome (h : LoudCounter cfg w) (frame : Frame) :
    (heardLoud cfg w.1 (.frame frame) w.2).isSome ↔
      (EnergyVAD.processFrame cfg w.1.vad frame).2.inSpeech = true := by
  have h_heard := EnergyVAD.processFrame_heard cfg w.1.vad frame
  have h_speech := h.speech
  -- the counter follows what was heard
  simp only [heardLoud]
  generalize h_out : EnergyVAD.processFrame cfg w.1.vad frame = out at *
  obtain ⟨ev, vad'⟩ := out
  generalize isSpeech cfg.threshold frame = loud at *
  generalize h_was : w.1.vad.inSpeech = was at *
  generalize h_now : vad'.inSpeech = now at *
  cases h_heard <;> simp_all

/-- What is counted is what is heard, but for an empty frame. -/
theorem heardLoud_of_counted (h : LoudCounter cfg w) (h_resp : w.1.responding = true) {ms : ℚ}
    (h_ms : Counted (EnergyVAD.adapter cfg) cfg w.1 frame ms)
    (h_loud : CountsLoud cfg w.1 (.frame frame)) :
    (ms = w.1.bargeMs ∧ w.1.bargePending = true ∧
        ∀ x ∈ heardLoud cfg w.1 (.frame frame) w.2, x ∈ w.2) ∨
      heardLoud cfg w.1 (.frame frame) w.2 = some ms := by
  have h_heard := EnergyVAD.processFrame_heard cfg w.1.vad frame
  cases h_ms with
  | start h_ev =>
    -- speech starts with a loud frame
    refine .inr ?_
    change (EnergyVAD.processFrame cfg w.1.vad frame).1 = _ at h_ev
    have h_loud : isSpeech cfg.threshold frame = true := by
      rw [h_ev] at h_heard
      generalize isSpeech cfg.threshold frame = loud at *
      generalize w.1.vad.inSpeech = was at *
      generalize (EnergyVAD.processFrame cfg w.1.vad frame).2.inSpeech = now at *
      cases h_heard
      rfl
    simp [heardLoud, h_ev, h_resp, h_loud]
  | more h_ev h_pending =>
    change (EnergyVAD.processFrame cfg w.1.vad frame).1 = _ at h_ev
    rcases h_loud h_pending h_resp h_ev with h_loud | rfl
    · refine .inr ?_
      have h_speech : w.1.vad.inSpeech = true ∧
          (EnergyVAD.processFrame cfg w.1.vad frame).2.inSpeech = true := by
        rw [h_ev, h_loud] at h_heard
        generalize w.1.vad.inSpeech = was at *
        generalize (EnergyVAD.processFrame cfg w.1.vad frame).2.inSpeech = now at *
        cases h_heard
        exact ⟨rfl, rfl⟩
      obtain ⟨x, h_x⟩ := Option.isSome_iff_exists.mp (h.speech.mpr h_speech.1)
      have h_count := (h.counter h_pending h_resp).2 x h_x
      simp [heardLoud, h_ev, h_speech.2, h_x, h_resp, h_loud, h_count]
    · refine .inl ⟨by simp [frameMs], h_pending, fun x h_x => ?_⟩
      simp only [heardLoud, h_ev, frameMs] at h_x
      split at h_x
      · simpa using h_x
      · cases h_x

/-- What leaves the reader alone keeps the count. -/
theorem beside {w' : DuplexState EnergyVAD ε × Option ℚ} (h : LoudCounter cfg w)
    (h_step : BesideReader w.1 w'.1) (h_same : w'.2 = w.2) : LoudCounter cfg w' where
  speech := by rw [h_same, h_step.vad, h.speech]
  counter h_pending h_resp := by
    rw [h_step.bargePending] at h_pending
    rw [h_step.bargeMs, h_same]
    exact h.counter h_pending (h_step.responding h_resp)

/-- The VAD after a frame, and that the utterance is taken off it, are in speech alike. -/
theorem frame_inSpeech (cfg : VADConfig) (s : DuplexState EnergyVAD ε) (frame : Frame) :
    (onFrame (EnergyVAD.adapter cfg) cfg s frame).vad.inSpeech =
      (EnergyVAD.processFrame cfg s.vad frame).2.inSpeech := by
  obtain ⟨fresh, -, h_step⟩ := onFrame_frameStep (EnergyVAD.adapter cfg) cfg s frame
  cases h_step <;> simp_all [EnergyVAD.adapter, EnergyVAD.takeUtterance]

/-- **A frame**, and what a barge-in that it fires has heard. -/
theorem step_frame (h : LoudCounter cfg w) (frame : Frame)
    (h_loud : CountsLoud cfg w.1 (.frame frame)) :
    LoudCounter cfg (onFrame (EnergyVAD.adapter cfg) cfg w.1 frame,
        heardLoud cfg w.1 (.frame frame) w.2) ∧
      (.bargeIn ∈ (onFrame (EnergyVAD.adapter cfg) cfg w.1 frame).queue.drop w.1.queue.length →
        ∃ ms ∈ heardLoud cfg w.1 (.frame frame) w.2, (bargeNeedMs cfg : ℚ) ≤ ms) := by
  have h_speech := h.heardLoud_isSome frame
  rw [← frame_inSpeech] at h_speech
  obtain ⟨fresh, h_queue, h_step⟩ := onFrame_frameStep (EnergyVAD.adapter cfg) cfg w.1 frame
  rw [h_queue, List.drop_left]
  have h_idle (h_pending : (onFrame (EnergyVAD.adapter cfg) cfg w.1 frame).bargePending = false) :
      LoudCounter cfg (onFrame (EnergyVAD.adapter cfg) cfg w.1 frame,
        heardLoud cfg w.1 (.frame frame) w.2) :=
    ⟨h_speech, fun h_true => by simp [h_pending] at h_true⟩
  cases h_step with
  | ended _ _ _ _ h_pending _ h_fresh => exact ⟨h_idle h_pending, fun h_in => by simp [h_fresh] at h_in⟩
  | idle _ _ _ _ h_pending _ h_fresh => exact ⟨h_idle h_pending, fun h_in => absurd h_in h_fresh⟩
  | unheard _ _ _ _ _ h_pending _ h_fresh =>
    exact ⟨h_idle h_pending, fun h_in => by simp [h_fresh] at h_in⟩
  | counting ms h_ms h_resp h_lt _ _ _ h_count _ h_fresh =>
    refine ⟨⟨h_speech, fun _ _ => ⟨h_count ▸ h_lt, fun x h_x => ?_⟩⟩, fun h_in => absurd h_in h_fresh⟩
    rw [h_count]
    rcases h.heardLoud_of_counted h_resp h_ms h_loud with ⟨h_same, h_pending, h_sub⟩ | h_some
    · rw [h_same]
      exact (h.counter h_pending h_resp).2 x (h_sub x h_x)
    · rw [h_some] at h_x
      exact (Option.some.inj h_x).symm
  | interrupting ms h_ms h_resp h_ge _ _ h_pending =>
    refine ⟨h_idle h_pending, fun _ => ?_⟩
    rcases h.heardLoud_of_counted h_resp h_ms h_loud with ⟨h_same, h_was, -⟩ | h_some
    · -- an empty frame brings the counter nowhere
      rw [h_same] at h_ge
      exact absurd h_ge (h.counter h_was h_resp).1.not_ge
    · exact ⟨ms, h_some, h_ge⟩

/-- **A step of any party.** -/
theorem step {w' : DuplexState EnergyVAD ε × Option ℚ} {a : DuplexAction ε}
    (h : LoudCounter cfg w) (h_loud : CountsLoud cfg w.1 a)
    (h_step : observed (duplexStep (EnergyVAD.adapter cfg) cfg) (heardLoud cfg) w a = some w') :
    LoudCounter cfg w' ∧ (.bargeIn ∈ w'.1.queue.drop w.1.queue.length →
      ∃ ms ∈ w'.2, (bargeNeedMs cfg : ℚ) ≤ ms) := by
  -- the observer counts beside the step
  obtain ⟨h_t, h_o⟩ := observed_eq_some.mp h_step
  -- a frame is the reader's, all else is beside it
  by_cases h_frame : ∃ frame, a = .frame frame
  · obtain ⟨frame, rfl⟩ := h_frame
    obtain ⟨-, h_t⟩ := Option.ite_none_left_eq_some.mp h_t
    have h_w : w' = (onFrame (EnergyVAD.adapter cfg) cfg w.1 frame,
        heardLoud cfg w.1 (.frame frame) w.2) := Prod.ext (Option.some.inj h_t).symm h_o
    rw [h_w]
    exact h.step_frame frame h_loud
  · have h_ne (frame : Frame) : a ≠ .frame frame := fun h_a => h_frame ⟨frame, h_a⟩
    -- no other action is counted
    have h_same : w'.2 = w.2 := by
      rw [h_o]
      cases a <;> first | rfl | exact absurd rfl (h_ne _)
    exact ⟨h.beside (duplexStep_besideReader h_t h_ne) h_same,
      fun h_in => absurd h_in (bargeIn_notMem_of_beside h_t h_ne)⟩

end LoudCounter

/-- **Every barge-in has heard real speech**: in a run where, while a barge-in is pending over
a response that is not done, every frame without an event is loud or empty, a barge-in is
reported only after enough loud audio within the present speech. -/
theorem bargeIn_of_loud (cfg : VADConfig) (v : EnergyVAD) (greets : Bool)
    (as : List (DuplexAction ε))
    (h : EachStep (duplexStep (EnergyVAD.adapter cfg) cfg) (CountsLoud cfg)
      (duplexInit (EnergyVAD.adapter cfg) v greets) as) :
    EachStep (observed (duplexStep (EnergyVAD.adapter cfg) cfg) (heardLoud cfg))
      (BargeInHeard cfg) (duplexInit (EnergyVAD.adapter cfg) v greets, none) as := by
  have h_init : LoudCounter (ε := ε) cfg (duplexInit (EnergyVAD.adapter cfg) v greets, none) :=
    ⟨by simp [duplexInit, EnergyVAD.adapter], fun h_pending => by simp [duplexInit] at h_pending⟩
  exact EachStep.imp_of_invariant (I := LoudCounter cfg)
    (fun w a w' h_w h_loud h_step => (h_w.step h_loud h_step).1)
    (fun w a h_w h_loud w' h_step => (h_w.step h_loud h_step).2) h_init (eachStep_observed.mpr h)

/-- Turns of two milliseconds at least, and a barge-in of three. -/
def shortClicks : VADConfig :=
  { shortTurns with minSpeechMs := 2 }

/-- An utterance; then, over its response, a click of one millisecond and silence. -/
def clickOverResponse : List (DuplexAction Unit) :=
  [.frame loudFrame, .frame loudFrame, .frame loudFrame, .frame quietFrame, .first 0,
    .frame loudFrame, .frame quietFrame, .frame quietFrame]

/-- **A click and silence interrupt a response**: the barge-in has heard one millisecond of loud
audio, within no speech any more. -/
theorem bargeIn_after_click :
    ¬EachStep (observed (duplexStep (EnergyVAD.adapter shortClicks) shortClicks)
        (heardLoud shortClicks)) (BargeInHeard shortClicks)
      (duplexInit (EnergyVAD.adapter shortClicks) {} false, none) clickOverResponse := by
  decide +kernel

/-- An utterance, and another one over its response that is loud throughout. -/
def speechOverResponse : List (DuplexAction Unit) :=
  [.frame loudFrame, .frame loudFrame, .frame loudFrame, .frame quietFrame, .first 0,
    .frame loudFrame, .frame loudFrame, .frame loudFrame]

/-- Its third frame interrupts the response, by right. -/
theorem bargeIn_of_loud_speech :
    EachStep (observed (duplexStep (EnergyVAD.adapter shortClicks) shortClicks)
        (heardLoud shortClicks)) (BargeInHeard shortClicks)
      (duplexInit (EnergyVAD.adapter shortClicks) {} false, none) speechOverResponse :=
  bargeIn_of_loud shortClicks {} false speechOverResponse (by decide +kernel)

end Nexus.Voice
