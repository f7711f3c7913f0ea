import Mathlib.Data.Rat.Cast.Order
import NexusAgent.Lib.Steps
import NexusAgent.Voice.EnergyVad

/-!
# The full-duplex loop

`_full_duplex` of the cascaded pipeline: a reader feeds the microphone to the VAD and starts a
response task for each utterance, the tasks put their events into one queue, and the output
loop hands them on until the input and the last response are over. `put` never waits, since
the queue is unbounded, so each action below is one stretch of a task between two waits.

The time of a frame is exact here. Sums of times as floats, which may fall short of a bound that
the times themselves reach (six frames of 8 samples at 24 kHz make 1.9999999999999998 ms), are left
out.

* `DuplexState`, `DuplexAction`, `duplexStep`: the reader, the response tasks, the output loop.
* `onFrame`, `onItem`: what the reader does with a frame, and the output loop with an item.
* `FrameStep`, `onFrame_frameStep`: the cases of the reader's step.
* `BesideReader`, `duplexStep_besideReader`: what the steps of the other parties leave alone.
-/

namespace Nexus.Voice

open Lib

/-- How far a response task is. -/
inductive TaskPhase
  | created
  | running
  | finished
  deriving DecidableEq, Repr

/-- A response task: the utterance it answers, none for the greeting. `cancelling` says that
`cancel` was called before it was done; it then emits nothing more. -/
structure ResponseTask where
  utterance : Option Frame
  phase : TaskPhase := .created
  cancelling : Bool := false
  deriving DecidableEq

/-- `rt.done()`. -/
def ResponseTask.done (t : ResponseTask) : Bool :=
  decide (t.phase = .finished)

/-- `rt.cancel()`: nothing on a task that is done. -/
def ResponseTask.cancel (t : ResponseTask) : ResponseTask :=
  if t.done then t else { t with cancelling := true }

/-- The task will still run and produce output. -/
def ResponseTask.InFlight (t : ResponseTask) : Prop :=
  t.phase ≠ .finished ∧ t.cancelling = false

instance (t : ResponseTask) : Decidable t.InFlight :=
  inferInstanceAs (Decidable (_ ∧ _))

/-- What is put into `out_q`: the two sentinels, the events of the reader, those of a task. -/
inductive QueueItem (ε : Type)
  | done
  | respDone
  | speechStart
  | bargeIn
  | reply (event : ε)
  deriving DecidableEq

/-- The generator: at its first `yield`, in the output loop, or over. -/
inductive LoopPhase
  | announcing
  | looping
  | closed
  deriving DecidableEq, Repr

/-- The variables of `_full_duplex`, the tasks it made, in order, and the queue. -/
structure DuplexState (σ ε : Type) where
  vad : σ
  tasks : List ResponseTask := []
  /-- `state["response_task"]`. -/
  responseTask : Option ℕ := none
  inputDone : Bool := false
  bargePending : Bool := false
  bargeMs : ℚ := 0
  queue : List (QueueItem ε) := []
  /-- The reader has put `DONE`, or was cancelled. -/
  readerOver : Bool := false
  loop : LoopPhase := .announcing

variable {σ ε : Type}

namespace DuplexState

/-- The task of `state["response_task"]`. -/
def current (s : DuplexState σ ε) : Option ResponseTask :=
  s.responseTask.bind fun i => s.tasks[i]?

/-- `rt is not None and not rt.done()`. -/
def responding (s : DuplexState σ ε) : Bool :=
  s.current.any fun t => !t.done

/-- `rt.cancel()` on the current task, if there is one. -/
def cancelCurrent (s : DuplexState σ ε) : DuplexState σ ε :=
  match s.responseTask with
  | none => s
  | some i => { s with tasks := s.tasks.modify i ResponseTask.cancel }

/-- `out_q.put`. -/
def put (s : DuplexState σ ε) (item : QueueItem ε) : DuplexState σ ε :=
  { s with queue := s.queue ++ [item] }

end DuplexState

/-- `barge_need_ms`. -/
def bargeNeedMs (cfg : VADConfig) : ℤ :=
  max 0 cfg.bargeInMinSpeechMs

/-- `sample_rate`: 16000 for a rate of 0, and at least 1. -/
def sampleRate (cfg : VADConfig) : ℤ :=
  max 1 (if cfg.sampleRate = 0 then 16000 else cfg.sampleRate)

/-- `_frame_ms`. -/
def frameMs (cfg : VADConfig) (frame : Frame) : ℚ :=
  (frame.length / 2 : ℚ) / sampleRate cfg * 1000

/-- `_maybe_fire_barge_in`. -/
def maybeFireBargeIn (cfg : VADConfig) (s : DuplexState σ ε) : DuplexState σ ε :=
  if ¬s.responding ∨ ¬s.bargePending then s
  else if s.bargeMs < bargeNeedMs cfg then s
  else ({ s with bargePending := false }.put .bargeIn).cancelCurrent

/-- One turn of the loop of `reader`. -/
def onFrame (vad : VADAdapter σ) (cfg : VADConfig) (s : DuplexState σ ε) (frame : Frame) :
    DuplexState σ ε :=
  let s' := { s with vad := (vad.processFrame s.vad frame).2 }
  match (vad.processFrame s.vad frame).1 with
  | some .speechStart =>
    if s.responding then
      maybeFireBargeIn cfg
        { s'.put .speechStart with bargePending := true, bargeMs := frameMs cfg frame }
    else
      { s'.put .speechStart with bargePending := false, bargeMs := 0 }
  | some .speechEnd =>
    let (utterance, vad') := vad.takeUtterance s'.vad
    { s' with vad := vad', bargePending := false, bargeMs := 0
              tasks := s.tasks ++ [{ utterance := some utterance }]
              responseTask := some s.tasks.length }
  | none =>
    if s.bargePending && s.responding then
      -- "Still in speech (VAD returns None between start and end)."
      maybeFireBargeIn cfg { s' with bargeMs := s.bargeMs + frameMs cfg frame }
    else if ¬s.responding then { s' with bargePending := false }
    else s'

/-- The output loop takes `item`: it stops, or hands the item on. -/
def onItem (s : DuplexState σ ε) (item : QueueItem ε) : DuplexState σ ε :=
  match item with
  | .done =>
    if ¬s.responding then { s with inputDone := true, loop := .closed }
    else { s with inputDone := true }
  | .respDone =>
    if s.inputDone ∧ ¬s.responding then { s with loop := .closed } else s
  | _ => s

/-- The actions of the parties. -/
inductive DuplexAction (ε : Type)
  /-- The reader gets a frame. -/
  | frame (frame : Frame)
  /-- The audio input is exhausted: the reader puts `DONE`. -/
  | inputEnd
  /-- The first step of a task; `CancelledError` is thrown in before the body of one that was
  cancelled by then, whose `finally` is not reached. -/
  | first (i : ℕ)
  /-- A running task puts an event. -/
  | emit (i : ℕ) (event : ε)
  /-- A running task ends, whether normally, by an error or as cancelled: it puts
  `RESP_DONE` in its `finally` and is done without waiting again. -/
  | finish (i : ℕ)
  /-- The consumer takes `session_started` and asks for more. -/
  | enter
  /-- The output loop takes an item. -/
  | get
  /-- The consumer closes the generator. -/
  | close
  deriving DecidableEq

/-- A task in its next phase. -/
def DuplexState.toPhase (s : DuplexState σ ε) (i : ℕ) (phase : TaskPhase) : DuplexState σ ε :=
  { s with tasks := s.tasks.modify i fun t => { t with phase := phase } }

/-- One action. -/
def duplexStep (vad : VADAdapter σ) (cfg : VADConfig) (s : DuplexState σ ε) :
    DuplexAction ε → Option (DuplexState σ ε)
  | .frame frame => if s.readerOver then none else some (onFrame vad cfg s frame)
  | .inputEnd => if s.readerOver then none else some ({ s with readerOver := true }.put .done)
  | .first i =>
    match s.tasks[i]? with
    | some t =>
      if t.phase = .created then
        some (s.toPhase i (if t.cancelling then .finished else .running))
      else none
    | none => none
  | .emit i event =>
    match s.tasks[i]? with
    | some t =>
      if t.phase = .running ∧ t.cancelling = false then some (s.put (.reply event)) else none
    | none => none
  | .finish i =>
    match s.tasks[i]? with
    | some t =>
      if t.phase = .running then some ((s.toPhase i .finished).put .respDone) else none
    | none => none
  | .enter => if s.loop = .announcing then some { s with loop := .looping } else none
  | .get =>
    match s.loop, s.queue with
    | .looping, item :: queue => some (onItem { s with queue := queue } item)
    | _, _ => none
  | .close =>
    match s.loop with
    -- outside of the `try`: neither the reader nor the response is cancelled
    | .announcing => some { s with loop := .closed }
    | .looping => some ({ s with loop := .closed, readerOver := true }.cancelCurrent)
    | .closed => none

/-- The state when the reader starts; `greets` says that `initial_response` has a mode. -/
def duplexInit (vad : VADAdapter σ) (v : σ) (greets : Bool) : DuplexState σ ε where
  vad := vad.reset v
  tasks := if greets then [{ utterance := none }] else []
  responseTask := if greets then some 0 else none

/-! ### The current response -/

variable {vad : VADAdapter σ} {cfg : VADConfig} {s t : DuplexState σ ε} {frame : Frame}

theorem ResponseTask.done_eq_false {t : ResponseTask} : t.done = false ↔ t.phase ≠ .finished := by
  rw [ResponseTask.done, decide_eq_false_iff_not]

theorem ResponseTask.inFlight_iff {t : ResponseTask} :
    t.InFlight ↔ t.done = false ∧ t.cancelling = false := by
  rw [ResponseTask.InFlight, ResponseTask.done_eq_false]

@[simp] theorem ResponseTask.cancel_done (t : ResponseTask) : t.cancel.done = t.done := by
  unfold ResponseTask.cancel
  split <;> rfl

@[simp] theorem ResponseTask.cancel_phase (t : ResponseTask) : t.cancel.phase = t.phase := by
  unfold ResponseTask.cancel
  split <;> rfl

theorem ResponseTask.cancel_cancelling {t : ResponseTask} (h : t.done = false) :
    t.cancel.cancelling = true := by
  rw [ResponseTask.cancel, if_neg (by simp [h])]

/-- A task that is being cancelled stays so. -/
theorem ResponseTask.cancelling_of_cancel {t : ResponseTask} (h : t.cancelling = true) :
    t.cancel.cancelling = true := by
  unfold ResponseTask.cancel
  split
  · exact h
  · rfl

namespace DuplexState

theorem current_eq_some {c : ResponseTask} :
    s.current = some c ↔ ∃ i, s.responseTask = some i ∧ s.tasks[i]? = some c := by
  rw [current, Option.bind_eq_some_iff]

theorem responding_eq_true :
    s.responding = true ↔ ∃ c, s.current = some c ∧ c.done = false := by
  rw [responding, Option.any_eq_true]
  simp

@[simp] theorem put_tasks (item : QueueItem ε) : (s.put item).tasks = s.tasks := rfl
@[simp] theorem put_responseTask (item : QueueItem ε) :
    (s.put item).responseTask = s.responseTask := rfl
@[simp] theorem put_current (item : QueueItem ε) : (s.put item).current = s.current := rfl
@[simp] theorem put_responding (item : QueueItem ε) : (s.put item).responding = s.responding := rfl
@[simp] theorem put_queue (item : QueueItem ε) : (s.put item).queue = s.queue ++ [item] := rfl
@[simp] theorem put_vad (item : QueueItem ε) : (s.put item).vad = s.vad := rfl

@[simp] theorem cancelCurrent_responseTask : s.cancelCurrent.responseTask = s.responseTask := by
  unfold cancelCurrent
  split <;> simp_all

@[simp] theorem cancelCurrent_vad : s.cancelCurrent.vad = s.vad := by
  unfold cancelCurrent
  split <;> rfl

@[simp] theorem cancelCurrent_queue : s.cancelCurrent.queue = s.queue := by
  unfold cancelCurrent
  split <;> rfl

@[simp] theorem cancelCurrent_bargePending :
    s.cancelCurrent.bargePending = s.bargePending := by
  unfold cancelCurrent
  split <;> rfl

@[simp] theorem cancelCurrent_bargeMs : s.cancelCurrent.bargeMs = s.bargeMs := by
  unfold cancelCurrent
  split <;> rfl

@[simp] theorem cancelCurrent_readerOver : s.cancelCurrent.readerOver = s.readerOver := by
  unfold cancelCurrent
  split <;> rfl

@[simp] theorem cancelCurrent_inputDone : s.cancelCurrent.inputDone = s.inputDone := by
  unfold cancelCurrent
  split <;> rfl

@[simp] theorem cancelCurrent_loop : s.cancelCurrent.loop = s.loop := by
  unfold cancelCurrent
  split <;> rfl

/-- Cancelling reaches the current task and no other. -/
theorem cancelCurrent_getElem? (j : ℕ) :
    s.cancelCurrent.tasks[j]? =
      s.tasks[j]?.map fun c => if s.responseTask = some j then c.cancel else c := by
  unfold cancelCurrent
  split
  · simp_all
  · simp_all [List.getElem?_modify]

theorem cancelCurrent_tasks_length : s.cancelCurrent.tasks.length = s.tasks.length := by
  unfold cancelCurrent
  split <;> simp

/-- Cancelling marks the current response. -/
theorem cancelCurrent_current : s.cancelCurrent.current = s.current.map ResponseTask.cancel := by
  rw [current, current, cancelCurrent_responseTask]
  cases h : s.responseTask with
  | none => rfl
  | some i => simp [cancelCurrent_getElem?, h]

end DuplexState

/-! ### Barge-in -/

/-- The state after a barge-in. -/
def bargedIn (s : DuplexState σ ε) : DuplexState σ ε :=
  ({ s with bargePending := false }.put .bargeIn).cancelCurrent

theorem maybeFireBargeIn_of_lt (h : s.bargeMs < bargeNeedMs cfg) : maybeFireBargeIn cfg s = s := by
  rw [maybeFireBargeIn, if_pos h, ite_self]

theorem maybeFireBargeIn_of_le (h_resp : s.responding = true) (h_pending : s.bargePending = true)
    (h : bargeNeedMs cfg ≤ s.bargeMs) : maybeFireBargeIn cfg s = bargedIn s := by
  unfold maybeFireBargeIn bargedIn
  rw [if_neg (by simp [h_resp, h_pending]), if_neg (by exact_mod_cast h.not_gt)]

/-- What a frame brings the barge-in counter to: it starts one, or is added to one. -/
inductive Counted (vad : VADAdapter σ) (cfg : VADConfig) (s : DuplexState σ ε) (frame : Frame) :
    ℚ → Prop
  | start (h : (vad.processFrame s.vad frame).1 = some .speechStart) :
      Counted vad cfg s frame (frameMs cfg frame)
  | more (h : (vad.processFrame s.vad frame).1 = none) (h_pending : s.bargePending = true) :
      Counted vad cfg s frame (s.bargeMs + frameMs cfg frame)

/-- What the reader can do with a frame: `t` is the state after it and `fresh` what it put. -/
inductive FrameStep (vad : VADAdapter σ) (cfg : VADConfig) (s : DuplexState σ ε) (frame : Frame)
    (t : DuplexState σ ε) (fresh : List (QueueItem ε)) : Prop
  | ended (h : (vad.processFrame s.vad frame).1 = some .speechEnd) (utterance : Frame)
      (h_tasks : t.tasks = s.tasks ++ [{ utterance := some utterance }])
      (h_task : t.responseTask = some s.tasks.length) (h_pending : t.bargePending = false)
      (h_vad : t.vad = (vad.takeUtterance (vad.processFrame s.vad frame).2).2)
      (h_fresh : fresh = [])
  | idle (h : (vad.processFrame s.vad frame).1 ≠ some .speechEnd) (h_resp : s.responding = false)
      (h_tasks : t.tasks = s.tasks) (h_task : t.responseTask = s.responseTask)
      (h_pending : t.bargePending = false) (h_vad : t.vad = (vad.processFrame s.vad frame).2)
      (h_fresh : .bargeIn ∉ fresh)
  | unheard (h : (vad.processFrame s.vad frame).1 = none) (h_resp : s.responding = true)
      (h_was : s.bargePending = false) (h_tasks : t.tasks = s.tasks)
      (h_task : t.responseTask = s.responseTask) (h_pending : t.bargePending = false)
      (h_vad : t.vad = (vad.processFrame s.vad frame).2) (h_fresh : fresh = [])
  | counting (ms : ℚ) (h : Counted vad cfg s frame ms) (h_resp : s.responding = true)
      (h_ms : ms < bargeNeedMs cfg) (h_tasks : t.tasks = s.tasks)
      (h_task : t.responseTask = s.responseTask) (h_pending : t.bargePending = true)
      (h_count : t.bargeMs = ms) (h_vad : t.vad = (vad.processFrame s.vad frame).2)
      (h_fresh : .bargeIn ∉ fresh)
  | interrupting (ms : ℚ) (h : Counted vad cfg s frame ms) (h_resp : s.responding = true)
      (h_ms : bargeNeedMs cfg ≤ ms) (h_tasks : t.tasks = s.cancelCurrent.tasks)
      (h_task : t.responseTask = s.responseTask) (h_pending : t.bargePending = false)
      (h_vad : t.vad = (vad.processFrame s.vad frame).2)
      (h_fresh : .bargeIn ∈ fresh)

/-- The reader's check once the counter stands at `ms`; `s₀` is the state before the frame. -/
theorem FrameStep.of_counted {s₀ s : DuplexState σ ε} (fresh : List (QueueItem ε))
    (h : Counted vad cfg s₀ frame s.bargeMs) (h_resp : s₀.responding = true)
    (h_tasks : s.tasks = s₀.tasks) (h_task : s.responseTask = s₀.responseTask)
    (h_pending : s.bargePending = true) (h_vad : s.vad = (vad.processFrame s₀.vad frame).2)
    (h_queue : s.queue = s₀.queue ++ fresh) (h_fresh : .bargeIn ∉ fresh) :
    ∃ fresh', (maybeFireBargeIn cfg s).queue = s₀.queue ++ fresh' ∧
      FrameStep vad cfg s₀ frame (maybeFireBargeIn cfg s) fresh' := by
  -- the current response has not changed
  have h_current : s.current = s₀.current := by rw [DuplexState.current, h_tasks, h_task]; rfl
  have h_resp' : s.responding = true := by rwa [DuplexState.responding, h_current]
  -- not loud for long enough, or the barge-in fires
  rcases lt_or_ge s.bargeMs (bargeNeedMs cfg : ℚ) with h_lt | h_ge
  · rw [maybeFireBargeIn_of_lt h_lt]
    exact ⟨fresh, h_queue, .counting _ h h_resp h_lt h_tasks h_task h_pending rfl h_vad h_fresh⟩
  · rw [maybeFireBargeIn_of_le h_resp' h_pending h_ge]
    refine ⟨fresh ++ [.bargeIn], by simp [bargedIn, h_queue], ?_⟩
    refine .interrupting _ h h_resp h_ge ?_ ?_ ?_ ?_ ?_
    · simp only [bargedIn, DuplexState.cancelCurrent, DuplexState.put, h_task, h_tasks]
      split <;> simp_all
    · simp [bargedIn, h_task]
    · simp [bargedIn, DuplexState.put]
    · simp [bargedIn, h_vad]
    · simp

/-- **The reader's step.** -/
theorem onFrame_frameStep (vad : VADAdapter σ) (cfg : VADConfig) (s : DuplexState σ ε)
    (frame : Frame) :
    ∃ fresh, (onFrame vad cfg s frame).queue = s.queue ++ fresh ∧
      FrameStep vad cfg s frame (onFrame vad cfg s frame) fresh := by
  unfold onFrame
  cases h_ev : (vad.processFrame s.vad frame).1 with
  -- an event of the detector is looked at before the counting
  | some event =>
    cases event with
    | speechEnd =>
      exact ⟨[], by simp, .ended h_ev _ rfl rfl rfl rfl rfl⟩
    | speechStart =>
      cases h_resp : s.responding with
      | true =>
        exact FrameStep.of_counted [.speechStart] (.start h_ev) h_resp rfl rfl rfl rfl rfl
          (by simp)
      | false =>
        exact ⟨[.speechStart], rfl, .idle (by simp [h_ev]) h_resp rfl rfl rfl rfl (by simp)⟩
  | none =>
    cases h_resp : s.responding with
    | true =>
      cases h_pending : s.bargePending with
      | true =>
        exact FrameStep.of_counted [] (.more h_ev h_pending) h_resp rfl rfl rfl rfl
          (by simp) (by simp)
      | false =>
        exact ⟨[], by simp, .unheard h_ev h_resp h_pending rfl rfl rfl rfl rfl⟩
    | false =>
      refine ⟨[], ?_, ?_⟩
      · simp
      · simpa using .idle (by simp [h_ev]) h_resp rfl rfl rfl rfl (by simp)

/-! ### The steps of the other parties -/

/-- From `s` to `t` without a frame: what the reader works with is left alone, no task is
revived, and while the reader goes on none is cancelled. -/
structure BesideReader (s t : DuplexState σ ε) : Prop where
  vad : t.vad = s.vad
  bargePending : t.bargePending = s.bargePending
  bargeMs : t.bargeMs = s.bargeMs
  responseTask : t.responseTask = s.responseTask
  length : t.tasks.length = s.tasks.length
  reader : t.readerOver = false → s.readerOver = false
  task : ∀ (j : ℕ) (c' : ResponseTask), t.tasks[j]? = some c' → ∃ c, s.tasks[j]? = some c ∧
    (c'.done = false → c.done = false) ∧ (c.cancelling = true → c'.cancelling = true) ∧
      (t.readerOver = false → c'.cancelling = c.cancelling)

namespace BesideReader

/-- Where the tasks stay as they are, the reader is left alone. -/
theorem of_tasks_eq (h_vad : t.vad = s.vad) (h_pending : t.bargePending = s.bargePending)
    (h_ms : t.bargeMs = s.bargeMs) (h_resp : t.responseTask = s.responseTask)
    (h_tasks : t.tasks = s.tasks) (h_reader : t.readerOver = false → s.readerOver = false) :
    BesideReader s t where
  vad := h_vad
  bargePending := h_pending
  bargeMs := h_ms
  responseTask := h_resp
  length := by rw [h_tasks]
  reader := h_reader
  task j c h_c := ⟨c, h_tasks ▸ h_c, id, id, fun _ => rfl⟩

/-- A task that goes to a later phase. -/
theorem toPhase {i : ℕ} {c : ResponseTask} {phase : TaskPhase} (h_c : s.tasks[i]? = some c)
    (h_phase : c.phase ≠ .finished) : BesideReader s (s.toPhase i phase) where
  vad := rfl
  bargePending := rfl
  bargeMs := rfl
  responseTask := rfl
  length := List.length_modify ..
  reader := id
  task j c' h_c' := by
    rw [DuplexState.toPhase, List.getElem?_modify] at h_c'
    obtain ⟨b, h_b, rfl⟩ := Option.map_eq_some_iff.mp h_c'
    -- an unfinished task is not done before
    refine ⟨b, h_b, ?_, ?_, ?_⟩
    · intro h_done
      split at h_done
      · next h_ij =>
        obtain rfl : c = b := Option.some.inj (h_c.symm.trans (h_ij ▸ h_b))
        exact ResponseTask.done_eq_false.mpr h_phase
      · exact h_done
    · split <;> exact id
    · intro
      split <;> rfl

/-- Two steps beside the reader, one after the other. -/
theorem trans {u : DuplexState σ ε} (h : BesideReader s t) (h' : BesideReader t u) :
    BesideReader s u where
  vad := h'.vad.trans h.vad
  bargePending := h'.bargePending.trans h.bargePending
  bargeMs := h'.bargeMs.trans h.bargeMs
  responseTask := h'.responseTask.trans h.responseTask
  length := h'.length.trans h.length
  reader h_over := h.reader (h'.reader h_over)
  task j c'' h_c'' := by
    -- the task before the second step, and before the first
    obtain ⟨c', h_c', h_done', h_cancel', h_same'⟩ := h'.task j c'' h_c''
    obtain ⟨c, h_c, h_done, h_cancel, h_same⟩ := h.task j c' h_c'
    exact ⟨c, h_c, h_done ∘ h_done', h_cancel' ∘ h_cancel,
      fun h_over => (h_same' h_over).trans (h_same (h'.reader h_over))⟩

theorem put (s : DuplexState σ ε) (item : QueueItem ε) : BesideReader s (s.put item) :=
  of_tasks_eq rfl rfl rfl rfl rfl id

/-- Stopping the reader and cancelling the response. -/
theorem closed (s : DuplexState σ ε) :
    BesideReader s ({ s with loop := .closed, readerOver := true }.cancelCurrent) where
  vad := by simp
  bargePending := by simp
  bargeMs := by simp
  responseTask := by simp
  length := DuplexState.cancelCurrent_tasks_length
  reader h := by simp at h
  task j c' h_c' := by
    rw [DuplexState.cancelCurrent_getElem?] at h_c'
    obtain ⟨c, h_c, rfl⟩ := Option.map_eq_some_iff.mp h_c'
    -- a task that is done stays done
    refine ⟨c, h_c, ?_, ?_, ?_⟩
    · split
      · exact fun h => by simpa using h
      · exact id
    · split
      · exact ResponseTask.cancelling_of_cancel
      · exact id
    · intro h
      simp at h

/-- Handling an item leaves the reader alone. -/
theorem onItem (s : DuplexState σ ε) (item : QueueItem ε) : BesideReader s (onItem s item) := by
  unfold Voice.onItem
  split
  · split <;> exact of_tasks_eq rfl rfl rfl rfl rfl id
  · split <;> exact of_tasks_eq rfl rfl rfl rfl rfl id
  · exact of_tasks_eq rfl rfl rfl rfl rfl id

/-- A response that still goes on went on before. -/
theorem responding (h : BesideReader s t) (h_resp : t.responding = true) :
    s.responding = true := by
  obtain ⟨c, h_c, h_done⟩ := DuplexState.responding_eq_true.mp h_resp
  obtain ⟨i, h_i, h_c⟩ := DuplexState.current_eq_some.mp h_c
  obtain ⟨c₀, h_c₀, h_done₀, -, -⟩ := h.task i c h_c
  rw [h.responseTask] at h_i
  exact DuplexState.responding_eq_true.mpr
    ⟨c₀, DuplexState.current_eq_some.mpr ⟨i, h_i, h_c₀⟩, h_done₀ h_done⟩

end BesideReader

/-- **Every step without a frame** is one beside the reader. -/
theorem duplexStep_besideReader {a : DuplexAction ε} (h : duplexStep vad cfg s a = some t)
    (h_frame : ∀ frame, a ≠ .frame frame) : BesideReader s t := by
  cases a with
  | frame frame => exact (h_frame frame rfl).elim
  | inputEnd =>
    simp only [duplexStep, Option.ite_none_left_eq_some, Option.some.injEq] at h
    -- the end of the input is put once: it needs a reader that still reads
    obtain ⟨h_over, rfl⟩ := h
    exact .of_tasks_eq rfl rfl rfl rfl rfl fun _ => by simpa using h_over
  | first i =>
    simp only [duplexStep] at h
    split at h
    · next c h_c =>
      obtain ⟨h_phase, h_t⟩ := Option.ite_none_right_eq_some.mp h
      obtain rfl := Option.some.inj h_t
      exact .toPhase h_c (by simp [h_phase])
    · cases h
  | emit i event =>
    simp only [duplexStep] at h
    split at h
    · obtain ⟨-, h_t⟩ := Option.ite_none_right_eq_some.mp h
      obtain rfl := Option.some.inj h_t
      exact .put s _
    · cases h
  -- a response that finishes leaves its task and puts its last event
  | finish i =>
    simp only [duplexStep] at h
    split at h
    · next c h_c =>
      obtain ⟨h_phase, h_t⟩ := Option.ite_none_right_eq_some.mp h
      obtain rfl := Option.some.inj h_t
      exact .trans (.toPhase h_c (by simp [h_phase])) (.put _ _)
    · cases h
  | enter =>
    obtain ⟨-, h_t⟩ := Option.ite_none_right_eq_some.mp h
    obtain rfl := Option.some.inj h_t
    exact .of_tasks_eq rfl rfl rfl rfl rfl id
  | get =>
    simp only [duplexStep] at h
    split at h
    · next item queue _ _ =>
      obtain rfl := Option.some.inj h
      exact .trans (t := { s with queue := queue }) (.of_tasks_eq rfl rfl rfl rfl rfl id) (.onItem _ item)
    · cases h
  | close =>
    simp only [duplexStep] at h
    split at h
    · obtain rfl := Option.some.inj h
      exact .of_tasks_eq rfl rfl rfl rfl rfl id
    · obtain rfl := Option.some.inj h
      exact .closed s
    · cases h

/-- Only the reader reports a barge-in. -/
theorem bargeIn_notMem_of_beside {a : DuplexAction ε} (h : duplexStep vad cfg s a = some t)
    (h_frame : ∀ frame, a ≠ .frame frame) : .bargeIn ∉ t.queue.drop s.queue.length := by
  cases a with
  | frame frame => exact (h_frame frame rfl).elim
  | inputEnd =>
    simp only [duplexStep, Option.ite_none_left_eq_some, Option.some.injEq] at h
    simp [← h.2]
  | first i =>
    simp only [duplexStep] at h
    split at h
    · obtain ⟨-, h_t⟩ := Option.ite_none_right_eq_some.mp h
      simp [← Option.some.inj h_t, DuplexState.toPhase]
    · cases h
  | emit i event =>
    simp only [duplexStep] at h
    split at h
    · obtain ⟨-, h_t⟩ := Option.ite_none_right_eq_some.mp h
      simp [← Option.some.inj h_t]
    · cases h
  | finish i =>
    simp only [duplexStep] at h
    split at h
    · obtain ⟨-, h_t⟩ := Option.ite_none_right_eq_some.mp h
      simp [← Option.some.inj h_t, DuplexState.toPhase]
    · cases h
  | enter =>
    obtain ⟨-, h_t⟩ := Option.ite_none_right_eq_some.mp h
    simp [← Option.some.inj h_t]
  | get =>
    simp only [duplexStep] at h
    split at h
    · next item queue _ h_queue =>
      -- taking an item shortens the queue, so there is nothing behind its old length
      have h_same : t.queue = queue := by
        rw [← Option.some.inj h]
        unfold onItem
        split
        · split <;> rfl
        · split <;> rfl
        · rfl
      rw [h_same, h_queue, List.drop_eq_nil_of_le (by simp)]
      exact List.not_mem_nil
    · cases h
  | close =>
    simp only [duplexStep] at h
    split at h
    · simp [← Option.some.inj h]
    · simp [← Option.some.inj h]
    · cases h

end Nexus.Voice
