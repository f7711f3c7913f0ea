import NexusAgent.Lib.Steps
import NexusAgent.Lib.Trace
import NexusAgent.Serve.Replay

/-!
# What a replaying reader receives

A reader of a run receives a prefix of the events after its cursor, in order
(`Reader.Follows`), and it stops at the end of the pass in which it finds the run done. So
it receives all of them exactly when the copy it was working on at the moment of `finish`
was up to date.

* `Channel.sound`: the invariant of a channel, in every interleaving.
* `replay_complete_iff`: a reader that ran to its end received every event, if and only if
  it was up to date when the run finished.
* `replay_incomplete`: a reader loses the last event.
-/

open Lib Lib.Trace

namespace Nexus

variable {π : Type}

/-! ### Runs of one writer -/

/-- The events the writer appended. -/
def written (actions : List (ChannelAction π)) : List (ℕ × π) :=
  actions.filterMap ChannelAction.event?

/-- The actions on the buffer of one run: increasing sequence numbers, and nothing but
readers after `finish`. -/
structure OneRun (actions : List (ChannelAction π)) : Prop where
  increasing : (written actions).Pairwise fun e e' => e.1 < e'.1
  finished : ∀ pre post, actions = pre ++ .finish :: post → ∀ a ∈ post, a.byReader = true

/-- No event after the cursor was dropped from the ring. -/
def SessionBuffer.Retains (b : SessionBuffer π) (events : List (ℕ × π)) (after : ℕ) : Prop :=
  ∀ e ∈ events, after < e.1 → e ∈ b.events

/-- The copy a reader works on, if it is in a pass, is what the buffer holds for it. -/
def Reader.UpToDate (b : SessionBuffer π) (r : Reader π) : Prop :=
  ∀ rest, r.phase = .yielding rest → rest = b.newer r.cursor

/-- The reader received exactly the events after the cursor it came with. -/
def Reader.ReceivedAll (events : List (ℕ × π)) (r : Reader π) : Prop :=
  r.received = events.filter fun e => r.after < e.1

theorem written_append (as bs : List (ChannelAction π)) :
    written (as ++ bs) = written as ++ written bs :=
  List.filterMap_append

/-- Readers write nothing. -/
theorem written_readers {as : List (ChannelAction π)} (h : ∀ a ∈ as, a.byReader = true) :
    written as = [] := by
  unfold written
  rw [List.filterMap_eq_nil_iff]
  intro a ha
  have h_a := h a ha
  cases a with
  | append event => cases h_a
  | finish => rfl
  | attach after => rfl
  | next i => rfl

/-- A beginning of one run is one run. -/
theorem OneRun.prefix {as bs : List (ChannelAction π)} (h : OneRun (as ++ bs)) : OneRun as where
  increasing := by
    have h_all := h.increasing
    rw [written_append] at h_all
    exact (List.pairwise_append.mp h_all).1
  finished pre post h_eq a ha := by
    apply h.finished pre (post ++ bs)
    · rw [h_eq, List.append_assoc, List.cons_append]
    · exact List.mem_append_left _ ha

/-- A run finishes once. -/
theorem OneRun.finish_unique {actions pre post pre' post' : List (ChannelAction π)}
    (h : OneRun actions) (h_eq : actions = pre ++ .finish :: post)
    (h_eq' : actions = pre' ++ .finish :: post') : pre = pre' := by
  -- a second `finish` would be an action after the first one
  have h_twice : ∀ {pre between post : List (ChannelAction π)},
      actions ≠ pre ++ .finish :: (between ++ .finish :: post) := by
    intro pre between post h_two
    have h_last := h.finished pre _ h_two .finish (by simp)
    cases h_last
  rcases append_eq_append_cons (h_eq.symm.trans h_eq') with ⟨between, h_pre, -⟩ | ⟨between, -, h_post⟩
  · rw [h_pre, List.append_assoc, List.cons_append] at h_eq
    exact absurd h_eq h_twice
  · cases between with
    | nil =>
      rw [h_eq, h_post] at h_eq'
      exact List.append_cancel_right h_eq'
    | cons b between =>
      rw [(List.cons.inj h_post).2] at h_eq
      exact absurd h_eq h_twice

/-- A run that finishes, split where it does. -/
theorem OneRun.of_split (pre post : List (ChannelAction π))
    (h_inc : (written (pre ++ .finish :: post)).Pairwise fun e e' => e.1 < e'.1)
    (h_pre : .finish ∉ pre) (h_post : ∀ a ∈ post, a.byReader = true) :
    OneRun (pre ++ .finish :: post) where
  increasing := h_inc
  finished pre' post' h_eq := by
    -- the finish is the one of the split
    rcases append_eq_append_cons h_eq with ⟨between, rfl, -⟩ | ⟨between, -, h_rest⟩
    · simp at h_pre
    · cases between with
      | nil =>
        obtain rfl := (List.cons.inj h_rest).2
        exact h_post
      | cons b between =>
        obtain rfl := (List.cons.inj h_rest).2
        -- any other one would be a reader's action
        have h_finish := h_post .finish (by simp)
        cases h_finish

/-! ### Increasing sequence numbers -/

section Sorted

variable {events : List (ℕ × π)} (h_inc : events.Pairwise fun e e' => e.1 < e'.1)

include h_inc

/-- The events up to a number come before those after it. -/
theorem filter_le_append (c : ℕ) :
    (events.filter fun e => e.1 ≤ c) ++ (events.filter fun e => c < e.1) = events := by
  induction events with
  | nil => rfl
  | cons e events ih =>
    obtain ⟨h_e, h_rest⟩ := List.pairwise_cons.mp h_inc
    by_cases h : e.1 ≤ c
    · rw [List.filter_cons_of_pos (by simpa using h), List.filter_cons_of_neg (by simpa using h),
        List.cons_append, ih h_rest]
    · -- every later event is above the number too
      have h_none : (events.filter fun e => e.1 ≤ c) = [] := by
        rw [List.filter_eq_nil_iff]
        intro e' he'
        have := h_e e' he'
        simp only [decide_eq_true_eq]
        omega
      have h_all : (events.filter fun e => c < e.1) = events := by
        rw [List.filter_eq_self]
        intro e' he'
        have := h_e e' he'
        simp only [decide_eq_true_eq]
        omega
      rw [List.filter_cons_of_neg (by simpa using h), List.filter_cons_of_pos (by simpa using h),
        h_none, h_all]
      rfl

/-- Moving the cursor to the next event. -/
theorem filter_next {c : ℕ} {e : ℕ × π} {rest : List (ℕ × π)}
    (h : (events.filter fun e => c < e.1) = e :: rest) :
    (events.filter fun e' => e'.1 ≤ e.1) = (events.filter fun e => e.1 ≤ c) ++ [e] ∧
      (events.filter fun e' => e.1 < e'.1) = rest := by
  have h_split := filter_le_append h_inc c
  rw [h] at h_split
  have h_c : c < e.1 := by
    have h_mem : e ∈ events.filter fun e => c < e.1 := h ▸ List.mem_cons_self
    simpa using (List.mem_filter.mp h_mem).2
  have h_low : ∀ e' ∈ events.filter (fun e => e.1 ≤ c), e'.1 ≤ c := by
    intro e' he'
    simpa using (List.mem_filter.mp he').2
  -- the numbers increase, so what is left lies behind the next event
  have h_high : ∀ e' ∈ rest, e.1 < e'.1 := by
    rw [← h_split] at h_inc
    exact (List.pairwise_cons.mp (List.pairwise_append.mp h_inc).2.1).1
  generalize (events.filter fun e => e.1 ≤ c) = low at h_split h_low
  -- the events are those up to the cursor, the next one and the rest
  subst h_split
  constructor
  · rw [List.filter_append, List.filter_cons_of_pos (by simp)]
    congr 1
    · rw [List.filter_eq_self]
      intro e' he'
      have := h_low e' he'
      simp only [decide_eq_true_eq]
      omega
    · congr 1
      rw [List.filter_eq_nil_iff]
      intro e' he'
      have := h_high e' he'
      simp only [decide_eq_true_eq]
      omega
  · rw [List.filter_append, List.filter_cons_of_neg (by simp)]
    have h_none : low.filter (fun e' => e.1 < e'.1) = [] := by
      rw [List.filter_eq_nil_iff]
      intro e' he'
      have := h_low e' he'
      simp only [decide_eq_true_eq]
      omega
    rw [h_none, List.nil_append, List.filter_eq_self]
    intro e' he'
    simpa using h_high e' he'

/-- A ring that dropped nothing after the cursor serves what was written after it. -/
theorem newer_of_retains {b : SessionBuffer π} {after cursor : ℕ} (h_suffix : b.events <:+ events)
    (h_kept : b.Retains events after) (h_le : after ≤ cursor) :
    b.newer cursor = events.filter fun e => cursor < e.1 := by
  obtain ⟨dropped, h_eq⟩ := h_suffix
  unfold SessionBuffer.newer
  rw [← h_eq, List.filter_append]
  have h_none : (dropped.filter fun e => cursor < e.1) = [] := by
    rw [List.filter_eq_nil_iff]
    intro e he h_lt
    have h_lt : cursor < e.1 := by simpa using h_lt
    have h_in : e ∈ b.events := h_kept e (h_eq ▸ List.mem_append_left _ he) (by omega)
    -- an event dropped and still there would be written twice
    rw [← h_eq] at h_inc
    exact absurd ((List.pairwise_append.mp h_inc).2.2 e he e h_in) (Nat.lt_irrefl _)
  rw [h_none, List.nil_append]

end Sorted

/-! ### What a reader does when it is resumed -/

/-- The ways a reader goes on. -/
inductive Resumed (b : SessionBuffer π) (r : Reader π) : Reader π → Prop
  | nextEvent {e : ℕ × π} {rest : List (ℕ × π)} (h : r.phase = .yielding (e :: rest)) :
    Resumed b r (r.yieldEvent e rest)
  | passEnded (h : r.phase = .yielding []) (h_done : b.done = true) :
    Resumed b r { r with phase := .ended }
  | newPass {e : ℕ × π} {rest : List (ℕ × π)} (h_new : b.newer r.cursor = e :: rest)
      (h : b.done = true → ∃ woken, r.phase = .waiting woken) : Resumed b r (r.yieldEvent e rest)
  | nothingNew (h_new : b.newer r.cursor = []) (h_done : b.done = true)
      (h : ∃ woken, r.phase = .waiting woken) : Resumed b r { r with phase := .ended }
  | waits (h_done : b.done = false) : Resumed b r { r with phase := .waiting false }

/-- Going on leaves the events and the end mark alone. -/
def SameEvents (b b' : SessionBuffer π) : Prop := b'.events = b.events ∧ b'.done = b.done

/-- A reader that goes on has resumed. -/
theorem Reader.goOn_resumed {b : SessionBuffer π} {r : Reader π}
    (h : b.done = true → ∃ woken, r.phase = .waiting woken) :
    SameEvents b (r.goOn b).1 ∧ Resumed b r (r.goOn b).2 := by
  refine ⟨⟨rfl, rfl⟩, ?_⟩
  unfold goOn
  cases h_new : b.newer r.cursor with
  -- a new pass, or nothing new
  | cons e rest => exact .newPass h_new h
  | nil =>
    -- the run is done, or the reader waits
    by_cases h_done : b.done = true
    · simp only [h_done, if_true]
      exact .nothingNew h_new h_done (h h_done)
    · simp only [h_done, Bool.false_eq_true, if_false]
      exact .waits (by simpa using h_done)

/-- A pass that ends has resumed. -/
theorem Reader.endPass_resumed {b : SessionBuffer π} {r : Reader π}
    (h : b.done = true → Resumed b r { r with phase := .ended }) :
    SameEvents b (r.endPass b).1 ∧ Resumed b r (r.endPass b).2 := by
  unfold endPass
  split_ifs with h_done h_new
  · exact ⟨⟨rfl, rfl⟩, h h_done⟩
  · exact goOn_resumed fun h => absurd h h_done
  · exact ⟨⟨rfl, rfl⟩, .waits (by simpa using h_done)⟩

/-- A step of a reader is a resumption. -/
theorem Reader.resume_resumed {b b' : SessionBuffer π} {r r' : Reader π}
    (h : r.resume b = some (b', r')) : SameEvents b b' ∧ Resumed b r r' := by
  unfold resume at h
  split at h
  · -- the next event of the pass
    next e rest h_phase =>
    obtain ⟨rfl, rfl⟩ := Prod.mk.inj (Option.some.inj h)
    exact ⟨⟨rfl, rfl⟩, .nextEvent h_phase⟩
  · -- the end of the pass
    next h_phase =>
    have h_pass := endPass_resumed (b := b) (.passEnded h_phase)
    rwa [Option.some.inj h] at h_pass
  · -- woken up
    next h_phase =>
    have h_pass := goOn_resumed (b := b) (r := r) fun _ => ⟨true, h_phase⟩
    rwa [Option.some.inj h] at h_pass
  · cases h
  · cases h

/-- A reader that starts does what one that comes back from its wait does. -/
theorem Reader.start_resumed (b : SessionBuffer π) (after : ℕ) :
    SameEvents b (start b after).1 ∧
      Resumed b { after := after, cursor := after, phase := .waiting true } (start b after).2 := by
  unfold start
  cases h_new : b.newer after with
  -- there are events to read, or none yet
  | cons e rest => exact ⟨⟨rfl, rfl⟩, .newPass h_new fun _ => ⟨true, rfl⟩⟩
  | nil =>
    show SameEvents b (endPass b _).1 ∧ Resumed b _ (endPass b _).2
    unfold endPass
    -- the run is done, or the reader waits
    split_ifs with h_done h_flag
    · exact ⟨⟨rfl, rfl⟩, .nothingNew h_new h_done ⟨true, rfl⟩⟩
    · refine ⟨⟨rfl, rfl⟩, ?_⟩
      unfold goOn
      simp only [h_new, h_done, Bool.false_eq_true, if_false]
      exact .waits (by simpa using h_done)
    · exact ⟨⟨rfl, rfl⟩, .waits (by simpa using h_done)⟩

/-! ### The invariant of a reader -/

/-- A reader has received the events between the cursor it came with and its own, and works
on a prefix of those that follow. -/
structure Reader.Follows (events : List (ℕ × π)) (r : Reader π) : Prop where
  cursor : r.cursor = r.after ∨ r.after < r.cursor ∧ ∃ e ∈ events, e.1 = r.cursor
  received : r.received = (events.filter fun e => e.1 ≤ r.cursor).filter fun e => r.after < e.1
  ahead : ∀ rest, r.phase = .yielding rest → rest <+: events.filter fun e => r.cursor < e.1

theorem Reader.Follows.le {events : List (ℕ × π)} {r : Reader π} (h : r.Follows events) :
    r.after ≤ r.cursor := by
  rcases h.cursor with h_eq | ⟨h_lt, -⟩ <;> omega

/-- A reader that just came has received nothing. -/
theorem Reader.follows_new (events : List (ℕ × π)) (after : ℕ) :
    Reader.Follows events { after := after, cursor := after, phase := .waiting true } where
  cursor := .inl rfl
  received := by
    symm
    show List.filter _ (List.filter _ events) = []
    rw [List.filter_filter, List.filter_eq_nil_iff]
    intro e _
    simp
  ahead rest h := by cases h

theorem Reader.wake_phase {r : Reader π} {rest : List (ℕ × π)} :
    r.wake.phase = .yielding rest ↔ r.phase = .yielding rest := by
  unfold wake
  cases h : r.phase <;> simp [h]

theorem Reader.wake_eq (r : Reader π) :
    r.wake.after = r.after ∧ r.wake.cursor = r.cursor ∧ r.wake.received = r.received := by
  unfold wake
  cases r.phase <;> exact ⟨rfl, rfl, rfl⟩

/-- Waking a reader up changes nothing that it received. -/
theorem Reader.Follows.wake {events : List (ℕ × π)} {r : Reader π} (h : r.Follows events) :
    r.wake.Follows events := by
  obtain ⟨h_after, h_cursor, h_received⟩ := r.wake_eq
  refine ⟨?_, ?_, fun rest h_rest => ?_⟩
  · rw [h_after, h_cursor]
    exact h.cursor
  · rw [h_after, h_cursor, h_received]
    exact h.received
  · rw [h_cursor]
    exact h.ahead rest (wake_phase.mp h_rest)

/-- An event written after all others is ahead of every reader. -/
theorem Reader.Follows.append {events : List (ℕ × π)} {r : Reader π} (h : r.Follows events)
    {event : ℕ × π} (h_last : ∀ e ∈ events, e.1 < event.1) : r.Follows (events ++ [event]) where
  cursor := by
    rcases h.cursor with h_eq | ⟨h_lt, e, he, h_cursor⟩
    · exact .inl h_eq
    · exact .inr ⟨h_lt, e, List.mem_append_left _ he, h_cursor⟩
  received := by
    -- the event is after the cursor, or not one the reader asked for
    have h_none : ([event].filter fun e => e.1 ≤ r.cursor).filter (fun e => r.after < e.1) = [] := by
      rw [List.filter_filter, List.filter_eq_nil_iff]
      intro e he h_both
      obtain rfl := List.mem_singleton.mp he
      rw [Bool.and_eq_true, decide_eq_true_eq, decide_eq_true_eq] at h_both
      rcases h.cursor with h_eq | ⟨-, e', he', h_cursor⟩
      · omega
      · have := h_last e' he'
        omega
    rw [List.filter_append, List.filter_append, h_none, List.append_nil]
    exact h.received
  ahead rest h_rest := by
    rw [List.filter_append]
    exact (h.ahead rest h_rest).trans (List.prefix_append _ _)

section Steps

variable {events : List (ℕ × π)} (h_inc : events.Pairwise fun e e' => e.1 < e'.1)
  {b : SessionBuffer π} {r r' : Reader π}

include h_inc

/-- Yielding the next event. -/
theorem Reader.Follows.yieldEvent (h : r.Follows events) {e : ℕ × π} {rest : List (ℕ × π)}
    (later : List (ℕ × π))
    (h_next : (events.filter fun e => r.cursor < e.1) = e :: (rest ++ later)) :
    (r.yieldEvent e rest).Follows events := by
  -- the event is the first of those ahead
  obtain ⟨h_low, h_high⟩ := filter_next h_inc h_next
  have h_e : e ∈ events.filter fun e => r.cursor < e.1 := h_next ▸ List.mem_cons_self
  obtain ⟨h_mem, h_lt⟩ := List.mem_filter.mp h_e
  have h_lt : r.cursor < e.1 := by simpa using h_lt
  have h_le := h.le
  refine ⟨.inr ⟨?_, e, h_mem, rfl⟩, ?_, fun rest' h_rest => ?_⟩
  · show r.after < e.1
    omega
  · show r.received ++ [e] = (events.filter fun e' => e'.1 ≤ e.1).filter fun e' => r.after < e'.1
    -- what was received, and this event
    rw [h_low, List.filter_append, ← h.received]
    congr 1
    rw [List.filter_cons_of_pos (by simp; omega)]
    rfl
  · obtain rfl : rest = rest' := ReaderPhase.yielding.inj h_rest
    show rest <+: events.filter fun e' => e.1 < e'.1
    rw [h_high]
    exact List.prefix_append _ _

/-- A reader that is resumed still follows. -/
theorem Reader.Follows.resumed (h : r.Follows events)
    (h_new : b.newer r.cursor = events.filter fun e => r.cursor < e.1) (h_step : Resumed b r r') :
    r'.Follows events := by
  cases h_step with
  | nextEvent h_phase =>
    obtain ⟨later, h_eq⟩ := h.ahead _ h_phase
    exact h.yieldEvent h_inc later h_eq.symm
  | passEnded => exact ⟨h.cursor, h.received, fun _ h => by cases h⟩
  -- a new pass reads what is in the buffer
  | @newPass e rest h_pass =>
    refine h.yieldEvent h_inc [] ?_
    rw [List.append_nil, ← h_new, h_pass]
  | nothingNew => exact ⟨h.cursor, h.received, fun _ h => by cases h⟩
  | waits => exact ⟨h.cursor, h.received, fun _ h => by cases h⟩

/-- Once the run is done: the reader will have received everything when it ends. -/
def Reader.Complete (events : List (ℕ × π)) (r : Reader π) : Prop :=
  match r.phase with
  | .yielding rest => rest = events.filter fun e => r.cursor < e.1
  | .waiting _ => True
  | .ended => (events.filter fun e => r.cursor < e.1) = []

omit h_inc in
theorem Reader.complete_wake : r.wake.Complete events ↔ r.Complete events := by
  unfold wake Complete
  cases h : r.phase <;> simp [h]

/-- After the end of the run, a reader that is resumed is complete if and only if it was. -/
theorem Reader.complete_resumed (h : r.Follows events) (h_done : b.done = true)
    (h_new : b.newer r.cursor = events.filter fun e => r.cursor < e.1) (h_step : Resumed b r r') :
    r'.Complete events ↔ r.Complete events := by
  cases h_step with
  | @nextEvent e rest h_phase =>
    -- the pass goes on: both readers have the same events still to come
    obtain ⟨later, h_eq⟩ := h.ahead _ h_phase
    have h_high := (filter_next h_inc h_eq.symm).2
    have h_left : (r.yieldEvent e rest).Complete events ↔ rest = rest ++ later := by
      show rest = _ ↔ _
      rw [show (events.filter fun e' => (r.yieldEvent e rest).cursor < e'.1) = rest ++ later from h_high]
    have h_right : r.Complete events ↔ e :: rest = e :: rest ++ later := by
      unfold Complete
      rw [h_phase, ← h_eq]
    rw [h_left, h_right, List.cons_append, List.cons.injEq]
    exact (and_iff_right rfl).symm
  | passEnded h_phase =>
    unfold Complete
    rw [h_phase]
    exact eq_comm
  | @newPass e rest h_pass h_waiting =>
    obtain ⟨woken, h_phase⟩ := h_waiting h_done
    -- a new pass after the end takes everything that is left
    have h_high := (filter_next h_inc (h_new.symm.trans h_pass)).2
    have h_left : (r.yieldEvent e rest).Complete events := h_high.symm
    have h_right : r.Complete events := by
      unfold Complete
      rw [h_phase]
      trivial
    exact ⟨fun _ => h_right, fun _ => h_left⟩
  | nothingNew h_none _ h_waiting =>
    obtain ⟨woken, h_phase⟩ := h_waiting
    have h_left : ({ r with phase := .ended } : Reader π).Complete events := h_new.symm.trans h_none
    have h_right : r.Complete events := by
      unfold Complete
      rw [h_phase]
      trivial
    exact ⟨fun _ => h_right, fun _ => h_left⟩
  | waits h_open => exact absurd (h_done.symm.trans h_open) (by simp)

/-- A reader at its end is complete exactly when it received everything. -/
theorem Reader.receivedAll_iff (h : r.Follows events) (h_ended : r.phase = .ended) :
    r.ReceivedAll events ↔ r.Complete events := by
  -- the events after the start are those received and those behind the cursor
  have h_split : (events.filter fun e => r.after < e.1) =
      r.received ++ events.filter fun e => r.cursor < e.1 := by
    calc (events.filter fun e => r.after < e.1)
        = ((events.filter fun e => e.1 ≤ r.cursor) ++ events.filter fun e => r.cursor < e.1).filter
            fun e => r.after < e.1 := by rw [filter_le_append h_inc]
      _ = r.received ++ (events.filter fun e => r.cursor < e.1).filter fun e => r.after < e.1 := by
          rw [List.filter_append, h.received]
      _ = r.received ++ events.filter fun e => r.cursor < e.1 := by
          congr 1
          rw [List.filter_eq_self]
          intro e he
          have h_lt : r.cursor < e.1 := by simpa using (List.mem_filter.mp he).2
          have := h.le
          simp only [decide_eq_true_eq]
          omega
  unfold ReceivedAll Complete
  rw [h_ended, h_split]
  constructor
  · intro h_eq
    simpa using h_eq
  · intro h_none
    show r.received = r.received ++ events.filter fun e => r.cursor < e.1
    rw [h_none, List.append_nil]

end Steps

/-! ### The invariant of a channel -/

/-- What holds of a channel after the actions of one run. -/
structure Channel.Sound (actions : List (ChannelAction π)) (c : Channel π) : Prop where
  suffix : c.buffer.events <:+ written actions
  done : c.buffer.done = true ↔ .finish ∈ actions
  ended : ∀ r ∈ c.readers, r.phase = .ended → c.buffer.done = true
  follows : ∀ r ∈ c.readers, c.buffer.Retains (written actions) r.after → r.Follows (written actions)

/-- The readers after a reader's action: those there were, and one that was resumed, from
among them or newly come. -/
theorem Channel.readers_of_step {maxEvents : ℕ} {c c' : Channel π} {a : ChannelAction π}
    (h_reader : a.byReader = true) (h : c.step maxEvents a = some c') :
    SameEvents c.buffer c'.buffer ∧ ∃ j r₀ r', Resumed c.buffer r₀ r' ∧
      ((c.readers[j]? = some r₀ ∧ c'.readers = c.readers.set j r') ∨
        (r₀ = { after := r₀.after, cursor := r₀.after, phase := .waiting true } ∧
          c'.readers = c.readers ++ [r'])) := by
  cases a with
  | append event => cases h_reader
  | finish => cases h_reader
  -- an attached reader, or one that goes on
  | attach after =>
    obtain ⟨h_same, h_resumed⟩ := Reader.start_resumed c.buffer after
    obtain rfl := Option.some.inj h
    exact ⟨h_same, 0, _, _, h_resumed, .inr ⟨rfl, rfl⟩⟩
  | next i =>
    obtain ⟨⟨b', r'⟩, h_bind, rfl⟩ := Option.map_eq_some_iff.mp h
    obtain ⟨r₀, h_r₀, h_resume⟩ := Option.bind_eq_some_iff.mp h_bind
    obtain ⟨h_same, h_resumed⟩ := Reader.resume_resumed h_resume
    exact ⟨h_same, i, r₀, r', h_resumed, .inl ⟨h_r₀, rfl⟩⟩

/-- A reader can only end when the run is done. -/
theorem Resumed.done_of_ended {b : SessionBuffer π} {r r' : Reader π} (h : Resumed b r r')
    (h_ended : r'.phase = .ended) : b.done = true := by
  cases h with
  | nextEvent => cases h_ended
  | passEnded _ h_done => exact h_done
  | newPass => cases h_ended
  | nothingNew _ h_done => exact h_done
  | waits => cases h_ended

theorem Resumed.after_eq {b : SessionBuffer π} {r r' : Reader π} (h : Resumed b r r') :
    r'.after = r.after := by
  cases h <;> rfl

theorem SessionBuffer.Retains.congr {b b' : SessionBuffer π} {events : List (ℕ × π)} {after : ℕ}
    (h : b'.events = b.events) : b'.Retains events after ↔ b.Retains events after := by
  unfold Retains
  rw [h]

/-- A reader's action keeps the channel sound. -/
theorem Channel.Sound.byReader {maxEvents : ℕ} {actions : List (ChannelAction π)} {c c' : Channel π}
    {a : ChannelAction π} (h : c.Sound actions) (h_one : OneRun actions)
    (h_reader : a.byReader = true) (h_step : c.step maxEvents a = some c') :
    c'.Sound (actions ++ [a]) := by
  obtain ⟨⟨h_events, h_done⟩, j, r₀, r', h_resumed, h_readers⟩ := readers_of_step h_reader h_step
  -- a reader writes nothing
  have h_written : written (actions ++ [a]) = written actions := by
    rw [written_append, written_readers (List.forall_mem_singleton.mpr h_reader), List.append_nil]
  -- the readers are those from before and the one that moved
  have h_mem : ∀ r ∈ c'.readers, r ∈ c.readers ∨ r = r' := by
    intro r hr
    rcases h_readers with ⟨-, h_eq⟩ | ⟨-, h_eq⟩ <;> rw [h_eq] at hr
    · exact List.mem_or_eq_of_mem_set hr
    · rcases List.mem_append.mp hr with hr | hr
      · exact .inl hr
      · exact .inr (List.mem_singleton.mp hr)
  refine ⟨?_, ?_, fun r hr h_ended => ?_, fun r hr h_kept => ?_⟩
  · rw [h_events, h_written]
    exact h.suffix
  · rw [h_done, h.done, List.mem_append, List.mem_singleton]
    constructor
    · exact .inl
    · rintro (h_in | rfl)
      · exact h_in
      · cases h_reader
  · rw [h_done]
    rcases h_mem r hr with h_old | rfl
    · exact h.ended r h_old h_ended
    · exact h_resumed.done_of_ended h_ended
  · rw [h_written] at h_kept ⊢
    rw [SessionBuffer.Retains.congr h_events] at h_kept
    rcases h_mem r hr with h_old | rfl
    · exact h.follows r h_old h_kept
    · rw [h_resumed.after_eq] at h_kept
      -- before it moved it followed what was written, or had only just attached
      have h_r₀ : r₀.Follows (written actions) := by
        rcases h_readers with ⟨h_get, -⟩ | ⟨h_new, -⟩
        · exact h.follows r₀ (List.mem_of_getElem? h_get) h_kept
        · rw [h_new]
          exact Reader.follows_new _ _
      exact h_r₀.resumed h_one.increasing
        (newer_of_retains h_one.increasing h.suffix h_kept h_r₀.le) h_resumed

/-- Nothing is written once the run is done. -/
theorem Channel.Sound.open_of_writer {actions : List (ChannelAction π)} {c : Channel π}
    {a : ChannelAction π} (h : c.Sound actions) (h_one : OneRun (actions ++ [a]))
    (h_writer : a.byReader = false) : .finish ∉ actions ∧ ∀ r ∈ c.readers, r.phase ≠ .ended := by
  have h_open : .finish ∉ actions := by
    intro h_in
    obtain ⟨pre, post, h_eq⟩ := List.append_of_mem h_in
    have h_last := h_one.finished pre (post ++ [a]) (by rw [h_eq]; simp) a (by simp)
    exact absurd (h_last.symm.trans h_writer) (by simp)
  exact ⟨h_open, fun r hr h_ended => h_open (h.done.mp (h.ended r hr h_ended))⟩

theorem Reader.wake_ended {r : Reader π} : r.wake.phase = .ended ↔ r.phase = .ended := by
  unfold wake
  cases h : r.phase <;> simp [h]

/-- **One action keeps a channel sound.** -/
theorem Channel.Sound.step {maxEvents : ℕ} {actions : List (ChannelAction π)} {c c' : Channel π}
    {a : ChannelAction π} (h : c.Sound actions) (h_one : OneRun (actions ++ [a]))
    (h_step : c.step maxEvents a = some c') : c'.Sound (actions ++ [a]) := by
  cases a with
  | attach after => exact h.byReader h_one.prefix rfl h_step
  | next i => exact h.byReader h_one.prefix rfl h_step
  | finish =>
    obtain ⟨-, h_none⟩ := h.open_of_writer h_one rfl
    obtain rfl := Option.some.inj h_step
    have h_written : written (actions ++ [.finish]) = written actions := by
      rw [written_append]
      exact List.append_nil _
    refine ⟨h_written ▸ h.suffix, ?_, fun r hr h_ended => ?_, fun r hr h_kept => ?_⟩
    · show true = true ↔ _
      simp
    · obtain ⟨r₀, h_r₀, rfl⟩ := List.mem_map.mp hr
      exact absurd (Reader.wake_ended.mp h_ended) (h_none r₀ h_r₀)
    · obtain ⟨r₀, h_r₀, rfl⟩ := List.mem_map.mp hr
      rw [h_written] at h_kept ⊢
      rw [r₀.wake_eq.1] at h_kept
      exact (h.follows r₀ h_r₀ h_kept).wake
  | append event =>
    obtain ⟨h_open, h_none⟩ := h.open_of_writer h_one rfl
    obtain rfl := Option.some.inj h_step
    have h_written : written (actions ++ [.append event]) = written actions ++ [event] := by
      rw [written_append]
      rfl
    have h_last : ∀ e ∈ written actions, e.1 < event.1 := by
      have h_inc := h_one.increasing
      rw [h_written] at h_inc
      exact fun e he => (List.pairwise_append.mp h_inc).2.2 e he event (List.mem_singleton_self _)
    refine ⟨?_, ?_, fun r hr h_ended => ?_, fun r hr h_kept => ?_⟩
    · obtain ⟨dropped, h_eq⟩ := h.suffix
      rw [h_written]
      apply (List.drop_suffix _ _).trans
      exact ⟨dropped, by rw [← List.append_assoc, h_eq]⟩
    · show c.buffer.done = true ↔ _
      rw [h.done, List.mem_append]
      simp
    · obtain ⟨r₀, h_r₀, rfl⟩ := List.mem_map.mp hr
      exact absurd (Reader.wake_ended.mp h_ended) (h_none r₀ h_r₀)
    · obtain ⟨r₀, h_r₀, rfl⟩ := List.mem_map.mp hr
      rw [h_written] at h_kept ⊢
      rw [r₀.wake_eq.1] at h_kept
      -- what the ring still holds of the earlier events, it held before
      have h_kept' : c.buffer.Retains (written actions) r₀.after := by
        intro e he h_lt
        have h_in := List.mem_of_mem_drop (h_kept e (List.mem_append_left _ he) h_lt)
        rcases List.mem_append.mp h_in with h_in | h_in
        · exact h_in
        · obtain rfl := List.mem_singleton.mp h_in
          exact absurd (h_last e he) (Nat.lt_irrefl _)
      exact (h.follows r₀ h_r₀ h_kept').wake.append h_last

/-- **The invariant of a channel**, after any interleaving of one run and its readers. -/
theorem Channel.sound {maxEvents : ℕ} {actions : List (ChannelAction π)} {c : Channel π}
    (h_run : runSteps (Channel.step maxEvents) {} actions = some c) (h_one : OneRun actions) :
    c.Sound actions := by
  refine runSteps_history (I := fun actions c => OneRun actions → c.Sound actions) ?_ ?_ h_run h_one
  · intro _
    refine ⟨List.suffix_refl _, by simp, ?_, ?_⟩ <;> simp
  · intro as s a t _ ih h_step h_one'
    exact (ih h_one'.prefix).step h_one' h_step

/-! ### Complete readers -/

/-- Readers going on after the end of the run: each is complete exactly when the copy it
was working on at that moment was up to date. -/
theorem Channel.complete_iff_of_readers {maxEvents : ℕ} {pre post : List (ChannelAction π)}
    {mid done c : Channel π} (h_one : OneRun (pre ++ .finish :: post))
    (h_mid : runSteps (Channel.step maxEvents) {} pre = some mid)
    (h_done : mid.step maxEvents .finish = some done)
    (h_run : runSteps (Channel.step maxEvents) done post = some c) :
    mid.readers.length ≤ c.readers.length ∧
      ∀ (i : ℕ) (r : Reader π), c.readers[i]? = some r → c.buffer.Retains (written pre) r.after →
        (r.Complete (written pre) ↔ ∀ r₀ : Reader π, mid.readers[i]? = some r₀ → r₀.UpToDate mid.buffer) := by
  have h_inc := h_one.prefix.increasing
  have h_finish : runSteps (Channel.step maxEvents) {} (pre ++ [.finish]) = some done :=
    runSteps_concat.mpr ⟨mid, h_mid, h_done⟩
  have h_readers : ∀ as, as <+: post → OneRun (pre ++ [.finish] ++ as) := by
    rintro as ⟨bs, rfl⟩
    have h_all : OneRun (pre ++ [.finish] ++ as ++ bs) := by simpa using h_one
    exact h_all.prefix
  -- the invariant of the part of the run after `finish`
  refine runSteps_history (I := fun as (c : Channel π) => as <+: post →
    mid.readers.length ≤ c.readers.length ∧ ∀ (i : ℕ) (r : Reader π), c.readers[i]? = some r →
      c.buffer.Retains (written pre) r.after → (r.Complete (written pre) ↔
        ∀ r₀ : Reader π, mid.readers[i]? = some r₀ → r₀.UpToDate mid.buffer))
    ?_ ?_ h_run (List.prefix_refl post)
  · intro _
    have h_sound := Channel.sound h_mid h_one.prefix
    have h_one' : OneRun (pre ++ [.finish]) := by
      have h_nil := h_readers [] (List.nil_prefix)
      rwa [List.append_nil] at h_nil
    obtain ⟨-, h_none⟩ := h_sound.open_of_writer h_one' rfl
    obtain rfl := Option.some.inj h_done
    refine ⟨by simp, fun i r h_r h_kept => ?_⟩
    have h_r : (mid.readers.map Reader.wake)[i]? = some r := h_r
    rw [List.getElem?_map, Option.map_eq_some_iff] at h_r
    obtain ⟨r₀, h_r₀, rfl⟩ := h_r
    rw [r₀.wake_eq.1] at h_kept
    have h_mem := List.mem_of_getElem? h_r₀
    have h_new := newer_of_retains h_inc h_sound.suffix h_kept (h_sound.follows r₀ h_mem h_kept).le
    rw [Reader.complete_wake, h_r₀]
    simp only [Option.some.injEq, forall_eq']
    unfold Reader.Complete Reader.UpToDate
    rw [h_new]
    cases h_phase : r₀.phase with
    | yielding rest => simp
    | waiting woken => simp
    | ended => exact absurd h_phase (h_none r₀ h_mem)
  · intro as s a t h_as ih h_step h_prefix
    have h_prefix' : as <+: post := (List.prefix_append as [a]).trans h_prefix
    obtain ⟨h_length, h_complete⟩ := ih h_prefix'
    have h_reader : a.byReader = true := by
      apply h_one.finished pre post rfl
      exact h_prefix.subset (by simp)
    have h_sound : s.Sound (pre ++ [.finish] ++ as) := by
      have h_run' : runSteps (Channel.step maxEvents) {} (pre ++ [.finish] ++ as) = some s :=
        runSteps_append_eq_some.mpr ⟨done, h_finish, h_as⟩
      exact Channel.sound h_run' (h_readers as h_prefix')
    have h_written : written (pre ++ [.finish] ++ as) = written pre := by
      have h_as' : ∀ b ∈ as, b.byReader = true := fun b hb =>
        h_one.finished pre post rfl b ( h_prefix'.subset hb)
      rw [written_append, written_append, written_readers h_as', List.append_nil]
      exact List.append_nil _
    have h_done' : s.buffer.done = true := h_sound.done.mpr (by simp)
    obtain ⟨⟨h_events, -⟩, j, r₀, r', h_resumed, h_cases⟩ := Channel.readers_of_step h_reader h_step
    -- the reader that was resumed is complete if it was before
    have h_resumed_iff : s.buffer.Retains (written pre) r₀.after → r₀.Follows (written pre) →
        (r'.Complete (written pre) ↔ r₀.Complete (written pre)) := by
      intro h_kept h_follows
      refine Reader.complete_resumed h_inc h_follows h_done' ?_ h_resumed
      exact newer_of_retains h_inc (h_written ▸ h_sound.suffix) h_kept h_follows.le
    rcases h_cases with ⟨h_get, h_set⟩ | ⟨h_new, h_append⟩
    · refine ⟨by rw [h_set, List.length_set]; exact h_length, fun i r h_r h_kept => ?_⟩
      rw [SessionBuffer.Retains.congr h_events] at h_kept
      rw [h_set] at h_r
      by_cases h_ij : j = i
      · subst h_ij
        rw [List.getElem?_set_self (List.getElem?_eq_some_iff.mp h_get).1] at h_r
        obtain rfl := Option.some.inj h_r
        rw [h_resumed.after_eq] at h_kept
        have h_follows := h_sound.follows r₀ (List.mem_of_getElem? h_get)
        rw [h_written] at h_follows
        rw [h_resumed_iff h_kept (h_follows h_kept)]
        exact h_complete j r₀ h_get h_kept
      · rw [List.getElem?_set_ne h_ij] at h_r
        exact h_complete i r h_r h_kept
    · refine ⟨by rw [h_append, List.length_append]; omega, fun i r h_r h_kept => ?_⟩
      rw [SessionBuffer.Retains.congr h_events] at h_kept
      rw [h_append] at h_r
      by_cases h_i : i < s.readers.length
      · rw [List.getElem?_append_left h_i] at h_r
        exact h_complete i r h_r h_kept
      · -- a reader that came after `finish`
        have h_none : mid.readers[i]? = none := List.getElem?_eq_none (by omega)
        have h_i' : i = s.readers.length := by
          have := (List.getElem?_eq_some_iff.mp h_r).1
          rw [List.length_append, List.length_singleton] at this
          omega
        subst h_i'
        rw [List.getElem?_concat_length] at h_r
        obtain rfl := Option.some.inj h_r
        rw [h_resumed.after_eq] at h_kept
        have h_follows : r₀.Follows (written pre) := by
          rw [h_new]
          exact Reader.follows_new _ _
        have h_r₀ : r₀.Complete (written pre) := by
          rw [h_new]
          trivial
        rw [h_resumed_iff h_kept h_follows, h_none]
        exact ⟨fun _ _ h => (by cases h), fun _ => h_r₀⟩

/-- **A reader that ran to its end received every event after its cursor**, each once and in
order, if and only if the copy it was working on when the run finished was up to date. -/
theorem replay_complete_iff {maxEvents : ℕ} {actions : List (ChannelAction π)} {c : Channel π}
    (h_run : runSteps (Channel.step maxEvents) {} actions = some c) (h_one : OneRun actions)
    {i : ℕ} {r : Reader π} (h_r : c.readers[i]? = some r) (h_ended : r.phase = .ended)
    (h_kept : c.buffer.Retains (written actions) r.after) :
    r.ReceivedAll (written actions) ↔
      ∀ pre post mid r₀, actions = pre ++ .finish :: post →
        runSteps (Channel.step maxEvents) {} pre = some mid → mid.readers[i]? = some r₀ →
          r₀.UpToDate mid.buffer := by
  have h_sound := Channel.sound h_run h_one
  have h_mem := List.mem_of_getElem? h_r
  -- the run has finished, so its actions have the form of the condition
  obtain ⟨pre, post, h_eq⟩ := List.append_of_mem (h_sound.done.mp (h_sound.ended r h_mem h_ended))
  have h_written : written actions = written pre := by
    rw [h_eq, written_append, show ChannelAction.finish :: post = [.finish] ++ post from rfl,
      written_append, written_readers (h_one.finished pre post h_eq), List.append_nil]
    exact List.append_nil _
  have h_split := h_run
  rw [h_eq, runSteps_append_eq_some] at h_split
  obtain ⟨mid, h_mid, h_rest⟩ := h_split
  obtain ⟨done, h_done, h_post⟩ := runSteps_cons_eq_some.mp h_rest
  obtain ⟨-, h_complete⟩ := Channel.complete_iff_of_readers (h_eq ▸ h_one) h_mid h_done h_post
  rw [Reader.receivedAll_iff h_one.increasing (h_sound.follows r h_mem h_kept) h_ended, h_written,
    h_complete i r h_r (h_written ▸ h_kept)]
  constructor
  · intro h_fresh pre' post' mid' r₀ h_eq' h_mid' h_r₀
    obtain rfl := OneRun.finish_unique h_one h_eq h_eq'
    obtain rfl := Option.some.inj (h_mid.symm.trans h_mid')
    exact h_fresh r₀ h_r₀
  · exact fun h_all r₀ h_r₀ => h_all pre post mid r₀ h_eq h_mid h_r₀

/-- A reader that waits when the run finishes. -/
def patientRun : List (ChannelAction String) :=
  [.attach 0, .append (1, "Hello"), .next 0, .append (2, "world"), .next 0, .next 0, .finish,
    .next 0]

/-- What the patient reader is at its end. -/
def patientReader : Reader String :=
  { after := 0, cursor := 2, received := [(1, "Hello"), (2, "world")], phase := .ended }

theorem patientRun_oneRun : OneRun patientRun :=
  .of_split (patientRun.take 6) [.next 0] (by decide) (by decide) (by decide)

/-- A reader that waits for both events gets both. -/
theorem replay_complete_iff_patient :
    patientReader.ReceivedAll (written patientRun) ∧
      ∀ pre post mid r₀, patientRun = pre ++ .finish :: post →
        runSteps (Channel.step 500) {} pre = some mid → mid.readers[0]? = some r₀ →
          r₀.UpToDate mid.buffer := by
  have h_all : patientReader.ReceivedAll (written patientRun) := by
    show patientReader.received = _
    decide
  refine ⟨h_all, ?_⟩
  have h_run : runSteps (Channel.step 500) {} patientRun =
      some ⟨⟨[(1, "Hello"), (2, "world")], true, false⟩, [patientReader]⟩ := by decide
  apply (replay_complete_iff h_run patientRun_oneRun rfl rfl ?_).mp h_all
  show ∀ e ∈ _, _
  decide

/-- A reader that is at its yield when the last event is written and the run finishes. -/
def hastyRun : List (ChannelAction String) :=
  [.append (1, "Hello"), .attach 0, .append (2, "world"), .finish, .next 0]

/-- What the hasty reader is at its end. -/
def hastyReader : Reader String :=
  { after := 0, cursor := 1, received := [(1, "Hello")], phase := .ended }

/-- **A reader can lose the last event**: it sees the run done at the end of a pass over a
copy that the event is not in. -/
theorem replay_incomplete :
    ¬ ∀ (actions : List (ChannelAction String)) (c : Channel String) (i : ℕ) (r : Reader String),
      runSteps (Channel.step 500) {} actions = some c → OneRun actions →
        c.readers[i]? = some r → r.phase = .ended → c.buffer.Retains (written actions) r.after →
          r.ReceivedAll (written actions) := by
  intro h
  -- the run finishes once
  have h_one : OneRun hastyRun :=
    .of_split (hastyRun.take 3) [.next 0] (by decide) (by decide) (by decide)
  have h_run : runSteps (Channel.step 500) {} hastyRun =
      some ⟨⟨[(1, "Hello"), (2, "world")], true, true⟩, [hastyReader]⟩ := by decide
  -- nothing was trimmed from the buffer
  have h_kept : SessionBuffer.Retains ⟨[(1, "Hello"), (2, "world")], true, true⟩
      (written hastyRun) 0 := by
    show ∀ e ∈ _, _
    decide
  have h_all : [(1, "Hello")] = (written hastyRun).filter fun e => 0 < e.1 :=
    h hastyRun _ 0 hastyReader h_run h_one rfl rfl h_kept
  revert h_all
  decide

end Nexus
