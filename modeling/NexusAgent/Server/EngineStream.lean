import Mathlib.Data.List.Infix
import NexusAgent.Lib.Locks

/-!
# Engines behind one event loop

`run_engine`, `stream_engine` and `_call_lock` of `nexus/server/services/base.py`. Engine calls
block, so each runs on a thread of its own, inside the lock of its engine unless the engine is
thread safe. A stream hands the items of the engine's generator to the loop one by one, as
callbacks that put them into the queue its consumer reads; `stop` tells the thread that the
consumer has gone.

The parties of the system are the streams and the calls, each at any point of its code, on any
engines; a generator yields, returns or raises at will.

* `streams_faithful`: what a consumer is given is what the generator made, in its order.
* `stopped_stream`: a generator whose consumer has gone makes at most one more item.
* `engines_exclusive`: one call at a time on an engine that is not thread safe.
* `engines_settle`: where nothing can go on, everything has come to its end.
-/

open Lib

namespace Nexus.Server

/-! ### A stream -/

/-- What the thread of a stream puts into the queue. -/
inductive Message (α ε : Type)
  | item (a : α)
  | raised (e : ε)
  /-- `_END`. -/
  | ended
  deriving DecidableEq

/-- How the loop over the generator came to its end. -/
inductive Ending (ε : Type)
  | returned
  | raised (e : ε)
  /-- `break`, with an item in hand. -/
  | broken
  deriving DecidableEq

/-- Where the thread is in `work`. -/
inductive Worker (α ε : Type)
  /-- Before `with _call_lock(engine)`. -/
  | starting
  /-- In the generator. -/
  | inside
  /-- The generator has yielded, and `stop` is not yet read. -/
  | produced (a : α)
  /-- `stop` was not set. -/
  | pushing (a : α)
  /-- Out of the loop, with the lock. -/
  | leaving (o : Ending ε)
  /-- Without the lock. -/
  | handing (o : Ending ε)
  /-- The exception is pushed, `_END` is not. -/
  | closing (e : ε)
  | done (o : Ending ε)
  deriving DecidableEq

/-- Where the reader of the queue is. -/
inductive Consumer (ε : Type)
  /-- In `q.get()`. -/
  | waiting
  /-- At the `yield`. -/
  | holding
  | finished
  | failed (e : ε)
  /-- Closed or cancelled. -/
  | gone
  deriving DecidableEq

/-- The generator is left for good: its `finally` has run. -/
def Consumer.left {ε : Type} : Consumer ε → Bool
  | .waiting | .holding => false
  | _ => true

/-- One call of `stream_engine`. The callbacks in `scheduled` wait for the loop. The last four
fields are the history of the stream, which nothing reads. -/
structure Stream (α ε : Type) where
  worker : Worker α ε := .starting
  consumer : Consumer ε := .waiting
  scheduled : List (Message α ε) := []
  queue : List (Message α ε) := []
  stop : Bool := false
  produced : List α := []
  sent : List (Message α ε) := []
  received : List (Message α ε) := []
  yielded : List α := []
  deriving DecidableEq

/-- A step of a stream or of a call. -/
inductive Action (α ε β : Type)
  /-- The lock is taken. -/
  | enter
  /-- The generator yields, returns, or raises. -/
  | produce (a : α)
  | finish
  | fail (e : ε)
  /-- `stop` is read. -/
  | check
  | push
  /-- The function of a call returns or raises. -/
  | answer (r : Except ε β)
  /-- The lock is freed. -/
  | release
  /-- The loop runs a callback. -/
  | deliver
  /-- The consumer is given the next message, comes back for more, or goes away. -/
  | get
  | resume
  | close
  deriving DecidableEq

variable {α ε β : Type}

/-- `push`: on a loop that is closed, the callback is refused. -/
def Stream.push (closed : Bool) (s : Stream α ε) (m : Message α ε) : Stream α ε :=
  if closed then { s with stop := true }
  else { s with scheduled := s.scheduled ++ [m], sent := s.sent ++ [m] }

/-- What the consumer does with a message: it yields the item, raises, or returns. -/
def Stream.take (s : Stream α ε) (m : Message α ε) (queue : List (Message α ε)) : Stream α ε :=
  let t := { s with queue := queue, received := s.received ++ [m] }
  match m with
  | .item a => { t with consumer := .holding, yielded := s.yielded ++ [a] }
  | .raised e => { t with consumer := .failed e, stop := true }
  | .ended => { t with consumer := .finished, stop := true }

/-- `stream_engine`, on a loop that is open or closed. -/
def Stream.step (closed : Bool) (s : Stream α ε) : Action α ε β → Option (Stream α ε)
  | .enter =>
    match s.worker with
    | .starting => some { s with worker := .inside }
    | _ => none
  | .produce a =>
    match s.worker with
    | .inside => some { s with worker := .produced a, produced := s.produced ++ [a] }
    | _ => none
  | .finish =>
    match s.worker with
    | .inside => some { s with worker := .leaving .returned }
    | _ => none
  | .fail e =>
    match s.worker with
    | .inside => some { s with worker := .leaving (.raised e) }
    | _ => none
  | .check =>
    match s.worker with
    | .produced a => some { s with worker := if s.stop then .leaving .broken else .pushing a }
    | _ => none
  | .push =>
    match s.worker with
    | .pushing a => some { s.push closed (.item a) with worker := .inside }
    | .handing (.raised e) => some { s.push closed (.raised e) with worker := .closing e }
    | .handing o => some { s.push closed .ended with worker := .done o }
    | .closing e => some { s.push closed .ended with worker := .done (.raised e) }
    | _ => none
  | .release =>
    match s.worker with
    | .leaving o => some { s with worker := .handing o }
    | _ => none
  | .deliver =>
    match closed, s.scheduled with
    | false, m :: ms => some { s with scheduled := ms, queue := s.queue ++ [m] }
    | _, _ => none
  | .get =>
    match closed, s.consumer, s.queue with
    | false, .waiting, m :: ms => some (s.take m ms)
    | _, _, _ => none
  | .resume =>
    match closed, s.consumer with
    | false, .holding => some { s with consumer := .waiting }
    | _, _ => none
  | .close => if s.consumer.left then none else some { s with consumer := .gone, stop := true }
  | .answer _ => none

/-! ### Calls and the engines -/

/-- One call of `run_engine`, by the thread that makes it. -/
inductive Call (ε β : Type)
  | starting
  | inside
  | leaving (r : Except ε β)
  | done (r : Except ε β)

/-- `run_engine`. -/
def Call.step (c : Call ε β) : Action α ε β → Option (Call ε β)
  | .enter =>
    match c with
    | .starting => some .inside
    | _ => none
  | .answer r =>
    match c with
    | .inside => some (.leaving r)
    | _ => none
  | .release =>
    match c with
    | .leaving r => some (.done r)
    | _ => none
  | _ => none

/-- A stream or a call. -/
inductive Work (α ε β : Type)
  | stream (s : Stream α ε)
  | call (c : Call ε β)

/-- The work, and the engine it is on. -/
structure Party (α ε β : Type) where
  engine : ℕ
  work : Work α ε β

/-- The thread is in the `with` block. -/
def Worker.locked : Worker α ε → Bool
  | .inside | .produced _ | .pushing _ | .leaving _ => true
  | _ => false

def Call.locked : Call ε β → Bool
  | .inside | .leaving _ => true
  | _ => false

def Work.locked : Work α ε β → Bool
  | .stream s => s.worker.locked
  | .call c => c.locked

def Work.step (closed : Bool) (x : Work α ε β) (a : Action α ε β) : Option (Work α ε β) :=
  match x with
  | .stream s => (s.step closed a).map .stream
  | .call c => (c.step a).map .call

/-- `_call_lock`: the lock of an engine, or none if the engine is thread safe. -/
def Party.inside (threadSafe : ℕ → Bool) (p : Party α ε β) : Option ℕ :=
  if p.work.locked && !threadSafe p.engine then some p.engine else none

/-- The streams and calls on a loop, which may be closed at any time. -/
def engines (threadSafe : ℕ → Bool) : LockSystem (Party α ε β) Bool (Action α ε β) Unit ℕ where
  party closed p a := (p.work.step closed a).map fun x => { p with work := x }
  env _ _ := some true
  inside := Party.inside threadSafe

/-- Streams and calls at their start, each with its engine. -/
def fresh (tasks : List (ℕ × Bool)) : List (Party α ε β) :=
  tasks.map fun task => ⟨task.1, if task.2 then .stream {} else .call .starting⟩

/-! ### What a thread has handed over -/

/-- The items of a list of messages. -/
def items (ms : List (Message α ε)) : List α :=
  ms.filterMap fun m => match m with
    | .item a => some a
    | _ => none

/-- The items that were made and are not thrown away: a loop that is broken off throws away the
one it has in hand. -/
def Ending.kept (o : Ending ε) (produced : List α) : List α :=
  match o with
  | .broken => produced.dropLast
  | _ => produced

/-- The messages that follow the items. -/
def Ending.controls : Ending ε → List (Message α ε)
  | .raised e => [.raised e, .ended]
  | _ => [.ended]

/-- The items the thread has done with, but for one it throws away. -/
def Worker.taken (worker : Worker α ε) (produced : List α) : List α :=
  match worker with
  | .produced _ | .pushing _ => produced.dropLast
  | .leaving o | .handing o | .done o => o.kept produced
  | _ => produced

/-- The messages behind the items. -/
def Worker.controls : Worker α ε → List (Message α ε)
  | .closing e => [.raised e]
  | .done o => o.controls
  | _ => []

/-- The item the thread has in hand. -/
def Worker.inHand : Worker α ε → List α
  | .produced a | .pushing a => [a]
  | _ => []

/-- All that the thread has handed over by now, if the loop took it. -/
def Worker.handed (worker : Worker α ε) (produced : List α) : List (Message α ε) :=
  (worker.taken produced).map .item ++ worker.controls

/-- What the consumer was given, by what it has done. -/
def Stream.told (s : Stream α ε) : List (Message α ε) :=
  match s.consumer with
  | .failed e => s.yielded.map .item ++ [.raised e]
  | .finished => s.yielded.map .item ++ [.ended]
  | _ => s.yielded.map .item

/-- The invariant of a stream. -/
structure Stream.Ok (closed : Bool) (s : Stream α ε) : Prop where
  log : s.received ++ s.queue ++ s.scheduled = s.sent
  told : s.received = s.told
  handed : s.sent <+: s.worker.handed s.produced
  handed_open : closed = false → s.sent = s.worker.handed s.produced
  stopped : s.stop = true → s.consumer.left = true ∨ closed = true
  hand : ∀ a, s.worker = .produced a ∨ s.worker = .pushing a → s.produced.getLast? = some a
  broken : s.worker = .leaving .broken ∨ s.worker = .handing .broken ∨ s.worker = .done .broken →
    s.consumer = .gone ∨ closed = true ∧ ∀ m ∈ s.sent, ∃ a, m = .item a

namespace Stream

variable {closed : Bool} {s t : Stream α ε}

/-- A fresh stream is in order. -/
theorem Ok.init : (({} : Stream α ε)).Ok closed where
  log := rfl
  told := rfl
  handed := List.prefix_refl _
  handed_open _ := rfl
  stopped h := by cases h
  hand a h := by rcases h with h | h <;> cases h
  broken h := by rcases h with h | h | h <;> cases h

/-- The thread goes on without handing anything over. -/
theorem Ok.move (h : s.Ok closed) (worker : Worker α ε) (produced : List α)
    (h_handed : worker.handed produced = s.worker.handed s.produced)
    (h_hand : ∀ a, worker = .produced a ∨ worker = .pushing a → produced.getLast? = some a)
    (h_broken : worker = .leaving .broken ∨ worker = .handing .broken ∨ worker = .done .broken →
      s.consumer = .gone ∨ closed = true ∧ ∀ m ∈ s.sent, ∃ a, m = .item a) :
    ({ s with worker := worker, produced := produced } : Stream α ε).Ok closed where
  -- the consumer's side is not touched
  log := h.log
  told := h.told
  handed := by
    -- what is handed out is the same, in the new place
    show s.sent <+: worker.handed produced
    rw [h_handed]
    exact h.handed
  handed_open h_open := by
    show s.sent = worker.handed produced
    rw [h_handed]
    exact h.handed_open h_open
  stopped := h.stopped
  hand := h_hand
  broken := h_broken

/-- The thread hands one message over, or finds the loop closed. -/
theorem Ok.push (h : s.Ok closed) (m : Message α ε) (worker : Worker α ε)
    (h_handed : worker.handed s.produced = s.worker.handed s.produced ++ [m])
    (h_hand : ∀ a, worker ≠ .produced a ∧ worker ≠ .pushing a)
    (h_broken : worker = .leaving .broken ∨ worker = .handing .broken ∨ worker = .done .broken →
      s.worker = .leaving .broken ∨ s.worker = .handing .broken ∨ s.worker = .done .broken) :
    ({ s.push closed m with worker := worker } : Stream α ε).Ok closed := by
  -- a message is scheduled on an open loop and dropped on a closed one
  cases closed with
  | false =>
    refine ⟨?_, h.told, ?_, fun _ => ?_, h.stopped, ?_, ?_⟩
    · show s.received ++ s.queue ++ (s.scheduled ++ [m]) = s.sent ++ [m]
      rw [← List.append_assoc, h.log]
    · show s.sent ++ [m] <+: worker.handed s.produced
      rw [h_handed, h.handed_open rfl]
    · show s.sent ++ [m] = worker.handed s.produced
      rw [h_handed, h.handed_open rfl]
    · exact fun a h_a => absurd h_a (not_or.mpr (h_hand a))
    · intro h_w
      rcases h.broken (h_broken h_w) with h_gone | ⟨h_closed, -⟩
      · exact .inl h_gone
      · cases h_closed
  | true =>
    refine ⟨h.log, h.told, ?_, nofun, fun _ => .inr rfl, ?_, ?_⟩
    · show s.sent <+: worker.handed s.produced
      rw [h_handed]
      exact h.handed.trans (List.prefix_append _ _)
    · exact fun a h_a => absurd h_a (not_or.mpr (h_hand a))
    · exact fun h_w => h.broken (h_broken h_w)

/-- What was told is a beginning of what was handed out. -/
theorem Ok.told_handed (h : s.Ok closed) : s.told <+: s.worker.handed s.produced := by
  rw [← h.told]
  refine List.IsPrefix.trans ?_ h.handed
  rw [← h.log, List.append_assoc]
  exact List.prefix_append _ _

/-- Where only items can have been handed over, the consumer has not left by itself. -/
theorem Ok.gone_of_left (h : s.Ok closed) {as : List α}
    (h_handed : s.worker.handed s.produced = as.map .item) (h_left : s.consumer.left = true) :
    s.consumer = .gone := by
  -- only items were handed out, so only items were told
  have h_items : ∀ m ∈ s.told, ∃ a, m = .item a := by
    intro m h_m
    obtain ⟨a, -, h_a⟩ := List.mem_map.mp (h_handed ▸ h.told_handed.subset h_m)
    exact ⟨a, h_a.symm⟩
  cases h_c : s.consumer with
  | gone => rfl
  | waiting => rw [h_c] at h_left; cases h_left
  | holding => rw [h_c] at h_left; cases h_left
  -- an end or an error would be no item
  | finished =>
    obtain ⟨a, h_a⟩ := h_items .ended (by simp [Stream.told, h_c])
    cases h_a
  | failed e =>
    obtain ⟨a, h_a⟩ := h_items (.raised e) (by simp [Stream.told, h_c])
    cases h_a

/-! #### The steps of the thread -/

theorem Ok.enter (h : s.Ok closed) (h_worker : s.worker = .starting) :
    ({ s with worker := .inside } : Stream α ε).Ok closed :=
  h.move .inside s.produced (by rw [h_worker]; rfl) (by simp) (by simp)

/-- The engine produces an item. -/
theorem Ok.produce (h : s.Ok closed) (h_worker : s.worker = .inside) (a : α) :
    ({ s with worker := .produced a, produced := s.produced ++ [a] } : Stream α ε).Ok closed := by
  refine h.move _ _ ?_ (by simp) (by simp)
  rw [h_worker]
  simp [Worker.handed, Worker.taken, Worker.controls]

/-- The worker leaves its loop. -/
theorem Ok.leave (h : s.Ok closed) (h_worker : s.worker = .inside) {o : Ending ε}
    (h_o : o ≠ .broken) : ({ s with worker := .leaving o } : Stream α ε).Ok closed := by
  refine h.move (.leaving o) s.produced ?_ (by simp) (by simp [h_o])
  rw [h_worker]
  cases o with
  | broken => exact absurd rfl h_o
  | _ => rfl

/-- Seeing no stop flag, the worker goes on to push. -/
theorem Ok.check_go (h : s.Ok closed) {a : α} (h_worker : s.worker = .produced a) :
    ({ s with worker := .pushing a } : Stream α ε).Ok closed := by
  refine h.move (.pushing a) s.produced (by rw [h_worker]; rfl) (fun b h_b => ?_) (by simp)
  obtain rfl : a = b := by simpa using h_b
  exact h.hand a (.inl h_worker)

/-- Seeing the stop flag, the worker leaves its loop. -/
theorem Ok.check_break (h : s.Ok closed) {a : α} (h_worker : s.worker = .produced a)
    (h_stop : s.stop = true) : ({ s with worker := .leaving .broken } : Stream α ε).Ok closed := by
  have h_handed : s.worker.handed s.produced = s.produced.dropLast.map .item := by
    rw [h_worker]
    exact List.append_nil _
  refine h.move (.leaving .broken) s.produced (by rw [h_worker]; rfl) (by simp) fun _ => ?_
  rcases h.stopped h_stop with h_left | h_closed
  · exact .inl (h.gone_of_left h_handed h_left)
  · -- all that was handed over are items
    refine .inr ⟨h_closed, fun m h_m => ?_⟩
    obtain ⟨b, -, h_b⟩ := List.mem_map.mp (h_handed ▸ h.handed.subset h_m)
    exact ⟨b, h_b.symm⟩

/-- The worker releases the lock. -/
theorem Ok.release (h : s.Ok closed) {o : Ending ε} (h_worker : s.worker = .leaving o) :
    ({ s with worker := .handing o } : Stream α ε).Ok closed := by
  refine h.move (.handing o) s.produced (by rw [h_worker]; rfl) (by simp) fun h_o => ?_
  obtain rfl : o = .broken := by simpa using h_o
  exact h.broken (.inl h_worker)

/-- The worker pushes its item. -/
theorem Ok.push_item (h : s.Ok closed) {a : α} (h_worker : s.worker = .pushing a) :
    ({ s.push closed (.item a) with worker := .inside } : Stream α ε).Ok closed := by
  refine h.push _ _ ?_ (by simp) (by simp)
  obtain ⟨as, h_as⟩ := List.getLast?_eq_some_iff.mp (h.hand a (.inr h_worker))
  simp [h_worker, Worker.handed, Worker.taken, Worker.controls, h_as]

theorem Ok.push_raised (h : s.Ok closed) {e : ε} (h_worker : s.worker = .handing (.raised e)) :
    ({ s.push closed (.raised e) with worker := .closing e } : Stream α ε).Ok closed := by
  refine h.push _ _ ?_ (by simp) (by simp)
  simp [h_worker, Worker.handed, Worker.taken, Worker.controls, Ending.kept]

theorem Ok.push_ended (h : s.Ok closed) {e : ε} (h_worker : s.worker = .closing e) :
    ({ s.push closed .ended with worker := .done (.raised e) } : Stream α ε).Ok closed := by
  refine h.push _ _ ?_ (by simp) (by simp)
  simp [h_worker, Worker.handed, Worker.taken, Worker.controls, Ending.kept, Ending.controls]

/-- Handing over the end keeps the stream in order. -/
theorem Ok.push_end (h : s.Ok closed) {o : Ending ε} (h_worker : s.worker = .handing o)
    (h_o : ∀ e, o ≠ .raised e) :
    ({ s.push closed .ended with worker := .done o } : Stream α ε).Ok closed := by
  refine h.push _ _ ?_ (by simp) (by simp [h_worker])
  cases o with
  | raised e => exact absurd rfl (h_o e)
  | _ => simp [h_worker, Worker.handed, Worker.taken, Worker.controls, Ending.controls]

/-! #### The steps of the loop -/

/-- The loop puts the next scheduled message on the queue. -/
theorem Ok.deliver (h : s.Ok false) {m : Message α ε} {ms : List (Message α ε)}
    (h_scheduled : s.scheduled = m :: ms) :
    ({ s with scheduled := ms, queue := s.queue ++ [m] } : Stream α ε).Ok false where
  log := by
    -- the message moves from one list to the other
    show s.received ++ (s.queue ++ [m]) ++ ms = s.sent
    rw [← h.log, h_scheduled]
    simp
  told := h.told
  handed := h.handed
  handed_open := h.handed_open
  stopped := h.stopped
  hand := h.hand
  broken := h.broken

/-- A step of the consumer, which the thread does not see. -/
theorem Ok.consume (h : s.Ok closed) (t : Stream α ε) (h_worker : t.worker = s.worker)
    (h_produced : t.produced = s.produced) (h_sent : t.sent = s.sent)
    (h_log : t.received ++ t.queue ++ t.scheduled = s.received ++ s.queue ++ s.scheduled)
    (h_told : t.received = t.told) (h_stopped : t.stop = true → s.stop = true ∧
      t.consumer.left = s.consumer.left ∨ t.consumer.left = true)
    (h_gone : s.consumer = .gone → t.consumer = .gone) : t.Ok closed := by
  -- the worker's side and what it sent stay as they are
  refine ⟨?_, h_told, ?_, fun h_open => ?_, fun h_stop => ?_, ?_, ?_⟩
  · rw [h_log, h.log, h_sent]
  · rw [h_worker, h_produced, h_sent]
    exact h.handed
  · rw [h_worker, h_produced, h_sent]
    exact h.handed_open h_open
  · -- either the stop flag was set before, or the consumer has left now
    rcases h_stopped h_stop with ⟨h_s, h_left⟩ | h_left
    · rw [h_left]
      exact h.stopped h_s
    · exact .inl h_left
  · rw [h_worker, h_produced]
    exact h.hand
  · rw [h_worker, h_sent]
    exact fun h_w => (h.broken h_w).imp_left h_gone

/-- The consumer takes the next message from the queue. -/
theorem Ok.take (h : s.Ok closed) (h_waiting : s.consumer = .waiting) {m : Message α ε}
    {ms : List (Message α ε)} (h_queue : s.queue = m :: ms) : (s.take m ms).Ok closed := by
  have h_told : s.received = s.yielded.map .item := by
    rw [h.told, Stream.told, h_waiting]
  -- a message moves from the queue to what was received
  have h_log : s.received ++ [m] ++ ms ++ s.scheduled = s.received ++ s.queue ++ s.scheduled := by
    rw [h_queue]
    simp
  have h_gone : s.consumer ≠ .gone := by rw [h_waiting]; exact nofun
  cases m with
  | item a =>
    refine h.consume _ rfl rfl rfl h_log ?_ (fun h_stop => .inl ⟨h_stop, ?_⟩)
      (fun h' => absurd h' h_gone)
    · show s.received ++ [.item a] = (s.yielded ++ [a]).map .item
      rw [h_told, List.map_append]
      rfl
    · rw [h_waiting]
      rfl
  | raised e =>
    refine h.consume _ rfl rfl rfl h_log ?_ (fun _ => .inr rfl) (fun h' => absurd h' h_gone)
    show s.received ++ [.raised e] = s.yielded.map .item ++ [.raised e]
    rw [h_told]
  | ended =>
    refine h.consume _ rfl rfl rfl h_log ?_ (fun _ => .inr rfl) (fun h' => absurd h' h_gone)
    show s.received ++ [.ended] = s.yielded.map .item ++ [.ended]
    rw [h_told]

/-- The consumer asks for the next item. -/
theorem Ok.resume (h : s.Ok closed) (h_holding : s.consumer = .holding) :
    ({ s with consumer := .waiting } : Stream α ε).Ok closed := by
  refine h.consume _ rfl rfl rfl rfl ?_ (fun h_stop => .inl ⟨h_stop, ?_⟩) (fun h' => ?_)
  · show s.received = s.yielded.map .item
    rw [h.told, Stream.told, h_holding]
  · rw [h_holding]
    rfl
  · rw [h_holding] at h'
    cases h'

/-- The consumer leaves: it sets the stop flag. -/
theorem Ok.close (h : s.Ok closed) (h_left : s.consumer.left = false) :
    ({ s with consumer := .gone, stop := true } : Stream α ε).Ok closed := by
  refine h.consume _ rfl rfl rfl rfl ?_ (fun _ => .inr rfl) (fun _ => rfl)
  show s.received = s.yielded.map .item
  rw [h.told, Stream.told]
  cases h_c : s.consumer with
  | waiting => rfl
  | holding => rfl
  | gone => rfl
  | finished => simp [h_c, Consumer.left] at h_left
  | failed e => simp [h_c, Consumer.left] at h_left

/-- The loop is closed. -/
theorem Ok.closeLoop (h : s.Ok closed) : s.Ok true where
  log := h.log
  told := h.told
  handed := h.handed
  handed_open := nofun
  stopped _ := .inr rfl
  hand := h.hand
  broken h_w := by
    rcases h.broken h_w with h_gone | ⟨-, h_items⟩
    · exact .inl h_gone
    · exact .inr ⟨rfl, h_items⟩

/-- **What a step keeps.** -/
theorem Ok.step (h : s.Ok closed) {x : Action α ε β} (h_step : s.step closed x = some t) :
    t.Ok closed := by
  cases x <;> simp only [Stream.step] at h_step
  case enter =>
    split at h_step
    · next h_worker => exact Option.some.inj h_step ▸ h.enter h_worker
    · cases h_step
  case produce a =>
    split at h_step
    · next h_worker => exact Option.some.inj h_step ▸ h.produce h_worker a
    · cases h_step
  case finish =>
    split at h_step
    · next h_worker => exact Option.some.inj h_step ▸ h.leave h_worker nofun
    · cases h_step
  case fail e =>
    split at h_step
    · next h_worker => exact Option.some.inj h_step ▸ h.leave h_worker nofun
    · cases h_step
  case check =>
    split at h_step
    · next h_worker =>
      obtain rfl := Option.some.inj h_step
      -- stopped: the worker leaves the loop with the item in its hand
      split_ifs with h_stop
      · exact h.check_break h_worker h_stop
      · exact h.check_go h_worker
    · cases h_step
  case push =>
    split at h_step
    · next h_worker => exact Option.some.inj h_step ▸ h.push_item h_worker
    · next h_worker => exact Option.some.inj h_step ▸ h.push_raised h_worker
    · next h_not h_worker =>
      exact Option.some.inj h_step ▸ h.push_end h_worker fun e h_e => h_not e h_e
    · next h_worker => exact Option.some.inj h_step ▸ h.push_ended h_worker
    · cases h_step
  case answer => cases h_step
  case release =>
    split at h_step
    · next h_worker => exact Option.some.inj h_step ▸ h.release h_worker
    · cases h_step
  case deliver =>
    split at h_step
    · next h_scheduled => exact Option.some.inj h_step ▸ h.deliver h_scheduled
    · cases h_step
  case get =>
    split at h_step
    · next h_waiting h_queue => exact Option.some.inj h_step ▸ h.take h_waiting h_queue
    · cases h_step
  case resume =>
    split at h_step
    · next h_holding => exact Option.some.inj h_step ▸ h.resume h_holding
    · cases h_step
  case close =>
    split at h_step
    · cases h_step
    · next h_left => exact Option.some.inj h_step ▸ h.close (by simpa using h_left)

end Stream

/-! ### What the consumers are given -/

/-- The items of a list of items are the list. -/
theorem items_map (as : List α) : items (as.map .item : List (Message α ε)) = as := by
  induction as with
  | nil => rfl
  | cons a as ih =>
    show a :: items (as.map .item : List (Message α ε)) = a :: as
    rw [ih]

theorem items_append (ms ns : List (Message α ε)) : items (ms ++ ns) = items ms ++ items ns :=
  List.filterMap_append

theorem items_prefix {ms ns : List (Message α ε)} (h : ms <+: ns) : items ms <+: items ns := by
  obtain ⟨rest, rfl⟩ := h
  rw [items_append]
  exact List.prefix_append _ _

theorem Worker.items_controls (worker : Worker α ε) : items worker.controls = [] := by
  cases worker with
  | done o => cases o <;> rfl
  | _ => rfl

theorem Worker.items_handed (worker : Worker α ε) (produced : List α) :
    items (worker.handed produced) = worker.taken produced := by
  rw [Worker.handed, items_append, items_map, Worker.items_controls, List.append_nil]

/-- What the worker has taken care of is a beginning of what was produced. -/
theorem Worker.taken_prefix (worker : Worker α ε) (produced : List α) :
    worker.taken produced <+: produced := by
  -- a broken loop has left its last item
  have h_kept : ∀ o : Ending ε, o.kept produced <+: produced := by
    intro o
    cases o with
    | broken => exact List.dropLast_prefix _
    | _ => exact List.prefix_refl _
  cases worker with
  | produced _ => exact List.dropLast_prefix _
  | pushing _ => exact List.dropLast_prefix _
  | leaving o => exact h_kept o
  | handing o => exact h_kept o
  | done o => exact h_kept o
  | _ => exact List.prefix_refl _

/-- A message that is no item stands behind all items. -/
theorem control_prefix {c : Message α ε} (h_c : ∀ a, c ≠ .item a) {ms : List (Message α ε)}
    (h_ms : ∀ a, .item a ∉ ms) {as bs : List α}
    (h : as.map .item ++ [c] <+: bs.map .item ++ ms) : as = bs ∧ [c] <+: ms := by
  -- by induction on the items before the control message
  induction as generalizing bs with
  | nil =>
    cases bs with
    | nil => exact ⟨rfl, h⟩
    -- an item is not a control message
    | cons b bs => exact absurd (List.cons_prefix_cons.mp h).1 (h_c b)
  | cons a as ih =>
    cases bs with
    -- and no item is left to face it
    | nil => exact absurd (h.subset (by simp)) (h_ms a)
    | cons b bs =>
      obtain ⟨h_head, h_tail⟩ := List.cons_prefix_cons.mp h
      obtain ⟨rfl, h_c⟩ := ih h_tail
      exact ⟨by rw [Message.item.inj h_head], h_c⟩

/-- What the consumer was given, is on the way, or is in hand is what the generator made. Once the
consumer is gone, the worker drops the item it has in hand. -/
structure Stream.Faithful (closed : Bool) (s : Stream α ε) : Prop where
  in_order : s.yielded <+: s.produced
  none_lost : closed = false → s.consumer ≠ .gone →
    s.yielded ++ items (s.queue ++ s.scheduled) ++ s.worker.inHand = s.produced
  finished : s.consumer = .finished → s.worker = .done .returned ∧ s.yielded = s.produced
  failed : ∀ e, s.consumer = .failed e →
    (s.worker = .closing e ∨ s.worker = .done (.raised e)) ∧ s.yielded = s.produced

namespace Stream

variable {closed : Bool} {s : Stream α ε}

/-- The items among the told messages are those yielded. -/
theorem items_told (s : Stream α ε) : items s.told = s.yielded := by
  unfold told
  split
  · rw [items_append, items_map]
    exact List.append_nil _
  · rw [items_append, items_map]
    exact List.append_nil _
  · exact items_map _

/-- The consumer that was given a message that is no item was given all items. -/
theorem Ok.all_yielded (h : s.Ok closed) {c : Message α ε} (h_c : ∀ a, c ≠ .item a)
    (h_told : s.told = s.yielded.map .item ++ [c]) :
    s.yielded = s.worker.taken s.produced ∧ [c] <+: s.worker.controls := by
  have h_prefix := h.told_handed
  rw [h_told] at h_prefix
  refine control_prefix h_c (fun a h_a => ?_) h_prefix
  have h_items : a ∈ items s.worker.controls := List.mem_filterMap.mpr ⟨_, h_a, rfl⟩
  rw [Worker.items_controls] at h_items
  cases h_items

/-- But for a broken loop, the item at hand is all that is not taken care of. -/
theorem Ok.taken_inHand (h : s.Ok closed) (h_kept : ∀ worker ∈
    [.leaving .broken, .handing .broken, .done .broken], s.worker ≠ worker) :
    s.worker.taken s.produced ++ s.worker.inHand = s.produced := by
  -- only a broken loop drops an item
  have h_ending : ∀ o : Ending ε, o ≠ .broken → o.kept s.produced ++ [] = s.produced := by
    intro o h_o
    cases o with
    | broken => exact absurd rfl h_o
    | _ => exact List.append_nil _
  have h_hand := h.hand
  cases h_worker : s.worker with
  -- the item at hand is the last one that was produced
  | produced a =>
    obtain ⟨as, h_as⟩ := List.getLast?_eq_some_iff.mp (h_hand a (.inl h_worker))
    simp [Worker.taken, Worker.inHand, h_as]
  | pushing a =>
    obtain ⟨as, h_as⟩ := List.getLast?_eq_some_iff.mp (h_hand a (.inr h_worker))
    simp [Worker.taken, Worker.inHand, h_as]
  | leaving o => exact h_ending o (by rintro rfl; exact h_kept _ (by simp) h_worker)
  | handing o => exact h_ending o (by rintro rfl; exact h_kept _ (by simp) h_worker)
  | done o => exact h_ending o (by rintro rfl; exact h_kept _ (by simp) h_worker)
  | _ => exact List.append_nil _

/-- A stream in order is faithful to its engine. -/
theorem Ok.faithful (h : s.Ok closed) : s.Faithful closed where
  in_order := by
    have h_items := items_prefix h.told_handed
    rw [items_told, Worker.items_handed] at h_items
    exact h_items.trans (s.worker.taken_prefix s.produced)
  none_lost h_open h_there := by
    -- a worker that broke off saw the stop event, which only a consumer that leaves sets
    have h_kept : ∀ worker ∈ [.leaving .broken, .handing .broken, .done .broken],
        s.worker ≠ worker := by
      intro worker h_worker h_eq
      have h_broken : s.worker = .leaving .broken ∨ s.worker = .handing .broken ∨
          s.worker = .done .broken := by
        simpa [h_eq] using h_worker
      rcases h.broken h_broken with h_gone | ⟨h_closed, -⟩
      · exact h_there h_gone
      · exact absurd (h_open.symm.trans h_closed) Bool.false_ne_true
    have h_items := congrArg items h.log
    rw [h.handed_open h_open, Worker.items_handed, List.append_assoc, items_append, h.told,
      items_told] at h_items
    rw [h_items, h.taken_inHand h_kept]
  finished h_c := by
    obtain ⟨h_yielded, h_controls⟩ := h.all_yielded (c := .ended) nofun (by rw [Stream.told, h_c])
    cases h_worker : s.worker with
    | done o =>
      cases o with
      | returned =>
        rw [h_worker] at h_yielded
        exact ⟨rfl, h_yielded⟩
      | raised e =>
        rw [h_worker] at h_controls
        cases (List.cons_prefix_cons.mp h_controls).1
      | broken =>
        rcases h.broken (.inr (.inr h_worker)) with h_gone | ⟨-, h_items⟩
        · rw [h_c] at h_gone
          cases h_gone
        · -- `_END` was received, hence sent
          have h_ended : Message.ended ∈ s.sent := by
            rw [← h.log, h.told, Stream.told, h_c]
            simp
          obtain ⟨a, h_a⟩ := h_items _ h_ended
          cases h_a
    | closing e =>
      rw [h_worker] at h_controls
      cases (List.cons_prefix_cons.mp h_controls).1
    | _ =>
      rw [h_worker] at h_controls
      cases List.prefix_nil.mp h_controls
  failed e h_c := by
    obtain ⟨h_yielded, h_controls⟩ :=
      h.all_yielded (c := .raised e) nofun (by rw [Stream.told, h_c])
    cases h_worker : s.worker with
    | done o =>
      rw [h_worker] at h_yielded h_controls
      cases o with
      | raised e' =>
        obtain rfl := Message.raised.inj (List.cons_prefix_cons.mp h_controls).1
        exact ⟨.inr rfl, h_yielded⟩
      | _ => cases (List.cons_prefix_cons.mp h_controls).1
    | closing e' =>
      rw [h_worker] at h_yielded h_controls
      obtain rfl := Message.raised.inj (List.cons_prefix_cons.mp h_controls).1
      exact ⟨.inl rfl, h_yielded⟩
    | _ =>
      rw [h_worker] at h_controls
      cases List.prefix_nil.mp h_controls

end Stream

/-! ### The system -/

/-- A party is inside if it works on an engine that is not safe. -/
theorem Party.inside_eq_some {threadSafe : ℕ → Bool} {p : Party α ε β} {k : ℕ} :
    p.inside threadSafe = some k ↔
      p.work.locked = true ∧ threadSafe p.engine = false ∧ p.engine = k := by
  unfold inside
  split_ifs with h
  · simp_all
  · simp_all

/-- The streams keep their invariant. -/
def Party.Ok (closed : Bool) (p : Party α ε β) : Prop :=
  ∀ s, p.work = .stream s → s.Ok closed

/-- A fresh party is in order. -/
theorem Party.ok_of_mem_fresh {tasks : List (ℕ × Bool)} {closed : Bool} {p : Party α ε β}
    (h : p ∈ fresh tasks) : p.Ok closed := by
  obtain ⟨task, -, rfl⟩ := List.mem_map.mp h
  intro s h_s
  cases h_kind : task.2 with
  | true =>
    obtain rfl : ({} : Stream α ε) = s := by simpa [h_kind] using h_s
    exact .init
  | false => simp [h_kind] at h_s

/-- A step of a party is a step of its work. -/
theorem engines_party_eq_some {threadSafe : ℕ → Bool} {closed : Bool} {p q : Party α ε β}
    {x : Action α ε β} :
    (engines threadSafe).party closed p x = some q ↔
      ∃ y, p.work.step closed x = some y ∧ q = { p with work := y } := by
  rw [show (engines threadSafe).party closed p x =
    (p.work.step closed x).map fun y => { p with work := y } from rfl, Option.map_eq_some_iff]
  exact exists_congr fun y => and_congr_right fun _ => eq_comm

/-- A step of a stream, seen from its party. -/
theorem stream_step {threadSafe : ℕ → Bool} {closed : Bool} {p q : Party α ε β}
    {x : Action α ε β} {t : Stream α ε} (h_step : (engines threadSafe).party closed p x = some q)
    (h_t : q.work = .stream t) : ∃ s, p.work = .stream s ∧ s.step closed x = some t := by
  obtain ⟨y, h_y, rfl⟩ := engines_party_eq_some.mp h_step
  obtain rfl : y = .stream t := h_t
  -- a call stays a call
  cases h_work : p.work with
  | call c =>
    rw [h_work, Work.step] at h_y
    obtain ⟨_, -, h_call⟩ := Option.map_eq_some_iff.mp h_y
    cases h_call
  | stream s =>
    rw [h_work, Work.step] at h_y
    obtain ⟨t', h_t, h_eq⟩ := Option.map_eq_some_iff.mp h_y
    obtain rfl := Work.stream.inj h_eq
    exact ⟨s, rfl, h_t⟩

/-- A step of a party keeps it in order. -/
theorem Party.Ok.step {threadSafe : ℕ → Bool} {closed : Bool} {p q : Party α ε β}
    {x : Action α ε β} (h : p.Ok closed)
    (h_step : (engines threadSafe).party closed p x = some q) : q.Ok closed := by
  intro t h_t
  obtain ⟨s, h_s, h_st⟩ := stream_step h_step h_t
  exact (h s h_s).step h_st

/-- The states the streams and calls on a loop can be in. -/
def Reachable (threadSafe : ℕ → Bool) (tasks : List (ℕ × Bool))
    (w : Locks (Party α ε β) Bool ℕ) : Prop :=
  ∃ steps, runSteps (Locks.step (engines threadSafe)) (Locks.start false (fresh tasks)) steps =
    some w

variable {threadSafe : ℕ → Bool} {tasks : List (ℕ × Bool)} {w v : Locks (Party α ε β) Bool ℕ}

/-- In a reachable state all parties are in order. -/
theorem Reachable.ok (h : Reachable threadSafe tasks w) : ∀ p ∈ w.parties, p.Ok w.env := by
  obtain ⟨steps, h_run⟩ := h
  refine Locks.run_invariant (I := Party.Ok) (fun e p x q h_p h_q => h_p.step h_q) ?_
    (fun p h_p => Party.ok_of_mem_fresh h_p) h_run
  intro e p _ e' h_p h_e s h_s
  obtain rfl : true = e' := Option.some.inj h_e
  exact (h_p s h_s).closeLoop

/-- And the locks are consistent. -/
theorem Reachable.consistent (h : Reachable threadSafe tasks w) :
    Locks.Consistent (engines threadSafe) w := by
  obtain ⟨steps, h_run⟩ := h
  refine Locks.consistent_run (Locks.consistent_start fun p h_p => ?_) h_run
  obtain ⟨task, -, rfl⟩ := List.mem_map.mp h_p
  cases task.2 <;> simp [engines, Party.inside, Work.locked, Worker.locked, Call.locked]

/-- **What a consumer is given is what the generator has made**, whatever the threads, the loop
and the consumers do in between. -/
theorem streams_faithful (h : Reachable threadSafe tasks w) {p : Party α ε β}
    (h_p : p ∈ w.parties) {s : Stream α ε} (h_s : p.work = .stream s) : s.Faithful w.env :=
  (h.ok p h_p s h_s).faithful

/-- A stream that is read to its end, item by item. -/
def oneItem : List (LockAction (Action ℕ String ℕ) Unit) :=
  [.enter, .produce 7, .check, .push, .finish, .deliver, .get, .release, .push, .resume, .deliver,
    .get].map (.party 0)

def oneItemEnd : Locks (Party ℕ String ℕ) Bool ℕ :=
  (runSteps (Locks.step (engines fun _ => false)) (Locks.start false (fresh [(0, true)]))
    oneItem).get rfl

theorem reachable_oneItemEnd : Reachable (fun _ => false) [(0, true)] oneItemEnd :=
  ⟨oneItem, (Option.some_get _).symm⟩

theorem streams_faithful_oneItem : ∃ s, oneItemEnd.parties = [⟨0, .stream s⟩] ∧
    s.consumer = .finished ∧ s.yielded = [7] ∧ s.Faithful oneItemEnd.env :=
  ⟨_, rfl, rfl, rfl,
    streams_faithful reachable_oneItemEnd (p := ⟨0, _⟩) (List.mem_singleton.mpr rfl) rfl⟩

/-- **One call at a time** on an engine that is not thread safe. -/
theorem engines_exclusive (h : Reachable threadSafe tasks w) {i j : ℕ} (h_ne : i ≠ j)
    {p q : Party α ε β} (h_p : w.parties[i]? = some p) (h_q : w.parties[j]? = some q)
    (h_engine : p.engine = q.engine) (h_bound : threadSafe p.engine = false)
    (h_locked : p.work.locked = true) : q.work.locked = false := by
  by_contra h_q_locked
  rw [Bool.not_eq_false] at h_q_locked
  refine h_ne (h.consistent.exclusive h_p h_q (k := p.engine) ?_ ?_)
  · exact Party.inside_eq_some.mpr ⟨h_locked, h_bound, rfl⟩
  · exact Party.inside_eq_some.mpr ⟨h_q_locked, h_engine ▸ h_bound, h_engine.symm⟩

/-- The stream is in its engine, and the call waits for it. -/
def streamFirst : Locks (Party ℕ String ℕ) Bool ℕ :=
  (Locks.step (engines fun _ => false) (Locks.start false (fresh [(0, true), (0, false)]))
    (.party 0 .enter)).get rfl

theorem reachable_streamFirst : Reachable (fun _ => false) [(0, true), (0, false)] streamFirst :=
  ⟨[.party 0 .enter], by
    rw [runSteps_cons]
    exact (Option.bind_fun_some _).trans (Option.some_get _).symm⟩

theorem engines_exclusive_streamFirst : ∃ p q, streamFirst.parties = [p, q] ∧
    p.engine = q.engine ∧ p.work.locked = true ∧ q.work.locked = false :=
  ⟨⟨0, .stream { worker := .inside }⟩, ⟨0, .call .starting⟩, rfl, rfl, rfl,
    engines_exclusive reachable_streamFirst (i := 0) (j := 1) (by decide) rfl rfl rfl rfl rfl⟩

/-! ### After the consumer has gone -/

/-- What the thread may still make. -/
def Worker.credit : Worker α ε → ℕ
  | .starting | .inside | .pushing _ => 1
  | _ => 0

theorem Worker.credit_le (worker : Worker α ε) : worker.credit ≤ 1 := by
  cases worker <;> simp [credit]

/-- The stream is stopped, and with what it may still make, it makes at most one item more than
were made when it was. -/
structure Stream.Stopped (made : List α) (s : Stream α ε) : Prop where
  stop : s.stop = true
  grown : made <+: s.produced
  spent : s.produced.length + s.worker.credit ≤ made.length + 1

@[simp] theorem Stream.push_worker (closed : Bool) (s : Stream α ε) (m : Message α ε) :
    (s.push closed m).worker = s.worker := by
  unfold push
  split <;> rfl

@[simp] theorem Stream.push_produced (closed : Bool) (s : Stream α ε) (m : Message α ε) :
    (s.push closed m).produced = s.produced := by
  unfold push
  split <;> rfl

/-- Pushing leaves the stop flag set. -/
theorem Stream.push_stop {closed : Bool} {s : Stream α ε} (m : Message α ε)
    (h : s.stop = true) : (s.push closed m).stop = true := by
  unfold push
  split
  · rfl
  · exact h

namespace Stream.Stopped

variable {closed : Bool} {s t : Stream α ε} {made : List α}

/-- A step at which the generator makes nothing. -/
theorem idle (h : s.Stopped made) (h_stop : t.stop = true) (h_produced : t.produced = s.produced)
    (h_credit : t.worker.credit ≤ s.worker.credit) : t.Stopped made where
  stop := h_stop
  grown := h_produced ▸ h.grown
  spent := by
    rw [h_produced]
    exact (Nat.add_le_add_left h_credit _).trans h.spent

/-- Once stopped, the engine may produce one more item. -/
theorem produce (h : s.Stopped made) (h_worker : s.worker = .inside) (a : α) :
    ({ s with worker := .produced a, produced := s.produced ++ [a] } : Stream α ε).Stopped
      made where
  stop := h.stop
  grown := h.grown.trans (List.prefix_append _ _)
  spent := by
    have h_spent := h.spent
    rw [h_worker] at h_spent
    simpa [Worker.credit] using h_spent

/-- Each step keeps what holds of a stopped stream. -/
theorem step (h : s.Stopped made) {x : Action α ε β} (h_step : s.step closed x = some t) :
    t.Stopped made := by
  cases x <;> simp only [Stream.step] at h_step
  case produce a =>
    split at h_step
    · next h_worker => exact Option.some.inj h_step ▸ h.produce h_worker a
    · cases h_step
  case check =>
    split at h_step
    · next h_worker =>
      obtain rfl := Option.some.inj h_step
      -- the item in hand is thrown away
      exact h.idle h.stop rfl (by simp [h.stop, Worker.credit])
    · cases h_step
  case push =>
    split at h_step
    · next h_worker =>
      obtain rfl := Option.some.inj h_step
      exact h.idle (push_stop _ h.stop) (push_produced ..) (by simp [h_worker, Worker.credit])
    · next h_worker =>
      obtain rfl := Option.some.inj h_step
      exact h.idle (push_stop _ h.stop) (push_produced ..) (by simp [Worker.credit])
    · next h_worker =>
      obtain rfl := Option.some.inj h_step
      exact h.idle (push_stop _ h.stop) (push_produced ..) (by simp [Worker.credit])
    · next h_worker =>
      obtain rfl := Option.some.inj h_step
      exact h.idle (push_stop _ h.stop) (push_produced ..) (by simp [Worker.credit])
    · cases h_step
  case get =>
    split at h_step
    · next m ms _ _ =>
      obtain rfl := Option.some.inj h_step
      cases m <;> exact h.idle (by simp [take, h.stop]) rfl le_rfl
    · cases h_step
  case answer => cases h_step
  case close =>
    split at h_step
    · cases h_step
    · exact Option.some.inj h_step ▸ h.idle rfl rfl le_rfl
  -- the thread goes on outside of the generator, or the loop does
  all_goals
    split at h_step
    · next h_worker => exact Option.some.inj h_step ▸ h.idle h.stop rfl (by simp [*, Worker.credit])
    · cases h_step

end Stream.Stopped

/-- **A generator whose consumer has gone makes at most one more item**: from any state in which
the stream is stopped, over any further steps of all the streams and calls. -/
theorem stopped_stream {steps : List (LockAction (Action α ε β) Unit)}
    (h_run : runSteps (Locks.step (engines threadSafe)) w steps = some v) {i : ℕ}
    {p q : Party α ε β} {s t : Stream α ε} (h_p : w.parties[i]? = some p)
    (h_s : p.work = .stream s) (h_stop : s.stop = true) (h_q : v.parties[i]? = some q)
    (h_t : q.work = .stream t) :
    t.stop = true ∧ s.produced <+: t.produced ∧ t.produced.length ≤ s.produced.length + 1 := by
  -- an invariant of the party at this place
  have h_run := Locks.run_invariant_at (i := i)
    (I := fun _ (p : Party α ε β) => ∀ t, p.work = .stream t → t.Stopped s.produced)
    (S := engines threadSafe) ?_ (fun _ _ _ _ h_p _ => h_p) ?_ h_run
  · -- at the end it gives the bound
    obtain ⟨h_stop, h_grown, h_spent⟩ := h_run q h_q t h_t
    exact ⟨h_stop, h_grown, by omega⟩
  · -- each step of the party keeps it
    intro closed p x q h_p h_step t h_t
    obtain ⟨u, h_u, h_ut⟩ := stream_step h_step h_t
    exact (h_p u h_u).step h_ut
  · -- and it holds at the start
    intro p' h_p' t h_t
    obtain rfl := Option.some.inj (h_p.symm.trans h_p')
    obtain rfl := Work.stream.inj (h_s.symm.trans h_t)
    exact ⟨h_stop, List.prefix_refl _, Nat.add_le_add_left (Worker.credit_le _) _⟩

/-- A stream whose consumer has gone while the thread is in the generator. -/
def goneConsumer : Locks (Party ℕ String ℕ) Bool ℕ :=
  ⟨false, [⟨0, .stream { worker := .inside, consumer := .gone, stop := true }⟩], fun _ => some 0⟩

/-- It yields once more, and the item is thrown away. -/
def goneLater : Locks (Party ℕ String ℕ) Bool ℕ :=
  ⟨false, [⟨0, .stream { worker := .leaving .broken, consumer := .gone, stop := true,
                         produced := [7] }⟩], fun _ => some 0⟩

theorem runSteps_goneConsumer : runSteps (Locks.step (engines fun _ => false)) goneConsumer
    [.party 0 (.produce 7), .party 0 .check] = some goneLater := rfl

theorem stopped_stream_goneConsumer : ∃ s t, goneConsumer.parties = [⟨0, .stream s⟩] ∧
    goneLater.parties = [⟨0, .stream t⟩] ∧ t.produced.length ≤ s.produced.length + 1 :=
  ⟨_, _, rfl, rfl, (stopped_stream runSteps_goneConsumer (i := 0) rfl rfl rfl rfl rfl).2.2⟩

/-! ### Where nothing goes on -/

/-- The thread is over, and on an open loop the consumer has left. -/
def Work.Settled (closed : Bool) : Work α ε β → Prop
  | .stream s => (∃ o, s.worker = .done o) ∧ (closed = false → s.consumer.left = true)
  | .call c => ∃ r, c = .done r

/-- A section can always be left. -/
theorem Work.exists_step [Inhabited β] (closed : Bool) {x : Work α ε β}
    (h : x.locked = true) : ∃ a, a ≠ Action.close ∧ (x.step closed a).isSome := by
  cases x with
  -- inside the lock the worker always has a next step
  | stream s =>
    cases h_worker : s.worker with
    | inside => exact ⟨.finish, nofun, by simp [step, Stream.step, h_worker]⟩
    | produced a => exact ⟨.check, nofun, by simp [step, Stream.step, h_worker]⟩
    | pushing a => exact ⟨.push, nofun, by simp [step, Stream.step, h_worker]⟩
    | leaving o => exact ⟨.release, nofun, by simp [step, Stream.step, h_worker]⟩
    | _ => simp [locked, Worker.locked, h_worker] at h
  -- and so has a call
  | call c =>
    cases c with
    | inside => exact ⟨.answer (.ok default), nofun, rfl⟩
    | leaving r => exact ⟨.release, nofun, rfl⟩
    | _ => cases h

namespace Stream

variable {closed : Bool} {s : Stream α ε}

/-- A thread that cannot go on is over. -/
theorem over_of_stuck (h : ∀ x : Action α ε β, x ≠ .close → s.step closed x = none) :
    ∃ o, s.worker = .done o := by
  cases h_worker : s.worker with
  | done o => exact ⟨o, rfl⟩
  | starting => simpa [Stream.step, h_worker] using h .enter nofun
  | inside => simpa [Stream.step, h_worker] using h .finish nofun
  | produced a => simpa [Stream.step, h_worker] using h .check nofun
  | pushing a => simpa [Stream.step, h_worker] using h .push nofun
  | leaving o => simpa [Stream.step, h_worker] using h .release nofun
  | handing o => cases o <;> simpa [Stream.step, h_worker] using h .push nofun
  | closing e => simpa [Stream.step, h_worker] using h .push nofun

/-- A consumer that waits while the thread is over will be given `_END`. -/
theorem Ok.left_of_stuck (h : s.Ok false)
    (h_stuck : ∀ x : Action α ε β, x ≠ .close → s.step false x = none) :
    s.consumer.left = true := by
  obtain ⟨o, h_worker⟩ := over_of_stuck h_stuck
  have h_scheduled : s.scheduled = [] := by
    cases h_s : s.scheduled with
    | nil => rfl
    | cons m ms => simpa [Stream.step, h_s] using h_stuck .deliver nofun
  cases h_c : s.consumer with
  | waiting =>
    have h_queue : s.queue = [] := by
      cases h_q : s.queue with
      | nil => rfl
      | cons m ms => simpa [Stream.step, h_c, h_q] using h_stuck .get nofun
    -- so the consumer has received all messages, `_END` among them
    have h_told : s.told = s.worker.handed s.produced := by
      rw [← h.told, ← h.handed_open rfl, ← h.log, h_queue, h_scheduled]
      simp
    have h_ended : Message.ended ∈ s.told := by
      rw [h_told, h_worker]
      cases o <;> simp [Worker.handed, Worker.controls, Ending.controls]
    simp [Stream.told, h_c] at h_ended
  | holding => simpa [Stream.step, h_c] using h_stuck .resume nofun
  | _ => rfl

end Stream

/-- **Everything comes to its end**: where no thread, no generator and no loop can go on, all
locks are free, all threads are over, and on an open loop no consumer is left waiting. -/
theorem engines_settle [Inhabited β] (h : Reachable threadSafe tasks w)
    (h_stuck : Locks.Stuck (engines threadSafe) (· ≠ .close) w) :
    (∀ engine, w.held engine = none) ∧ ∀ p ∈ w.parties, p.work.Settled w.env := by
  have h_leave : ∀ p ∈ w.parties, ∀ k, (engines threadSafe).inside p = some k →
      ∃ x q, x ≠ .close ∧ (engines threadSafe).party w.env p x = some q ∧
        ((engines threadSafe).inside q = none ∨ (engines threadSafe).inside q = some k) := by
    intro p _ k h_k
    obtain ⟨h_locked, h_bound, rfl⟩ := Party.inside_eq_some.mp h_k
    obtain ⟨x, h_x, h_some⟩ := Work.exists_step w.env h_locked
    obtain ⟨y, h_y⟩ := Option.isSome_iff_exists.mp h_some
    refine ⟨x, { p with work := y }, h_x, engines_party_eq_some.mpr ⟨y, h_y, rfl⟩, ?_⟩
    -- the engine is the one it was
    cases h_inside : Party.inside threadSafe { p with work := y } with
    | none => exact .inl h_inside
    | some k =>
      exact .inr (h_inside.trans (congrArg some (Party.inside_eq_some.mp h_inside).2.2.symm))
  refine ⟨h_stuck.free h_leave h.consistent, fun p h_p => ?_⟩
  have h_none : ∀ x : Action α ε β, x ≠ .close → p.work.step w.env x = none := by
    intro x h_x
    exact Option.map_eq_none_iff.mp (h_stuck.party_eq_none h_leave h.consistent h_p h_x)
  cases h_work : p.work with
  | stream s =>
    have h_stream : ∀ x : Action α ε β, x ≠ .close → s.step w.env x = none := by
      intro x h_x
      have h_x := h_none x h_x
      rw [h_work] at h_x
      exact Option.map_eq_none_iff.mp h_x
    refine ⟨Stream.over_of_stuck h_stream, fun h_open => ?_⟩
    have h_ok := h.ok p h_p s h_work
    rw [h_open] at h_ok h_stream
    exact h_ok.left_of_stuck h_stream
  | call c =>
    rw [h_work] at h_none
    cases c with
    | done r => exact ⟨r, rfl⟩
    | starting => cases h_none .enter nofun
    | inside => cases h_none (.answer (.ok default)) nofun
    | leaving r => cases h_none .release nofun

/-- A stream and a call on one engine; the call comes in once the stream has let go of the lock. -/
def oneAfterTheOther : List (LockAction (Action ℕ String ℕ) Unit) :=
  [.enter, .produce 7, .check, .push, .finish, .deliver, .get, .release].map (.party 0) ++
    [.party 1 .enter, .party 0 .push, .party 0 .resume, .party 1 (.answer (.ok 3)), .party 0 .deliver,
      .party 1 .release, .party 0 .get]

def bothOver : Locks (Party ℕ String ℕ) Bool ℕ :=
  (runSteps (Locks.step (engines fun _ => false)) (Locks.start false (fresh [(0, true), (0, false)]))
    oneAfterTheOther).get rfl

theorem reachable_bothOver : Reachable (fun _ => false) [(0, true), (0, false)] bothOver :=
  ⟨oneAfterTheOther, (Option.some_get _).symm⟩

/-- The call cannot come in before the stream has let go of the lock. -/
theorem engines_settle_oneAfterTheOther :
    Locks.step (engines fun _ => false) streamFirst (.party 1 .enter) = none ∧
      (∀ engine, bothOver.held engine = none) ∧
      ∀ p ∈ bothOver.parties, p.work.Settled bothOver.env := by
  refine ⟨rfl, engines_settle reachable_bothOver fun i x h_x => ?_⟩
  rcases i with _ | _ | i
  · cases x <;> rfl
  · cases x <;> rfl
  · rfl

end Nexus.Server
