import Mathlib.Data.List.Basic

/-!
# The stream replay buffer

`nexus/serve/replay.py`: the events of a run in a bounded buffer, and readers that replay
them and then follow the run.

A `Channel` is one `_SessionBuffer` with the readers that hold it. Its actions are what
runs between two suspension points of asyncio: the writer's `append` and `finish`, a reader
that starts (`attach`), and a reader that is resumed (`next`), at the event it yielded last
or after its wait. A reader takes a copy of the buffered events at the top of each pass and
looks at `done` at the end of the pass only.

Readers share one wake-up flag: setting it wakes all that wait at that moment, and each of
them clears it when it goes on.
-/

namespace Nexus

variable {π : Type}

/-! ### The buffer -/

/-- `_SessionBuffer`; `newData` is the flag of its `asyncio.Event`. -/
structure SessionBuffer (π : Type) where
  events : List (ℕ × π) := []
  done : Bool := false
  newData : Bool := false
  deriving DecidableEq, Repr

namespace SessionBuffer

/-- `_SessionBuffer.append`: a full deque drops its oldest event. -/
def append (maxEvents : ℕ) (event : ℕ × π) (b : SessionBuffer π) : SessionBuffer π :=
  { b with
    events := (b.events ++ [event]).drop (b.events.length + 1 - maxEvents)
    newData := true }

/-- `_SessionBuffer.finish`. -/
def finish (b : SessionBuffer π) : SessionBuffer π := { b with done := true, newData := true }

/-- The buffered events after a cursor. -/
def newer (b : SessionBuffer π) (cursor : ℕ) : List (ℕ × π) :=
  b.events.filter fun e => cursor < e.1

end SessionBuffer

/-! ### Readers -/

/-- Where a reader stands. -/
inductive ReaderPhase (π : Type)
  /-- At a yield, with what is left of the copy its pass works on. -/
  | yielding (rest : List (ℕ × π))
  /-- In `wait`, woken or not. -/
  | waiting (woken : Bool)
  | ended
  deriving DecidableEq, Repr

/-- One iteration of `replay`, with the events it has yielded. -/
structure Reader (π : Type) where
  after : ℕ
  cursor : ℕ
  received : List (ℕ × π) := []
  phase : ReaderPhase π := .yielding []
  deriving DecidableEq, Repr

namespace Reader

/-- The reader yields an event, with `rest` left of its pass. -/
def yieldEvent (e : ℕ × π) (rest : List (ℕ × π)) (r : Reader π) : Reader π :=
  { r with cursor := e.1, received := r.received ++ [e], phase := .yielding rest }

/-- What setting the flag does to a reader. -/
def wake (r : Reader π) : Reader π :=
  match r.phase with
  | .waiting _ => { r with phase := .waiting true }
  | _ => r

/-- A reader goes on after `wait`: it clears the flag and begins a pass, which ends at once
when nothing is new. -/
def goOn (b : SessionBuffer π) (r : Reader π) : SessionBuffer π × Reader π :=
  ({ b with newData := false },
    match b.newer r.cursor with
    | e :: rest => r.yieldEvent e rest
    | [] => { r with phase := if b.done then .ended else .waiting false })

/-- The end of a pass: return when the run is done, else wait, which comes back at once
when the flag is set. -/
def endPass (b : SessionBuffer π) (r : Reader π) : SessionBuffer π × Reader π :=
  if b.done then (b, { r with phase := .ended })
  else if b.newData then r.goOn b
  else (b, { r with phase := .waiting false })

/-- The first pass. -/
def start (b : SessionBuffer π) (after : ℕ) : SessionBuffer π × Reader π :=
  let r : Reader π := { after := after, cursor := after }
  match b.newer after with
  | e :: rest => (b, r.yieldEvent e rest)
  | [] => r.endPass b

/-- A reader that is resumed; one that waits unwoken or has ended is not. -/
def resume (b : SessionBuffer π) (r : Reader π) : Option (SessionBuffer π × Reader π) :=
  match r.phase with
  | .yielding (e :: rest) => some (b, r.yieldEvent e rest)
  | .yielding [] => some (r.endPass b)
  | .waiting true => some (r.goOn b)
  | .waiting false => none
  | .ended => none

end Reader

/-! ### Channels -/

/-- A buffer and the readers that hold it, in the order they came. -/
structure Channel (π : Type) where
  buffer : SessionBuffer π := {}
  readers : List (Reader π) := []
  deriving DecidableEq, Repr

/-- What happens between two suspension points. -/
inductive ChannelAction (π : Type)
  | append (event : ℕ × π)
  | finish
  | attach (after : ℕ)
  | next (i : ℕ)
  deriving DecidableEq, Repr

/-- The event an action writes. -/
def ChannelAction.event? : ChannelAction π → Option (ℕ × π)
  | .append event => some event
  | _ => none

/-- Whether an action is a reader's. -/
def ChannelAction.byReader : ChannelAction π → Bool
  | .attach _ | .next _ => true
  | _ => false

/-- One action on a channel. -/
def Channel.step (maxEvents : ℕ) (c : Channel π) : ChannelAction π → Option (Channel π)
  | .append event =>
    some { buffer := c.buffer.append maxEvents event, readers := c.readers.map Reader.wake }
  | .finish => some { buffer := c.buffer.finish, readers := c.readers.map Reader.wake }
  | .attach after =>
    let (b, r) := Reader.start c.buffer after
    some { buffer := b, readers := c.readers ++ [r] }
  | .next i =>
    (c.readers[i]?.bind (Reader.resume c.buffer)).map fun p =>
      { buffer := p.1, readers := c.readers.set i p.2 }

end Nexus
