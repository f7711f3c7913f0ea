import NexusAgent.Lib.Dict
import NexusAgent.Lib.Steps
import NexusAgent.Serve.Replay

/-!
# The buffers of a server

`StreamReplayBuffer` keeps one buffer under each replay key, and `buffered_stream` writes
the events of a run under the key of the run: `start` puts a new buffer there, `append` and
`finish` act on whatever buffer is there at that moment, and `append` makes one when there
is none.

The runs are numbered, and `key` gives each its replay key; any number of them may have the
same one. A buffer that was replaced or pruned lives on for the readers that hold it, so
all buffers ever made are kept, with the run that made each. Pruning is an action of its
own: it may drop any entries at any time, which covers every clock.
-/

open Lib

namespace Nexus

variable {K π : Type} [DecidableEq K]

/-- A buffer that a run made, with the readers that hold it. -/
structure RunBuffer (π : Type) where
  run : ℕ
  channel : Channel π := {}
  deriving DecidableEq, Repr

/-- `StreamReplayBuffer`: the buffers made so far, where the entry of each key is among
them, and the runs that `buffered_stream` has started and finished. -/
structure StreamReplayBuffer (K π : Type) where
  made : List (RunBuffer π) := []
  buffers : Dict K ℕ := []
  started : List ℕ := []
  finished : List ℕ := []
  deriving DecidableEq, Repr

/-- What happens between two suspension points. -/
inductive StreamAction (K π : Type)
  | prune (expired : List K)
  | start (run : ℕ)
  | append (run : ℕ) (event : ℕ × π)
  | finish (run : ℕ)
  | attach (key : K) (after : ℕ)
  | next (buffer reader : ℕ)
  deriving DecidableEq, Repr

namespace StreamReplayBuffer

/-- Makes a buffer for a run and puts it under the run's key. -/
def create (key : ℕ → K) (run : ℕ) (s : StreamReplayBuffer K π) : StreamReplayBuffer K π :=
  { s with
    made := s.made ++ [{ run := run }]
    buffers := s.buffers.set (key run) s.made.length }

/-- An action on the `j`-th buffer. -/
def act (maxEvents : ℕ) (j : ℕ) (a : ChannelAction π) (s : StreamReplayBuffer K π) :
    Option (StreamReplayBuffer K π) := do
  let b ← s.made[j]?
  let c ← b.channel.step maxEvents a
  return { s with made := s.made.set j { b with channel := c } }

/-- The run that made the buffer under a key. -/
def owner (s : StreamReplayBuffer K π) (k : K) : Option ℕ := do
  let j ← s.buffers.get? k
  let b ← s.made[j]?
  return b.run

/-- Whether a run is between its `start` and its `finish`. -/
def Running (s : StreamReplayBuffer K π) (run : ℕ) : Prop := run ∈ s.started ∧ run ∉ s.finished

instance (s : StreamReplayBuffer K π) (run : ℕ) : Decidable (s.Running run) :=
  inferInstanceAs (Decidable (_ ∧ _))

/-- One action. A reader of a key without an entry gets a `KeyError`, so it does not come to
be; `finish` without an entry does nothing to the buffers. -/
def step (key : ℕ → K) (maxEvents : ℕ) (s : StreamReplayBuffer K π) :
    StreamAction K π → Option (StreamReplayBuffer K π)
  | .prune expired => some { s with buffers := s.buffers.filter fun p => p.1 ∉ expired }
  | .start run =>
    if run ∈ s.started then none
    else some { s.create key run with started := run :: s.started }
  | .append run event =>
    if s.Running run then
      match s.buffers.get? (key run) with
      | some j => s.act maxEvents j (.append event)
      | none => (s.create key run).act maxEvents s.made.length (.append event)
    else none
  | .finish run =>
    if s.Running run then
      match s.buffers.get? (key run) with
      | some j => ({ s with finished := run :: s.finished }).act maxEvents j .finish
      | none => some { s with finished := run :: s.finished }
    else none
  | .attach k after => do
    let j ← s.buffers.get? k
    s.act maxEvents j (.attach after)
  | .next j i => s.act maxEvents j (.next i)

end StreamReplayBuffer
end Nexus
