import NexusAgent.Serve.Board
import NexusAgent.Serve.Completeness

/-!
# Runs that share a replay key

Two runs on one replay key write through one entry. While each of them finds its own buffer
there, or none, a buffer carries the events of the run that made it and nothing else, and
it is marked done by that run only.

* `RunBuffer.Fed`: the invariant of a buffer.
* `readers_isolated`: what a reader received, and when it ended.
* `readers_mixed`: a run that was replaced writes into the buffer of its successor.
-/

open Lib

namespace Nexus

variable {K π : Type} [DecidableEq K]

/-! ### The invariant of a buffer -/

/-- A reader that has received, and has before it, events of the run only, and that has
ended after the end of the run only. -/
structure Reader.Served (actions : List (StreamAction K π)) (run : ℕ) (r : Reader π) : Prop where
  received : ∀ e ∈ r.received, .append run e ∈ actions
  rest : ∀ rest, r.phase = .yielding rest → ∀ e ∈ rest, .append run e ∈ actions
  ended : r.phase = .ended → .finish run ∈ actions

/-- A buffer with the events of the run that made it, marked done by that run. -/
structure RunBuffer.Fed (actions : List (StreamAction K π)) (b : RunBuffer π) : Prop where
  events : ∀ e ∈ b.channel.buffer.events, .append b.run e ∈ actions
  done : b.channel.buffer.done = true → .finish b.run ∈ actions
  readers : ∀ r ∈ b.channel.readers, r.Served actions b.run

omit [DecidableEq K] in
/-- More actions serve a reader as well. -/
theorem Reader.Served.mono {actions actions' : List (StreamAction K π)} {run : ℕ} {r : Reader π}
    (h : r.Served actions run) (h_sub : actions ⊆ actions') : r.Served actions' run where
  received e he := h_sub (h.received e he)
  rest rest h_rest e he := h_sub (h.rest rest h_rest e he)
  ended h_ended := h_sub (h.ended h_ended)

omit [DecidableEq K] in
/-- And they feed a buffer as well. -/
theorem RunBuffer.Fed.mono {actions actions' : List (StreamAction K π)} {b : RunBuffer π}
    (h : b.Fed actions) (h_sub : actions ⊆ actions') : b.Fed actions' where
  events e he := h_sub (h.events e he)
  done h_done := h_sub (h.done h_done)
  readers r hr := (h.readers r hr).mono h_sub

omit [DecidableEq K] in
/-- A new buffer. -/
theorem RunBuffer.fed_new (actions : List (StreamAction K π)) (run : ℕ) :
    RunBuffer.Fed actions ({ run := run } : RunBuffer π) where
  events e he := by cases he
  done h := by cases h
  readers r hr := by cases hr

omit [DecidableEq K] in
/-- Waking a reader up serves it nothing. -/
theorem Reader.Served.wake {actions : List (StreamAction K π)} {run : ℕ} {r : Reader π}
    (h : r.Served actions run) : r.wake.Served actions run where
  received := by
    rw [r.wake_eq.2.2]
    exact h.received
  rest rest h_rest := h.rest rest (wake_phase.mp h_rest)
  ended h_ended := h.ended (wake_ended.mp h_ended)

section Resumed

variable {actions : List (StreamAction K π)} {run : ℕ} {b : SessionBuffer π} {r r' : Reader π}

omit [DecidableEq K] in
/-- Yielding an event of the run. -/
theorem Reader.Served.yieldEvent (h : r.Served actions run) {e : ℕ × π} {rest : List (ℕ × π)}
    (h_events : ∀ e' ∈ e :: rest, .append run e' ∈ actions) :
    (r.yieldEvent e rest).Served actions run where
  received e' he' := by
    -- an earlier event, or the new one
    rcases List.mem_append.mp he' with h_old | h_new
    · exact h.received e' h_old
    · obtain rfl := List.mem_singleton.mp h_new
      exact h_events e' List.mem_cons_self
  rest rest' h_rest e' he' := by
    obtain rfl := ReaderPhase.yielding.inj h_rest
    exact h_events e' (List.mem_cons_of_mem e he')
  ended h_ended := by cases h_ended

omit [DecidableEq K] in
/-- A reader that is resumed on a buffer of the run. -/
theorem Reader.Served.resumed (h : r.Served actions run)
    (h_events : ∀ e ∈ b.events, .append run e ∈ actions)
    (h_done : b.done = true → .finish run ∈ actions) (h_step : Resumed b r r') :
    r'.Served actions run := by
  -- what is new comes from the buffer
  have h_newer : ∀ e ∈ b.newer r.cursor, .append run e ∈ actions :=
    fun e he => h_events e (List.mem_of_mem_filter he)
  cases h_step with
  | nextEvent h_phase => exact h.yieldEvent (h.rest _ h_phase)
  | newPass h_new => exact h.yieldEvent (h_new ▸ h_newer)
  -- the run is done, so it has finished
  | passEnded _ h_end => exact ⟨h.received, nofun, fun _ => h_done h_end⟩
  | nothingNew _ h_end => exact ⟨h.received, nofun, fun _ => h_done h_end⟩
  | waits => exact ⟨h.received, nofun, nofun⟩

end Resumed

/-! ### One action -/

/-- What an action on a buffer has to bring along: an event is one of the run's, and the end
is the run's. -/
def ChannelAction.Of (actions : List (StreamAction K π)) (run : ℕ) : ChannelAction π → Prop
  | .append event => .append run event ∈ actions
  | .finish => .finish run ∈ actions
  | .attach _ | .next _ => True

omit [DecidableEq K] in
/-- An action on a buffer that is of its run. -/
theorem RunBuffer.Fed.act {maxEvents : ℕ} {actions : List (StreamAction K π)} {b : RunBuffer π}
    {c : Channel π} {a : ChannelAction π} (h : b.Fed actions) (h_of : a.Of actions b.run)
    (h_step : b.channel.step maxEvents a = some c) :
    RunBuffer.Fed actions { b with channel := c } := by
  have h_woken : ∀ r ∈ b.channel.readers.map Reader.wake, r.Served actions b.run := by
    intro r hr
    obtain ⟨r₀, h_r₀, rfl⟩ := List.mem_map.mp hr
    exact (h.readers r₀ h_r₀).wake
  -- a reader's action changes that reader only
  have h_reader : a.byReader = true → RunBuffer.Fed actions { b with channel := c } := by
    intro h_by
    obtain ⟨⟨h_events, h_done⟩, j, r₀, r', h_resumed, h_readers⟩ :=
      Channel.readers_of_step h_by h_step
    have h_r₀ : r₀.Served actions b.run := by
      rcases h_readers with ⟨h_get, -⟩ | ⟨h_new, -⟩
      · exact h.readers r₀ (List.mem_of_getElem? h_get)
      · rw [h_new]
        exact ⟨nofun, nofun, nofun⟩
    have h_r' : r'.Served actions b.run := h_r₀.resumed h.events h.done h_resumed
    refine ⟨?_, ?_, fun r hr => ?_⟩
    · show ∀ e ∈ c.buffer.events, _
      rw [h_events]
      exact h.events
    · show c.buffer.done = true → _
      rw [h_done]
      exact h.done
    · rcases h_readers with ⟨-, h_eq⟩ | ⟨-, h_eq⟩
      · rcases List.mem_or_eq_of_mem_set (h_eq ▸ hr : r ∈ b.channel.readers.set j r') with h_old | rfl
        · exact h.readers r h_old
        · exact h_r'
      · rcases List.mem_append.mp (h_eq ▸ hr : r ∈ b.channel.readers ++ [r']) with h_old | h_new
        · exact h.readers r h_old
        · obtain rfl := List.mem_singleton.mp h_new
          exact h_r'
  cases a with
  | attach after => exact h_reader rfl
  | next i => exact h_reader rfl
  | finish =>
    obtain rfl := Option.some.inj h_step
    exact ⟨h.events, fun _ => h_of, h_woken⟩
  | append event =>
    obtain rfl := Option.some.inj h_step
    refine ⟨fun e he => ?_, h.done, h_woken⟩
    rcases List.mem_append.mp (List.mem_of_mem_drop he) with h_old | h_new
    · exact h.events e h_old
    · obtain rfl := List.mem_singleton.mp h_new
      exact h_of

namespace StreamReplayBuffer

/-- What holds after the actions: every buffer is fed by its own run, the entries are
buffers that were made, and the runs that finished did so. -/
structure Kept (actions : List (StreamAction K π)) (s : StreamReplayBuffer K π) : Prop where
  fed : ∀ b ∈ s.made, b.Fed actions
  entries : ∀ k j, s.buffers.get? k = some j → j < s.made.length
  finished : ∀ run ∈ s.finished, .finish run ∈ actions

/-- The steps that leave other runs alone: a run appends when the entry under its key is its
own or missing, and it finishes when the entry is its own, missing, or one of a run that has
finished. -/
def LeavesOthers (key : ℕ → K) (s : StreamReplayBuffer K π) : StreamAction K π → Prop
  | .append run _ => ∀ owner ∈ s.owner (key run), owner = run
  | .finish run => ∀ owner ∈ s.owner (key run), owner = run ∨ owner ∈ s.finished
  | _ => True

instance (key : ℕ → K) (s : StreamReplayBuffer K π) (a : StreamAction K π) :
    Decidable (s.LeavesOthers key a) := by
  cases a <;> unfold LeavesOthers <;> infer_instance

/-- The owner of a key is the run of its buffer. -/
theorem owner_eq {s : StreamReplayBuffer K π} {k : K} {j : ℕ} {b : RunBuffer π}
    (h_entry : s.buffers.get? k = some j) (h_made : s.made[j]? = some b) :
    s.owner k = some b.run := by
  unfold owner
  rw [h_entry]
  show (s.made[j]?.bind fun b => some b.run) = some b.run
  rw [h_made]
  rfl

omit [DecidableEq K] in
/-- An action on a buffer is a step of its channel. -/
theorem act_eq_some {maxEvents j : ℕ} {a : ChannelAction π} {s t : StreamReplayBuffer K π} :
    s.act maxEvents j a = some t ↔ ∃ b c, s.made[j]? = some b ∧
      b.channel.step maxEvents a = some c ∧
        t = { s with made := s.made.set j { b with channel := c } } := by
  unfold act
  simp only [Option.bind_eq_bind, Option.bind_eq_some_iff, Option.pure_def, Option.some.injEq]
  constructor
  · rintro ⟨b, h_b, c, h_c, rfl⟩
    exact ⟨b, c, h_b, h_c, rfl⟩
  · rintro ⟨b, c, h_b, h_c, rfl⟩
    exact ⟨b, h_b, c, h_c, rfl⟩

/-- More actions than those that made the state. -/
theorem Kept.mono {actions actions' : List (StreamAction K π)} {s : StreamReplayBuffer K π}
    (h : s.Kept actions) (h_sub : actions ⊆ actions') : s.Kept actions' where
  fed b hb := (h.fed b hb).mono h_sub
  entries := h.entries
  finished run h_run := h_sub (h.finished run h_run)

/-- An action on one buffer that is of the buffer's run. -/
theorem Kept.act {maxEvents j : ℕ} {actions : List (StreamAction K π)} {a : ChannelAction π}
    {s t : StreamReplayBuffer K π} (h : s.Kept actions) (h_act : s.act maxEvents j a = some t)
    (h_of : ∀ b, s.made[j]? = some b → a.Of actions b.run) : t.Kept actions := by
  obtain ⟨b, c, h_b, h_c, rfl⟩ := act_eq_some.mp h_act
  refine ⟨fun b' hb' => ?_, fun k i h_entry => ?_, h.finished⟩
  · rcases List.mem_or_eq_of_mem_set hb' with h_old | rfl
    · exact h.fed b' h_old
    · exact (h.fed b (List.mem_of_getElem? h_b)).act (h_of b h_b) h_c
  · show i < (s.made.set j _).length
    rw [List.length_set]
    exact h.entries k i h_entry

/-- A new buffer under a key. -/
theorem Kept.create {actions : List (StreamAction K π)} {s : StreamReplayBuffer K π}
    (h : s.Kept actions) (key : ℕ → K) (run : ℕ) : (s.create key run).Kept actions where
  fed b hb := by
    rcases List.mem_append.mp hb with h_old | h_new
    · exact h.fed b h_old
    · obtain rfl := List.mem_singleton.mp h_new
      exact RunBuffer.fed_new actions run
  entries k j h_entry := by
    have h_entry : (s.buffers.set (key run) s.made.length).get? k = some j := h_entry
    show j < (s.made ++ [_]).length
    rw [Dict.get?_set] at h_entry
    rw [List.length_append, List.length_singleton]
    split_ifs at h_entry
    · obtain rfl := Option.some.inj h_entry
      omega
    · have := h.entries k j h_entry
      omega
  finished := h.finished

/-- **One action keeps the buffers fed by their own runs**, if it leaves others alone. -/
theorem Kept.step {key : ℕ → K} {maxEvents : ℕ} {actions : List (StreamAction K π)}
    {s t : StreamReplayBuffer K π} {a : StreamAction K π} (h : s.Kept actions)
    (h_alone : s.LeavesOthers key a) (h_step : s.step key maxEvents a = some t) :
    t.Kept (actions ++ [a]) := by
  have h_more : s.Kept (actions ++ [a]) := h.mono (List.subset_append_left _ _)
  have h_last : a ∈ actions ++ [a] := by simp
  cases a with
  | prune expired =>
    obtain rfl := Option.some.inj h_step
    refine ⟨h_more.fed, fun k j h_entry => ?_, h_more.finished⟩
    -- pruning takes entries away, and touches no buffer
    have h_entry : Dict.get? (s.buffers.filter fun p => p.1 ∉ expired) k = some j := h_entry
    rw [Dict.get?_filter s.buffers (fun k => decide (k ∉ expired))] at h_entry
    split_ifs at h_entry
    exact h.entries k j h_entry
  | start run =>
    simp only [StreamReplayBuffer.step] at h_step
    split_ifs at h_step
    obtain rfl := Option.some.inj h_step
    have h_made := h_more.create key run
    exact ⟨h_made.fed, h_made.entries, h_made.finished⟩
  | append run event =>
    simp only [StreamReplayBuffer.step] at h_step
    split_ifs at h_step
    cases h_entry : s.buffers.get? (key run) with
    | some j =>
      rw [h_entry] at h_step
      refine h_more.act h_step fun b h_b => ?_
      show StreamAction.append b.run event ∈ _
      -- the buffer of the key is that of this run, as no other run has the key
      rw [h_alone b.run (owner_eq h_entry h_b)]
      exact h_last
    | none =>
      rw [h_entry] at h_step
      refine (h_more.create key run).act h_step fun b h_b => ?_
      -- no entry: the event opens a buffer of its own
      have h_b : (s.made ++ [{ run := run }])[s.made.length]? = some b := h_b
      rw [List.getElem?_concat_length] at h_b
      obtain rfl := Option.some.inj h_b
      exact h_last
  | finish run =>
    simp only [StreamReplayBuffer.step] at h_step
    split_ifs at h_step
    have h_ended : StreamReplayBuffer.Kept (actions ++ [.finish run])
        { s with finished := run :: s.finished } := by
      refine ⟨h_more.fed, h.entries, fun run' h_run' => ?_⟩
      rcases List.mem_cons.mp h_run' with rfl | h_old
      · exact h_last
      · exact h_more.finished run' h_old
    cases h_entry : s.buffers.get? (key run) with
    | some j =>
      rw [h_entry] at h_step
      refine h_ended.act h_step fun b h_b => ?_
      show StreamAction.finish b.run ∈ _
      -- the buffer is this run's, or that of a run that is over
      rcases h_alone b.run (owner_eq h_entry h_b) with h_own | h_over
      · rw [h_own]
        exact h_last
      · exact h_more.finished b.run h_over
    | none =>
      rw [h_entry] at h_step
      obtain rfl := Option.some.inj h_step
      exact h_ended
  | attach k after =>
    obtain ⟨j, -, h_act⟩ := Option.bind_eq_some_iff.mp h_step
    exact h_more.act h_act fun _ _ => trivial
  | next j i => exact h_more.act h_step fun _ _ => trivial

/-- **The invariant of the buffers**, after any interleaving of runs and readers whose steps
leave other runs alone. -/
theorem kept {key : ℕ → K} {maxEvents : ℕ} {actions : List (StreamAction K π)}
    {s : StreamReplayBuffer K π} (h_run : runSteps (step key maxEvents) {} actions = some s)
    (h_alone : EachStep (step key maxEvents) (LeavesOthers key) {} actions) : s.Kept actions := by
  refine runSteps_history_of_each (I := Kept) ?_ ?_ h_run h_alone
  · exact ⟨nofun, nofun, nofun⟩
  · intro as s a t _ ih h_a h_step
    exact ih.step h_a h_step

end StreamReplayBuffer

/-! ### Isolation -/

/-- Every reader has received events of the run whose buffer it holds only, and has ended
after the end of that run only. -/
def ReadersIsolated (actions : List (StreamAction K π)) (s : StreamReplayBuffer K π) : Prop :=
  ∀ b ∈ s.made, ∀ r ∈ b.channel.readers,
    (∀ e ∈ r.received, .append b.run e ∈ actions) ∧ (r.phase = .ended → .finish b.run ∈ actions)

/-- **Readers are isolated** after any interleaving of any number of runs, readers and
prunings, when each run that appends or finishes finds no running run's buffer but its own
under its key. -/
theorem readers_isolated (key : ℕ → K) (maxEvents : ℕ) {actions : List (StreamAction K π)}
    {s : StreamReplayBuffer K π}
    (h_run : runSteps (StreamReplayBuffer.step key maxEvents) {} actions = some s)
    (h_alone : EachStep (StreamReplayBuffer.step key maxEvents)
      (StreamReplayBuffer.LeavesOthers key) {} actions) : ReadersIsolated actions s := by
  intro b hb r hr
  have h_served := ((StreamReplayBuffer.kept h_run h_alone).fed b hb).readers r hr
  exact ⟨h_served.received, h_served.ended⟩

/-- One run after the other on one key, the entry of the first one pruned in between, and a
reader of each. -/
def successiveRuns : List (StreamAction String String) :=
  [.start 0, .append 0 (1, "mine"), .attach "" 0, .finish 0, .next 0 0, .prune [""], .start 1,
    .append 1 (1, "yours"), .attach "" 0, .finish 1, .next 1 0]

/-- Two successive runs: each reader gets its own. -/
theorem readers_isolated_successive : ∃ s,
    runSteps (StreamReplayBuffer.step (fun _ => "") 500) {} successiveRuns = some s ∧
      s.made.map (fun b => b.channel.readers.map Reader.received) =
        [[[(1, "mine")]], [[(1, "yours")]]] ∧ ReadersIsolated successiveRuns s :=
  ⟨_, rfl, by decide, readers_isolated (fun _ => "") 500 rfl (by decide)⟩

/-- A second run that starts on the key of the first one, and gets a reader. -/
def overlappingRuns : List (StreamAction String String) :=
  [.start 0, .start 1, .attach "" 0, .append 0 (1, "mine"), .finish 0, .next 1 0, .next 1 0]

/-- **A run that was replaced writes to its successor's readers**, and ends their streams. -/
theorem readers_mixed :
    ¬ ∀ (actions : List (StreamAction String String)) (s : StreamReplayBuffer String String),
      runSteps (StreamReplayBuffer.step (fun _ => "") 500) {} actions = some s →
        ReadersIsolated actions s := by
  intro h
  have h_mixed := h overlappingRuns _ rfl ⟨1, ⟨⟨[(1, "mine")], true, false⟩,
    [{ after := 0, cursor := 1, received := [(1, "mine")], phase := .ended }]⟩⟩ (by decide) _
    List.mem_cons_self
  have h_own : StreamAction.append 1 (1, "mine") ∈ overlappingRuns := h_mixed.1 _ (by decide)
  revert h_own
  decide

end Nexus
