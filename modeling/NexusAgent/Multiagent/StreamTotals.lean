import NexusAgent.Multiagent.Completion
import NexusAgent.Multiagent.Queue
import NexusAgent.Multiagent.Totals

/-!
# What the totals of a streaming group add up

A streaming pattern adds up the data of the `final_response` events it passes on, and the
results of delegations as the blocking pattern does. The dump of a run has its recurring
savings under another key than the one the patterns look at.

* `Meter.heard` are the agent runs below a streaming group whose results got into its result,
  and `Meter.unheard` the others, where no nested group is streamed (`Flat`).
* `Meter.streamed_eq` says that such a group reports the sum over the runs it heard, also when
  it failed.
-/

open Lib

namespace Nexus.Team

variable {script : Script} {config : GroupConfig} {path : Path}

/-- No run among some is the streaming run of a nested group. -/
def Flat (inner : List Trace) : Prop := ∀ t ∈ inner, t.slot.role = .delegate ∨ t.isGroup = false

/-! ### Streams of agents -/

/-- The stream of a member run that was not a group's is that of an agent. -/
theorem StreamTells.runner {part : Part} {slot : Slot} {streamed : Streamed}
    (h : StreamTells part slot streamed) (h_agent : streamed.trace.isGroup = false) :
    ∃ agent, part = .runner agent := by
  rw [h.isGroup] at h_agent
  cases part with
  | runner agent => exact ⟨agent, rfl⟩
  | orchestrator maxTurns run stream => cases h_agent

/-- The stream of an agent in a slot. -/
def StreamsAgent (slot : Slot) (streamed : Streamed) : Prop := ∃ run, streamed = streamOf slot run

theorem streamsAgent_runner (script : Script) (path : Path) (slot : Slot) (input : String)
    (agent : Agent) (w : World) :
    StreamsAgent slot (streamPart script path slot input (.runner agent) w).1 := ⟨_, rfl⟩

/-- A part whose trace is flat streams as an agent does. -/
theorem streamsAgent_of_flat {part : Part} {slot : Slot} {input : String} {w : World}
    (h_part : StreamTraced script path part)
    (h_agent : (streamPart script path slot input part w).1.trace.isGroup = false) :
    StreamsAgent slot (streamPart script path slot input part w).1 := by
  obtain ⟨agent, rfl⟩ := (h_part slot input w).runner h_agent
  exact streamsAgent_runner script path slot input agent w

@[simp] theorem streamOf_trace (slot : Slot) (run : AgentRun) :
    (streamOf slot run).trace = .agent slot run := by
  unfold streamOf
  split <;> rfl

/-- The events of an agent in a pipeline: its result is taken, if it has one. -/
theorem forwardEvents_streamOf (name : String) (slot : Slot) (run : AgentRun) (line : StreamLine)
    (w : World) :
    forwardEvents config path name (streamOf slot run).events line w =
      match run.outcome with
      | .ok r => ((line.saying (.final (.run r))).took name (.run r), syncUp config path name w)
      | .error _ => (line, w) := by
  unfold streamOf
  cases run.outcome <;> rfl

/-- The events an agent puts into the queue of a parallel group. -/
theorem memberEvents_streamOf (slot : Slot) (run : AgentRun) :
    memberEvents (streamOf slot run) =
      match run.outcome with
      | .ok r => [.final (.run r)]
      | .error e => [.error e] := by
  unfold streamOf
  cases run.outcome <;> rfl

/-! ### Heard runs -/

namespace Meter

variable (m : Meter)

/-- The agent runs of a member run whose results a streaming group added. -/
def heardIn (t : Trace) : List AgentRun :=
  if t.slot.role = .delegate then if t.isGroup && !m.nested then [] else m.counted t
  else if m.dumped then m.counted t else []

/-- The agent runs of a member run that a streaming group left out. -/
def unheardIn (t : Trace) : List AgentRun :=
  if t.slot.role = .delegate then if t.isGroup && !m.nested then t.leaves else m.missed t
  else if m.dumped then m.missed t else t.leaves

/-- The agent runs whose results a streaming group reports. -/
def heard (inner : List Trace) : List AgentRun := inner.flatMap m.heardIn

/-- The agent runs that a streaming group does not report. -/
def unheard (inner : List Trace) : List AgentRun := inner.flatMap m.unheardIn

/-- What a member run adds to the totals of a streaming group. -/
def streamWeight (t : Trace) : ℕ := sumOver m.measure (m.heardIn t)

/-- What was heard adds up to the members' weights. -/
theorem sumOver_heard (inner : List Trace) :
    sumOver m.measure (m.heard inner) = (inner.map m.streamWeight).sum := by
  induction inner with
  | nil => rfl
  | cons t inner ih =>
    rw [heard, List.flatMap_cons, sumOver_append, ← heard, ih, List.map_cons, List.sum_cons]
    rfl

/-- The agent runs below a streaming group are those it heard and those it did not. -/
theorem sumOver_leavesAll_heard (f : AgentRun → ℕ) (inner : List Trace) :
    sumOver f (Trace.leavesAll inner) = sumOver f (m.heard inner) + sumOver f (m.unheard inner) := by
  induction inner with
  | nil => rfl
  | cons t inner ih =>
    -- each member's runs are heard, or not
    have h_split : sumOver f t.leaves = sumOver f (m.heardIn t) + sumOver f (m.unheardIn t) := by
      unfold heardIn unheardIn
      have h_leaves := m.sumOver_leaves f t
      split_ifs
      · simp
      · exact h_leaves
      · exact h_leaves
      · simp
    rw [Trace.leavesAll_cons, heard, unheard, List.flatMap_cons, List.flatMap_cons,
      sumOver_append, sumOver_append, sumOver_append, ← heard, ← unheard, ih, h_split]
    omega

variable {m}

theorem streamWeight_delegate {t : Trace} (h : t.slot.role = .delegate) :
    m.streamWeight t = m.weight t := by
  unfold streamWeight heardIn weight
  rw [if_pos h]

/-- An agent that streamed adds what it returned. -/
theorem streamWeight_agent {slot : Slot} (h : slot.role ≠ .delegate) (run : AgentRun) :
    m.streamWeight (.agent slot run) =
      match run.outcome with
      | .ok r => if m.dumped then m.ofResult r else 0
      | .error _ => 0 := by
  have h_role : (Trace.agent slot run).slot.role ≠ .delegate := h
  unfold streamWeight heardIn
  rw [if_neg h_role, counted, AgentRun.returned]
  rcases h_run : run.outcome with e | r
  · cases m.dumped <;> simp [Except.toOption]
  · cases m.dumped <;> simp [Except.toOption, sumOver, measure, h_run]

/-! ### Patterns -/

/-- What a streaming pattern has to show. -/
def StreamAdds (m : Meter) (stream : GroupStream) : Prop :=
  Flat stream.runs → ∀ g, stream.outcome = .ok g →
    m.reported g = (stream.runs.map m.streamWeight).sum

/-- A stream that ends with this result reports its sum. -/
theorem streamAdds_ofResult {events : List Event} {g : TeamResult} {runs : List Trace}
    (h : Flat runs → m.reported g = (runs.map m.streamWeight).sum) :
    m.StreamAdds (.ofResult events g runs) := by
  intro h_flat g' h_g'
  obtain rfl := Except.ok.inj h_g'
  exact h h_flat

section Patterns

variable {members : Dict String Part}

/-- A streaming pipeline adds what it hears. -/
theorem streamPipeline_adds (config : GroupConfig)
    (h_members : ∀ x ∈ members, StreamTraced script (path ++ [x.1]) x.2) (input : String)
    (w : World) : m.StreamAdds (streamPipeline script config path members input w).1 := by
  apply streamPipelineFrom_rule
    (I := fun line _ => Flat line.runs →
      m.total line.totals = (line.runs.map m.streamWeight).sum)
    (Q := fun stream _ => m.StreamAdds stream) members
  · intro line w h_line
    apply streamAdds_ofResult
    rw [m.streamed]
    exact h_line
  · intro name part line w h_mem h_line streamed forwarded
    -- the invariant: a line of agents only has counted exactly what it forwarded
    have h_next : Flat forwarded.1.runs →
        m.total forwarded.1.totals = (forwarded.1.runs.map m.streamWeight).sum := by
      intro h_flat
      rw [forwardEvents_runs] at h_flat ⊢
      obtain ⟨h_before, h_new⟩ := List.forall_mem_append.mp h_flat
      have h_slot : streamed.1.trace.slot = ⟨.member, turnsTaken line.runs⟩ :=
        (h_members _ h_mem _ _ _).slot
      have h_agent : streamed.1.trace.isGroup = false := by
        simpa [h_slot] using h_new streamed.1.trace List.mem_cons_self
      -- a member of such a line is an agent, so its whole stream is one run
      obtain ⟨run, h_run⟩ : StreamsAgent ⟨.member, turnsTaken line.runs⟩ streamed.1 :=
        streamsAgent_of_flat (h_members _ h_mem) h_agent
      have h_totals : m.total forwarded.1.totals =
          m.total line.totals + m.streamWeight streamed.1.trace := by
        simp only [forwarded, h_run, forwardEvents_streamOf, streamOf_trace]
        rw [streamWeight_agent (by simp)]
        split
        · exact m.add_data _ _
        · rfl
      rw [h_totals, h_line h_before]
      simp
    refine ⟨fun e _ => ?_, fun _ => h_next⟩
    apply streamAdds_ofResult
    rw [m.streamed]
    exact h_next
  · exact fun _ => m.zero

/-- The totals of a queue of agents. -/
theorem total_foldl_addEvent {gathered : List (ℕ × String × Streamed)} (totals : Totals)
    (h : ∀ g ∈ gathered, ∃ slot, slot.role ≠ .delegate ∧ StreamsAgent slot g.2.2) :
    m.total ((queuedEvents gathered).foldl addEvent totals) =
      m.total totals + (gathered.map fun g => m.streamWeight g.2.2.trace).sum := by
  induction gathered generalizing totals with
  | nil => rfl
  | cons g gathered ih =>
    obtain ⟨⟨slot, h_slot, run, h_run⟩, h_rest⟩ := List.forall_mem_cons.mp h
    -- the events of the first member come first
    have h_queue : queuedEvents (g :: gathered) =
        (memberEvents g.2.2).map (g.2.1, ·) ++ queuedEvents gathered := rfl
    -- they add what the member's stream weighs
    have h_head : m.total (((memberEvents g.2.2).map (g.2.1, ·)).foldl addEvent totals) =
        m.total totals + m.streamWeight g.2.2.trace := by
      rw [h_run, memberEvents_streamOf, streamOf_trace, streamWeight_agent h_slot]
      split
      · exact m.add_data _ _
      · rfl
    rw [h_queue, List.foldl_append, ih _ h_rest, h_head, List.map_cons, List.sum_cons]
    omega

/-- The members of a parallel group whose runs are flat all streamed as agents. -/
theorem agents_of_flat (h_members : ∀ x ∈ members, StreamTraced script (path ++ [x.1]) x.2)
    {input : String} {gathered : List (ℕ × String × Streamed)}
    (h_made : ∀ g ∈ gathered, MadeBy (pumpMember script config path members input) members g)
    (h_flat : ∀ g ∈ gathered, g.2.2.trace.slot.role = .delegate ∨ g.2.2.trace.isGroup = false) :
    ∀ g ∈ gathered, ∃ slot, slot.role ≠ .delegate ∧ StreamsAgent slot g.2.2 := by
  intro g h_g
  obtain ⟨part, w, h_part, h_streamed⟩ := h_made g h_g
  have h_traced := h_members _ (List.mem_of_getElem? h_part)
  -- the member streamed in its own slot
  have h_slot : g.2.2.trace.slot = streamSlot members g.1 := by
    rw [h_streamed]
    exact (h_traced _ _ _).slot
  -- which is not that of a delegation, so it is an agent
  have h_agent : g.2.2.trace.isGroup = false := by
    rcases h_flat g h_g with h_role | h_agent
    · rw [h_slot] at h_role
      cases h_role
    · exact h_agent
  refine ⟨streamSlot members g.1, by simp [streamSlot], ?_⟩
  rw [h_streamed] at h_agent ⊢
  exact streamsAgent_of_flat h_traced h_agent

/-- The events of agents are none of a failed group. -/
theorem not_failed_of_agents {gathered : List (ℕ × String × Streamed)}
    (h : ∀ g ∈ gathered, ∃ slot, slot.role ≠ .delegate ∧ StreamsAgent slot g.2.2) :
    ∀ q ∈ queuedEvents gathered, ¬ q.2.Failed := by
  intro q h_q
  obtain ⟨g, h_g, h_event⟩ := List.mem_flatMap.mp h_q
  obtain ⟨event, h_mem, rfl⟩ := List.mem_map.mp h_event
  obtain ⟨slot, -, run, h_run⟩ := h g h_g
  change event ∈ memberEvents g.2.2 at h_mem
  -- an agent's only event is its final response or its error
  rw [h_run, memberEvents_streamOf] at h_mem
  split at h_mem <;>
  · obtain rfl := List.mem_singleton.mp h_mem
    exact id

/-- A streaming parallel group adds what it hears. -/
theorem streamParallel_adds (config : GroupConfig)
    (h_members : ∀ x ∈ members, StreamTraced script (path ++ [x.1]) x.2) (input : String)
    (w : World) : m.StreamAdds (streamParallel script config path members input w).1 := by
  unfold streamParallel
  simp only
  have h_perm := @results_perm _ (pumpMember script config path members input) members
    script path w (w.begin path)
  have h_made := @gatherParts_made _ (pumpMember script config path members input) members
    (finishOrder script path members w) (w.begin path)
  simp only at h_perm
  generalize (gatherParts _ members _ _).1 = gathered at h_perm h_made
  obtain ⟨h_fine, -⟩ := mergeEvents_spec script (queuedEvents gathered) {}
  split
  · exact fun _ _ => nofun
  · apply streamAdds_ofResult
    intro h_flat
    -- no nested group was called, so every event comes from an agent
    have h_agents := agents_of_flat h_members h_made fun g h_g => by
      refine h_flat _ (List.mem_map.mpr ⟨g.2, h_perm.symm.subset ?_, rfl⟩)
      exact List.mem_map_of_mem h_g
    obtain ⟨-, -, h_totals⟩ := h_fine (not_failed_of_agents h_agents)
    -- the order of the queue does not matter to the sum
    have h_sum := (h_perm.map fun r => m.streamWeight r.2.trace).sum_nat
    rw [List.map_map] at h_sum
    rw [m.completed, h_totals, total_foldl_addEvent _ h_agents, m.zero, Nat.zero_add,
      List.map_map]
    exact h_sum.symm

/-- A streaming supervisor group adds what it hears. -/
theorem streamSupervisor_adds (config : GroupConfig)
    (h_members : ∀ x ∈ members, m.Sound script (path ++ [x.1]) x.2) (input : String) (w : World) :
    m.StreamAdds (streamSupervisor script config path members input w).1 := by
  unfold streamSupervisor
  split
  · exact fun _ _ => nofun
  · rename_i supervisor agent _
    have h_total (maxTurns : ℤ) :=
      supervise_total config h_members supervisor agent input config.maxTurns maxTurns w
    have h_roles (maxTurns : ℤ) := supervise_roles config supervisor config.maxTurns
      (fun x h_x => (h_members x h_x).traced) agent input maxTurns w
    -- the delegates weigh the same in a stream
    have h_sum (maxTurns : ℤ) : m.total (supervise script config path members supervisor agent
        input config.maxTurns maxTurns w).2.1.totals = ((supervise script config path members
          supervisor agent input config.maxTurns maxTurns w).2.1.runs.map m.streamWeight).sum := by
      rw [h_total maxTurns]
      congr 1
      exact List.map_congr_left fun t h_t => (streamWeight_delegate (h_roles maxTurns t h_t)).symm
    simp only at h_sum ⊢
    split
    · rename_i e h_e
      apply streamAdds_ofResult
      intro _
      rw [m.streamed, h_sum, List.map_cons, List.sum_cons,
        streamWeight_agent (by simp [supervisorSlot]), h_e, Nat.zero_add]
    · rename_i r h_r
      apply streamAdds_ofResult
      intro _
      rw [m.streamed, m.add_data, h_sum, List.map_cons, List.sum_cons,
        streamWeight_agent (by simp [supervisorSlot]), h_r, Nat.add_comm]

end Patterns

/-- **A streaming group below which no nested group streams reports the sum over the runs it
heard**, for every tree and script. -/
theorem streamed_eq (m : Meter) (script : Script) (group : Group) (ctx : RunContext) (path : Path)
    (input : String) (w : World) (g : TeamResult)
    (h_flat : Flat (group.stream script ctx path input w).1.trace.inner)
    (h : (group.stream script ctx path input w).1.trace.outcome = .ok (.group g)) :
    m.reported g = sumOver m.measure
      (m.heard (group.stream script ctx path input w).1.trace.inner) := by
  -- whatever the pattern
  have h_adds : m.StreamAdds
      (streamPattern script group.config path (group.parts script ctx path) input w).1 := by
    unfold streamPattern
    cases group.config.pattern with
    | pipeline => exact streamPipeline_adds _ (group.parts_streamTraced ctx path) input w
    | supervisor => exact streamSupervisor_adds _ (m.parts_sound script group ctx path) input w
    | parallel => exact streamParallel_adds _ (group.parts_streamTraced ctx path) input w
  -- the result is that of the stream
  obtain ⟨g', h_g', h_eq⟩ := except_map_ok h
  obtain rfl := MemberResult.group.inj h_eq
  rw [h_adds h_flat g' h_g', sumOver_heard]
  rfl

end Meter

end Nexus.Team
