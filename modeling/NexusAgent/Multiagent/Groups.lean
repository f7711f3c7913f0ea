import NexusAgent.Multiagent.Rules

/-!
# Group runs in a trace

* `Trace.groups` are the group runs of a trace, the outermost one first.
* `runGroup_below` and `streamGroup_below`: whatever a group runs is the run of a member, or of
  the agent it serves itself.
* `Group.groups_induction` takes a property of one group run to all of them.
-/

open Lib

namespace Nexus.Team

variable {script : Script} {config : GroupConfig} {path : Path}

/-! ### Groups in a trace -/

mutual

/-- The group runs of a run. -/
def Trace.groups : Trace → List Trace
  | .agent _ _ => []
  | .group slot run inner => .group slot run inner :: groupsAll inner

/-- The group runs of several runs. -/
def Trace.groupsAll : List Trace → List Trace
  | [] => []
  | t :: ts => groups t ++ groupsAll ts

end

@[simp] theorem Trace.groups_agent (slot : Slot) (run : AgentRun) :
    groups (.agent slot run) = [] := by
  rw [groups]

@[simp] theorem Trace.groups_group (slot : Slot) (run : GroupRun) (inner : List Trace) :
    groups (.group slot run inner) = .group slot run inner :: groupsAll inner := by
  rw [groups]

/-- A group is among those of a list of traces if it is among those of one of them. -/
theorem Trace.mem_groupsAll {s : Trace} {ts : List Trace} :
    s ∈ groupsAll ts ↔ ∃ t ∈ ts, s ∈ t.groups := by
  induction ts with
  | nil =>
    rw [groupsAll]
    simp
  | cons t ts ih =>
    rw [groupsAll, List.mem_append, ih, List.exists_mem_cons_iff]

/-- A run below a blocking group: that of an agent the group serves itself, or of a member. -/
def RunBelow (script : Script) (path : Path) (members : Dict String Part) (t : Trace) : Prop :=
  t.isGroup = false ∨ ∃ m ∈ members, ∃ slot input remaining w,
    t = (runPart script (path ++ [m.1]) slot input remaining m.2 w).1.trace

/-- A run below a streaming group: a member streams, or is delegated to. -/
def StreamBelow (script : Script) (path : Path) (members : Dict String Part) (t : Trace) : Prop :=
  RunBelow script path members t ∨ ∃ m ∈ members, ∃ slot input w,
    t = (streamPart script (path ++ [m.1]) slot input m.2 w).1.trace

section Below

variable {members : Dict String Part}

theorem below_runPart {name : String} {part : Part} (h : (name, part) ∈ members) (slot : Slot)
    (input : String) (remaining : ℤ) (w : World) :
    RunBelow script path members (runPart script (path ++ [name]) slot input remaining part w).1.trace :=
  .inr ⟨_, h, slot, input, remaining, w, rfl⟩

theorem below_streamPart {name : String} {part : Part} (h : (name, part) ∈ members) (slot : Slot)
    (input : String) (w : World) :
    StreamBelow script path members (streamPart script (path ++ [name]) slot input part w).1.trace :=
  .inr ⟨_, h, slot, input, w, rfl⟩

theorem forall_mem_concat {α : Type} {P : α → Prop} {xs : List α} {x : α} (h : ∀ y ∈ xs, P y)
    (h_x : P x) : ∀ y ∈ xs ++ [x], P y :=
  List.forall_mem_append.mpr ⟨h, by simpa using h_x⟩

/-- The runs of a blocking pipeline are those of its members. -/
theorem runPipeline_below (config : GroupConfig) (input : String) (budget : ℤ) (w : World) :
    ∀ t ∈ (runPipeline script config path members input budget w).1.2,
      RunBelow script path members t := by
  apply runPipelineFrom_rule (I := fun line _ => ∀ t ∈ line.runs, RunBelow script path members t)
    (Q := fun ran _ => ∀ t ∈ ran.2, RunBelow script path members t) members
  · exact fun line w h => h
  · intro name part line w h_mem h _ ran up
    have h_runs := forall_mem_concat h (below_runPart h_mem line.slot line.currentInput
      (budget - line.totals.turnsUsed) (syncDown config path name none w))
    exact ⟨fun _ _ => h_runs, fun _ _ => ⟨fun _ _ => h_runs, fun _ => h_runs⟩⟩
  · nofun

/-- So are those of a streaming pipeline. -/
theorem streamPipeline_below (config : GroupConfig) (input : String) (w : World) :
    ∀ t ∈ (streamPipeline script config path members input w).1.runs,
      StreamBelow script path members t := by
  apply streamPipelineFrom_rule (I := fun line _ => ∀ t ∈ line.runs, StreamBelow script path members t)
    (Q := fun stream _ => ∀ t ∈ stream.runs, StreamBelow script path members t) members
  · exact fun line w h => h
  · intro name part line w h_mem h streamed forwarded
    -- the member's run is added to those before
    have h_runs := forall_mem_concat h (below_streamPart h_mem ⟨.member, turnsTaken line.runs⟩
      line.currentInput (syncDown config path name none w))
    refine ⟨fun e _ => ?_, fun _ => ?_⟩
    · simpa [StreamLine.done, StreamLine.saying, GroupStream.ofResult, forwarded] using h_runs
    · simpa [forwarded] using h_runs
  · exact List.forall_mem_nil _

/-- The runs of a parallel group are those of its members. -/
theorem runParallel_below (config : GroupConfig) (input : String) (budget : ℤ) (w : World) :
    ∀ t ∈ (runParallel script config path members input budget w).1.2,
      RunBelow script path members t := by
  unfold runParallel
  split_ifs
  · nofun
  · intro t h_t
    obtain ⟨r, h_r, rfl⟩ := List.mem_map.mp h_t
    obtain ⟨i, part, w', h_part, h_ran⟩ := made_of_mem_results h_r
    rw [h_ran]
    exact below_runPart (List.mem_of_getElem? h_part) _ _ _ _

/-- Streaming or not. -/
theorem streamParallel_below (config : GroupConfig) (input : String) (w : World) :
    ∀ t ∈ (streamParallel script config path members input w).1.runs,
      StreamBelow script path members t := by
  have h_results : ∀ t ∈ (inDefinitionOrder members.length
      (gatherParts (pumpMember script config path members input) members
        (finishOrder script path members w) (w.begin path)).1).map fun s => s.2.trace,
      StreamBelow script path members t := by
    -- each result was made by one of the members
    intro t h_t
    obtain ⟨r, h_r, rfl⟩ := List.mem_map.mp h_t
    obtain ⟨i, part, w', h_part, h_streamed⟩ := made_of_mem_results h_r
    rw [h_streamed]
    exact below_streamPart (List.mem_of_getElem? h_part) _ _ _
  unfold streamParallel
  simp only
  split
  · exact h_results
  · exact h_results

/-- The runs of a supervisor's delegations are those of its members. -/
theorem supervise_below (config : GroupConfig) (supervisor : String) (agent : Agent)
    (input : String) (budget maxTurns : ℤ) (w : World) :
    ∀ t ∈ (supervise script config path members supervisor agent input budget maxTurns w).2.1.runs,
      RunBelow script path members t := by
  apply supervise_rule (I := fun office _ => ∀ t ∈ office.runs, RunBelow script path members t)
  · exact fun _ _ _ h => h
  · exact fun _ _ _ h => h
  · refine ⟨fun office w h _ => h, fun name part task office w h_part h _ => ?_⟩
    -- a delegation starts a member
    exact forall_mem_concat h (below_runPart h_part.2 _ _ _ _)
  · intro i answered office w h _ done
    -- an answer adds no run
    simpa [done] using h
  · nofun

/-- The runs of a supervisor group are the supervisor's and its delegations'. -/
theorem runSupervisor_below (config : GroupConfig) (input : String) (budget : ℤ) (w : World) :
    ∀ t ∈ (runSupervisor script config path members input budget w).1.2,
      RunBelow script path members t := by
  unfold runSupervisor
  split
  · nofun
  · rename_i supervisor agent _
    have h_below := @supervise_below script path members config
      supervisor agent input budget budget w
    split_ifs
    · nofun
    · simp only
      -- after an error and after an answer the same runs are reported
      split <;> exact List.forall_mem_cons.mpr ⟨.inl rfl, h_below⟩

/-- Streaming or not. -/
theorem streamSupervisor_below (config : GroupConfig) (input : String) (w : World) :
    ∀ t ∈ (streamSupervisor script config path members input w).1.runs,
      StreamBelow script path members t := by
  unfold streamSupervisor
  split
  · nofun
  · rename_i supervisor agent _
    have h_below (budget maxTurns : ℤ) : ∀ t ∈ (supervise script config path members supervisor
        agent input budget maxTurns w).2.1.runs, StreamBelow script path members t :=
      fun t h_t => .inl (supervise_below config supervisor agent input budget maxTurns w t h_t)
    simp only
    split <;> exact List.forall_mem_cons.mpr ⟨.inl (.inl rfl), h_below _ _⟩

/-- The runs inside a blocking group are those of its members. -/
theorem runGroup_below (config : GroupConfig) (slot : Slot) (input : String)
    (maxTurns : Option ℤ) (w : World) :
    ∀ t ∈ (runGroup script config path members slot input maxTurns w).1.trace.inner,
      RunBelow script path members t := by
  simp only [runGroup, runPattern, Trace.inner]
  cases config.pattern with
  | pipeline => exact runPipeline_below config input _ w
  | supervisor => exact runSupervisor_below config input _ w
  | parallel => exact runParallel_below config input _ w

/-- The runs inside a streaming group as well. -/
theorem streamGroup_below (config : GroupConfig) (slot : Slot) (input : String) (w : World) :
    ∀ t ∈ (streamGroup script config path members slot input w).1.trace.inner,
      StreamBelow script path members t := by
  simp only [streamGroup, streamPattern, Trace.inner]
  cases config.pattern with
  | pipeline => exact streamPipeline_below config input w
  | supervisor => exact streamSupervisor_below config input w
  | parallel => exact streamParallel_below config input w

end Below

/-- Every group run of a blocking run of a member has a property, and every one of a streaming
run another. -/
structure GroupsHave (P Q : Trace → Prop) (script : Script) (path : Path) (part : Part) :
    Prop where
  run : ∀ slot input remaining w,
    ∀ s ∈ (runPart script path slot input remaining part w).1.trace.groups, P s
  stream : ∀ slot input w, ∀ s ∈ (streamPart script path slot input part w).1.trace.groups, Q s

section Induction

variable {P Q : Trace → Prop} {members : Dict String Part}

/-- What holds of the members' groups holds of the groups below. -/
theorem RunBelow.groups_have (h_members : ∀ m ∈ members, GroupsHave P Q script (path ++ [m.1]) m.2)
    {t : Trace} (h : RunBelow script path members t) : ∀ s ∈ t.groups, P s := by
  rcases h with h_agent | ⟨m, h_m, slot, input, remaining, w, rfl⟩
  · cases t with
    | agent slot run => simp
    | group slot run inner => cases h_agent
  · exact (h_members m h_m).run slot input remaining w

/-- The same for streamed members. -/
theorem StreamBelow.groups_have (h_weaken : ∀ s, P s → Q s)
    (h_members : ∀ m ∈ members, GroupsHave P Q script (path ++ [m.1]) m.2) {t : Trace}
    (h : StreamBelow script path members t) : ∀ s ∈ t.groups, Q s := by
  rcases h with h_run | ⟨m, h_m, slot, input, w, rfl⟩
  · exact fun s h_s => h_weaken s (h_run.groups_have h_members s h_s)
  · exact (h_members m h_m).stream slot input w

/-- What holds of the groups of each run holds of all groups. -/
theorem groupsAll_have {ts : List Trace} (h : ∀ t ∈ ts, ∀ s ∈ t.groups, P s) :
    ∀ s ∈ Trace.groupsAll ts, P s := by
  intro s h_s
  obtain ⟨t, h_t, h_st⟩ := Trace.mem_groupsAll.mp h_s
  exact h t h_t s h_st

/-- **Induction over the group runs of a trace.** A property that a blocking group run has when
its members are traced is one of every group run below it; so is a weaker one of a streaming
group run. -/
theorem Group.groups_induction (script : Script) (h_weaken : ∀ s, P s → Q s)
    (h_run : ∀ config path (members : Dict String Part),
      (∀ m ∈ members, Traced script (path ++ [m.1]) m.2) → ∀ slot input maxTurns w,
        P (runGroup script config path members slot input maxTurns w).1.trace)
    (h_stream : ∀ config path (members : Dict String Part),
      (∀ m ∈ members, Traced script (path ++ [m.1]) m.2) →
      (∀ m ∈ members, StreamTraced script (path ++ [m.1]) m.2) → ∀ slot input w,
        Q (streamGroup script config path members slot input w).1.trace)
    (group : Group) (ctx : RunContext) (path : Path) :
    (∀ input maxTurns w, ∀ s ∈ (group.run script ctx path input maxTurns w).1.trace.groups, P s) ∧
      ∀ input w, ∀ s ∈ (group.stream script ctx path input w).1.trace.groups, Q s := by
  -- a group has the property by its own run, and those below it by its members
  have h_groups (config : GroupConfig) (path : Path) (members : Dict String Part)
      (h : ∀ m ∈ members, Traced script (path ++ [m.1]) m.2 ∧
        StreamTraced script (path ++ [m.1]) m.2 ∧ GroupsHave P Q script (path ++ [m.1]) m.2) :
      (∀ slot input maxTurns w, ∀ s ∈ (runGroup script config path members slot input maxTurns
        w).1.trace.groups, P s) ∧
      ∀ slot input w, ∀ s ∈ (streamGroup script config path members slot input
        w).1.trace.groups, Q s := by
    have h_have := fun m h_m => (h m h_m).2.2
    constructor
    · intro slot input maxTurns w
      have h_below := @runGroup_below script path members config
        slot input maxTurns w
      refine List.forall_mem_cons.mpr ⟨?_, groupsAll_have fun t h_t =>
        (h_below t h_t).groups_have h_have⟩
      exact h_run config path members (fun m h_m => (h m h_m).1) slot input maxTurns w
    · intro slot input w
      have h_below := @streamGroup_below script path members config slot input w
      refine List.forall_mem_cons.mpr ⟨?_, groupsAll_have fun t h_t =>
        (h_below t h_t).groups_have h_weaken h_have⟩
      exact h_stream config path members (fun m h_m => (h m h_m).1) (fun m h_m => (h m h_m).2.1)
        slot input w
  -- so every part has it, agents having no groups below them
  have h_parts := (@Group.parts_induction script (fun path part =>
    Traced script path part ∧ StreamTraced script path part ∧ GroupsHave P Q script path part)
    group ctx path
    (fun path agent => ⟨traced_runner script path agent, streamTraced_runner script path agent, ?_⟩)
    fun path config members _ h => ⟨traced_group script config path members,
      streamTraced_group script config path members, ?_⟩).2
  · have h_root := h_groups group.config path _ h_parts
    exact ⟨h_root.1 Group.rootSlot, h_root.2 Group.rootSlot⟩
  · refine ⟨fun slot input remaining w => by simp [runPart], fun slot input w => ?_⟩
    simp only [streamPart, streamOf]
    split <;> simp
  · obtain ⟨h_runs, h_streams⟩ := h_groups config path members h
    exact ⟨fun slot input remaining => h_runs slot input (some remaining), h_streams⟩

end Induction

end Nexus.Team
