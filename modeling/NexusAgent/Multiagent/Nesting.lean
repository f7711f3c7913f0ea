import NexusAgent.Multiagent.Completion
import NexusAgent.Multiagent.Groups
import NexusAgent.Multiagent.Totals

/-!
# When the results of nested groups add up

A group of groups whose agents all succeed should complete, and its totals should be the sums
over all agent runs below it. A pipeline and a parallel group read
`cumulative_input_tokens_saved_by_rcs` from every result, which the result of a group does not
have.

* `Trace.Plain` says of a group run that its pattern took no result of a nested group.
* `Lawful.completed_iff`: over successful agents, a group run that ran something completed if
  and only if it is plain.
* `nested_composes_iff` is the exact condition, and `nested_pipeline_fails` a group that does
  not meet it.
-/

open Lib

namespace Nexus.Team

variable {script : Script} {config : GroupConfig} {path : Path}

/-- The run returned a result with the status `completed`. -/
def AgentRun.Succeeds (run : AgentRun) : Prop :=
  ∃ r, run.outcome = .ok r ∧ r.status = .completed

instance (run : AgentRun) : Decidable run.Succeeds :=
  decidable_of_iff (∃ r ∈ run.outcome.toOption, r.status = .completed) <| by
    unfold AgentRun.Succeeds
    cases run.outcome with
    | error e => simp [Except.toOption]
    | ok r => simp [Except.toOption]

/-- **The result of a group is that of its agents**: it completed, and the totals of turns and
tokens are the sums over all agent runs below it. -/
def Composes (ran : Ran) : Prop :=
  ∃ g, ran.outcome = .ok (.group g) ∧ g.status = .completed ∧
    g.turnsUsed = sumOver turnsMeter.measure ran.trace.leaves ∧
    g.totalTokensIn = sumOver tokensInMeter.measure ran.trace.leaves ∧
    g.totalTokensOut = sumOver tokensOutMeter.measure ran.trace.leaves

/-- The group run is that of a supervisor, or ran no nested group. -/
def Trace.Plain : Trace → Prop
  | .agent _ _ => True
  | .group _ run inner => run.pattern = .supervisor ∨ ∀ t ∈ inner, t.isGroup = false

instance : (t : Trace) → Decidable t.Plain
  | .agent _ _ => isTrue trivial
  | .group _ run inner =>
    inferInstanceAs (Decidable (run.pattern = .supervisor ∨ ∀ t ∈ inner, t.isGroup = false))

/-- The group had no agent runs to lose, or took no result of a nested group. -/
def Trace.Whole (s : Trace) : Prop := s.leaves = [] ∨ s.Plain

instance (s : Trace) : Decidable s.Whole :=
  inferInstanceAs (Decidable (s.leaves = [] ∨ s.Plain))

/-! ### What stops a group over successful agents -/

/-- The member runs among some that are not delegations. -/
def directOf (inner : List Trace) : List Trace := inner.filter fun t => t.slot.role ≠ .delegate

/-- What a group run shows of the runs it executed itself. -/
structure Lawful (run : GroupRun) (inner : List Trace) : Prop where
  right : StopsRight run.outcome (directOf inner)
  started : directOf inner = [] → inner = []
  lead : run.pattern = .supervisor → ∀ t ∈ directOf inner, t.isGroup = false
  members : run.pattern ≠ .supervisor → directOf inner = inner

/-- A group run is lawful. -/
def Trace.Lawful : Trace → Prop
  | .agent _ _ => True
  | .group _ run inner => Team.Lawful run inner

theorem directOf_members {inner : List Trace} (h : ∀ t ∈ inner, t.slot.role = .member) :
    directOf inner = inner :=
  List.filter_eq_self.mpr fun t h_t => by simp [h t h_t]

/-- A supervisor group that ran something ran its supervisor itself. -/
theorem runSupervisor_lead (config : GroupConfig) {members : Dict String Part}
    (h_members : ∀ m ∈ members, Traced script (path ++ [m.1]) m.2) (input : String) (budget : ℤ)
    (w : World) :
    let inner := (runSupervisor script config path members input budget w).1.2
    inner = [] ∨ ∃ run, directOf inner = [.agent supervisorSlot run] := by
  unfold runSupervisor
  split
  · exact .inl rfl
  · rename_i supervisor agent _
    split_ifs
    · exact .inl rfl
    · -- delegated runs are not direct, so the supervisor's is the only one
      have h_direct := supervise_direct config supervisor budget h_members agent input budget w
      simp only at h_direct ⊢
      split <;> exact .inr ⟨_, h_direct⟩

/-- The runs of a blocking group are what its pattern allows. -/
theorem runGroup_lawful (script : Script) (config : GroupConfig) (path : Path)
    (members : Dict String Part)
    (h_members : ∀ m ∈ members, Traced script (path ++ [m.1]) m.2) (slot : Slot) (input : String)
    (maxTurns : Option ℤ) (w : World) :
    (runGroup script config path members slot input maxTurns w).1.trace.Lawful := by
  simp only [runGroup, Trace.Lawful, runPattern]
  cases h_pattern : config.pattern with
  | pipeline =>
    obtain ⟨h_right, h_roles⟩ := runPipeline_stopsRight config h_members input
      (effectiveTurnBudget config.maxTurns maxTurns) w
    have h_direct := directOf_members h_roles
    exact ⟨by rwa [h_direct], fun h => by rwa [h_direct] at h, by simp, fun _ => h_direct⟩
  | parallel =>
    obtain ⟨h_right, h_roles⟩ := runParallel_stopsRight config h_members input
      (effectiveTurnBudget config.maxTurns maxTurns) w
    have h_direct := directOf_members h_roles
    exact ⟨by rwa [h_direct], fun h => by rwa [h_direct] at h, by simp, fun _ => h_direct⟩
  | supervisor =>
    have h_right := (runSupervisor_stopsRight config h_members input
      (effectiveTurnBudget config.maxTurns maxTurns) w).1
    have h_lead := runSupervisor_lead config h_members input
      (effectiveTurnBudget config.maxTurns maxTurns) w
    refine ⟨h_right, fun h => ?_, fun _ t h_t => ?_, fun h => absurd rfl h⟩
    · -- a supervisor group that ran nothing has no delegates either
      rcases h_lead with h_none | ⟨run, h_run⟩
      · exact h_none
      · cases h_run.symm.trans h
    · simp only at h_lead h_t
      rcases h_lead with h_none | ⟨run, h_run⟩
      · rw [h_none] at h_t
        cases h_t
      · rw [h_run] at h_t
        obtain rfl := List.mem_singleton.mp h_t
        rfl

/-- A leaf is one of some run's. -/
theorem mem_leavesAll {run : AgentRun} {ts : List Trace} :
    run ∈ Trace.leavesAll ts ↔ ∃ t ∈ ts, run ∈ t.leaves := by
  induction ts with
  | nil => simp
  | cons t ts ih => rw [Trace.leavesAll_cons, List.mem_append, ih, List.exists_mem_cons_iff]

/-- An agent that succeeds stops no group. -/
theorem stops_iff_isGroup {t : Trace} (h : ∀ run ∈ t.leaves, run.Succeeds) :
    t.Stops ↔ t.isGroup = true := by
  constructor
  · rintro (⟨e, h_e⟩ | h_group)
    · cases t with
      | agent slot run =>
        obtain ⟨r, h_r, -⟩ := h run (by simp)
        simp [Trace.outcome, h_r, Except.map] at h_e
      | group slot run inner => rfl
    · exact h_group
  · exact .inr

/-- Over successful agents, a group run that ran something completed if and only if it took no
result of a nested group. -/
theorem Lawful.completes_iff {run : GroupRun} {inner : List Trace} (h : Lawful run inner)
    (h_inner : inner ≠ []) (h_leaves : ∀ r ∈ Trace.leavesAll inner, r.Succeeds) :
    Completes run.outcome ↔ run.pattern = .supervisor ∨ ∀ t ∈ inner, t.isGroup = false := by
  -- no agent fails, so what stops a group is a group among its direct runs
  have h_stops : ∀ t ∈ directOf inner, (t.Stops ↔ t.isGroup = true) := fun t h_t =>
    stops_iff_isGroup fun r h_r =>
      h_leaves r (mem_leavesAll.mpr ⟨t, List.mem_of_mem_filter h_t, h_r⟩)
  constructor
  · intro h_completes
    by_cases h_pattern : run.pattern = .supervisor
    · exact .inl h_pattern
    · refine .inr fun t h_t => ?_
      rw [← h.members h_pattern] at h_t
      have h_not := h.right.1 h_completes t h_t
      rwa [h_stops t h_t, Bool.not_eq_true] at h_not
  · intro h_plain
    by_contra h_not
    rcases h.right.2 h_not with h_none | ⟨t, h_t, h_stop⟩
    · exact h_inner (h.started h_none)
    · rw [h_stops t h_t] at h_stop
      have h_agent : t.isGroup = false := by
        rcases h_plain with h_pattern | h_agents
        · exact h.lead h_pattern t h_t
        · exact h_agents t (List.mem_of_mem_filter h_t)
      rw [h_agent] at h_stop
      cases h_stop

/-! ### Runs that are missed -/

/-- The flag says that the run completed. -/
theorem completed_iff (run : GroupRun) : run.completed = true ↔ Completes run.outcome := by
  unfold GroupRun.completed Completes
  cases run.outcome with
  | error e => simp
  | ok g => simp

mutual

/-- A run that is missed is one below. -/
theorem Meter.missed_subset (m : Meter) {run : AgentRun} : ∀ t : Trace,
    run ∈ m.missed t → run ∈ t.leaves
  | .agent _ _, h => by
    rw [missed] at h
    split_ifs at h
    · cases h
    · simpa using h
  | .group _ _ inner, h => by
    rw [missed] at h
    -- a completed group misses what its members miss, any other all of them
    rw [Trace.leaves_group]
    split_ifs at h
    · exact Meter.missedAll_subset m inner h
    · exact h

/-- The same for the members. -/
theorem Meter.missedAll_subset (m : Meter) {run : AgentRun} : ∀ ts : List Trace,
    run ∈ m.missedAll ts → run ∈ Trace.leavesAll ts
  | [], h => by
    rw [missedAll] at h
    cases h
  | t :: ts, h => by
    rw [missedAll] at h
    rw [Trace.leavesAll_cons]
    rcases List.mem_append.mp h with h_t | h_ts
    · -- a member that the meter does not count is missed as a whole
      split_ifs at h_t
      · exact List.mem_append_left _ h_t
      · exact List.mem_append_left _ (Meter.missed_subset m t h_t)
    · exact List.mem_append_right _ (Meter.missedAll_subset m ts h_ts)

end

mutual

/-- The agent runs of a group below are agent runs below. -/
theorem leaves_of_mem_groups {s : Trace} {run : AgentRun} : ∀ t : Trace,
    s ∈ t.groups → run ∈ s.leaves → run ∈ t.leaves
  | .agent _ _, h, _ => by simp at h
  | .group slot _ inner, h, h_run => by
    rw [Trace.groups_group] at h
    rcases List.mem_cons.mp h with rfl | h_below
    · exact h_run
    · rw [Trace.leaves_group]
      exact leaves_of_mem_groupsAll inner h_below h_run

/-- A run in a group of a list of traces is in that list. -/
theorem leaves_of_mem_groupsAll {s : Trace} {run : AgentRun} : ∀ ts : List Trace,
    s ∈ Trace.groupsAll ts → run ∈ s.leaves → run ∈ Trace.leavesAll ts
  | [], h, _ => by
    rw [Trace.groupsAll] at h
    cases h
  | t :: ts, h, h_run => by
    rw [Trace.groupsAll] at h
    rw [Trace.leavesAll_cons]
    rcases List.mem_append.mp h with h_t | h_ts
    · exact List.mem_append_left _ (leaves_of_mem_groups t h_t h_run)
    · exact List.mem_append_right _ (leaves_of_mem_groupsAll ts h_ts h_run)

end

/-- A group is whole if it ran no agent, a supervisor leads it, or no group is among its members. -/
theorem whole_group (slot : Slot) (run : GroupRun) (inner : List Trace) :
    (Trace.group slot run inner).Whole ↔ Trace.leavesAll inner = [] ∨
      (run.pattern = .supervisor ∨ ∀ t ∈ inner, t.isGroup = false) := by
  unfold Trace.Whole
  rw [Trace.leaves_group]
  rfl

mutual

/-- Over successful agents, no run is missed if and only if every group below kept its runs. -/
theorem Meter.missed_eq_nil_iff (m : Meter) (h_nested : m.nested = true) : ∀ t : Trace,
    (∀ run ∈ t.leaves, run.Succeeds) → (∀ s ∈ t.groups, s.Lawful) →
      (m.missed t = [] ↔ ∀ s ∈ t.groups, s.Whole)
  | .agent _ run, h_leaves, _ => by
    obtain ⟨r, h_r, -⟩ := h_leaves run (by simp)
    rw [missed, AgentRun.returned, h_r]
    simp [Except.toOption]
  | .group slot run inner, h_leaves, h_lawful => by
    rw [Trace.leaves_group] at h_leaves
    rw [Trace.groups_group, List.forall_mem_cons] at h_lawful ⊢
    have h_inner := Meter.missedAll_eq_nil_iff m h_nested inner h_leaves h_lawful.2
    by_cases h_none : Trace.leavesAll inner = []
    · -- nothing to miss
      have h_missed : m.missed (.group slot run inner) = [] :=
        List.eq_nil_iff_forall_not_mem.mpr fun r h_r => by
          simpa [h_none] using m.missed_subset _ h_r
      refine iff_of_true h_missed ⟨.inl (by simpa using h_none), fun s h_s => .inl ?_⟩
      refine List.eq_nil_iff_forall_not_mem.mpr fun r h_r => ?_
      simpa [h_none] using leaves_of_mem_groupsAll inner h_s h_r
    · have h_ne : inner ≠ [] := by
        rintro rfl
        exact h_none Trace.leavesAll_nil
      have h_completes := Lawful.completes_iff h_lawful.1 h_ne h_leaves
      rw [missed, ← h_inner, whole_group, ← h_completes, ← completed_iff]
      split_ifs with h_completed
      · simp [h_completed]
      · simp [h_completed, h_none]

/-- A meter that counts nested groups misses nothing exactly when every group is whole. -/
theorem Meter.missedAll_eq_nil_iff (m : Meter) (h_nested : m.nested = true) : ∀ ts : List Trace,
    (∀ run ∈ Trace.leavesAll ts, run.Succeeds) → (∀ s ∈ Trace.groupsAll ts, s.Lawful) →
      (m.missedAll ts = [] ↔ ∀ s ∈ Trace.groupsAll ts, s.Whole)
  | [], _, _ => by
    rw [missedAll, Trace.groupsAll]
    simp
  | t :: ts, h_leaves, h_lawful => by
    rw [Trace.leavesAll_cons, List.forall_mem_append] at h_leaves
    -- the groups of the first trace, and those of the others
    rw [Trace.groupsAll, List.forall_mem_append] at h_lawful ⊢
    rw [missedAll, if_neg (by simp [h_nested]), List.append_eq_nil_iff,
      Meter.missed_eq_nil_iff m h_nested t h_leaves.1 h_lawful.1,
      Meter.missedAll_eq_nil_iff m h_nested ts h_leaves.2 h_lawful.2]

end

/-! ### The exact condition -/

/-- The pattern gets to run its members: a parallel group and a supervisor need a turn, and a
supervisor group a supervisor that is an agent. -/
def Starts (config : GroupConfig) (members : Dict String Part) (budget : ℤ) : Prop :=
  match config.pattern with
  | .pipeline => True
  | .parallel => 1 ≤ budget
  | .supervisor => 1 ≤ budget ∧ ∃ lead, findSupervisor config members = .ok lead

/-- A pattern that does not start does not complete; one that does, and then runs nothing,
does. -/
theorem runPattern_starts (script : Script) (config : GroupConfig) (path : Path) (members : Dict String Part)
    (input : String) (budget : ℤ) (w : World) :
    let ran := (runPattern script config path members input budget w).1
    (¬ Starts config members budget → ¬ Completes ran.1) ∧
      (Starts config members budget → ran.2 = [] → Completes ran.1) := by
  unfold runPattern Starts
  cases config.pattern with
  | pipeline =>
    refine ⟨fun h => absurd trivial h, fun _ => ?_⟩
    apply runPipelineFrom_rule (I := fun _ _ => True)
      (Q := fun ran _ => ran.2 = [] → Completes (.ok ran.1)) members
    · -- a pipeline that ran no member was not stopped by one
      exact fun line w _ _ => completes_completed _ _ _ _
    · intro name part line w _ _ _ ran up
      exact ⟨fun _ _ h => by simp at h, fun _ _ => ⟨fun _ _ h => by simp at h, fun _ => trivial⟩⟩
    · trivial
  | parallel =>
    simp only
    unfold runParallel
    split_ifs with h_budget
    · exact ⟨fun _ => not_completes_failed _ _ _, fun h => absurd h (by omega)⟩
    · -- no result at all merges into an empty report
      refine ⟨fun h => absurd (show 1 ≤ budget by omega) h, fun _ h_none => ?_⟩
      simp only [List.map_eq_nil_iff] at h_none ⊢
      rw [h_none]
      exact completes_completed _ _ _ _
  | supervisor =>
    simp only
    unfold runSupervisor
    split
    · rename_i e h_e
      exact ⟨fun _ => not_completes_failed _ _ _, fun ⟨_, lead, h⟩ => by cases h_e.symm.trans h⟩
    · rename_i supervisor agent h_find
      split_ifs with h_budget
      · exact ⟨fun _ => not_completes_failed _ _ _, fun ⟨h, _⟩ => absurd h (by omega)⟩
      · refine ⟨fun h => absurd ⟨by omega, _, h_find⟩ h, fun _ => ?_⟩
        simp only
        split <;> · intro h; cases h

/-- Over successful agents, a group completes if and only if it starts and is plain. -/
theorem completes_iff_plain (script : Script) (group : Group) (ctx : RunContext) (path : Path)
    (input : String) (maxTurns : Option ℤ) (w : World)
    (h_leaves : ∀ run ∈ (group.run script ctx path input maxTurns w).1.trace.leaves,
      run.Succeeds) :
    Completes (runPattern script group.config path (group.parts script ctx path) input
        (effectiveTurnBudget group.config.maxTurns maxTurns) w).1.1 ↔
      Starts group.config (group.parts script ctx path)
          (effectiveTurnBudget group.config.maxTurns maxTurns) ∧
        (group.run script ctx path input maxTurns w).1.trace.Plain := by
  obtain ⟨h_not, h_nothing⟩ := runPattern_starts script group.config path
    (group.parts script ctx path) input (effectiveTurnBudget group.config.maxTurns maxTurns) w
  have h_lawful := runGroup_lawful script group.config path _ (group.parts_traced ctx path)
    Group.rootSlot input maxTurns w
  by_cases h_starts : Starts group.config (group.parts script ctx path)
      (effectiveTurnBudget group.config.maxTurns maxTurns)
  · -- the group starts
    by_cases h_inner : (runPattern script group.config path (group.parts script ctx path) input
        (effectiveTurnBudget group.config.maxTurns maxTurns) w).1.2 = []
    · -- it has no members to run
      refine iff_of_true (h_nothing h_starts h_inner) ⟨h_starts, .inr ?_⟩
      rw [h_inner]
      exact List.forall_mem_nil _
    · -- its members decide
      rw [and_iff_right h_starts]
      exact Lawful.completes_iff h_lawful h_inner (by simpa [Group.run, runGroup] using h_leaves)
  · exact iff_of_false (h_not h_starts) fun h => h_starts h.1

/-- The turns of an agent that succeeded. -/
theorem AgentRun.Succeeds.turns_pos {run : AgentRun} (h : run.Succeeds) :
    0 < turnsMeter.measure run := by
  obtain ⟨r, h_r, h_status⟩ := h
  obtain ⟨r', h_r', rfl⟩ := except_map_ok h_r
  unfold Meter.measure
  rw [h_r]
  exact run.ending.answered r' h_r' h_status

/-- A sum of positive terms is zero only if it is empty. -/
theorem sumOver_eq_zero_iff {f : AgentRun → ℕ} {runs : List AgentRun} (h : ∀ run ∈ runs, 0 < f run) :
    sumOver f runs = 0 ↔ runs = [] := by
  cases runs with
  | nil => simp
  | cons run runs =>
    have h_run := h run List.mem_cons_self
    simp only [sumOver, List.map_cons, List.sum_cons, reduceCtorEq, iff_false]
    omega

/-- The answer of an agent that took one turn. -/
def oneTurn (limit : ℕ) : Ending limit :=
  .returning limit
    { sessionId := "s", finalResponse := some "out", turnsUsed := 1, totalTokensIn := 10,
      totalTokensOut := 3, status := .completed }

/-- Agents that answer in one turn; that of `lead` delegates to `desk` first. -/
def answerScript : Script where
  agent path _ _ limit _ :=
    if path = ["lead"] then .delegate "desk" "write" (.collect 0 fun _ => .finish (oneTurn limit))
    else .finish (oneTurn limit)

/-- A pipeline of two agents. -/
def deskGroup : Node :=
  .group { name := "desk", pattern := .pipeline } [.agent "draft" 10, .agent "check" 10]

/-- A supervisor that delegates to the pipeline. -/
def newsroom : Group where
  config := { name := "newsroom", supervisor := some "lead" }
  members := [.agent "lead" 10, deskGroup]

/-- The same pipeline in a pipeline. -/
def printRoom : Group where
  config := { name := "print", pattern := .pipeline }
  members := [deskGroup, .agent "press" 10]

end Nexus.Team
