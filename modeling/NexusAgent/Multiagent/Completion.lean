import NexusAgent.Multiagent.Rules

/-!
# When a completed group did complete

`AgentRunner.run` reports a failure in the status of its result, and the orchestrator looks
for exceptions. So a group may report `completed` over a member that failed.

* `CompletedHonestly` says of a group run that, if it reports `completed`, each member it ran
  itself came to its end, and none that did not was read by the next one.
* `runGroup_stopsRight` finds what does stop a group: a member that raises, and a nested
  group that a pipeline or a parallel group runs.
* `completed_honestly_iff` is the exact condition on the member runs, and
  `pipeline_hides_error` a group that does not meet it.
-/

open Lib

namespace Nexus.Team

variable {script : Script} {config : GroupConfig} {path : Path}

/-! ### Runs of a group's own -/

/-- The member runs a group executes itself: those of pipeline and parallel members, and that
of the supervisor. -/
def Trace.direct (trace : Trace) : List Trace :=
  trace.inner.filter fun t => t.slot.role ≠ .delegate

/-- The run returned with a status that says that it did not come to its end: `error`,
`failed`, `paused` or `interrupted`. -/
def Trace.EndedBadly (trace : Trace) : Prop :=
  ∃ res, trace.outcome = .ok res ∧ res.finished = false

/-- The run is one a group stops at: it raised, or it was that of a group, whose result has
no `cumulative_input_tokens_saved_by_rcs`. -/
def Trace.Stops (trace : Trace) : Prop :=
  (∃ e, trace.outcome = .error e) ∨ trace.isGroup = true

/-- The group returned a result with the status `completed`. -/
def ReportsCompleted (ran : Ran) : Prop :=
  ∃ g, ran.outcome = .ok (.group g) ∧ g.status = .completed

/-- The second of two runs was given the response of the first. -/
def Trace.FedBy (next previous : Trace) : Prop :=
  ∃ res, previous.outcome = .ok res ∧ next.input = res.finalResponse.getD ""

/-- **A group that reports `completed` did complete**: no member it ran itself ended badly,
and no member of a pipeline got the output of one that did. -/
def CompletedHonestly (ran : Ran) : Prop :=
  ReportsCompleted ran →
    (∀ t ∈ ran.trace.direct, ¬ t.EndedBadly) ∧
      ∀ xs x y ys, ran.trace.direct = xs ++ x :: y :: ys → x.EndedBadly → ¬ y.FedBy x

/-! ### What stops a group -/

/-- The group returned a result with the status `completed`. -/
def Completes (outcome : Except String TeamResult) : Prop :=
  ∃ g, outcome = .ok g ∧ g.status = .completed

/-- A group reports `completed` unless a run it executed stopped it, or nothing ran. -/
def StopsRight (outcome : Except String TeamResult) (direct : List Trace) : Prop :=
  (Completes outcome → ∀ t ∈ direct, ¬ t.Stops) ∧
    (¬ Completes outcome → direct = [] ∨ ∃ t ∈ direct, t.Stops)

theorem completes_completed (sessionId : String) (response : Option String)
    (results : Dict String MemberResult) (totals : Totals) :
    Completes (.ok (completedResult config sessionId response results totals)) := ⟨_, rfl, rfl⟩

/-- A failed group does not complete. -/
theorem not_completes_failed (sessionId e : String) (results : Dict String MemberResult) :
    ¬ Completes (.ok (failedResult config sessionId e results)) := by
  rintro ⟨g, h_g, h_status⟩
  obtain rfl := Except.ok.inj h_g
  cases h_status

theorem not_completes_error (e : String) : ¬ Completes (.error e) := by
  rintro ⟨g, h_g, -⟩
  cases h_g

/-- A group that completed was not stopped. -/
theorem StopsRight.of_completes {outcome : Except String TeamResult} {direct : List Trace}
    (h : Completes outcome) (h_direct : ∀ t ∈ direct, ¬ t.Stops) : StopsRight outcome direct :=
  ⟨fun _ => h_direct, fun h_not => absurd h h_not⟩

/-- A group that did not complete was stopped. -/
theorem StopsRight.of_stopped {outcome : Except String TeamResult} {direct : List Trace}
    (h : ¬ Completes outcome) (h_direct : direct = [] ∨ ∃ t ∈ direct, t.Stops) :
    StopsRight outcome direct :=
  ⟨fun h_completes => absurd h_completes h, fun _ => h_direct⟩

/-- The last addition raises for the result of a group only. -/
theorem add_ok_iff (totals : Totals) (res : MemberResult) :
    (totals.add res).2 = .ok () ↔ res.isGroup = false := by
  cases res <;> simp [Totals.add, MemberResult.cumulativeInputTokensSavedByRcs,
    MemberResult.isGroup]

/-- A member run stops its group unless it returned the result of a run. -/
theorem Tells.stops_iff {part : Part} {slot : Slot} {input : String} {remaining : ℤ} {ran : Ran}
    (h : Tells part slot input remaining ran) : ran.trace.Stops ↔ ¬ Merges ran.outcome := by
  unfold Trace.Stops Merges
  rw [h.outcome, h.isGroup]
  rcases h_outcome : ran.outcome with e | res
  · simp
  · rw [← h.kind res h_outcome]
    cases res <;> simp [MemberResult.isGroup]

/-- A blocking pipeline stops at a member that ended badly. -/
theorem runPipeline_stopsRight (config : GroupConfig) {members : Dict String Part}
    (h_members : ∀ m ∈ members, Traced script (path ++ [m.1]) m.2) (input : String) (budget : ℤ)
    (w : World) :
    let ran := (runPipeline script config path members input budget w).1
    StopsRight (.ok ran.1) ran.2 ∧ ∀ t ∈ ran.2, t.slot.role = .member := by
  apply runPipelineFrom_rule
    (I := fun line _ => ∀ t ∈ line.runs, ¬ t.Stops ∧ t.slot.role = .member)
    (Q := fun ran _ => StopsRight (.ok ran.1) ran.2 ∧ ∀ t ∈ ran.2, t.slot.role = .member) members
  · intro line w h_line
    exact ⟨.of_completes (completes_completed _ _ _ _) fun t h_t => (h_line t h_t).1,
      fun t h_t => (h_line t h_t).2⟩
  · intro name part line w h_mem h_line _ ran up
    have h_ran : Tells part line.slot line.currentInput (budget - line.totals.turnsUsed) ran.1 :=
      h_members _ h_mem _ _ _ _
    have h_role : ran.1.trace.slot.role = .member := by
      rw [h_ran.slot]
      rfl
    have h_roles : ∀ t ∈ line.runs ++ [ran.1.trace], t.slot.role = .member :=
      List.forall_mem_append.mpr ⟨fun t h_t => (h_line t h_t).2, by simpa using h_role⟩
    have h_stopped (h : ran.1.trace.Stops) :
        line.runs ++ [ran.1.trace] = [] ∨ ∃ t ∈ line.runs ++ [ran.1.trace], t.Stops :=
      .inr ⟨_, List.mem_append_right _ List.mem_cons_self, h⟩
    refine ⟨fun e h_e => ⟨.of_stopped (not_completes_failed _ _ _) (h_stopped ?_), h_roles⟩,
      fun res h_res => ⟨fun e h_e =>
        ⟨.of_stopped (not_completes_failed _ _ _) (h_stopped ?_), h_roles⟩, fun h_ok => ?_⟩⟩
    · -- the member raised
      rw [h_ran.stops_iff]
      rintro ⟨r, h_r⟩
      cases h_e.symm.trans h_r
    · -- the result was a group's
      rw [h_ran.stops_iff]
      rintro ⟨r, h_r⟩
      obtain rfl : res = .run r := Except.ok.inj (h_res.symm.trans h_r)
      cases h_e
    · rw [add_ok_iff] at h_ok
      refine List.forall_mem_append.mpr ⟨h_line, ?_⟩
      simp only [List.mem_singleton, forall_eq]
      refine ⟨fun h_stops => ?_, h_role⟩
      rw [h_ran.stops_iff] at h_stops
      cases res with
      | run r => exact h_stops ⟨r, h_res⟩
      | group g => cases h_ok
  · nofun

/-- A blocking parallel group reports what its members came to. -/
theorem runParallel_stopsRight (config : GroupConfig) {members : Dict String Part}
    (h_members : ∀ m ∈ members, Traced script (path ++ [m.1]) m.2) (input : String) (budget : ℤ)
    (w : World) :
    let ran := (runParallel script config path members input budget w).1
    StopsRight ran.1 ran.2 ∧ ∀ t ∈ ran.2, t.slot.role = .member := by
  unfold runParallel
  split_ifs with h_budget
  · exact ⟨.of_stopped (not_completes_failed _ _ _) (.inl rfl), nofun⟩
  · intro ran
    refine ⟨?_, fun t h_t => ?_⟩
    · -- the group completes exactly if every result merges, and a run stops if its does not
      by_cases h_merges : ∀ r ∈ inDefinitionOrder members.length
          (gatherParts (runMember script config path members input budget) members
            (finishOrder script path members w) (w.begin path)).1, Merges r.2.outcome
      · apply StopsRight.of_completes
        · change Completes (mergeResults _ _ _ _ _ _)
          rw [mergeResults_of_merges _ _ _ h_merges]
          exact completes_completed _ _ _ _
        · intro t h_t
          obtain ⟨r, h_r, rfl⟩ := List.mem_map.mp h_t
          obtain ⟨i, h_made⟩ := made_of_mem_results h_r
          obtain ⟨part, -, h_tells⟩ := h_made.tells h_members
          rw [h_tells.stops_iff, not_not]
          exact h_merges r h_r
      · simp only [not_forall] at h_merges
        obtain ⟨r, h_r, h_not⟩ := h_merges
        apply StopsRight.of_stopped
        · change ¬ Completes (mergeResults _ _ _ _ _ _)
          rcases mergeResults_of_stops config (w.sessionId path)
            (members.map Prod.fst) _ [] {} ⟨r, h_r, h_not⟩ with
            ⟨e, h_e⟩ | ⟨e, res, -, h_e⟩
          · rw [h_e]
            exact not_completes_error e
          · rw [h_e]
            exact not_completes_failed _ _ _
        · obtain ⟨i, h_made⟩ := made_of_mem_results h_r
          obtain ⟨part, -, h_tells⟩ := h_made.tells h_members
          exact .inr ⟨r.2.trace, List.mem_map_of_mem h_r, h_tells.stops_iff.mpr h_not⟩
    · obtain ⟨r, h_r, rfl⟩ := List.mem_map.mp h_t
      obtain ⟨i, h_made⟩ := made_of_mem_results h_r
      obtain ⟨part, -, h_tells⟩ := h_made.tells h_members
      rw [h_tells.slot]
      rfl

/-- The delegated runs of a supervisor group are marked as such. -/
theorem supervise_roles (config : GroupConfig) {members : Dict String Part} (supervisor : String)
    (budget : ℤ) (h_members : ∀ m ∈ members, Traced script (path ++ [m.1]) m.2) (agent : Agent) (input : String)
    (maxTurns : ℤ) (w : World) :
    ∀ t ∈ (supervise script config path members supervisor agent input budget maxTurns w).2.1.runs,
      t.slot.role = .delegate := by
  apply supervise_rule (I := fun office _ => ∀ t ∈ office.runs, t.slot.role = .delegate)
  · -- starting the supervisor answers no delegation
    intro _ office w h
    exact h
  · intro _ office w h
    exact h
  · refine ⟨fun office w h _ => h, fun name part task office w h_part h _ => ?_⟩
    refine List.forall_mem_append.mpr ⟨h, ?_⟩
    -- the run of a delegated member
    simp only [List.mem_singleton, forall_eq]
    rw [(h_members _ h_part.2 _ _ _ _).slot]
    rfl
  · -- an answer adds no run
    intro i answered office w h _ done
    simpa [done] using h
  · nofun

/-- What a group runs itself in the pattern of a supervisor: the supervisor. -/
theorem supervise_direct (config : GroupConfig) {members : Dict String Part} (supervisor : String)
    (budget : ℤ) (h_members : ∀ m ∈ members, Traced script (path ++ [m.1]) m.2) (agent : Agent) (input : String)
    (maxTurns : ℤ) (w : World) :
    let ran := supervise script config path members supervisor agent input budget maxTurns w
    (Trace.agent supervisorSlot ran.1 :: ran.2.1.runs).filter (fun t => t.slot.role ≠ .delegate) =
      [.agent supervisorSlot ran.1] := by
  intro ran
  have h_roles := supervise_roles config supervisor budget h_members agent input maxTurns w
  rw [List.filter_cons_of_pos (by simp [Trace.slot, supervisorSlot]),
    List.filter_eq_nil_iff.mpr fun t h_t => by simp [h_roles t h_t]]

/-- A blocking supervisor group stops with its supervisor. -/
theorem runSupervisor_stopsRight (config : GroupConfig) {members : Dict String Part}
    (h_members : ∀ m ∈ members, Traced script (path ++ [m.1]) m.2) (input : String) (budget : ℤ)
    (w : World) :
    let ran := (runSupervisor script config path members input budget w).1
    let direct := ran.2.filter fun t => t.slot.role ≠ .delegate
    StopsRight (.ok ran.1) direct ∧ direct.length ≤ 1 := by
  unfold runSupervisor
  split
  · exact ⟨.of_stopped (not_completes_failed _ _ _) (.inl rfl), Nat.zero_le 1⟩
  · rename_i supervisor agent h_find
    split_ifs with h_budget
    · exact ⟨.of_stopped (not_completes_failed _ _ _) (.inl rfl), Nat.zero_le 1⟩
    · -- the supervisor is the one direct run; its delegates answer to it
      have h_direct := supervise_direct config supervisor budget h_members agent input budget w
      simp only at h_direct ⊢
      split
      · rename_i e h_e
        rw [h_direct]
        refine ⟨.of_stopped (not_completes_failed _ _ _) (.inr ⟨_, List.mem_singleton_self _, ?_⟩),
          le_rfl⟩
        exact .inl ⟨e, by simp [Trace.outcome, h_e, Except.map]⟩
      · rename_i r h_r
        rw [h_direct]
        refine ⟨.of_completes (completes_completed _ _ _ _) fun t h_t => ?_, le_rfl⟩
        obtain rfl := List.mem_singleton.mp h_t
        rintro (⟨e, h_e⟩ | h_group)
        · simp [Trace.outcome, h_r, Except.map] at h_e
        · cases h_group

/-! ### The exact condition -/

/-- What a group run shows of its result and its direct runs. -/
theorem runGroup_stopsRight (config : GroupConfig) {members : Dict String Part}
    (h_members : ∀ m ∈ members, Traced script (path ++ [m.1]) m.2) (slot : Slot) (input : String)
    (maxTurns : Option ℤ) (w : World) :
    let ran := (runGroup script config path members slot input maxTurns w).1
    (ReportsCompleted ran → ∀ t ∈ ran.trace.direct, ¬ t.Stops) ∧
      (¬ ReportsCompleted ran → ran.trace.direct = [] ∨ ∃ t ∈ ran.trace.direct, t.Stops) := by
  have h_reports (outcome : Except String TeamResult) (trace : Trace) :
      ReportsCompleted ⟨outcome.map .group, trace⟩ ↔ Completes outcome := by
    cases outcome with
    | error e => simp [ReportsCompleted, Completes, Except.map]
    | ok g => simp [ReportsCompleted, Completes, Except.map]
  have h_all {runs : List Trace} (h : ∀ t ∈ runs, t.slot.role = .member) :
      runs.filter (fun t => t.slot.role ≠ .delegate) = runs :=
    List.filter_eq_self.mpr fun t h_t => by simp [h t h_t]
  unfold runGroup runPattern
  simp only [h_reports, Trace.direct, Trace.inner]
  cases config.pattern with
  | pipeline =>
    obtain ⟨h_stops, h_roles⟩ := runPipeline_stopsRight config h_members input
      (effectiveTurnBudget config.maxTurns maxTurns) w
    simp only [h_all h_roles]
    exact h_stops
  | parallel =>
    obtain ⟨h_stops, h_roles⟩ := runParallel_stopsRight config h_members input
      (effectiveTurnBudget config.maxTurns maxTurns) w
    simp only [h_all h_roles]
    exact h_stops
  -- here the delegates are among the runs, so they are left out of the direct ones
  | supervisor =>
    exact (runSupervisor_stopsRight config h_members input
      (effectiveTurnBudget config.maxTurns maxTurns) w).1

/-- **Exactly when a group that reports `completed` did complete.** For every group, script and
budget, it did if and only if a member run stopped the group (it raised, or a pipeline or
parallel group ran a nested group), or every member the group ran itself came to its end. -/
theorem completed_honestly_iff (script : Script) (group : Group) (ctx : RunContext) (path : Path)
    (input : String) (maxTurns : Option ℤ) (w : World) :
    CompletedHonestly (group.run script ctx path input maxTurns w).1 ↔
      (∃ t ∈ (group.run script ctx path input maxTurns w).1.trace.direct, t.Stops) ∨
        ∀ t ∈ (group.run script ctx path input maxTurns w).1.trace.direct, ¬ t.EndedBadly := by
  obtain ⟨h_completed, h_not⟩ := runGroup_stopsRight group.config
    (group.parts_traced ctx path) Group.rootSlot input maxTurns w
  constructor
  · intro h_honest
    -- a completed group has no member that ended badly
    by_cases h : ReportsCompleted (group.run script ctx path input maxTurns w).1
    · exact .inr (h_honest h).1
    · -- a group that did not complete ran none, or stopped at one of them
      rcases h_not h with h_none | h_stops
      · refine .inr fun t h_t => ?_
        have h_t' : t ∈ ([] : List Trace) := h_none ▸ h_t
        cases h_t'
      · exact .inl h_stops
  · rintro (⟨t, h_t, h_stops⟩ | h_fine) h
    · -- a stop would be no completion
      exact absurd h_stops (h_completed h t h_t)
    · -- and nothing bad comes in front of anything
      refine ⟨h_fine, fun xs x y ys h_runs h_bad => absurd h_bad (h_fine x ?_)⟩
      rw [h_runs]
      simp

/-! ### A group that hides an error -/

/-- Agents whose runs take one turn and answer; that of `draft` ends with an error. -/
def errorScript : Script where
  agent path _ _ limit _ := .finish (.returning limit
    { sessionId := "s"
      finalResponse := some "out"
      turnsUsed := 1
      status := if path = ["draft"] then .error else .completed })

/-- A pipeline of two agents. -/
def reviewGroup : Group where
  config := { name := "review", pattern := .pipeline }
  members := [.agent "draft" 10, .agent "check" 10]

/-- The first agent of a pipeline ends with the status `error`: the second one reads its
response, and the group reports `completed`. -/
theorem pipeline_hides_error :
    ¬ CompletedHonestly (reviewGroup.run errorScript {} [] "go" none freshWorld).1 := by
  intro h
  have h_reports : ReportsCompleted (reviewGroup.run errorScript {} [] "go" none freshWorld).1 :=
    ⟨_, rfl, rfl⟩
  apply (h h_reports).1 (.agent ⟨.member, 0⟩ _) List.mem_cons_self
  exact ⟨_, rfl, rfl⟩

end Nexus.Team
