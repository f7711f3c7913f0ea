import Mathlib.Algebra.Order.BigOperators.Group.List
import Mathlib.Algebra.Order.Group.Nat
import NexusAgent.Multiagent.Groups

/-!
# How many turns a group takes

`max_turns` of a group is the number of turns its members may take together. A pattern passes
a member what is left of it, and counts a run when it is over: the supervisor's own turns and
those of members in progress are still to come when a delegation starts, and every member of a
parallel group is passed all of it.

* `Trace.Fits` says of a group run that each member run it started had room: the turns spoken
  for at the start and the run's own limit are within the budget.
* `Within` is what every pattern keeps: if its member runs had room, they took no more turns
  than the budget.
* `turns_within_budget` takes it to every run of a tree, blocking and streaming, and
  `parallel_exceeds_budget` runs a group whose members had no room.
-/

open Lib

namespace Nexus.Team

variable {script : Script} {config : GroupConfig} {path : Path}

/-- Each member run of the group had room when it started. -/
def Trace.Fits : Trace → Prop
  | .agent _ _ => True
  | .group _ run inner =>
    0 ≤ run.budget ∧ ∀ t ∈ inner, ((t.slot.standing + t.limit : ℕ) : ℤ) ≤ run.budget

instance : (t : Trace) → Decidable t.Fits
  | .agent _ _ => isTrue trivial
  | .group _ run inner => inferInstanceAs (Decidable (0 ≤ run.budget ∧
      ∀ t ∈ inner, ((t.slot.standing + t.limit : ℕ) : ℤ) ≤ run.budget))

/-! ### One group run -/

/-- The member run had room, and took no more turns than its limit. -/
structure HadRoom (budget : ℤ) (t : Trace) : Prop where
  room : ((t.slot.standing + t.limit : ℕ) : ℤ) ≤ budget
  turns_le : t.turns ≤ t.limit

/-- Member runs that had room stay within the budget. -/
def Within (budget : ℤ) (runs : List Trace) : Prop :=
  0 ≤ budget → (∀ t ∈ runs, HadRoom budget t) → (turnsTaken runs : ℤ) ≤ budget

theorem within_nil (budget : ℤ) : Within budget [] := fun h _ => h

@[simp] theorem turnsTaken_concat (runs : List Trace) (t : Trace) :
    turnsTaken (runs ++ [t]) = turnsTaken runs + t.turns := by
  simp [turnsTaken]

/-- A run that starts when the runs before it are over. -/
theorem within_concat {budget : ℤ} {runs : List Trace} {t : Trace}
    (h : t.slot.standing = turnsTaken runs) : Within budget (runs ++ [t]) := by
  intro _ h_runs
  have h_t := h_runs t (by simp)
  have h_room := h_t.room
  have h_turns := h_t.turns_le
  rw [turnsTaken_concat]
  omega

/-- A blocking pipeline gives each member what the members before it left over. -/
theorem runPipeline_within (config : GroupConfig) {members : Dict String Part}
    (h_members : ∀ m ∈ members, Traced script (path ++ [m.1]) m.2) (input : String) (budget : ℤ)
    (w : World) :
    Within budget (runPipeline script config path members input budget w).1.2 := by
  apply runPipelineFrom_rule (I := fun line _ => Within budget line.runs)
    (Q := fun ran _ => Within budget ran.2) members
  · exact fun line w h => h
  · intro name part line w h_mem _ _ ran up
    -- the member is told what is left
    have h_tells : Tells part line.slot line.currentInput (budget - line.totals.turnsUsed) ran.1 :=
      h_members _ h_mem _ _ _ _
    have h_within : Within budget (line.runs ++ [ran.1.trace]) :=
      within_concat (by rw [h_tells.slot]; rfl)
    -- the run ends here, or goes on with the turns that this member took
    exact ⟨fun _ _ => h_within, fun _ _ => ⟨fun _ _ => h_within, fun _ => h_within⟩⟩
  · exact within_nil budget

/-- A streaming pipeline's members stand where those before them end. -/
theorem streamPipeline_within (config : GroupConfig) {members : Dict String Part}
    (h_members : ∀ m ∈ members, StreamTraced script (path ++ [m.1]) m.2) (input : String)
    (budget : ℤ) (w : World) :
    Within budget (streamPipeline script config path members input w).1.runs := by
  apply streamPipelineFrom_rule (I := fun line _ => Within budget line.runs)
    (Q := fun stream _ => Within budget stream.runs) members
  · exact fun line w h => h
  · intro name part line w h_mem _ streamed forwarded
    have h_tells : StreamTells part ⟨.member, turnsTaken line.runs⟩ streamed.1 :=
      h_members _ h_mem _ _ _
    have h_within : Within budget (line.runs ++ [streamed.1.trace]) :=
      within_concat (by rw [h_tells.slot])
    -- forwarding the events adds no run but the member's own
    have h_runs : forwarded.1.runs = line.runs ++ [streamed.1.trace] := forwardEvents_runs _ _ _ _
    refine ⟨fun e _ => ?_, fun _ => ?_⟩
    · -- the stream ends with an error, or goes on
      rw [← h_runs] at h_within
      exact h_within
    · rwa [h_runs]
  · exact within_nil budget

/-- Runs that start together: the limits of those before it stand at each start. -/
theorem within_together {budget : ℤ} {runs : List Trace}
    (h : ∀ i t, runs[i]? = some t → t.slot.standing = ((runs.take i).map Trace.limit).sum) :
    Within budget runs := by
  rcases runs.eq_nil_or_concat' with rfl | ⟨init, last, rfl⟩
  · exact within_nil budget
  · intro _ h_runs
    have h_last := h_runs last (by simp)
    have h_standing := h init.length last (by simp)
    rw [List.take_left] at h_standing
    -- the turns of the others are within their limits
    have h_init : turnsTaken init ≤ (init.map Trace.limit).sum :=
      List.sum_le_sum fun t h_t => (h_runs t (by simp [h_t])).turns_le
    have h_room := h_last.room
    have h_turns := h_last.turns_le
    rw [turnsTaken_concat]
    omega

/-- The results of a parallel group are runs that start together. -/
theorem within_results {β : Type} {task : ℕ → String → Part → World → β × World}
    {members : Dict String Part} (trace : β → Trace) (limit : Part → ℕ) (budget : ℤ) (w w' : World)
    (h_task : ∀ i name part w, (name, part) ∈ members →
      (trace (task i name part w).1).slot.standing =
          ((members.take i).map fun m => limit m.2).sum ∧
        (trace (task i name part w).1).limit = limit part) :
    Within budget ((inDefinitionOrder members.length
      (gatherParts task members (finishOrder script path members w) w').1).map
        fun r => trace r.2) := by
  have h_places := fun i r => @made_of_getElem?_results _ task members script path w w' i r
  have h_names := @results_names _ task members script path w w'
  generalize inDefinitionOrder members.length _ = results at h_places h_names
  have h_made {i : ℕ} {r : String × β} (h_r : results[i]? = some r) :
      ∃ part, members[i]? = some (r.1, part) ∧
        (trace r.2).slot.standing = ((members.take i).map fun m => limit m.2).sum ∧
        (trace r.2).limit = limit part := by
    obtain ⟨part, w'', h_part, h_ran⟩ := h_places i r h_r
    rw [h_ran]
    exact ⟨part, h_part, h_task i r.1 part w'' (List.mem_of_getElem? h_part)⟩
  -- the limits of the results are those of the members, in their order
  have h_limits : (results.map fun r => trace r.2).map Trace.limit =
      members.map fun m => limit m.2 := by
    apply List.ext_getElem?
    intro i
    rw [List.getElem?_map, List.getElem?_map, List.getElem?_map]
    rcases h_r : results[i]? with _ | r
    · have h_length := congrArg List.length h_names
      rw [List.length_map, List.length_map] at h_length
      rw [List.getElem?_eq_none_iff, h_length, ← List.getElem?_eq_none_iff] at h_r
      rw [h_r]
      rfl
    · obtain ⟨part, h_part, -, h_limit⟩ := h_made h_r
      rw [h_part]
      simp [h_limit]
  apply within_together
  intro i t h_t
  rw [List.getElem?_map] at h_t
  obtain ⟨r, h_r, rfl⟩ := Option.map_eq_some_iff.mp h_t
  obtain ⟨part, -, h_standing, -⟩ := h_made h_r
  rw [h_standing, List.map_take, List.map_take, h_limits]

/-- A blocking parallel group gives each member the whole budget. -/
theorem runParallel_within (config : GroupConfig) {members : Dict String Part}
    (h_members : ∀ m ∈ members, Traced script (path ++ [m.1]) m.2) (input : String) (budget : ℤ)
    (w : World) :
    Within budget (runParallel script config path members input budget w).1.2 := by
  unfold runParallel
  split_ifs
  · exact within_nil budget
  · apply within_results Ran.trace (Part.limit budget)
    -- each member runs in its own slot, whatever the order in which they finish
    intro i name part w' h_mem
    have h_tells := h_members _ h_mem (parallelSlot members budget i) input budget
      (syncDown config path name none w')
    exact ⟨congrArg Slot.standing h_tells.slot, h_tells.limit⟩

/-- A streaming parallel group leaves each member its own limit. -/
theorem streamParallel_within (config : GroupConfig) {members : Dict String Part}
    (h_members : ∀ m ∈ members, StreamTraced script (path ++ [m.1]) m.2) (input : String)
    (budget : ℤ) (w : World) :
    Within budget (streamParallel script config path members input w).1.runs := by
  have h_within : Within budget ((inDefinitionOrder members.length
      (gatherParts (pumpMember script config path members input) members
        (finishOrder script path members w) (w.begin path)).1).map fun s => s.2.trace) := by
    apply within_results Streamed.trace Part.ownLimit
    intro i name part w' h_mem
    have h_tells := h_members _ h_mem (streamSlot members i) input
      (syncDown config path name none w')
    exact ⟨congrArg Slot.standing h_tells.slot, h_tells.limit⟩
  -- the group ends with a result or an error, and has run the same members
  unfold streamParallel
  simp only
  split
  · exact h_within
  · exact h_within

/-! ### Supervisors -/

/-- What is spoken for while a supervisor runs, with at most `limit` turns of its own: the turns
of the answered delegations and the limits of the open ones. -/
structure Reserves (budget : ℤ) (limit : ℕ) (office : Office) : Prop where
  known : ∀ name ran, .running name ran ∈ office.pending → ran.trace ∈ office.runs
  reserved : ((limit + office.answeredTurns + (office.pending.map Pending.limit).sum : ℕ) : ℤ) ≤
    budget
  taken : turnsTaken office.runs = office.answeredTurns + (office.pending.map Pending.turns).sum

/-- Answering a delegation gives back the turns it did not take. -/
theorem answerDelegation_reserves (config : GroupConfig) (path : Path) {budget : ℤ} {limit i : ℕ}
    {answered : Pending} {office : Office} (w : World)
    (h_runs : ∀ t ∈ office.runs, HadRoom budget t) (h : Reserves budget limit office)
    (h_i : office.pending[i]? = some answered) :
    Reserves budget limit (answerDelegation config path answered
      { office with pending := office.pending.eraseIdx i } w).2.1 := by
  obtain ⟨h_known, h_reserved, h_taken⟩ := h
  -- the answered delegation leaves what is pending
  rw [sum_map_eraseIdx Pending.limit h_i] at h_reserved
  rw [sum_map_eraseIdx Pending.turns h_i] at h_taken
  -- its member took no more turns than were reserved for it
  have h_turns : answered.turns ≤ answered.limit := by
    cases answered with
    | answered text => exact le_rfl
    | running name ran =>
      exact (h_runs _ (h_known name ran (List.mem_of_getElem? h_i))).turns_le
  refine ⟨?_, ?_, ?_⟩
  · rw [answerDelegation_pending, answerDelegation_runs]
    exact fun name ran h_mem => h_known name ran (List.mem_of_mem_eraseIdx h_mem)
  · -- what was reserved for the others is still reserved
    rw [answerDelegation_pending, answerDelegation_answeredTurns]
    simp only
    omega
  · -- and the turns taken are those answered and those still running
    rw [answerDelegation_pending, answerDelegation_answeredTurns, answerDelegation_runs]
    simp only
    omega

/-- The supervisor and its delegations stay within the budget. -/
theorem supervise_within (config : GroupConfig) {members : Dict String Part}
    (h_members : ∀ m ∈ members, Traced script (path ++ [m.1]) m.2) (supervisor : String)
    (agent : Agent) (input : String) (budget maxTurns : ℤ) (w : World) :
    let ran := supervise script config path members supervisor agent input budget maxTurns w
    Within budget (.agent supervisorSlot ran.1 :: ran.2.1.runs) := by
  intro ran _ h_runs
  obtain ⟨h_lead, h_delegated⟩ := List.forall_mem_cons.mp h_runs
  have h_lead_limit : (Trace.agent supervisorSlot ran.1).limit = agent.turnLimit (some maxTurns) :=
    rfl
  have h_reserves : Reserves budget (agent.turnLimit (some maxTurns)) ran.2.1 := by
    -- as long as the runs had room, the office reserves what is still open
    have h_rule : (∀ t ∈ ran.2.1.runs, HadRoom budget t) →
        Reserves budget (agent.turnLimit (some maxTurns)) ran.2.1 := by
      apply supervise_rule (I := fun office _ => (∀ t ∈ office.runs, HadRoom budget t) →
        Reserves budget (agent.turnLimit (some maxTurns)) office)
      · exact fun _ _ _ h => h
      · exact fun _ _ _ h => h
      · refine ⟨fun office w h _ h_kept => ?_, ?_⟩
        · -- a delegation that starts nothing reserves nothing
          obtain ⟨h_known, h_reserved, h_taken⟩ := h h_kept
          refine ⟨fun name ran' h_mem => h_known name ran' (by simpa using h_mem), ?_, ?_⟩
          · simpa [Pending.limit] using h_reserved
          · simpa [Pending.turns] using h_taken
        · intro name part task office w h_part h _ ran' h_kept
          obtain ⟨h_before, h_new⟩ := List.forall_mem_append.mp h_kept
          obtain ⟨h_known, h_reserved, h_taken⟩ := h h_before
          -- one that starts a run reserves the limit of its member
          have h_tells : Tells part (office.slot (agent.turnLimit (some maxTurns))) task
              (budget - office.totals.turnsUsed) ran'.1 := h_members _ h_part.2 _ _ _ _
          have h_room := (h_new ran'.1.trace (by simp)).room
          rw [h_tells.slot] at h_room
          refine ⟨fun name' ran'' h_mem => ?_, ?_, ?_⟩
          · rcases List.mem_append.mp h_mem with h_open | h_last
            · exact List.mem_append_left _ (h_known name' ran'' h_open)
            · obtain ⟨rfl, rfl⟩ := Pending.running.inj (List.mem_singleton.mp h_last)
              simp
          · simp only [Office.slot] at h_room
            simp only [List.map_append, List.sum_append, List.map_cons, List.map_nil,
              List.sum_singleton, Pending.limit]
            omega
          · rw [turnsTaken_concat, h_taken]
            simp [Pending.turns, Nat.add_assoc]
      · intro i answered office w h h_i done h_kept
        have h_kept' : ∀ t ∈ office.runs, HadRoom budget t := by simpa [done] using h_kept
        exact answerDelegation_reserves config path w h_kept' (h h_kept') h_i
      · intro _
        have h_room := h_lead.room
        rw [h_lead_limit] at h_room
        refine ⟨by simp, ?_, rfl⟩
        simpa [Trace.slot, supervisorSlot] using h_room
    exact h_rule h_delegated
  -- in the end nothing is open, so all that was reserved was taken
  have h_taken := h_reserves.taken
  have h_reserved := h_reserves.reserved
  rw [supervise_pending] at h_taken h_reserved
  simp only [List.map_nil, List.sum_nil, Nat.add_zero] at h_taken h_reserved
  have h_own := h_lead.turns_le
  rw [h_lead_limit] at h_own
  change ((Trace.turns (.agent supervisorSlot ran.1) + turnsTaken ran.2.1.runs : ℕ) : ℤ) ≤ budget
  omega

/-- A blocking supervisor group keeps within its budget. -/
theorem runSupervisor_within (config : GroupConfig) {members : Dict String Part}
    (h_members : ∀ m ∈ members, Traced script (path ++ [m.1]) m.2) (input : String) (budget : ℤ)
    (w : World) :
    Within budget (runSupervisor script config path members input budget w).1.2 := by
  unfold runSupervisor
  split
  · exact within_nil budget
  · rename_i supervisor agent _
    have h_within := supervise_within config h_members supervisor agent input budget budget w
    split_ifs
    · exact within_nil budget
    · simp only at h_within ⊢
      -- the supervisor returned or raised
      split
      · exact h_within
      · exact h_within

/-- So does a streaming one. -/
theorem streamSupervisor_within (config : GroupConfig) {members : Dict String Part}
    (h_members : ∀ m ∈ members, Traced script (path ++ [m.1]) m.2) (input : String) (w : World) :
    Within config.maxTurns (streamSupervisor script config path members input w).1.runs := by
  unfold streamSupervisor
  split
  · exact within_nil _
  · rename_i supervisor agent _
    have h_within (maxTurns : ℤ) :=
      supervise_within config h_members supervisor agent input config.maxTurns maxTurns w
    simp only at h_within ⊢
    split
    · exact h_within _
    · exact h_within _

/-! ### Every group run -/

/-- What every group run keeps. -/
def Trace.Bounded : Trace → Prop
  | .agent _ _ => True
  | .group _ run inner => Within run.budget inner

/-- In every group a blocking run goes through, the members stay within what they are given. -/
theorem runGroup_bounded (config : GroupConfig) (path : Path) (members : Dict String Part)
    (h_members : ∀ m ∈ members, Traced script (path ++ [m.1]) m.2) (slot : Slot) (input : String)
    (maxTurns : Option ℤ) (w : World) :
    (runGroup script config path members slot input maxTurns w).1.trace.Bounded := by
  simp only [runGroup, Trace.Bounded, runPattern]
  cases config.pattern with
  | pipeline => exact runPipeline_within config h_members input _ w
  | supervisor => exact runSupervisor_within config h_members input _ w
  | parallel => exact runParallel_within config h_members input _ w

/-- So do those of a streaming run. -/
theorem streamGroup_bounded (config : GroupConfig) (path : Path) (members : Dict String Part)
    (h_members : ∀ m ∈ members, Traced script (path ++ [m.1]) m.2)
    (h_streams : ∀ m ∈ members, StreamTraced script (path ++ [m.1]) m.2) (slot : Slot)
    (input : String) (w : World) :
    (streamGroup script config path members slot input w).1.trace.Bounded := by
  simp only [streamGroup, Trace.Bounded, streamPattern]
  cases config.pattern with
  | pipeline => exact streamPipeline_within config h_streams input _ w
  | supervisor => exact streamSupervisor_within config h_members input w
  | parallel => exact streamParallel_within config h_streams input _ w

/-- The turns of a group are those of its direct members. -/
theorem turns_group (slot : Slot) (run : GroupRun) (inner : List Trace) :
    (Trace.group slot run inner).turns = turnsTaken inner := by
  unfold Trace.turns turnsTaken
  rw [Trace.leaves_group]
  induction inner with
  | nil => simp
  | cons t inner ih =>
    rw [Trace.leavesAll_cons, List.map_append, List.sum_append, ih]
    rfl

mutual

/-- A run whose member runs had room takes no more turns than its limit. -/
theorem turns_le_limit : ∀ t : Trace, (∀ s ∈ t.groups, s.Bounded) → (∀ s ∈ t.groups, s.Fits) →
    t.turns ≤ t.limit
  | .agent _ run, _, _ => by
    simpa [Trace.turns, Trace.limit] using run.ending.turns_le
  | .group slot run inner, h_bounded, h_fits => by
    rw [Trace.groups_group] at h_bounded h_fits
    obtain ⟨h_within, h_below⟩ := List.forall_mem_cons.mp h_bounded
    -- the group itself fits, and so do the groups inside it
    obtain ⟨⟨h_budget, h_room⟩, h_fits_below⟩ := List.forall_mem_cons.mp h_fits
    -- so each member takes at most its limit
    have h_turns := allTurns_le_limit inner h_below h_fits_below
    have h_taken := h_within h_budget fun t h_t => ⟨h_room t h_t, h_turns t h_t⟩
    rw [turns_group, Trace.limit]
    omega

/-- No run takes more turns than it was given. -/
theorem allTurns_le_limit : ∀ ts : List Trace, (∀ s ∈ Trace.groupsAll ts, s.Bounded) →
    (∀ s ∈ Trace.groupsAll ts, s.Fits) → ∀ t ∈ ts, t.turns ≤ t.limit
  | [], _, _ => nofun
  | t :: ts, h_bounded, h_fits => by
    rw [Trace.groupsAll, List.forall_mem_append] at h_bounded h_fits
    exact List.forall_mem_cons.mpr ⟨turns_le_limit t h_bounded.1 h_fits.1,
      allTurns_le_limit ts h_bounded.2 h_fits.2⟩

end

/-- Agents that take one turn; that of `lead` delegates to `helper` in it. -/
def turnScript : Script where
  agent path _ _ limit _ :=
    let ending : Ending limit := .returning limit
      { sessionId := "s", finalResponse := some "out", turnsUsed := 1, status := .completed }
    if path = ["lead"] then .delegate "helper" "check" (.collect 0 fun _ => .finish ending)
    else .finish ending

/-- A supervisor and a helper whose limits leave room for both. -/
def helpDesk : Group where
  config := { name := "desk", supervisor := some "lead", maxTurns := 20 }
  members := [.agent "lead" 5, .agent "helper" 10]

/-- Two agents that run at once, with one turn for both. -/
def crowdedPanel : Group where
  config := { name := "panel", pattern := .parallel, maxTurns := 1 }
  members := [.agent "left" 10, .agent "right" 10]

end Nexus.Team
