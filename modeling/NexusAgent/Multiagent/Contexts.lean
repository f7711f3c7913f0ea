import NexusAgent.Multiagent.Rules

/-!
# What a group run does to the bags of its context

`derive_child` copies the bags of a group to its members, `_sync_down` refreshes them before a
member runs, and `_sync_up` merges a member's bags back when the group shares its context.

* `Below path` and `Inside path` relate two worlds whose bags differ only from a path on, or
  only strictly below it. A member run stays below the member, so a group that merges nothing
  back stays inside (`Frames`).
* `Blind` says of a change of the world that the steps of a group neither read nor undo
  it. Overwriting the bags of an isolated group is such a change, so nothing its members do
  depends on them.
* `context_frame` puts both together, for every group, tree and sequence of calls.
-/

open Lib

namespace Nexus.Team

variable {script : Script} {config : GroupConfig} {path : Path}

/-! ### Worlds that differ below a path -/

/-- The bags differ only at paths that continue `path`. -/
def Below (path : Path) (w w' : World) : Prop := ∀ q, ¬ path <+: q → w'.bags q = w.bags q

/-- The bags differ only at paths that continue `path` by a name. -/
def Inside (path : Path) (w w' : World) : Prop :=
  ∀ q, (∀ name, ¬ path ++ [name] <+: q) → w'.bags q = w.bags q

theorem Below.refl (path : Path) (w : World) : Below path w w := fun _ _ => rfl

theorem Inside.refl (path : Path) (w : World) : Inside path w w := fun _ _ => rfl

theorem Below.trans {u v w : World} (h : Below path u v) (h' : Below path v w) : Below path u w :=
  fun q h_q => (h' q h_q).trans (h q h_q)

theorem Inside.trans {u v w : World} (h : Inside path u v) (h' : Inside path v w) :
    Inside path u w :=
  fun q h_q => (h' q h_q).trans (h q h_q)

/-- What happens below a member happens inside its group. -/
theorem Below.inside {name : String} {w w' : World} (h : Below (path ++ [name]) w w') :
    Inside path w w' :=
  fun q h_q => h q (h_q name)

theorem Inside.below {w w' : World} (h : Inside path w w') : Below path w w' :=
  fun q h_q => h q fun _ h_prefix => h_q ((List.prefix_append _ _).trans h_prefix)

theorem not_prefix_own (path : Path) (name : String) : ¬ path ++ [name] <+: path := by
  intro h_prefix
  have h_length : path.length + 1 ≤ path.length := by simpa using h_prefix.length_le
  omega

/-- Inside a group its own bags stay as they are. -/
theorem Inside.own {w w' : World} (h : Inside path w w') : w'.bags path = w.bags path := by
  exact h path (not_prefix_own path)

/-- An edit changes the bags at its path only. -/
theorem below_edit (path : Path) (f : Bags → Bags) (w : World) : Below path w (w.edit path f) := by
  intro q h_q
  apply World.edit_bags_ne
  rintro rfl
  exact h_q (List.prefix_refl _)

/-- Syncing down writes inside the group only. -/
theorem inside_syncDown (config : GroupConfig) (path : Path) (name : String)
    (delegatedBy : Option String) (w : World) :
    Inside path w (syncDown config path name delegatedBy w) := by
  unfold syncDown
  split_ifs
  · exact .refl path w
  · exact (below_edit _ _ w).inside

/-- Syncing up writes at the group and below only. -/
theorem below_syncUp (config : GroupConfig) (path : Path) (name : String) (w : World) :
    Below path w (syncUp config path name w) := by
  unfold syncUp
  split_ifs
  · exact .refl path w
  · exact below_edit _ _ w

theorem syncUp_of_ne_shared (h : config.contextSharing ≠ .shared) (path : Path) (name : String)
    (w : World) : syncUp config path name w = w := by
  rw [syncUp, if_pos h]

/-! ### Patterns that stay in a relation -/

/-- Every run of a member stays below it. -/
structure Keeps (script : Script) (path : Path) (part : Part) : Prop where
  run : ∀ slot input remaining w, Below path w (runPart script path slot input remaining part w).2
  stream : ∀ slot input w, Below path w (streamPart script path slot input part w).2

/-- A relation between worlds that the steps of a group stay in. -/
structure Frames (config : GroupConfig) (path : Path) (R : World → World → Prop) : Prop where
  trans : ∀ {u v w}, R u v → R v w → R u w
  inside : ∀ {w w'}, Inside path w w' → R w w'
  up : ∀ name w, R w (syncUp config path name w)

/-- A group that merges nothing back stays inside. -/
theorem frames_inside (h : config.contextSharing ≠ .shared) (path : Path) :
    Frames config path (Inside path) where
  trans := Inside.trans
  inside h := h
  up name w := by
    rw [syncUp_of_ne_shared h]
    exact .refl path w

/-- Every group stays below its path. -/
theorem frames_below (config : GroupConfig) (path : Path) : Frames config path (Below path) where
  trans := Below.trans
  inside := Inside.below
  up := below_syncUp config path

section Patterns

variable {R : World → World → Prop} {members : Dict String Part}

/-- A blocking pipeline changes what the frame allows, if its members do. -/
theorem runPipeline_frame (h : Frames config path R)
    (h_members : ∀ m ∈ members, Keeps script (path ++ [m.1]) m.2) (input : String) (budget : ℤ)
    (w : World) : R w (runPipeline script config path members input budget w).2 := by
  apply runPipelineFrom_rule (I := fun _ => R w) (Q := fun _ => R w) members
  · exact fun _ _ h_w => h_w
  · intro name part line w' h_mem h_w _ ran up
    -- down to the member
    have h_down := h.trans h_w (h.inside (inside_syncDown config path name none w'))
    -- the member's run, which stays inside its own path
    have h_ran : R w ran.2 :=
      h.trans h_down (h.inside ((h_members _ h_mem).run _ _ _ _).inside)
    -- and up again
    have h_up : R w up := h.trans h_ran (h.up name ran.2)
    exact ⟨fun _ _ => h_ran, fun _ _ => ⟨fun _ _ => h_up, fun _ => h_up⟩⟩
  · exact h.inside (.refl path w)

/-- Forwarding events merges bags only up. -/
theorem forwardEvents_frame (h : Frames config path R) (name : String) (events : List Event)
    (line : StreamLine) (w : World) : R w (forwardEvents config path name events line w).2 := by
  induction events generalizing line w with
  | nil => exact h.inside (.refl path w)
  | cons event events ih =>
    cases event with
    | final res => exact h.trans (h.up name w) (ih _ _)
    | error content => exact ih _ w

/-- So does a streaming pipeline. -/
theorem streamPipeline_frame (h : Frames config path R)
    (h_members : ∀ m ∈ members, Keeps script (path ++ [m.1]) m.2) (input : String) (w : World) :
    R w (streamPipeline script config path members input w).2 := by
  apply streamPipelineFrom_rule (I := fun _ => R w) (Q := fun _ => R w) members
  · exact fun _ _ h_w => h_w
  · intro name part line w' h_mem h_w streamed forwarded
    have h_down := h.trans h_w (h.inside (inside_syncDown config path name none w'))
    have h_streamed : R w streamed.2 :=
      h.trans h_down (h.inside ((h_members _ h_mem).stream _ _ _).inside)
    -- each final response among the events merges the bags up
    have h_forwarded : R w forwarded.2 :=
      h.trans h_streamed (forwardEvents_frame h name _ _ _)
    exact ⟨fun _ _ => h_forwarded, fun _ => h_forwarded⟩
  · exact h.inside (.refl path w)

/-- What is gathered from tasks that stay below their members stays inside the group. -/
theorem gatherParts_inside {β : Type} {task : ℕ → String → Part → World → β × World}
    (h_task : ∀ i name part w, (name, part) ∈ members → Inside path w (task i name part w).2)
    (order : List ℕ) (w : World) : Inside path w (gatherParts task members order w).2 := by
  apply gatherParts_rule (I := fun _ => Inside path w) order _ [] w (.refl path w)
  intro i name part done w' h_part h_w
  exact h_w.trans (h_task i name part w' (List.mem_of_getElem? h_part))

/-- A parallel group stays inside its path. -/
theorem runParallel_inside (h_members : ∀ m ∈ members, Keeps script (path ++ [m.1]) m.2)
    (config : GroupConfig) (input : String) (budget : ℤ) (w : World) :
    Inside path w (runParallel script config path members input budget w).2 := by
  unfold runParallel
  split_ifs
  · exact .refl path w
  · apply gatherParts_inside (w := w.begin path)
    intro i name part w' h_mem
    exact (inside_syncDown config path name none w').trans
      ((h_members _ h_mem).run _ _ _ _).inside

/-- Streaming or not. -/
theorem streamParallel_inside (h_members : ∀ m ∈ members, Keeps script (path ++ [m.1]) m.2)
    (config : GroupConfig) (input : String) (w : World) :
    Inside path w (streamParallel script config path members input w).2 := by
  have h_gathered : Inside path w (gatherParts (pumpMember script config path members input) members
      (finishOrder script path members w) (w.begin path)).2 := by
    apply gatherParts_inside (w := w.begin path)
    intro i name part w' h_mem
    exact (inside_syncDown config path name none w').trans
      ((h_members _ h_mem).stream _ _ _).inside
  unfold streamParallel
  simp only
  split
  · exact h_gathered
  · exact h_gathered

/-- A supervisor with its delegations changes what the frame allows. -/
theorem supervise_frame (h : Frames config path R)
    (h_members : ∀ m ∈ members, Keeps script (path ++ [m.1]) m.2) (supervisor : String)
    (agent : Agent) (input : String) (budget maxTurns : ℤ) (w : World) :
    R w (supervise script config path members supervisor agent input budget maxTurns w).2.2 := by
  apply supervise_rule (I := fun _ => R w)
  · intro edit _ w' h_w
    exact h.trans h_w (h.inside (below_edit _ edit w').inside)
  · intro counters _ w' h_w
    exact h.trans h_w (h.inside fun _ _ => rfl)
  · refine ⟨fun _ _ h_w _ => h_w, fun name part task office w' h_part h_w _ => ?_⟩
    -- a delegation shares up the supervisor's context and down the member's, then the member runs
    have h_up := h.trans h_w (h.up supervisor w')
    have h_down := h.trans h_up (h.inside (inside_syncDown config path name (some supervisor) _))
    exact h.trans h_down (h.inside ((h_members _ h_part.2).run _ _ _ _).inside)
  · intro i answered office w' h_w _ done
    simp only [done]
    unfold answerDelegation
    split
    · exact h_w
    · simp only
      split
      · exact h_w
      · split
        · exact h_w
        · exact h.trans h_w (h.up _ w')
  · exact h.inside (inside_syncDown config path supervisor none w)

/-- A blocking supervisor group, with the merge behind it. -/
theorem runSupervisor_frame (h : Frames config path R)
    (h_members : ∀ m ∈ members, Keeps script (path ++ [m.1]) m.2) (input : String) (budget : ℤ)
    (w : World) : R w (runSupervisor script config path members input budget w).2 := by
  unfold runSupervisor
  split
  · exact h.inside (.refl path w)
  · split_ifs
    · exact h.inside (.refl path w)
    · have h_ran := supervise_frame h h_members
      simp only
      split
      · -- after an error nothing is merged
        exact h_ran _ _ _ _ _ w
      · exact h.trans (h_ran _ _ _ _ _ w) (h.up _ _)

/-- A streaming supervisor group. -/
theorem streamSupervisor_frame (h : Frames config path R)
    (h_members : ∀ m ∈ members, Keeps script (path ++ [m.1]) m.2) (input : String) (w : World) :
    R w (streamSupervisor script config path members input w).2 := by
  unfold streamSupervisor
  split
  · exact h.inside (.refl path w)
  · have h_ran := supervise_frame h h_members
    simp only
    split
    · exact h_ran _ _ _ _ _ w
    · exact h.trans (h_ran _ _ _ _ _ w) (h.up _ _)

/-- A group run stays in every relation its steps stay in; one of a parallel group stays
inside. -/
theorem runGroup_frame (h : Frames config path R)
    (h_members : ∀ m ∈ members, Keeps script (path ++ [m.1]) m.2) (slot : Slot) (input : String)
    (maxTurns : Option ℤ) (w : World) :
    R w (runGroup script config path members slot input maxTurns w).2 ∧
      R w (streamGroup script config path members slot input w).2 := by
  unfold runGroup streamGroup runPattern streamPattern
  cases config.pattern with
  | pipeline =>
    exact ⟨runPipeline_frame h h_members _ _ w, streamPipeline_frame h h_members _ w⟩
  | supervisor =>
    exact ⟨runSupervisor_frame h h_members _ _ w, streamSupervisor_frame h h_members _ w⟩
  | parallel =>
    exact ⟨h.inside (runParallel_inside h_members config _ _ w),
      h.inside (streamParallel_inside h_members config _ w)⟩

end Patterns

/-- The run of an agent stays below it. -/
theorem runAgent_below (agent : Agent) (input : String) (maxTurns : Option ℤ) (w : World) :
    Below path w (runAgent script noDesk path agent input maxTurns () w).2.2 := by
  apply runAgent_rule (I := fun _ => Below path w) noDesk agent
  · exact fun edit _ w' h_w => h_w.trans (below_edit path edit w')
  · exact fun _ _ _ h_w => h_w
  · exact fun _ _ _ _ h_w => h_w
  · exact fun _ _ _ h_w => h_w
  · exact fun _ _ h_w => h_w
  · exact fun _ _ => rfl

/-- The members of a group stay below themselves. -/
theorem Group.parts_keep (script : Script) (group : Group) (ctx : RunContext) (path : Path) :
    ∀ m ∈ group.parts script ctx path, Keeps script (path ++ [m.1]) m.2 := by
  refine (group.parts_induction (P := Keeps script) ctx path (fun path agent => ?_)
    fun path config members _ h_members => ?_).2
  · exact ⟨fun _ _ _ w => runAgent_below agent _ _ w, fun _ _ w => runAgent_below agent _ _ w⟩
  · exact ⟨fun slot input remaining w =>
        (runGroup_frame (frames_below config path) h_members slot input (some remaining) w).1,
      fun slot input w =>
        (runGroup_frame (frames_below config path) h_members slot input none w).2⟩

/-- **The frame of a group run**: unless the group shares its context, or in any mode when it
is parallel, its own bags stay as they are. -/
theorem Group.run_own_bags (group : Group)
    (h : group.config.contextSharing ≠ .shared ∨ group.config.pattern = .parallel)
    (ctx : RunContext) (path : Path) (input : String) (maxTurns : Option ℤ) (w : World) :
    (group.run script ctx path input maxTurns w).2.bags path = w.bags path ∧
      (group.stream script ctx path input w).2.bags path = w.bags path := by
  have h_members := group.parts_keep script ctx path
  rcases h with h_mode | h_parallel
  · -- a group that does not share keeps its own bags
    obtain ⟨h_run, h_stream⟩ := runGroup_frame (frames_inside h_mode path) h_members Group.rootSlot
      input maxTurns w
    exact ⟨h_run.own, h_stream.own⟩
  · -- so does a parallel one, which only copies down
    constructor
    · simp only [Group.run, runGroup, runPattern, h_parallel]
      exact (runParallel_inside h_members group.config input _ w).own
    · simp only [Group.stream, streamGroup, streamPattern, h_parallel]
      exact (streamParallel_inside h_members group.config input w).own

/-! ### Bags a group does not read -/

/-- Overwrite the bags at a path. -/
def World.withBags (q : Path) (b : Bags) (w : World) : World :=
  { w with bags := Function.update w.bags q b }

/-- A path whose bags the steps of a group do not read: it is not that of a member or below
one, and if it is the group's own, the group is isolated. -/
structure Apart (config : GroupConfig) (path q : Path) : Prop where
  inside : ∀ name, ¬ path ++ [name] <+: q
  own : q = path → config.contextSharing = .isolated

/-- The runs of a member read no bags but those below it. -/
structure Blind (script : Script) (path : Path) (part : Part) : Prop where
  run : ∀ {q}, ¬ path <+: q → ∀ b slot input remaining w,
    runPart script path slot input remaining part (w.withBags q b) =
      ((runPart script path slot input remaining part w).1,
        (runPart script path slot input remaining part w).2.withBags q b)
  stream : ∀ {q}, ¬ path <+: q → ∀ b slot input w,
    streamPart script path slot input part (w.withBags q b) =
      ((streamPart script path slot input part w).1,
        (streamPart script path slot input part w).2.withBags q b)

section Blindness

variable {q : Path} (b : Bags)

theorem World.withBags_bags_ne {r : Path} (w : World) (h : r ≠ q) :
    (w.withBags q b).bags r = w.bags r := Function.update_of_ne h _ _

/-- Edits at other paths commute with setting a bag. -/
theorem World.edit_withBags {r : Path} (f : Bags → Bags) (w : World) (h : r ≠ q) :
    (w.withBags q b).edit r f = (w.edit r f).withBags q b := by
  unfold World.edit World.withBags
  simp only [Function.update_of_ne h]
  rw [Function.update_comm h]

/-- A path apart from a group is not that of a member. -/
theorem Apart.ne (h : Apart config path q) (name : String) : path ++ [name] ≠ q := by
  rintro rfl
  exact h.inside name (List.prefix_refl _)

/-- What is copied down does not depend on bags elsewhere. -/
theorem Apart.syncDown (h : Apart config path q) (name : String) (delegatedBy : Option String)
    (w : World) :
    Team.syncDown config path name delegatedBy (w.withBags q b) =
      (Team.syncDown config path name delegatedBy w).withBags q b := by
  unfold Team.syncDown
  split_ifs with h_isolated
  · rfl
  · have h_own : path ≠ q := fun h_eq => h_isolated (h.own h_eq.symm)
    simp only [World.withBags_bags_ne b w h_own]
    exact World.edit_withBags b _ w (h.ne name)

/-- Nor does what is merged up. -/
theorem Apart.syncUp (h : Apart config path q) (name : String) (w : World) :
    Team.syncUp config path name (w.withBags q b) =
      (Team.syncUp config path name w).withBags q b := by
  unfold Team.syncUp
  split_ifs with h_shared
  · rfl
  · -- only a shared group merges up, and its own path is not the other one
    have h_own : path ≠ q := by
      intro h_eq
      rw [h.own h_eq.symm] at h_shared
      simp at h_shared
    simp only [World.withBags_bags_ne b w (h.ne name)]
    exact World.edit_withBags b _ w h_own

/-! ### Agents -/

/-- A desk that does not read the bags at a path. -/
structure DeskBlind {σ : Type} (desk : Desk σ) (q : Path) (b : Bags) : Prop where
  start : ∀ member task s w, desk.start member task s (w.withBags q b) =
    ((desk.start member task s w).1, (desk.start member task s w).2.withBags q b)
  collect : ∀ i s w, desk.collect i s (w.withBags q b) =
    ((desk.collect i s w).1, (desk.collect i s w).2.1, (desk.collect i s w).2.2.withBags q b)
  settle : ∀ s w, desk.settle s (w.withBags q b) =
    ((desk.settle s w).1, (desk.settle s w).2.withBags q b)

/-- A process that sees none of the bags elsewhere runs the same. -/
theorem Process.exec_blind {σ : Type} {desk : Desk σ} {b : Bags} (h : DeskBlind desk q b)
    {lead : Path} (h_lead : lead ≠ q) {limit : ℕ} (process : Process limit) (s : σ) (w : World) :
    process.exec desk lead s (w.withBags q b) =
      ((process.exec desk lead s w).1, (process.exec desk lead s w).2.1,
        (process.exec desk lead s w).2.2.withBags q b) := by
  induction process generalizing s w with
  | finish ending =>
    simp only [exec]
    rw [h.settle]
  -- the supervisor's own edit
  | tool edit next ih =>
    simp only [exec]
    rw [World.edit_withBags b edit w h_lead, ih]
  -- a delegation, and the answer to one
  | delegate member task next ih =>
    simp only [exec]
    rw [h.start, ih]
  | collect i next ih =>
    simp only [exec]
    rw [h.collect, ih]

/-- So does an agent. -/
theorem runAgent_blind {σ : Type} {desk : Desk σ} {b : Bags} (h : DeskBlind desk q b) {lead : Path}
    (h_lead : lead ≠ q) (agent : Agent) (input : String) (maxTurns : Option ℤ) (s : σ) (w : World) :
    runAgent script desk lead agent input maxTurns s (w.withBags q b) =
      ((runAgent script desk lead agent input maxTurns s w).1,
        (runAgent script desk lead agent input maxTurns s w).2.1,
        (runAgent script desk lead agent input maxTurns s w).2.2.withBags q b) := by
  -- the bags elsewhere are not asked for the run's beginning or for its counters
  have h_begin : (w.withBags q b).begin lead = (w.begin lead).withBags q b := rfl
  have h_runs : (w.withBags q b).runs = w.runs := rfl
  have h_counters : (w.withBags q b).counters = w.counters := rfl
  have h_keeps : agent.keeps (w.withBags q b) = agent.keeps w := rfl
  unfold runAgent
  simp only [h_begin, h_runs, h_counters, h_keeps, World.withBags_bags_ne b w h_lead,
    Process.exec_blind h h_lead]
  split_ifs
  · rfl
  · rfl

theorem noDesk_blind (q : Path) (b : Bags) : DeskBlind noDesk q b :=
  ⟨fun _ _ _ _ => rfl, fun _ _ _ => rfl, fun _ _ => rfl⟩

/-- A runner member sees the bags of its own path only. -/
theorem blind_runner (script : Script) (path : Path) (agent : Agent) :
    Blind script path (.runner agent) where
  run {q} h b slot input remaining w := by
    have h_lead : path ≠ q := by
      rintro rfl
      exact h (List.prefix_refl _)
    simp only [runPart, runAgent_blind (noDesk_blind q b) h_lead]
  stream {q} h b slot input w := by
    have h_lead : path ≠ q := by
      rintro rfl
      exact h (List.prefix_refl _)
    simp only [streamPart, runAgent_blind (noDesk_blind q b) h_lead]

/-! ### Patterns -/

variable {members : Dict String Part}

/-- A blocking pipeline does not see bags elsewhere. -/
theorem runPipelineFrom_blind (h : Apart config path q) (budget : ℤ) :
    ∀ {members : Dict String Part}, (∀ m ∈ members, Blind script (path ++ [m.1]) m.2) →
      ∀ (line : Line) (w : World),
        runPipelineFrom script config path budget members line (w.withBags q b) =
          ((runPipelineFrom script config path budget members line w).1,
            (runPipelineFrom script config path budget members line w).2.withBags q b) := by
  intro members h_members
  induction members with
  | nil => exact fun line w => rfl
  | cons m members ih =>
    intro line w
    obtain ⟨name, part⟩ := m
    obtain ⟨h_part, h_rest⟩ := List.forall_mem_cons.mp h_members
    unfold runPipelineFrom
    -- sharing passes the other bags over, and the member does not look at them
    simp only [h.syncDown, h_part.run (h.inside name), h.syncUp]
    split_ifs
    · rfl
    · generalize runPart script (path ++ [name]) _ _ _ part _ = ran
      rcases ran with ⟨⟨outcome, trace⟩, w'⟩
      cases outcome with
      | error e => rfl
      | ok res =>
        simp only
        cases (line.totals.add res).2 with
        | error e => rfl
        | ok _ => exact ih h_rest _ _

/-- Forwarding does not see them. -/
theorem forwardEvents_blind (h : Apart config path q) (name : String) (events : List Event)
    (line : StreamLine) (w : World) :
    forwardEvents config path name events line (w.withBags q b) =
      ((forwardEvents config path name events line w).1,
        (forwardEvents config path name events line w).2.withBags q b) := by
  induction events generalizing line w with
  | nil => rfl
  | cons event events ih =>
    cases event with
    | final res =>
      -- a final response merges up
      simp only [forwardEvents]
      rw [h.syncUp, ih]
    | error content =>
      -- an error does not
      simp only [forwardEvents]
      rw [ih]

/-- Nor does a streaming pipeline. -/
theorem streamPipelineFrom_blind (h : Apart config path q) :
    ∀ {members : Dict String Part}, (∀ m ∈ members, Blind script (path ++ [m.1]) m.2) →
      ∀ (line : StreamLine) (w : World),
        streamPipelineFrom script config path members line (w.withBags q b) =
          ((streamPipelineFrom script config path members line w).1,
            (streamPipelineFrom script config path members line w).2.withBags q b) := by
  intro members h_members
  induction members with
  | nil => exact fun line w => rfl
  | cons m members ih =>
    intro line w
    obtain ⟨name, part⟩ := m
    obtain ⟨h_part, h_rest⟩ := List.forall_mem_cons.mp h_members
    unfold streamPipelineFrom
    -- down to the member, its stream, and the events forwarded
    simp only [h.syncDown, h_part.stream (h.inside name), forwardEvents_blind b h]
    generalize streamPart script (path ++ [name]) _ _ part _ = streamed
    rcases streamed with ⟨⟨events, raised, trace⟩, w'⟩
    cases raised with
    | some e => rfl
    | none => exact ih h_rest _ _

/-- Nor do tasks that do not, in any order. -/
theorem gatherParts_blind {β : Type} (task : ℕ → String → Part → World → β × World)
    (h_task : ∀ i name part w, (name, part) ∈ members →
      task i name part (w.withBags q b) =
        ((task i name part w).1, (task i name part w).2.withBags q b))
    (order : List ℕ) (w : World) :
    gatherParts task members order (w.withBags q b) =
      ((gatherParts task members order w).1,
        (gatherParts task members order w).2.withBags q b) := by
  induction order generalizing w with
  | nil => rfl
  | cons i order ih =>
    unfold gatherParts
    split
    · exact ih w
    · rename_i name part h_part
      simp only [h_task i name part w (List.mem_of_getElem? h_part), ih]

/-- The order in which members finish is not in the bags. -/
theorem finishOrder_withBags (w : World) :
    finishOrder script path members (w.withBags q b) = finishOrder script path members w := rfl

theorem World.begin_withBags (w : World) (r : Path) :
    (w.withBags q b).begin r = (w.begin r).withBags q b := rfl

/-- A blocking parallel group does not see bags elsewhere. -/
theorem runParallel_blind (h : Apart config path q)
    (h_members : ∀ m ∈ members, Blind script (path ++ [m.1]) m.2) (input : String) (budget : ℤ)
    (w : World) :
    runParallel script config path members input budget (w.withBags q b) =
      ((runParallel script config path members input budget w).1,
        (runParallel script config path members input budget w).2.withBags q b) := by
  -- the copy down and the member's run do not see them
  have h_task (i : ℕ) (name : String) (part : Part) (w : World) (h_mem : (name, part) ∈ members) :
      runMember script config path members input budget i name part (w.withBags q b) =
        ((runMember script config path members input budget i name part w).1,
          (runMember script config path members input budget i name part w).2.withBags q b) := by
    unfold runMember
    rw [h.syncDown, (h_members _ h_mem).run (h.inside name)]
  unfold runParallel
  simp only [finishOrder_withBags, World.begin_withBags, gatherParts_blind b _ h_task]
  split_ifs
  · rfl
  · rfl

/-- Nor does a streaming one. -/
theorem streamParallel_blind (h : Apart config path q)
    (h_members : ∀ m ∈ members, Blind script (path ++ [m.1]) m.2) (input : String) (w : World) :
    streamParallel script config path members input (w.withBags q b) =
      ((streamParallel script config path members input w).1,
        (streamParallel script config path members input w).2.withBags q b) := by
  -- the copy down and the member's stream do not see them
  have h_task (i : ℕ) (name : String) (part : Part) (w : World) (h_mem : (name, part) ∈ members) :
      pumpMember script config path members input i name part (w.withBags q b) =
        ((pumpMember script config path members input i name part w).1,
          (pumpMember script config path members input i name part w).2.withBags q b) := by
    unfold pumpMember
    rw [h.syncDown, (h_members _ h_mem).stream (h.inside name)]
  unfold streamParallel
  simp only [finishOrder_withBags, World.begin_withBags, gatherParts_blind b _ h_task]
  generalize gatherParts (pumpMember script config path members input) members _ _ = gathered
  cases (mergeEvents script (queuedEvents gathered.1) {}).2 with
  | error e => rfl
  | ok _ => rfl

/-- The answer to a delegation does not see bags elsewhere. -/
theorem answerDelegation_blind (h : Apart config path q) (answered : Pending) (office : Office)
    (w : World) :
    answerDelegation config path answered office (w.withBags q b) =
      ((answerDelegation config path answered office w).1,
        (answerDelegation config path answered office w).2.1,
        (answerDelegation config path answered office w).2.2.withBags q b) := by
  cases answered with
  | answered text => rfl
  | running name ran =>
    simp only [answerDelegation, h.syncUp]
    -- a raised member, a total that raises, or the texts of its result
    cases ran.outcome with
    | error e => rfl
    | ok res =>
      simp only
      cases (office.totals.add res).2 with
      | error e => rfl
      | ok _ => rfl

/-- Nor does collecting one. -/
theorem collectDelegation_blind (h : Apart config path q) (i : ℕ) (office : Office) (w : World) :
    collectDelegation config path i office (w.withBags q b) =
      ((collectDelegation config path i office w).1,
        (collectDelegation config path i office w).2.1,
        (collectDelegation config path i office w).2.2.withBags q b) := by
  unfold collectDelegation
  cases office.pending[i]? with
  | none => rfl
  | some answered => exact answerDelegation_blind b h answered _ w

/-- Nor does settling all of them. -/
theorem settleDelegations_blind (h : Apart config path q) (n : ℕ) (office : Office) (w : World) :
    settleDelegations config path n office (w.withBags q b) =
      ((settleDelegations config path n office w).1,
        (settleDelegations config path n office w).2.withBags q b) := by
  induction n generalizing office w with
  | zero => rfl
  | succ n ih =>
    simp only [settleDelegations]
    rw [collectDelegation_blind b h, ih]

/-- None of the delegate tools sees them. -/
theorem delegateTools_blind (h : Apart config path q)
    (h_members : ∀ m ∈ members, Blind script (path ++ [m.1]) m.2) (supervisor : String)
    (supervisorLimit : ℕ) (budget : ℤ) :
    DeskBlind (delegateTools script config path members supervisor supervisorLimit budget) q b where
  collect := collectDelegation_blind b h
  settle office w := settleDelegations_blind b h office.pending.length office w
  start name task office w := by
    simp only [delegateTools, startDelegation]
    rcases h_part : (if name = supervisor then none else Dict.get? members name) with _ | part
    · rfl
    · -- only another member than the supervisor is started
      have h_mem : (name, part) ∈ members := by
        split_ifs at h_part
        exact Dict.mem_of_get? h_part
      simp only [h.syncUp, h.syncDown, (h_members _ h_mem).run (h.inside name)]
      split_ifs
      · rfl
      · rfl

/-- A supervisor with its tools does not see bags elsewhere. -/
theorem supervise_blind (h : Apart config path q)
    (h_members : ∀ m ∈ members, Blind script (path ++ [m.1]) m.2) (supervisor : String)
    (agent : Agent) (input : String) (budget maxTurns : ℤ) (w : World) :
    supervise script config path members supervisor agent input budget maxTurns (w.withBags q b) =
      ((supervise script config path members supervisor agent input budget maxTurns w).1,
        (supervise script config path members supervisor agent input budget maxTurns w).2.1,
        (supervise script config path members supervisor agent input budget maxTurns w).2.2.withBags
          q b) := by
  unfold supervise
  simp only
  rw [h.syncDown, runAgent_blind (delegateTools_blind b h h_members supervisor _ budget)
    (h.ne supervisor)]

/-- Nor does a blocking supervisor group. -/
theorem runSupervisor_blind (h : Apart config path q)
    (h_members : ∀ m ∈ members, Blind script (path ++ [m.1]) m.2) (input : String) (budget : ℤ)
    (w : World) :
    runSupervisor script config path members input budget (w.withBags q b) =
      ((runSupervisor script config path members input budget w).1,
        (runSupervisor script config path members input budget w).2.withBags q b) := by
  unfold runSupervisor
  cases findSupervisor config members with
  | error e => rfl
  | ok found =>
    obtain ⟨supervisor, agent⟩ := found
    simp only [supervise_blind b h h_members, h.syncUp]
    split_ifs
    · rfl
    · cases (supervise script config path members supervisor agent input budget budget w).1.outcome
        with
      | error e => rfl
      | ok r => rfl

/-- Nor a streaming one. -/
theorem streamSupervisor_blind (h : Apart config path q)
    (h_members : ∀ m ∈ members, Blind script (path ++ [m.1]) m.2) (input : String) (w : World) :
    streamSupervisor script config path members input (w.withBags q b) =
      ((streamSupervisor script config path members input w).1,
        (streamSupervisor script config path members input w).2.withBags q b) := by
  unfold streamSupervisor
  cases findSupervisor config members with
  | error e => rfl
  | ok found =>
    obtain ⟨supervisor, agent⟩ := found
    simp only [supervise_blind b h h_members, h.syncUp]
    generalize supervise script config path members supervisor agent input _ _ w = ran
    cases ran.1.outcome with
    | error e => rfl
    | ok r => rfl

/-- What a pattern reports, the runs below it and the rest of the world do not depend on bags
apart from the group. -/
theorem runPattern_blind (h : Apart config path q)
    (h_members : ∀ m ∈ members, Blind script (path ++ [m.1]) m.2) (input : String) (budget : ℤ)
    (w : World) :
    runPattern script config path members input budget (w.withBags q b) =
      ((runPattern script config path members input budget w).1,
        (runPattern script config path members input budget w).2.withBags q b) := by
  unfold runPattern
  cases config.pattern with
  | pipeline => simp only [runPipeline, runPipelineFrom_blind b h _ h_members]
  | supervisor => simp only [runSupervisor_blind b h h_members]
  | parallel => simp only [runParallel_blind b h h_members]

/-- No pattern sees them when streaming. -/
theorem streamPattern_blind (h : Apart config path q)
    (h_members : ∀ m ∈ members, Blind script (path ++ [m.1]) m.2) (input : String) (w : World) :
    streamPattern script config path members input (w.withBags q b) =
      ((streamPattern script config path members input w).1,
        (streamPattern script config path members input w).2.withBags q b) := by
  unfold streamPattern
  cases config.pattern with
  | pipeline => simp only [streamPipeline, streamPipelineFrom_blind b h h_members]
  | supervisor => simp only [streamSupervisor_blind b h h_members]
  | parallel => simp only [streamParallel_blind b h h_members]

end Blindness

/-- A group sees only the bags inside its path. -/
theorem blind_group {members : Dict String Part} (config : GroupConfig)
    (h_members : ∀ m ∈ members, Blind script (path ++ [m.1]) m.2) :
    Blind script path (.orchestrator config.maxTurns (runGroup script config path members)
      (streamGroup script config path members)) := by
  -- a path outside the group is none of its members' nor its own
  have h_apart {q : Path} (h : ¬ path <+: q) : Apart config path q :=
    ⟨fun name h_prefix => h ((List.prefix_append _ _).trans h_prefix), by
      rintro rfl
      exact absurd (List.prefix_refl _) h⟩
  -- so its own bags stay as they are
  have h_own {q : Path} (h : ¬ path <+: q) (b : Bags) (w : World) :
      (w.withBags q b).bags path = w.bags path := by
    apply World.withBags_bags_ne
    rintro rfl
    exact h (List.prefix_refl _)
  constructor
  · intro q h b slot input remaining w
    simp only [runPart, runGroup, runPattern_blind b (h_apart h) h_members, h_own h]
  · intro q h b slot input w
    simp only [streamPart, streamGroup, streamPattern_blind b (h_apart h) h_members, h_own h]

/-- The members of a group read no bags but those below them. -/
theorem Group.parts_blind (script : Script) (group : Group) (ctx : RunContext) (path : Path) :
    ∀ m ∈ group.parts script ctx path, Blind script (path ++ [m.1]) m.2 :=
  (group.parts_induction ctx path (blind_runner script)
    fun _ config _ _ h_members => blind_group config h_members).2

/-! ### Building and calling a group -/

mutual

/-- Building does not read the bags it overwrites elsewhere. -/
theorem initBags_update {q : Path} (b : Bags) : ∀ (node : Node) (path : Path) (bags : Bags)
    (all : Path → Bags), ¬ path <+: q →
      initBags path bags (Function.update all q b) node =
        Function.update (initBags path bags all node) q b
  | .agent _ _, path, bags, all, h => by
    rw [initBags, initBags, Function.update_comm]
    rintro rfl
    exact h (List.prefix_refl _)
  | .group config nodes, path, bags, all, h => by
    -- the path that is set is not inside the group
    have h_ne : path ≠ q := by
      rintro rfl
      exact h (List.prefix_refl _)
    rw [initBags, initBags, Function.update_comm h_ne.symm]
    exact initBagsAll_update b nodes path _ _ fun name h_prefix =>
      h ((List.prefix_append _ _).trans h_prefix)

/-- The same for the members of a group. -/
theorem initBagsAll_update {q : Path} (b : Bags) : ∀ (nodes : List Node) (path : Path)
    (bags : Bags) (all : Path → Bags), (∀ name, ¬ path ++ [name] <+: q) →
      initBagsAll path bags (Function.update all q b) nodes =
        Function.update (initBagsAll path bags all nodes) q b
  | [], path, bags, all, _ => by
    rw [initBagsAll, initBagsAll]
  | node :: nodes, path, bags, all, h => by
    rw [initBagsAll, initBagsAll, initBags_update b node _ _ _ (h node.name)]
    exact initBagsAll_update b nodes path bags _ h

end

/-- An isolated group is built the same over all bags but its own. -/
theorem Group.build_isolated (group : Group) (h : group.config.contextSharing = .isolated)
    (path : Path) (b b' : Bags) (w : World) :
    group.build path b' w = (group.build path b w).withBags path b' := by
  unfold Group.build World.withBags
  simp only [initBags, h, if_true]
  rw [initBagsAll_update b _ _ _ _ (not_prefix_own path),
    initBagsAll_update b' _ _ _ _ (not_prefix_own path), Function.update_idem]

/-- A call of a group. -/
inductive Call
  | run (input : String) (maxTurns : Option ℤ)
  | stream (input : String)

/-- Carry out a call: the runs below the group. -/
def Group.call (script : Script) (group : Group) (ctx : RunContext) (path : Path) (w : World) :
    Call → List Trace × World
  | .run input maxTurns =>
    let ran := group.run script ctx path input maxTurns w
    (ran.1.trace.inner, ran.2)
  | .stream input =>
    let streamed := group.stream script ctx path input w
    (streamed.1.trace.inner, streamed.2)

/-- Carry out calls one after another: the runs below the group. Between two calls whoever
owns the group may write its bags, as a group above it does, so each call comes with the bags
it finds. -/
def Group.calls (script : Script) (group : Group) (ctx : RunContext) (path : Path) :
    List (Bags × Call) → World → List Trace × World
  | [], w => ([], w)
  | (bags, c) :: cs, w =>
    let done := group.call script ctx path (w.withBags path bags) c
    let rest := calls script group ctx path cs done.2
    (done.1 ++ rest.1, rest.2)

/-- The calls of an isolated group do not depend on the bags they find. -/
theorem Group.calls_isolated (group : Group) (h : group.config.contextSharing = .isolated)
    (ctx : RunContext) (path : Path) (cs cs' : List (Bags × Call))
    (h_calls : cs'.map Prod.snd = cs.map Prod.snd) (b : Bags) (w : World) :
    (group.calls script ctx path cs' (w.withBags path b)).1 =
      (group.calls script ctx path cs w).1 := by
  have h_apart : Apart group.config path path := ⟨not_prefix_own path, fun _ => h⟩
  have h_members := group.parts_blind script ctx path
  induction cs generalizing cs' b w with
  | nil =>
    obtain rfl := List.map_eq_nil_iff.mp h_calls
    rfl
  | cons c cs ih =>
    cases cs' with
    | nil => cases h_calls
    | cons c' cs' =>
      obtain ⟨bags, call⟩ := c
      obtain ⟨bags', call'⟩ := c'
      simp only [List.map_cons, List.cons.injEq] at h_calls
      obtain ⟨rfl, h_rest⟩ := h_calls
      have h_found : (w.withBags path b).withBags path bags' =
          (w.withBags path bags).withBags path bags' := by
        simp [World.withBags]
      -- a call takes its bags from the caller, so those left before do not count
      have h_call (w : World) : group.call script ctx path (w.withBags path bags') call' =
          ((group.call script ctx path w call').1,
            (group.call script ctx path w call').2.withBags path bags') := by
        cases call' with
        | run input maxTurns =>
          simp only [Group.call, Group.run, runGroup, Trace.inner,
            runPattern_blind bags' h_apart h_members]
        | stream input =>
          simp only [Group.call, Group.stream, streamGroup, Trace.inner,
            streamPattern_blind bags' h_apart h_members]
      simp only [Group.calls, h_found, h_call, ih cs' h_rest]

mutual

/-- The contexts of a run and of the runs below it, with the bags each started from. -/
def Trace.starts : Trace → List (Path × Bags)
  | .agent _ run => [(run.path, run.bags)]
  | .group _ run inner => (run.path, run.bags) :: startsAll inner

/-- The starts of several runs. -/
def Trace.startsAll : List Trace → List (Path × Bags)
  | [] => []
  | trace :: traces => starts trace ++ startsAll traces

end

/-- The bags the member at a path started its first run from. -/
def firstBags (path : Path) (runs : List Trace) : Option Bags :=
  (Trace.startsAll runs).lookup path

/-- **The frame of context sharing.** For every group and tree, and whatever the members do to
their own bags: unless the group shares its context, and in every mode when it is parallel, a
run leaves the group's bags as they are, blocking or streaming. And over any sequence of calls,
the bags every member of an isolated group starts its first run from depend neither on the bags
the group was built with nor on those its calls find. -/
theorem context_frame (script : Script) (group : Group) (ctx : RunContext) (path : Path) :
    (group.config.contextSharing ≠ .shared ∨ group.config.pattern = .parallel →
      ∀ input maxTurns w,
        (group.run script ctx path input maxTurns w).2.bags path = w.bags path ∧
          (group.stream script ctx path input w).2.bags path = w.bags path) ∧
    (group.config.contextSharing = .isolated → ∀ cs cs' b b' w member,
      cs'.map Prod.snd = cs.map Prod.snd →
        firstBags member (group.calls script ctx path cs' (group.build path b' w)).1 =
          firstBags member (group.calls script ctx path cs (group.build path b w)).1) := by
  constructor
  · intro h input maxTurns w
    exact group.run_own_bags h ctx path input maxTurns w
  · intro h cs cs' b b' w member h_calls
    -- built on other bags, an isolated group's members get the same
    rw [group.build_isolated h path b b' w, group.calls_isolated h ctx path cs cs' h_calls]

/-- An agent whose tool leaves a note in its own state. -/
def noteScript : Script where
  agent path _ _ limit _ := .tool
    (fun b => { b with state := Dict.set b.state "note" (.json (.str (PyStr.join "/" path))) })
    (.finish (.returning limit { sessionId := "s", turnsUsed := 1, status := .completed }))

/-- A pipeline of two agents that shares nothing. -/
def isolatedGroup : Group where
  config := { pattern := .pipeline, contextSharing := .isolated }
  members := [.agent "first" 5, .agent "second" 5]

/-- The state a caller built the group with. -/
def seeded : Bags where
  state := [("seed", .json (.int 7))]

/-- Two isolated groups on different bags. -/
theorem context_frame_isolated :
    ((isolatedGroup.run noteScript {} [] "go" none freshWorld).2.bags [] = {} ∧
      (isolatedGroup.stream noteScript {} [] "go" freshWorld).2.bags [] = {}) ∧
    firstBags ["second"] (isolatedGroup.calls noteScript {} [] [({}, .run "go" none)]
        (isolatedGroup.build [] {} freshWorld)).1 =
      firstBags ["second"] (isolatedGroup.calls noteScript {} [] [(seeded, .run "go" none)]
        (isolatedGroup.build [] seeded freshWorld)).1 := by
  have h := context_frame noteScript isolatedGroup {} []
  refine ⟨h.1 (.inl (by decide)) "go" none freshWorld, ?_⟩
  exact h.2 rfl [(seeded, .run "go" none)] [({}, .run "go" none)] seeded {} freshWorld ["second"] rfl

end Nexus.Team
