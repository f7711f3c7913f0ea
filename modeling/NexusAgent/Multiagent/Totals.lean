import NexusAgent.Multiagent.Rules

/-!
# What the totals of a group add up

Every total of a group result is kept the same way, so each is a `Meter`: where it is in the
running totals and in a result, and what adding a result does to it.

* `Meter.counted` are the agent runs below a group whose results got into its result, and
  `Meter.missed` the others. They are read off the trace: a group that failed reports nothing,
  and `cumulative_tokens_saved_by_rcs` is not added from the result of a nested group.
* `Meter.reported_eq` says that a blocking group reports the sum over the runs it counted, for
  every tree and script.
-/

open Lib

namespace Nexus.Team

variable {script : Script} {config : GroupConfig} {path : Path}

/-! ### Meters -/

/-- One of the totals. -/
structure Meter where
  total : Totals → ℕ
  reported : TeamResult → ℕ
  ofResult : RunResult → ℕ
  /-- Whether the result of a nested group is added. -/
  nested : Bool
  /-- Whether a streaming pattern finds the total in the dump of a run. -/
  dumped : Bool
  zero : total {} = 0
  add_run : ∀ t r, total (t.add (.run r)).1 = total t + ofResult r
  add_group : ∀ t g, total (t.add (.group g)).1 = total t + if nested then reported g else 0
  add_data : ∀ t r, total (t.addData (.run r)) = total t + if dumped then ofResult r else 0
  completed : ∀ config sessionId response results t,
    reported (completedResult config sessionId response results t) = total t
  streamed : ∀ config sessionId response results t error,
    reported (streamResult config sessionId response results t error) = total t
  failed : ∀ config sessionId e results, reported (failedResult config sessionId e results) = 0

/-- `turns_used`. -/
def turnsMeter : Meter where
  total := Totals.turnsUsed
  reported := GroupResult.turnsUsed
  ofResult := RunResult.turnsUsed
  nested := true
  dumped := true
  zero := rfl
  add_run _ _ := rfl
  add_group _ _ := rfl
  add_data _ _ := rfl
  completed _ _ _ _ _ := rfl
  streamed _ _ _ _ _ _ := rfl
  failed _ _ _ _ := rfl

/-- `total_tokens_in`. -/
def tokensInMeter : Meter where
  total := Totals.tokensIn
  reported := GroupResult.totalTokensIn
  ofResult := RunResult.totalTokensIn
  nested := true
  dumped := true
  zero := rfl
  add_run _ _ := rfl
  add_group _ _ := rfl
  add_data _ _ := rfl
  completed _ _ _ _ _ := rfl
  streamed _ _ _ _ _ _ := rfl
  failed _ _ _ _ := rfl

/-- `total_tokens_out`. -/
def tokensOutMeter : Meter where
  total := Totals.tokensOut
  reported := GroupResult.totalTokensOut
  ofResult := RunResult.totalTokensOut
  nested := true
  dumped := true
  zero := rfl
  add_run _ _ := rfl
  add_group _ _ := rfl
  add_data _ _ := rfl
  completed _ _ _ _ _ := rfl
  streamed _ _ _ _ _ _ := rfl
  failed _ _ _ _ := rfl

/-- `total_tokens_saved_by_rcs`. -/
def savedMeter : Meter where
  total := Totals.tokensSaved
  reported := GroupResult.totalTokensSavedByRcs
  ofResult := RunResult.totalTokensSavedByRcs
  nested := true
  dumped := true
  zero := rfl
  add_run _ _ := rfl
  add_group _ _ := rfl
  add_data _ _ := rfl
  completed _ _ _ _ _ := rfl
  streamed _ _ _ _ _ _ := rfl
  failed _ _ _ _ := rfl

/-- `cumulative_tokens_saved_by_rcs` of a group, `cumulative_input_tokens_saved_by_rcs` of a
run. -/
def cumulativeMeter : Meter where
  total := Totals.cumulativeSaved
  reported := GroupResult.cumulativeTokensSavedByRcs
  ofResult := RunResult.cumulativeInputTokensSavedByRcs
  nested := false
  dumped := false
  zero := rfl
  add_run _ _ := rfl
  add_group _ _ := rfl
  add_data _ _ := rfl
  completed _ _ _ _ _ := rfl
  streamed _ _ _ _ _ _ := rfl
  failed _ _ _ _ := rfl

/-! ### Counted runs -/

/-- The sum of a quantity over agent runs. -/
def sumOver (f : AgentRun → ℕ) (runs : List AgentRun) : ℕ := (runs.map f).sum

@[simp] theorem sumOver_nil (f : AgentRun → ℕ) : sumOver f [] = 0 := rfl

@[simp] theorem sumOver_append (f : AgentRun → ℕ) (xs ys : List AgentRun) :
    sumOver f (xs ++ ys) = sumOver f xs + sumOver f ys := by
  simp [sumOver]

/-- Whether the run returned. -/
def AgentRun.returned (run : AgentRun) : Bool := run.outcome.toOption.isSome

/-- Whether the group returned a result with the status `completed`. -/
def GroupRun.completed (run : GroupRun) : Bool :=
  match run.outcome with
  | .ok g => g.status = .completed
  | .error _ => false

namespace Meter

variable (m : Meter)

/-- What a run reports. -/
def measure (run : AgentRun) : ℕ :=
  match run.outcome with
  | .ok r => m.ofResult r
  | .error _ => 0

/-- What a member reports. -/
def ofMember : MemberResult → ℕ
  | .run r => m.ofResult r
  | .group g => m.reported g

mutual

/-- The agent runs that the result of a run reports. -/
def counted : Trace → List AgentRun
  | .agent _ run => if run.returned then [run] else []
  | .group _ run inner => if run.completed then countedAll inner else []

/-- The agent runs that are added up from several runs. -/
def countedAll : List Trace → List AgentRun
  | [] => []
  | t :: ts => (if t.isGroup && !m.nested then [] else counted t) ++ countedAll ts

end

mutual

/-- The agent runs that the result of a run does not report. -/
def missed : Trace → List AgentRun
  | .agent _ run => if run.returned then [] else [run]
  | .group _ run inner => if run.completed then missedAll inner else Trace.leavesAll inner

/-- The agent runs that are left out of a sum over several runs. -/
def missedAll : List Trace → List AgentRun
  | [] => []
  | t :: ts => (if t.isGroup && !m.nested then t.leaves else missed t) ++ missedAll ts

end

/-- What a run adds to the totals of its group. -/
def weight (t : Trace) : ℕ := sumOver m.measure (if t.isGroup && !m.nested then [] else m.counted t)

/-- The runs counted below a list weigh what its traces weigh. -/
theorem sumOver_countedAll (ts : List Trace) :
    sumOver m.measure (m.countedAll ts) = (ts.map m.weight).sum := by
  induction ts with
  | nil =>
    rw [countedAll]
    rfl
  | cons t ts ih =>
    rw [countedAll, sumOver_append, ih, List.map_cons, List.sum_cons]
    rfl

mutual

/-- The agent runs of a run are those it reports and those it does not. -/
theorem sumOver_leaves (f : AgentRun → ℕ) : ∀ t : Trace,
    sumOver f t.leaves = sumOver f (m.counted t) + sumOver f (m.missed t)
  | .agent _ run => by
    rw [Trace.leaves_agent, counted, missed]
    -- a run that returned is counted, any other missed
    split_ifs
    · simp
    · simp
  | .group _ run inner => by
    rw [Trace.leaves_group, counted, missed]
    -- a completed group counts what its members count
    split_ifs
    · exact sumOver_leavesAll f inner
    · simp

/-- The same for the members. -/
theorem sumOver_leavesAll (f : AgentRun → ℕ) : ∀ ts : List Trace,
    sumOver f (Trace.leavesAll ts) = sumOver f (m.countedAll ts) + sumOver f (m.missedAll ts)
  | [] => by
    rw [Trace.leavesAll_nil, countedAll, missedAll]
    rfl
  | t :: ts => by
    rw [Trace.leavesAll_cons, countedAll, missedAll, sumOver_append, sumOver_append,
      sumOver_append, sumOver_leavesAll f ts]
    -- a member that is not counted is missed as a whole
    split_ifs
    · simp only [sumOver_nil]
      omega
    · rw [sumOver_leaves f t]
      omega

end

/-! ### Members -/

/-- What a member reports is what its run counted. -/
def Accounts (script : Script) (path : Path) (part : Part) : Prop :=
  ∀ slot input remaining w res,
    (runPart script path slot input remaining part w).1.outcome = .ok res →
      m.ofMember res =
        sumOver m.measure (m.counted (runPart script path slot input remaining part w).1.trace)

variable {m}

/-- An agent accounts for itself. -/
theorem accounts_runner (script : Script) (path : Path) (agent : Agent) :
    m.Accounts script path (.runner agent) := by
  intro slot input remaining w res h
  obtain ⟨r, h_r, rfl⟩ := except_map_ok h
  simp only [runPart]
  rw [counted, AgentRun.returned, h_r]
  simp [sumOver, measure, h_r, ofMember, Except.toOption]

/-- A run that raised adds nothing. -/
theorem weight_of_error {part : Part} {slot : Slot} {input : String} {remaining : ℤ} {ran : Ran}
    {e : String} (h : Tells part slot input remaining ran) (h_e : ran.outcome = .error e) :
    m.weight ran.trace = 0 := by
  have h_outcome := h.outcome.trans h_e
  unfold weight
  generalize ran.trace = t at h_outcome
  cases t with
  | agent slot run =>
    -- an agent that raised has returned no result to count
    have h_run : run.returned = false := by
      unfold AgentRun.returned
      cases h_run : run.outcome with
      | error e => rfl
      | ok r =>
        simp only [Trace.outcome, h_run] at h_outcome
        cases h_outcome
    rw [counted, h_run]
    simp
  | group slot run inner =>
    have h_run : run.completed = false := by
      unfold GroupRun.completed
      cases h_run : run.outcome with
      | error e => rfl
      | ok g =>
        simp only [Trace.outcome, h_run] at h_outcome
        cases h_outcome
    rw [counted, h_run]
    simp

/-- Adding the result of a member adds the weight of its run. -/
theorem total_add {part : Part} {slot : Slot} {input : String} {remaining : ℤ} {ran : Ran}
    {res : MemberResult} (h : Tells part slot input remaining ran)
    (h_accounts : m.ofMember res = sumOver m.measure (m.counted ran.trace))
    (h_res : ran.outcome = .ok res) (t : Totals) :
    m.total (t.add res).1 = m.total t + m.weight ran.trace := by
  -- the result is of the kind of its trace
  have h_kind : res.isGroup = ran.trace.isGroup := (h.kind res h_res).trans h.isGroup.symm
  unfold weight
  rw [← h_kind]
  cases res with
  | run r =>
    rw [m.add_run]
    simp [MemberResult.isGroup, ← h_accounts, ofMember]
  | group g =>
    rw [m.add_group]
    -- a nested group's value is added if the meter counts it
    cases h_nested : m.nested with
    | true => simp [MemberResult.isGroup, ← h_accounts, ofMember]
    | false => simp [MemberResult.isGroup]

/-! ### Patterns -/

/-- What a pattern has to show of a result and the runs below it. -/
def Adds (m : Meter) (result : TeamResult) (runs : List Trace) : Prop :=
  m.reported result = if result.status = .completed then (runs.map m.weight).sum else 0

/-- A failed group reports nothing. -/
theorem adds_failed (m : Meter) (config : GroupConfig) (sessionId e : String)
    (results : Dict String MemberResult) (runs : List Trace) :
    m.Adds (failedResult config sessionId e results) runs := by
  unfold Adds
  rw [m.failed]
  rfl

/-- A completed group reports its totals. -/
theorem adds_completed {config : GroupConfig} {sessionId : String} {response : Option String}
    {results : Dict String MemberResult} {totals : Totals} {runs : List Trace}
    (h : m.total totals = (runs.map m.weight).sum) :
    m.Adds (completedResult config sessionId response results totals) runs := by
  unfold Adds
  rw [m.completed, h]
  rfl

/-- A member of a group is traced, and reports what its run counted. -/
structure Sound (m : Meter) (script : Script) (path : Path) (part : Part) : Prop where
  traced : Traced script path part
  accounts : m.Accounts script path part

/-- A member run adds its weight: a run that raised has none. -/
structure Weighs (m : Meter) (ran : Ran) : Prop where
  raised : ∀ e, ran.outcome = .error e → m.weight ran.trace = 0
  added : ∀ res, ran.outcome = .ok res → ∀ t : Totals,
    m.total (t.add res).1 = m.total t + m.weight ran.trace

/-- A sound part weighs what it reports. -/
theorem Sound.weighs {part : Part} (h : m.Sound script path part) (slot : Slot) (input : String)
    (remaining : ℤ) (w : World) :
    m.Weighs (runPart script path slot input remaining part w).1 where
  raised _ h_e := weight_of_error (h.traced slot input remaining w) h_e
  added res h_res t :=
    total_add (h.traced slot input remaining w) (h.accounts slot input remaining w res h_res)
      h_res t

section Patterns

variable {members : Dict String Part}

/-- A blocking pipeline adds up what its members report. -/
theorem runPipeline_adds (config : GroupConfig)
    (h_members : ∀ x ∈ members, m.Sound script (path ++ [x.1]) x.2) (input : String) (budget : ℤ)
    (w : World) :
    let ran := (runPipeline script config path members input budget w).1
    m.Adds ran.1 ran.2 := by
  apply runPipelineFrom_rule
    (I := fun line _ => m.total line.totals = (line.runs.map m.weight).sum)
    (Q := fun ran _ => m.Adds ran.1 ran.2) members
  · exact fun line w h_line => adds_completed h_line
  · intro name part line w h_mem h_line _ ran up
    -- the member's result weighs what its trace does
    have h_ran : m.Weighs ran.1 := (h_members _ h_mem).weighs _ _ _ _
    refine ⟨fun _ _ => adds_failed m _ _ _ _ _, fun res h_res =>
      ⟨fun _ _ => adds_failed m _ _ _ _ _, fun _ => ?_⟩⟩
    -- so the totals grow by that
    change m.total (line.totals.add res).1 = ((line.runs ++ [ran.1.trace]).map m.weight).sum
    rw [h_ran.added res h_res, h_line]
    simp
  · exact m.zero

/-- The totals of gathered results. -/
theorem total_foldl_addResult {gathered : List (String × Ran)} (totals : Totals)
    (h : ∀ r ∈ gathered, ∀ t, m.total (addResult t r) = m.total t + m.weight r.2.trace) :
    m.total (gathered.foldl addResult totals) =
      m.total totals + (gathered.map fun r => m.weight r.2.trace).sum := by
  induction gathered generalizing totals with
  | nil => rfl
  | cons r gathered ih =>
    obtain ⟨h_r, h_rest⟩ := List.forall_mem_cons.mp h
    rw [List.foldl_cons, ih _ h_rest, h_r, List.map_cons, List.sum_cons]
    omega

/-- A blocking parallel group adds up what its members report. -/
theorem runParallel_adds (config : GroupConfig)
    (h_members : ∀ x ∈ members, m.Sound script (path ++ [x.1]) x.2) (input : String) (budget : ℤ)
    (w : World) (g : TeamResult)
    (h_g : (runParallel script config path members input budget w).1.1 = .ok g) :
    m.Adds g (runParallel script config path members input budget w).1.2 := by
  revert h_g
  unfold runParallel
  split_ifs with h_budget
  · intro h_g
    obtain rfl := Except.ok.inj h_g
    exact adds_failed m _ _ _ _ _
  · simp only
    have h_made := @made_of_mem_results _ (runMember script config path members input budget)
      members script path w (w.begin path)
    generalize inDefinitionOrder members.length (gatherParts _ members _ _).1 = results at h_made
    intro h_g
    -- all results merge into the totals, or the merge stops and reports nothing
    by_cases h_merges : ∀ r ∈ results, Merges r.2.outcome
    · rw [mergeResults_of_merges _ _ _ h_merges] at h_g
      obtain rfl := Except.ok.inj h_g
      apply adds_completed
      rw [total_foldl_addResult, m.zero, List.map_map, Nat.zero_add]
      · rfl
      · intro r h_r t
        obtain ⟨i, part, w', h_part, h_ran⟩ := h_made h_r
        have h_mem := List.mem_of_getElem? h_part
        obtain ⟨x, h_x⟩ := h_merges r h_r
        -- each result weighs what its member ran
        have h_weighs : m.Weighs r.2 := by
          rw [h_ran]
          exact (h_members _ h_mem).weighs _ _ _ _
        rw [addResult, h_x]
        exact h_weighs.added _ h_x t
    · simp only [not_forall] at h_merges
      obtain ⟨r, h_r, h_not⟩ := h_merges
      rcases mergeResults_of_stops config (w.sessionId path) (members.map Prod.fst) results [] {}
        ⟨r, h_r, h_not⟩ with ⟨e, h_e⟩ | ⟨e, res, -, h_e⟩
      · rw [h_e] at h_g
        cases h_g
      · rw [h_e] at h_g
        obtain rfl := Except.ok.inj h_g
        exact adds_failed m _ _ _ _ _

/-! ### Delegations -/

/-- What an open delegation will add. -/
def ofPending (m : Meter) : Pending → ℕ
  | .answered _ => 0
  | .running _ ran => m.weight ran.trace

/-- The totals of the answered delegations and what the open ones will add are the weight of
the delegated runs. -/
structure Settles (m : Meter) (office : Office) : Prop where
  weighs : ∀ name ran, .running name ran ∈ office.pending → m.Weighs ran
  total : m.total office.totals + (office.pending.map m.ofPending).sum =
    (office.runs.map m.weight).sum

/-- Answering a delegation moves its weight to the totals. -/
theorem answerDelegation_settles (config : GroupConfig) (path : Path) {i : ℕ} {answered : Pending}
    {office : Office} (w : World) (h : m.Settles office) (h_i : office.pending[i]? = some answered) :
    m.Settles (answerDelegation config path answered
      { office with pending := office.pending.eraseIdx i } w).2.1 := by
  have h_total := h.total
  rw [sum_map_eraseIdx m.ofPending h_i] at h_total
  have h_weighs : ∀ name ran, .running name ran ∈ office.pending.eraseIdx i → m.Weighs ran :=
    fun name ran h_mem => h.weighs name ran (List.mem_of_mem_eraseIdx h_mem)
  refine ⟨by simpa using h_weighs, ?_⟩
  rw [answerDelegation_pending, answerDelegation_runs, answerDelegation_totals]
  cases answered with
  | answered text =>
    simp only [ofPending, Nat.zero_add] at h_total
    exact h_total
  | running name ran =>
    have h_ran := h.weighs name ran (List.mem_of_getElem? h_i)
    simp only [ofPending] at h_total ⊢
    rcases h_outcome : ran.outcome with e | res
    · have h_none := h_ran.raised e h_outcome
      simp only
      omega
    · -- the totals are added before the last addition raises, if it does
      simp only [h_ran.added res h_outcome]
      omega

/-- The delegated runs of a supervisor add up to the totals of its group. -/
theorem supervise_total (config : GroupConfig)
    (h_members : ∀ x ∈ members, m.Sound script (path ++ [x.1]) x.2) (supervisor : String)
    (agent : Agent) (input : String) (budget maxTurns : ℤ) (w : World) :
    let office :=
      (supervise script config path members supervisor agent input budget maxTurns w).2.1
    m.total office.totals = (office.runs.map m.weight).sum := by
  intro office
  -- what is open has its weight with it, so it can be added when it is answered
  have h_settles : m.Settles office := by
    apply supervise_rule (I := fun office _ => m.Settles office)
    · exact fun _ _ _ h => h
    · exact fun _ _ _ h => h
    · refine ⟨fun office w h _ => ?_, fun name part task office w h_part h _ => ?_⟩
      · refine ⟨fun name ran h_mem => h.weighs name ran (by simpa using h_mem), ?_⟩
        simpa [ofPending] using h.total
      · have h_ran := (h_members _ h_part.2).weighs
          (office.slot (agent.turnLimit (some maxTurns))) task (budget - office.totals.turnsUsed)
          (syncDown config path name (some supervisor) (syncUp config path supervisor w))
        refine ⟨fun name' ran h_mem => ?_, ?_⟩
        · rcases List.mem_append.mp h_mem with h_open | h_new
          · exact h.weighs name' ran h_open
          · obtain ⟨rfl, rfl⟩ := Pending.running.inj (List.mem_singleton.mp h_new)
            exact h_ran
        · simp only [List.map_append, List.sum_append, List.map_cons, List.map_nil,
            List.sum_singleton, ← h.total, ofPending]
          omega
    · exact fun i answered office w h h_i => answerDelegation_settles config path w h h_i
    · exact ⟨nofun, m.zero⟩
  have h_total := h_settles.total
  rw [supervise_pending] at h_total
  simpa using h_total

/-- A blocking supervisor group adds up what its delegations and its supervisor report. -/
theorem runSupervisor_adds (config : GroupConfig)
    (h_members : ∀ x ∈ members, m.Sound script (path ++ [x.1]) x.2) (input : String) (budget : ℤ)
    (w : World) :
    let ran := (runSupervisor script config path members input budget w).1
    m.Adds ran.1 ran.2 := by
  unfold runSupervisor
  split
  · exact adds_failed m _ _ _ _ _
  · rename_i supervisor agent _
    split_ifs
    · exact adds_failed m _ _ _ _ _
    · -- the answered delegations
      have h_total := supervise_total config h_members supervisor agent input budget budget w
      simp only at h_total ⊢
      split
      · exact adds_failed m _ _ _ _ _
      · rename_i r h_r
        apply adds_completed
        -- and the supervisor's own run
        rw [m.add_run, h_total, List.map_cons, List.sum_cons, Nat.add_comm]
        congr 1
        -- which returned and is counted
        rw [weight, if_neg (by simp [Trace.isGroup]), counted, AgentRun.returned, h_r]
        simp [sumOver, measure, h_r, Except.toOption]

end Patterns

/-! ### Groups -/

/-- A group's result accounts for the runs that are counted below it. -/
theorem runGroup_accounts (config : GroupConfig)
    (h_members : ∀ x ∈ members, m.Sound script (path ++ [x.1]) x.2) (slot : Slot) (input : String)
    (maxTurns : Option ℤ) (w : World) (res : MemberResult)
    (h : (runGroup script config path members slot input maxTurns w).1.outcome = .ok res) :
    m.ofMember res = sumOver m.measure
      (m.counted (runGroup script config path members slot input maxTurns w).1.trace) := by
  obtain ⟨g, h_g, rfl⟩ := except_map_ok h
  -- whatever the pattern
  have h_adds : m.Adds g (runPattern script config path members input
      (effectiveTurnBudget config.maxTurns maxTurns) w).1.2 := by
    revert h_g
    unfold runPattern
    cases config.pattern with
    | pipeline =>
      intro h_g
      obtain rfl := Except.ok.inj h_g
      exact runPipeline_adds config h_members input _ w
    | supervisor =>
      intro h_g
      obtain rfl := Except.ok.inj h_g
      exact runSupervisor_adds config h_members input _ w
    | parallel => exact runParallel_adds config h_members input _ w g
  simp only [runGroup]
  rw [ofMember, h_adds, counted, GroupRun.completed, h_g, ← sumOver_countedAll]
  simp only [decide_eq_true_eq]
  split_ifs <;> rfl

/-- A group of sound parts is sound. -/
theorem sound_group (config : GroupConfig) (path : Path) (members : Dict String Part)
    (h_members : ∀ x ∈ members, m.Sound script (path ++ [x.1]) x.2) :
    m.Sound script path (.orchestrator config.maxTurns (runGroup script config path members)
      (streamGroup script config path members)) :=
  ⟨traced_group script config path members, fun slot input remaining w res h =>
    runGroup_accounts config h_members slot input (some remaining) w res h⟩

theorem sound_runner (script : Script) (path : Path) (agent : Agent) :
    m.Sound script path (.runner agent) :=
  ⟨traced_runner script path agent, accounts_runner script path agent⟩

/-- The members of a group are sound. -/
theorem parts_sound (m : Meter) (script : Script) (group : Group) (ctx : RunContext) (path : Path) :
    ∀ x ∈ group.parts script ctx path, m.Sound script (path ++ [x.1]) x.2 :=
  (group.parts_induction ctx path (sound_runner script)
    fun path config members _ h_members => sound_group config path members h_members).2

/-- **A blocking group reports the sum over the runs it counted**, for every tree and script. -/
theorem reported_eq (m : Meter) (script : Script) (group : Group) (ctx : RunContext) (path : Path)
    (input : String) (maxTurns : Option ℤ) (w : World) (g : TeamResult)
    (h : (group.run script ctx path input maxTurns w).1.outcome = .ok (.group g)) :
    m.reported g = sumOver m.measure
      (m.counted (group.run script ctx path input maxTurns w).1.trace) :=
  runGroup_accounts group.config (m.parts_sound script group ctx path) Group.rootSlot input maxTurns w
    (.group g) h

end Meter

end Nexus.Team
