import NexusAgent.Multiagent.Savings
import NexusAgent.Multiagent.Nesting

/-!
# When a streaming group reports what a blocking one does

Each pattern has two implementations. They differ in the turns a member gets (what is left of
the budget, or its own limit), in what a failure leaves of the totals, in what a parallel group
makes of a failure, in how the recurring savings of a run are looked up, and in the response of
a pipeline whose last member has none.

* `Agrees` compares the results of a blocking and a streaming run from one world.
* `Unhindered` says that the first two differences do not show in the member runs: a pipeline
  or parallel group runs agents, and a group reads the same in what each returns within the
  turns that are left as in what it returns by itself.
* `stream_agrees_iff` is the exact condition for unhindered runs, for every pattern, and
  `failed_pipelines_differ` runs a pipeline that does not meet it.
-/

open Lib

namespace Nexus.Team

variable {script : Script} {config : GroupConfig} {path : Path}

/-! ### Reports -/

/-- What a result reports of a group run. -/
structure Report where
  status : GroupStatus
  finalResponse : Option String
  turnsUsed : ℕ
  totalTokensIn : ℕ
  totalTokensOut : ℕ
  totalTokensSavedByRcs : ℕ
  cumulativeTokensSavedByRcs : ℕ
  deriving DecidableEq

/-- The report of a group, if there is one. -/
def reportOf : Option MemberResult → Option Report
  | some (.group g) => some ⟨g.status, g.finalResponse, g.turnsUsed, g.totalTokensIn,
      g.totalTokensOut, g.totalTokensSavedByRcs, g.cumulativeTokensSavedByRcs⟩
  | _ => none

/-- **The streaming run reports what the blocking run does.** -/
def Agrees (ran : Ran) (streamed : Streamed) : Prop :=
  reportOf streamed.result = reportOf ran.outcome.toOption

/-- The totals of a group. -/
def meters : List Meter := [turnsMeter, tokensInMeter, tokensOutMeter, savedMeter, cumulativeMeter]

/-- Two reports are the same if and only if all their parts are. -/
theorem reportOf_eq_iff (g h : TeamResult) :
    reportOf (some (.group g)) = reportOf (some (.group h)) ↔
      g.status = h.status ∧ g.finalResponse = h.finalResponse ∧
        ∀ m ∈ meters, m.reported g = m.reported h := by
  simp [reportOf, meters, turnsMeter, tokensInMeter, tokensOutMeter, savedMeter, cumulativeMeter]

/-! ### Members that read alike -/

/-- A group reads the same in two results of an agent: the response, of which a missing one
counts as an empty one, and the totals that both implementations find. -/
structure SameRead (r s : RunResult) : Prop where
  response : r.finalResponse.getD "" = s.finalResponse.getD ""
  turnsUsed : r.turnsUsed = s.turnsUsed
  totalTokensIn : r.totalTokensIn = s.totalTokensIn
  totalTokensOut : r.totalTokensOut = s.totalTokensOut
  totalTokensSavedByRcs : r.totalTokensSavedByRcs = s.totalTokensSavedByRcs

/-- A group reads the same in what two runs of an agent came to. -/
def ReadAlike : Except String RunResult → Except String RunResult → Prop
  | .ok r, .ok s => SameRead r s
  | .error _, .error _ => True
  | _, _ => False

/-- A blocking pipeline from one world and a streaming one from another: of agents that read
alike, each with turns left when it starts. -/
def PipelineUnhindered (script : Script) (config : GroupConfig) (path : Path) (budget : ℤ) :
    Dict String Part → String → ℕ → World → World → Prop
  | [], _, _, _, _ => True
  | (name, part) :: members, input, used, w, v =>
    0 < budget - used ∧ ∃ agent, part = .runner agent ∧
      let limited := runAgent script noDesk (path ++ [name]) agent input (some (budget - used)) ()
        (syncDown config path name none w)
      let own := runAgent script noDesk (path ++ [name]) agent input none ()
        (syncDown config path name none v)
      ReadAlike limited.1.outcome own.1.outcome ∧
      ∀ r, limited.1.outcome = .ok r → PipelineUnhindered script config path budget members
        (r.finalResponse.getD "") (used + r.turnsUsed) (syncUp config path name limited.2.2)
        (syncUp config path name own.2.2)

/-- A blocking parallel group from one world and a streaming one from another: of agents that
read alike, in the order in which they finish. -/
def GatherUnhindered (script : Script) (config : GroupConfig) (path : Path)
    (members : Dict String Part) (input : String) (budget : ℤ) : List ℕ → World → World → Prop
  | [], _, _ => True
  | i :: order, w, v =>
    match members[i]? with
    | none => GatherUnhindered script config path members input budget order w v
    | some (name, part) =>
      ∃ agent, part = .runner agent ∧
        let limited := runAgent script noDesk (path ++ [name]) agent input (some budget) ()
          (syncDown config path name none w)
        let own := runAgent script noDesk (path ++ [name]) agent input none ()
          (syncDown config path name none v)
        ReadAlike limited.1.outcome own.1.outcome ∧
        GatherUnhindered script config path members input budget order limited.2.2 own.2.2

/-- **The budget does not show in the member runs**: a pipeline or parallel group runs agents,
and it reads the same in what each comes to within what is left and by itself. -/
def Unhindered (script : Script) (config : GroupConfig) (path : Path) (members : Dict String Part)
    (input : String) (w : World) : Prop :=
  match config.pattern with
  | .pipeline => PipelineUnhindered script config path config.maxTurns members input 0 w w
  | .parallel => GatherUnhindered script config path members input config.maxTurns
      (finishOrder script path members w) (w.begin path) (w.begin path)
  | .supervisor => True

/-! ### Runs in step -/

/-- A blocking and a streaming run of an agent that read alike, each executed by its group
itself. -/
inductive Twins : Trace → Trace → Prop
  | agents {slot slot' : Slot} {run other : AgentRun} (own : slot.role ≠ .delegate)
      (own' : slot'.role ≠ .delegate) (alike : ReadAlike run.outcome other.outcome) :
      Twins (.agent slot run) (.agent slot' other)

/-- The blocking and the streaming runs of agents read alike, one by one. -/
abbrev InStep (blocking streaming : List Trace) : Prop := List.Forall₂ Twins blocking streaming

/-- What a run that returned is read as, its twin is read as, too. -/
theorem Twins.same {t u : Trace} (h : Twins t u) {res : MemberResult} (h_res : t.outcome = .ok res) :
    ∃ r s, res = .run r ∧ u.outcome = .ok (.run s) ∧ SameRead r s := by
  obtain ⟨-, -, h_alike⟩ := h
  obtain ⟨r, h_r, rfl⟩ := except_map_ok h_res
  rw [h_r] at h_alike
  rename_i run other
  rcases h_other : other.outcome with e | s
  · rw [h_other] at h_alike
    cases h_alike
  · rw [h_other] at h_alike
    exact ⟨r, s, rfl, by simp [Trace.outcome, h_other, Except.map], h_alike⟩

/-- Two runs that read alike both return or both raise. -/
theorem Twins.returned_iff {t u : Trace} (h : Twins t u) :
    (∃ res, t.outcome = .ok res) ↔ ∃ res, u.outcome = .ok res := by
  constructor
  · rintro ⟨res, h_res⟩
    -- a dumped result is that of the other run
    obtain ⟨r, s, -, h_s, -⟩ := h.same h_res
    exact ⟨_, h_s⟩
  · rintro ⟨res, h_res⟩
    obtain ⟨-, -, h_alike⟩ := h
    -- and the other way round
    obtain ⟨s, h_s, rfl⟩ := except_map_ok h_res
    rw [h_s] at h_alike
    rename_i run other
    rcases h_run : run.outcome with e | r
    · rw [h_run] at h_alike
      cases h_alike
    · exact ⟨.run r, by simp [Trace.outcome, h_run, Except.map]⟩

theorem InStep.concat {blocking streaming : List Trace} {t u : Trace}
    (h : InStep blocking streaming) (h_last : Twins t u) :
    InStep (blocking ++ [t]) (streaming ++ [u]) :=
  List.rel_append h (.cons h_last .nil)

/-- Every element on the right has one on the left. -/
theorem forall₂_mem_right {α β : Type} {R : α → β → Prop} {xs : List α} {ys : List β}
    (h : List.Forall₂ R xs ys) : ∀ y ∈ ys, ∃ x ∈ xs, R x y := by
  induction h with
  | nil => exact nofun
  | cons h_head _ ih =>
    intro y h_y
    rcases List.mem_cons.mp h_y with rfl | h_y
    · exact ⟨_, List.mem_cons_self, h_head⟩
    · obtain ⟨x, h_x, h_xy⟩ := ih y h_y
      exact ⟨x, List.mem_cons_of_mem _ h_x, h_xy⟩

/-- What a streaming group would leave out of the totals of some runs: the recurring savings that
the agents it executes itself report. -/
def Meter.unread (m : Meter) (inner : List Trace) : ℕ :=
  if m.dumped then 0 else sumOver m.measure (Trace.leavesAll (directOf inner))

namespace Meter

variable {m : Meter}

/-- The weight of an agent is what was measured. -/
theorem weight_agent (slot : Slot) (run : AgentRun) :
    m.weight (.agent slot run) = m.measure run := by
  unfold weight
  rw [if_neg (by simp [Trace.isGroup]), counted, AgentRun.returned]
  rcases h_run : run.outcome with e | r
  · simp [Except.toOption, measure, h_run]
  · simp [Except.toOption, sumOver]

/-- A group adds the same for two runs that read alike, if both implementations find the
total. -/
theorem measure_alike (h_m : m ∈ meters) (h_dumped : m.dumped = true) {run other : AgentRun}
    (h : ReadAlike run.outcome other.outcome) : m.measure run = m.measure other := by
  unfold measure
  -- both raise or both return
  rcases h_run : run.outcome with e | r <;> rcases h_other : other.outcome with e' | s <;>
    rw [h_run, h_other] at h
  · cases h
  · cases h
  · change SameRead r s at h
    simp only [meters, List.mem_cons, List.not_mem_nil, or_false] at h_m
    -- each meter reads one of the fields that agree
    rcases h_m with rfl | rfl | rfl | rfl | rfl
    · exact h.turnsUsed
    · exact h.totalTokensIn
    · exact h.totalTokensOut
    · exact h.totalTokensSavedByRcs
    · cases h_dumped

/-- A direct run is unread if the meter is not dumped. -/
theorem unread_cons_own {slot : Slot} {run : AgentRun} (h : slot.role ≠ .delegate)
    (runs : List Trace) :
    m.unread (.agent slot run :: runs) = (if m.dumped then 0 else m.measure run) + m.unread runs := by
  have h_direct : directOf (.agent slot run :: runs) = .agent slot run :: directOf runs :=
    List.filter_cons_of_pos (by rw [decide_eq_true_eq]; exact h)
  unfold unread
  rw [h_direct, Trace.leavesAll_cons, sumOver_append, Trace.leaves_agent]
  split_ifs
  · rfl
  · simp [sumOver]

/-- The totals of runs in step differ by what the streaming group does not read. -/
theorem weights_inStep (h_m : m ∈ meters) {blocking streaming : List Trace}
    (h : InStep blocking streaming) :
    (blocking.map m.weight).sum = (streaming.map m.streamWeight).sum + m.unread blocking := by
  induction h with
  | nil => simp [unread, directOf]
  | cons h_twins _ ih =>
    obtain ⟨h_own, h_own', h_alike⟩ := h_twins
    rename_i slot slot' run other
    -- a stream tells what the dump of its result has
    have h_stream : m.streamWeight (.agent slot' other) =
        if m.dumped then m.measure other else 0 := by
      rw [streamWeight_agent h_own']
      unfold measure
      cases other.outcome <;> simp
    rw [List.map_cons, List.map_cons, List.sum_cons, List.sum_cons, ih, h_stream, weight_agent,
      unread_cons_own h_own]
    -- dumped: both weigh the same
    split_ifs with h_dumped
    · rw [measure_alike h_m h_dumped h_alike]
      omega
    · -- not dumped: the stream weighs nothing
      omega

end Meter

/-! ### The condition -/

/-- The runs a group executed itself all returned. -/
def AllReturned (inner : List Trace) : Prop := ∀ t ∈ directOf inner, ∃ res, t.outcome = .ok res

instance (inner : List Trace) : Decidable (AllReturned inner) :=
  decidable_of_iff (∀ t ∈ directOf inner, t.outcome.toOption.isSome = true) <| by
    unfold AllReturned
    refine forall₂_congr fun t _ => ?_
    cases t.outcome with
    | error e => simp [Except.toOption]
    | ok res => simp [Except.toOption]

/-- The response of the last run that returned. -/
def lastResponse (inner : List Trace) : Option String :=
  (inner.filterMap fun t => t.outcome.toOption).getLast?.bind MemberResult.finalResponse

/-- No run that was heard reports anything. -/
def Quiet (inner : List Trace) : Prop := ∀ m ∈ meters, sumOver m.measure (m.heard inner) = 0

/-- When the two implementations of a pattern report the same, told by the runs below the
streaming one, and by the recurring savings of those below the blocking one. -/
def ReportsAlike (config : GroupConfig) (members : Dict String Part)
    (blocking inner : List Trace) : Prop :=
  match config.pattern with
  | .pipeline =>
    (AllReturned inner ∧ lastResponse inner ≠ none ∧ cumulativeMeter.unread blocking = 0) ∨
      (¬ AllReturned inner ∧ lastResponse inner = none ∧ Quiet inner)
  | .parallel => AllReturned inner ∧ cumulativeMeter.unread blocking = 0
  | .supervisor =>
    (∃ lead, findSupervisor config members = .ok lead) ∧
      ((AllReturned inner ∧ cumulativeMeter.unread blocking = 0) ∨
        (¬ AllReturned inner ∧ Quiet inner))

/-- Results of runs whose totals differ by what the streaming group did not read. -/
structure Counted (g h : TeamResult) (blocking inner : List Trace) : Prop where
  blocking : ∀ m ∈ meters, m.reported g =
    if g.status = .completed then sumOver m.measure (m.heard inner) + m.unread blocking else 0
  streaming : ∀ m : Meter, m.reported h = sumOver m.measure (m.heard inner)

/-- The totals of a group that completed are the same if and only if no recurring savings were
left out. -/
theorem Counted.completed_iff {g h : TeamResult} {blocking inner : List Trace}
    (h_counted : Counted g h blocking inner) (h_status : g.status = .completed) :
    (∀ m ∈ meters, m.reported h = m.reported g) ↔ cumulativeMeter.unread blocking = 0 := by
  have h_meter {m : Meter} (h_m : m ∈ meters) :
      m.reported h = m.reported g ↔ m.unread blocking = 0 := by
    rw [h_counted.blocking m h_m, h_counted.streaming m, if_pos h_status]
    omega
  -- four of the five totals are in the data of the final event
  have h_dumped {m : Meter} (h_m : m.dumped = true) : m.unread blocking = 0 := by
    unfold Meter.unread
    rw [if_pos h_m]
  constructor
  · intro h_all
    have h_mem : cumulativeMeter ∈ meters := by simp [meters]
    exact (h_meter h_mem).mp (h_all cumulativeMeter h_mem)
  · intro h_zero m h_m
    rw [h_meter h_m]
    simp only [meters, List.mem_cons, List.not_mem_nil, or_false] at h_m
    rcases h_m with rfl | rfl | rfl | rfl | rfl
    · exact h_dumped rfl
    · exact h_dumped rfl
    · exact h_dumped rfl
    · exact h_dumped rfl
    · exact h_zero

/-- The totals of a group that failed are the same if and only if nothing was heard. -/
theorem Counted.failed_iff {g h : TeamResult} {blocking inner : List Trace}
    (h_counted : Counted g h blocking inner) (h_status : g.status ≠ .completed) :
    (∀ m ∈ meters, m.reported h = m.reported g) ↔ Quiet inner := by
  unfold Quiet
  refine forall₂_congr fun m h_m => ?_
  rw [h_counted.blocking m h_m, h_counted.streaming m, if_neg h_status]

/-! ### Pipelines -/

/-- The loops of the two pipelines between two members. -/
structure LinesInStep (line : Line) (stream : StreamLine) : Prop where
  input : line.currentInput = stream.currentInput
  runs : InStep line.runs stream.runs
  returned : ∀ t ∈ stream.runs, ∃ res, t.outcome = .ok res
  response : stream.finalResponse = lastResponse stream.runs
  next : ∀ r, stream.finalResponse = some r → line.currentInput = r

/-- How two pipelines in step end. -/
structure EndInStep (ran : TeamResult × List Trace) (stream : GroupStream) (g : TeamResult) :
    Prop where
  outcome : stream.outcome = .ok g
  runs : InStep ran.2 stream.runs
  response : g.finalResponse = lastResponse stream.runs
  ended : ((∀ t ∈ stream.runs, ∃ res, t.outcome = .ok res) ∧ ran.1.status = .completed ∧
      g.status = .completed ∧ ran.1.finalResponse ≠ none ∧
      ∀ r, g.finalResponse = some r → ran.1.finalResponse = some r) ∨
    (¬ (∀ t ∈ stream.runs, ∃ res, t.outcome = .ok res) ∧ ran.1.status = .failed ∧
      g.status = .failed ∧ ran.1.finalResponse = none)

@[simp] theorem lastResponse_concat_ok {runs : List Trace} {t : Trace} {res : MemberResult}
    (h : t.outcome = .ok res) : lastResponse (runs ++ [t]) = res.finalResponse := by
  simp [lastResponse, h, Except.toOption]

theorem lastResponse_concat_error {runs : List Trace} {t : Trace} {e : String}
    (h : t.outcome = .error e) : lastResponse (runs ++ [t]) = lastResponse runs := by
  simp [lastResponse, h, Except.toOption]

/-- A blocking pipeline at an agent with turns left. -/
theorem runPipelineFrom_agent (budget : ℤ) (name : String) (agent : Agent)
    (members : Dict String Part) (line : Line) (w : World)
    (h : 0 < budget - line.totals.turnsUsed) :
    runPipelineFrom script config path budget ((name, .runner agent) :: members) line w =
      let done := runAgent script noDesk (path ++ [name]) agent line.currentInput
        (some (budget - line.totals.turnsUsed)) () (syncDown config path name none w)
      match done.1.outcome with
      | .error e => ((failedResult config (w.sessionId path) e line.memberResults,
          line.runs ++ [.agent line.slot done.1]), done.2.2)
      | .ok r => runPipelineFrom script config path budget members
          (line.took name (.run r) (.agent line.slot done.1)) (syncUp config path name done.2.2) := by
  conv_lhs => unfold runPipelineFrom
  simp only [runPart]
  -- there are turns left
  rw [if_neg (by omega)]
  generalize runAgent script noDesk _ agent _ _ _ _ = done
  -- the member raised or returned
  cases done.1.outcome <;> rfl

/-- A streaming pipeline at an agent. -/
theorem streamPipelineFrom_agent (name : String) (agent : Agent) (members : Dict String Part)
    (line : StreamLine) (w : World) :
    streamPipelineFrom script config path ((name, .runner agent) :: members) line w =
      let done := runAgent script noDesk (path ++ [name]) agent line.currentInput none ()
        (syncDown config path name none w)
      let line := { line with
        runs := line.runs ++ [Trace.agent ⟨.member, turnsTaken line.runs⟩ done.1] }
      match done.1.outcome with
      | .error e =>
        ((line.saying (.error e)).done config (w.sessionId path) (some e), done.2.2)
      | .ok r => streamPipelineFrom script config path members
          ((line.saying (.final (.run r))).took name (.run r))
          (syncUp config path name done.2.2) := by
  -- the member streams by its own limit
  conv_lhs => unfold streamPipelineFrom
  simp only [streamPart]
  generalize runAgent script noDesk _ agent _ _ _ _ = done
  unfold streamOf
  -- and raised or returned
  cases done.1.outcome <;> rfl

/-- **Two pipelines in step**: unhindered, they run the same agents, which read alike. -/
theorem pipelines_inStep (budget : ℤ) (members : Dict String Part) (line : Line)
    (stream : StreamLine) (w v : World)
    (h : PipelineUnhindered script config path budget members line.currentInput
      line.totals.turnsUsed w v)
    (h_lines : LinesInStep line stream) :
    ∃ g, EndInStep (runPipelineFrom script config path budget members line w).1
      (streamPipelineFrom script config path members stream v).1 g := by
  induction members generalizing line stream w v with
  | nil =>
    refine ⟨_, rfl, h_lines.runs, h_lines.response, .inl ⟨h_lines.returned, rfl, rfl, ?_, ?_⟩⟩
    · exact Option.some_ne_none _
    · exact fun r h_r => congrArg some (h_lines.next r h_r)
  | cons m members ih =>
    obtain ⟨name, part⟩ := m
    obtain ⟨h_remaining, agent, rfl, h_alike, h_rest⟩ := h
    rw [runPipelineFrom_agent budget name agent members line w h_remaining,
      streamPipelineFrom_agent, ← h_lines.input]
    simp only
    generalize runAgent script noDesk (path ++ [name]) agent line.currentInput
      (some (budget - line.totals.turnsUsed)) () (syncDown config path name none w) = limited
      at h_alike h_rest ⊢
    generalize runAgent script noDesk (path ++ [name]) agent line.currentInput none ()
      (syncDown config path name none v) = own at h_alike h_rest ⊢
    have h_runs : InStep (line.runs ++ [.agent line.slot limited.1])
        (stream.runs ++ [.agent ⟨.member, turnsTaken stream.runs⟩ own.1]) :=
      h_lines.runs.concat (.agents nofun nofun h_alike)
    rcases h_own : own.1.outcome with e | s
    · -- both stop here
      rcases h_limited : limited.1.outcome with e' | r
      · have h_raised : (Trace.agent ⟨.member, turnsTaken stream.runs⟩ own.1).outcome =
            .error e := by
          simp [Trace.outcome, h_own, Except.map]
        refine ⟨_, rfl, h_runs, ?_, .inr ⟨fun h_all => ?_, rfl, rfl, rfl⟩⟩
        · exact h_lines.response.trans (lastResponse_concat_error h_raised).symm
        · obtain ⟨res, h_res⟩ := h_all (.agent ⟨.member, turnsTaken stream.runs⟩ own.1) (by
            simp [StreamLine.done, StreamLine.saying, GroupStream.ofResult])
          cases h_raised.symm.trans h_res
      · rw [h_limited, h_own] at h_alike
        cases h_alike
    · rcases h_limited : limited.1.outcome with e' | r
      · rw [h_limited, h_own] at h_alike
        cases h_alike
      · have h_returned : (Trace.agent ⟨.member, turnsTaken stream.runs⟩ own.1).outcome =
            .ok (.run s) := by
          simp [Trace.outcome, h_own, Except.map]
        have h_same : SameRead r s := by
          rw [h_limited, h_own] at h_alike
          exact h_alike
        apply ih
        · exact h_rest r h_limited
        · refine ⟨h_same.response, h_runs, ?_, ?_, ?_⟩
          · exact forall_mem_concat h_lines.returned ⟨_, h_returned⟩
          · exact (lastResponse_concat_ok h_returned).symm
          · intro response h_response
            exact h_same.response.trans (congrArg (Option.getD · "") h_response)

/-! ### Parallel groups -/

/-- What two parallel groups gathered from one agent. -/
structure GatheredAlike (ran : String × Ran) (streamed : String × Streamed) : Prop where
  name : ran.1 = streamed.1
  twins : Twins ran.2.trace streamed.2.trace
  outcome : ran.2.outcome = ran.2.trace.outcome
  streams : ∃ slot, slot.role ≠ .delegate ∧ StreamsAgent slot streamed.2

/-- Unhindered members end alike, in whatever order they finish. -/
theorem gather_inStep {members : Dict String Part} {input : String} {budget : ℤ} (order : List ℕ)
    (w v : World) (h : GatherUnhindered script config path members input budget order w v) :
    List.Forall₂ (fun g s => g.1 = s.1 ∧ GatheredAlike g.2 s.2)
      (gatherParts (runMember script config path members input budget) members order w).1
      (gatherParts (pumpMember script config path members input) members order v).1 := by
  induction order generalizing w v with
  | nil => exact .nil
  | cons i order ih =>
    unfold GatherUnhindered at h
    unfold gatherParts
    rcases h_part : members[i]? with _ | ⟨name, part⟩
    · rw [h_part] at h
      -- no member at this place
      exact ih w v h
    · rw [h_part] at h
      -- an agent that ends alike either way
      obtain ⟨agent, rfl, h_alike, h_rest⟩ := h
      refine .cons ⟨rfl, rfl, ?_, rfl, streamSlot members i, by simp [streamSlot], _, rfl⟩ (ih _ _ h_rest)
      simp only [runMember, pumpMember, runPart, streamPart, streamOf_trace]
      have h_role : ∀ standing, (⟨.member, standing⟩ : Slot).role ≠ .delegate := by simp
      exact .agents (h_role _) (h_role _) h_alike

/-- Related lists have related values under each key. -/
theorem rel_lookup {α β : Type} {R : α → β → Prop} {xs : List (ℕ × α)} {ys : List (ℕ × β)}
    (h : List.Forall₂ (fun x y => x.1 = y.1 ∧ R x.2 y.2) xs ys) (i : ℕ) :
    Option.Rel R (xs.lookup i) (ys.lookup i) := by
  induction h with
  | nil => exact .none
  | @cons x y xs ys h_head _ ih =>
    obtain ⟨j, a⟩ := x
    obtain ⟨k, b⟩ := y
    obtain ⟨rfl, h_ab⟩ := h_head
    -- the keys are the same, so both searches stop here or go on
    rw [List.lookup_cons, List.lookup_cons]
    cases i == j
    · exact ih
    · exact .some h_ab

/-- Entries that are related are so in the definition order. -/
theorem inDefinitionOrder_rel {α β : Type} {R : α → β → Prop} {xs : List (ℕ × α)}
    {ys : List (ℕ × β)} (h : List.Forall₂ (fun x y => x.1 = y.1 ∧ R x.2 y.2) xs ys) (n : ℕ) :
    List.Forall₂ R (inDefinitionOrder n xs) (inDefinitionOrder n ys) := by
  unfold inDefinitionOrder
  induction List.range n with
  | nil => exact .nil
  | cons i places ih =>
    have h_rel := rel_lookup h i
    rw [List.filterMap_cons, List.filterMap_cons]
    cases h_x : xs.lookup i <;> cases h_y : ys.lookup i <;> rw [h_x, h_y] at h_rel
    · exact ih
    · -- only one of the two has a value, which cannot be
      cases h_rel
    · cases h_rel
    · obtain ⟨h_ab⟩ := h_rel
      exact .cons h_ab ih

theorem truthy_congr {x y : Option String} (h : x.getD "" = y.getD "") : truthy x = truthy y := by
  have h_truthy (z : Option String) : truthy z = if z.getD "" = "" then none else some (z.getD "") := by
    cases z <;> rfl
  rw [h_truthy, h_truthy, h]

/-- The aggregation looks at the responses under the names only. -/
theorem aggregateParallel_congr {names : List String} {results results' : Dict String MemberResult}
    (h : ∀ name ∈ names, truthy ((Dict.get? results name).bind MemberResult.finalResponse) =
      truthy ((Dict.get? results' name).bind MemberResult.finalResponse)) :
    aggregateParallel config results names = aggregateParallel config results' names := by
  have h_responses : (names.filterMap fun name =>
      (truthy ((Dict.get? results name).bind MemberResult.finalResponse)).map (name, ·)) =
      names.filterMap fun name =>
        (truthy ((Dict.get? results' name).bind MemberResult.finalResponse)).map (name, ·) :=
    List.filterMap_congr fun name h_name => by rw [h name h_name]
  unfold aggregateParallel
  rw [h_responses]

/-- Merging the results of agents always yields a result. -/
theorem mergeResults_agents (config : GroupConfig) (sessionId : String) (names : List String)
    (gathered : List (String × Ran)) (results : Dict String MemberResult) (totals : Totals)
    (h : ∀ r ∈ gathered, ∀ res, r.2.outcome = .ok res → res.isGroup = false) :
    ∃ g, mergeResults config sessionId names gathered results totals = .ok g := by
  induction gathered generalizing results totals with
  | nil => exact ⟨_, rfl⟩
  | cons r gathered ih =>
    obtain ⟨name, ran⟩ := r
    obtain ⟨h_head, h_rest⟩ := List.forall_mem_cons.mp h
    unfold mergeResults
    -- a member that raised ends the merge
    rcases h_outcome : ran.outcome with e | res
    · exact ⟨_, rfl⟩
    · have h_run := h_head res h_outcome
      cases res with
      | group g => cases h_run
      -- an agent's result is added, and the merge goes on
      | run r => exact ih _ _ h_rest

/-- How two parallel groups in step end. -/
structure MergeInStep (ran : Except String TeamResult × List Trace) (stream : GroupStream)
    (g h : TeamResult) : Prop where
  blocking : ran.1 = .ok g
  streaming : stream.outcome = .ok h
  runs : InStep ran.2 stream.runs
  status : h.status = .completed
  ended : ((∀ t ∈ stream.runs, ∃ res, t.outcome = .ok res) ∧ g.status = .completed ∧
      h.finalResponse = g.finalResponse) ∨
    (¬ (∀ t ∈ stream.runs, ∃ res, t.outcome = .ok res) ∧ g.status = .failed)

section Parallel

variable {members : Dict String Part} {input : String} {w : World}

/-- The merged results of agents that all returned: what the one who goes by the name
returned. -/
theorem get?_merged {gathered : List (ℕ × String × Streamed)}
    (h_agents : ∀ g ∈ gathered, ∃ slot, slot.role ≠ .delegate ∧ StreamsAgent slot g.2.2)
    (h_nodup : (gathered.map fun g => g.2.1).Nodup) {g : ℕ × String × Streamed}
    (h_g : g ∈ gathered) {res : MemberResult} (h_res : g.2.2.trace.outcome = .ok res) :
    Dict.get? ((queuedEvents gathered).foldl (storeEvent script) []) g.2.1 = some res := by
  obtain ⟨slot, -, run, h_run⟩ := h_agents g h_g
  rw [h_run, streamOf_trace] at h_res
  obtain ⟨r, h_r, rfl⟩ := except_map_ok h_res
  -- an agent streams its final response and nothing else
  have h_events : memberEvents g.2.2 = [.final (.run r)] := by
    rw [h_run, memberEvents_streamOf, h_r]
  rw [queuedEvents_foldl]
  apply get?_foldl_of_mem (fun g : ℕ × String × Streamed => g.2.1)
    (fun d g k h => get?_foldl_storeEvent_ne script h (memberEvents g.2.2) d) h_nodup h_g
  intro d
  -- so this is the last event of its name
  have h_last : (memberEvents g.2.2).getLast? = some (.final (.run r)) := by
    rw [h_events]
    rfl
  exact get?_foldl_storeEvent_last h_last rfl d

/-- **Two parallel groups in step**: unhindered, they run the same agents, which read alike. -/
theorem parallels_inStep (h_keys : (Dict.keys members).Nodup)
    (h : GatherUnhindered script config path members input config.maxTurns
      (finishOrder script path members w) (w.begin path) (w.begin path)) :
    ∃ g h, MergeInStep (runParallel script config path members input config.maxTurns w).1
      (streamParallel script config path members input w).1 g h := by
  have h_gathered := gather_inStep _ _ _ h
  have h_perm := @results_perm _ (runMember script config path members input config.maxTurns)
    members script path w (w.begin path)
  have h_names := @results_names _ (runMember script config path members input config.maxTurns)
    members script path w (w.begin path)
  have h_perm' := @results_perm _ (pumpMember script config path members input)
    members script path w (w.begin path)
  have h_names' := @results_names _ (pumpMember script config path members input)
    members script path w (w.begin path)
  have h_budget : ¬ (config.maxTurns : ℤ) < 1 := by
    have := config.maxTurns_pos
    omega
  unfold runParallel streamParallel
  rw [if_neg h_budget]
  simp only at h_perm h_perm' ⊢
  generalize (gatherParts (runMember _ _ _ _ _ _) members _ _).1 = blocking
    at h_gathered h_perm h_names ⊢
  generalize (gatherParts (pumpMember _ _ _ _ _) members _ _).1 = streaming
    at h_gathered h_perm' h_names' ⊢
  have h_streaming : ∀ g ∈ streaming, ∃ slot, slot.role ≠ .delegate ∧ StreamsAgent slot g.2.2 := by
    intro g h_g
    obtain ⟨b, -, -, h_alike⟩ := forall₂_mem_right h_gathered g h_g
    exact h_alike.streams
  have h_fine := (mergeEvents_spec script (queuedEvents streaming) {}).1
    (Meter.not_failed_of_agents h_streaming)
  have h_results := inDefinitionOrder_rel h_gathered members.length
  have h_nodup : (streaming.map fun g => g.2.1).Nodup := by
    have h_keys' : ((streaming.map Prod.snd).map Prod.fst).Nodup := by
      rw [← (h_perm'.map Prod.fst).nodup_iff, h_names']
      exact h_keys
    rwa [List.map_map] at h_keys'
  generalize inDefinitionOrder members.length blocking = ran at h_perm h_names h_results ⊢
  generalize inDefinitionOrder members.length streaming = stream at h_perm' h_names' h_results ⊢
  have h_twin : ∀ r ∈ ran, ∃ s ∈ stream, GatheredAlike r s :=
    forall₂_mem_right h_results.flip
  have h_runs : InStep (ran.map fun r => r.2.trace) (stream.map fun s => s.2.trace) :=
    List.forall₂_map_left_iff.mpr
      (List.forall₂_map_right_iff.mpr (h_results.imp fun _ _ h => h.twins))
  rw [h_fine.1]
  by_cases h_all : ∀ t ∈ stream.map fun s => s.2.trace, ∃ res, t.outcome = .ok res
  · have h_ok : ∀ r ∈ ran, ∃ r', r.2.outcome = .ok (.run r') := by
      intro r h_r
      obtain ⟨s, h_s, h_alike⟩ := h_twin r h_r
      obtain ⟨res, h_res⟩ := h_alike.twins.returned_iff.mpr (h_all _ (List.mem_map_of_mem h_s))
      obtain ⟨r', -, rfl, -⟩ := h_alike.twins.same h_res
      exact ⟨r', h_alike.outcome.trans h_res⟩
    refine ⟨_, _, mergeResults_of_merges ran [] {} h_ok, rfl, h_runs, rfl, .inl ⟨h_all, rfl, ?_⟩⟩
    -- under each name the two hold results that read alike
    apply aggregateParallel_congr
    intro name h_name
    rw [← h_names] at h_name
    obtain ⟨r, h_r, rfl⟩ := List.mem_map.mp h_name
    obtain ⟨r', h_r'⟩ := h_ok r h_r
    obtain ⟨s, h_s, h_alike⟩ := h_twin r h_r
    obtain ⟨_, s', h_eq, h_s', h_same⟩ := h_alike.twins.same (h_alike.outcome.symm.trans h_r')
    obtain rfl := MemberResult.run.inj h_eq
    obtain ⟨g, h_g, rfl⟩ := List.mem_map.mp (h_perm'.subset h_s)
    rw [get?_stored (h_names ▸ h_keys) h_r h_r', h_fine.2.1, h_alike.name,
      get?_merged h_streaming h_nodup h_g h_s']
    exact truthy_congr h_same.response.symm
  · have h_stops : ∃ r ∈ ran, ¬ Merges r.2.outcome := by
      simp only [not_forall] at h_all
      obtain ⟨t, h_t, h_raised⟩ := h_all
      obtain ⟨s, h_s, rfl⟩ := List.mem_map.mp h_t
      obtain ⟨r, h_r, h_alike⟩ := forall₂_mem_right h_results s h_s
      refine ⟨r, h_r, fun ⟨r', h_r'⟩ => h_raised ?_⟩
      exact h_alike.twins.returned_iff.mp ⟨.run r', h_alike.outcome.symm.trans h_r'⟩
    rcases mergeResults_of_stops config (w.sessionId path) (members.map Prod.fst) ran [] {} h_stops
      with ⟨e, h_e⟩ | ⟨e, res, -, h_e⟩
    · obtain ⟨g, h_g⟩ := mergeResults_agents config (w.sessionId path) (members.map Prod.fst) ran []
        {} fun r h_r res h_res => by
          obtain ⟨s, -, h_alike⟩ := h_twin r h_r
          obtain ⟨r', -, rfl, -⟩ := h_alike.twins.same (h_alike.outcome.symm.trans h_res)
          rfl
      cases h_e.symm.trans h_g
    · exact ⟨_, _, h_e, rfl, h_runs, rfl, .inr ⟨h_all, rfl⟩⟩

end Parallel

/-! ### The exact condition -/

/-- Runs in step are direct ones. -/
theorem InStep.direct {blocking streaming : List Trace} (h : InStep blocking streaming) :
    directOf streaming = streaming := by
  refine List.filter_eq_self.mpr fun u h_u => ?_
  obtain ⟨t, -, ⟨-, h_own', -⟩⟩ := forall₂_mem_right h u h_u
  exact decide_eq_true h_own'

/-- And no group is among them. -/
theorem InStep.flat {blocking streaming : List Trace} (h : InStep blocking streaming) :
    Flat streaming := by
  intro u h_u
  obtain ⟨t, -, ⟨-, -, -⟩⟩ := forall₂_mem_right h u h_u
  exact .inr rfl

/-- The totals of two patterns in step. -/
theorem InStep.counted {blocking : List Trace} {stream : GroupStream} {g h : TeamResult}
    (h_runs : InStep blocking stream.runs) (h_adds : ∀ m : Meter, m.Adds g blocking)
    (h_streamAdds : ∀ m : Meter, m.StreamAdds stream) (h_outcome : stream.outcome = .ok h) :
    Counted g h blocking stream.runs where
  blocking m h_m := by
    rw [h_adds m, m.sumOver_heard, Meter.weights_inStep h_m h_runs]
  streaming m := by
    rw [m.sumOver_heard]
    exact h_streamAdds m h_runs.flat h h_outcome

/-- The runs of a supervisor group: what the streaming one does not read is the savings of the
supervisor. -/
theorem weights_supervise (m : Meter) (lead : AgentRun) {runs : List Trace}
    (h_roles : ∀ t ∈ runs, t.slot.role = .delegate) :
    let inner := Trace.agent supervisorSlot lead :: runs
    (inner.map m.weight).sum = (inner.map m.streamWeight).sum + m.unread inner := by
  intro inner
  have h_direct : directOf inner = [.agent supervisorSlot lead] := by
    have h_none : directOf runs = [] := List.filter_eq_nil_iff.mpr fun t h_t => by simp [h_roles t h_t]
    rw [← h_none]
    rfl
  -- delegates are counted by both alike; the supervisor only by what its final event has
  have h_delegates : (runs.map m.weight).sum = (runs.map m.streamWeight).sum := by
    congr 1
    exact List.map_congr_left fun t h_t => (Meter.streamWeight_delegate (h_roles t h_t)).symm
  have h_lead : m.streamWeight (.agent supervisorSlot lead) =
      if m.dumped then m.measure lead else 0 := by
    rw [Meter.streamWeight_agent (by decide)]
    unfold Meter.measure
    cases lead.outcome <;> simp
  unfold Meter.unread
  rw [h_direct, List.map_cons, List.map_cons, List.sum_cons, List.sum_cons, h_delegates, h_lead,
    Meter.weight_agent, Trace.leavesAll_cons, Trace.leaves_agent]
  split_ifs
  · omega
  · simp only [sumOver, Trace.leavesAll_nil, List.append_nil, List.map_cons, List.map_nil,
      List.sum_singleton]
    omega

section Agreement

variable {members : Dict String Part} {input : String} {w : World}

/-- Reports of pipelines agree exactly when all returned, or nothing was reported before. -/
theorem pipelines_agree (h_sound : ∀ m : Meter, ∀ x ∈ members, m.Sound script (path ++ [x.1]) x.2)
    (h_streams : ∀ x ∈ members, StreamTraced script (path ++ [x.1]) x.2)
    (h : PipelineUnhindered script config path config.maxTurns members input 0 w w) :
    let ran := (runPipeline script config path members input config.maxTurns w).1
    let stream := (streamPipeline script config path members input w).1
    reportOf (stream.outcome.map MemberResult.group).toOption = reportOf (some (.group ran.1)) ↔
      ((AllReturned stream.runs ∧ lastResponse stream.runs ≠ none ∧
          cumulativeMeter.unread ran.2 = 0) ∨
        (¬ AllReturned stream.runs ∧ lastResponse stream.runs = none ∧ Quiet stream.runs)) := by
  intro ran stream
  -- the two pipelines, member by member: `g` is the report of the streaming one
  obtain ⟨g, h_outcome, h_runs, h_response, h_ended⟩ : ∃ g, EndInStep ran stream g :=
    pipelines_inStep config.maxTurns members { currentInput := input } { currentInput := input } w w h
      ⟨rfl, .nil, nofun, rfl, nofun⟩
  have h_counted : Counted ran.1 g ran.2 stream.runs := h_runs.counted
    (fun m => m.runPipeline_adds config (h_sound m) input config.maxTurns w)
    (fun m => m.streamPipeline_adds config h_streams input w) h_outcome
  unfold AllReturned
  rw [h_outcome, h_runs.direct]
  change reportOf (some (.group g)) = _ ↔ _
  rw [reportOf_eq_iff]
  -- both ran to their end, or the blocking one failed where the streaming one fell silent
  rcases h_ended with ⟨h_all, h_ran, h_g, h_some, h_last⟩ | ⟨h_not, h_ran, h_g, h_none⟩
  · rw [h_counted.completed_iff h_ran, h_ran, h_g]
    constructor
    · rintro ⟨-, h_same, h_totals⟩
      refine .inl ⟨h_all, ?_, h_totals⟩
      rw [← h_response, h_same]
      exact h_some
    · rintro (⟨-, h_answered, h_totals⟩ | ⟨h_not, -⟩)
      · rw [← h_response] at h_answered
        obtain ⟨r, h_r⟩ := Option.ne_none_iff_exists'.mp h_answered
        exact ⟨rfl, h_r.trans (h_last r h_r).symm, h_totals⟩
      · exact absurd h_all h_not
  · rw [h_counted.failed_iff (by rw [h_ran]; nofun), h_ran, h_g, h_none]
    constructor
    · rintro ⟨-, h_same, h_totals⟩
      exact .inr ⟨h_not, h_response.symm.trans h_same, h_totals⟩
    · rintro (⟨h_all, -⟩ | ⟨-, h_silent, h_totals⟩)
      · exact absurd h_all h_not
      · exact ⟨rfl, h_response.trans h_silent, h_totals⟩

/-- Reports of parallel groups agree exactly when all returned. -/
theorem parallels_agree (h_keys : (Dict.keys members).Nodup)
    (h_sound : ∀ m : Meter, ∀ x ∈ members, m.Sound script (path ++ [x.1]) x.2)
    (h_streams : ∀ x ∈ members, StreamTraced script (path ++ [x.1]) x.2)
    (h : GatherUnhindered script config path members input config.maxTurns
      (finishOrder script path members w) (w.begin path) (w.begin path)) :
    let ran := (runParallel script config path members input config.maxTurns w).1
    let stream := (streamParallel script config path members input w).1
    reportOf (stream.outcome.map MemberResult.group).toOption =
        reportOf (ran.1.map MemberResult.group).toOption ↔
      AllReturned stream.runs ∧ cumulativeMeter.unread ran.2 = 0 := by
  intro ran stream
  obtain ⟨b, g, h_blocking, h_streaming, h_runs, h_status, h_ended⟩ :
      ∃ b g, MergeInStep ran stream b g := parallels_inStep h_keys h
  -- the totals are counted over runs in step
  have h_counted : Counted b g ran.2 stream.runs := h_runs.counted
    (fun m => m.runParallel_adds config (h_sound m) input config.maxTurns w b h_blocking)
    (fun m => m.streamParallel_adds config h_streams input w) h_streaming
  unfold AllReturned
  rw [h_blocking, h_streaming, h_runs.direct]
  change reportOf (some (.group g)) = reportOf (some (.group b)) ↔ _
  rw [reportOf_eq_iff, h_status]
  -- completed: the sums decide
  rcases h_ended with ⟨h_all, h_b, h_response⟩ | ⟨h_not, h_b⟩
  · rw [h_counted.completed_iff h_b, h_b]
    exact ⟨fun h_same => ⟨h_all, h_same.2.2⟩, fun h_unread => ⟨rfl, h_response, h_unread.2⟩⟩
  · -- the blocking group failed, and the streaming one did not
    rw [h_b]
    exact iff_of_false (fun h_same => by cases h_same.1) fun h_all => h_not h_all.1

/-- How two supervisor groups in step end. -/
structure LeadInStep (ran : TeamResult × List Trace) (stream : GroupStream) (g : TeamResult) :
    Prop where
  outcome : stream.outcome = .ok g
  runs : stream.runs = ran.2
  flat : Flat stream.runs
  weights : ∀ m : Meter, (ran.2.map m.weight).sum =
    (stream.runs.map m.streamWeight).sum + m.unread stream.runs
  response : g.finalResponse = ran.1.finalResponse
  ended : (AllReturned stream.runs ∧ ran.1.status = .completed ∧ g.status = .completed) ∨
    (¬ AllReturned stream.runs ∧ ran.1.status = .failed ∧ g.status = .failed)

/-- **Two supervisor groups in step**: both patterns serve the supervisor the same way. -/
theorem supervisors_inStep (h_members : ∀ x ∈ members, Traced script (path ++ [x.1]) x.2)
    {supervisor : String} {agent : Agent}
    (h_find : findSupervisor config members = .ok (supervisor, agent)) :
    ∃ g, LeadInStep (runSupervisor script config path members input config.maxTurns w).1
      (streamSupervisor script config path members input w).1 g := by
  have h_budget : 0 < (config.maxTurns : ℤ) := by
    have := config.maxTurns_pos
    omega
  have h_roles := supervise_roles config supervisor config.maxTurns h_members agent input
    config.maxTurns w
  have h_direct := supervise_direct config supervisor config.maxTurns h_members agent input
    config.maxTurns w
  unfold runSupervisor streamSupervisor
  simp only [h_find, if_neg (not_le.mpr h_budget), if_pos h_budget]
  simp only at h_roles h_direct
  -- the same conversation stands behind both, from here on it is only called `done`
  generalize supervise script config path members supervisor agent input config.maxTurns
    config.maxTurns w = done at h_roles h_direct ⊢
  have h_weights (m : Meter) := weights_supervise m done.1 h_roles
  have h_flat : Flat (.agent supervisorSlot done.1 :: done.2.1.runs) :=
    List.forall_mem_cons.mpr ⟨.inr rfl, fun t h_t => .inl (h_roles t h_t)⟩
  -- no run of a supervisor group but that of the supervisor is direct
  have h_returned : AllReturned (.agent supervisorSlot done.1 :: done.2.1.runs) ↔
      ∃ res, (Trace.agent supervisorSlot done.1).outcome = .ok res := by
    unfold AllReturned directOf
    rw [h_direct]
    simp
  -- a supervisor that raised has not returned, and one that returned has
  rcases h_run : done.1.outcome with e | r
  · refine ⟨_, rfl, rfl, h_flat, h_weights, rfl, .inr ⟨?_, rfl, rfl⟩⟩
    change ¬ AllReturned (.agent supervisorSlot done.1 :: done.2.1.runs)
    rw [h_returned]
    rintro ⟨res, h_res⟩
    simp [Trace.outcome, h_run, Except.map] at h_res
  · refine ⟨_, rfl, rfl, h_flat, h_weights, rfl, .inl ⟨?_, rfl, rfl⟩⟩
    change AllReturned (.agent supervisorSlot done.1 :: done.2.1.runs)
    rw [h_returned]
    exact ⟨.run r, by simp [Trace.outcome, h_run, Except.map]⟩

/-- Reports of supervisor groups agree exactly when the supervisor returned, or nothing was
reported. -/
theorem supervisors_agree (h_sound : ∀ m : Meter, ∀ x ∈ members, m.Sound script (path ++ [x.1]) x.2) :
    let ran := (runSupervisor script config path members input config.maxTurns w).1
    let stream := (streamSupervisor script config path members input w).1
    reportOf (stream.outcome.map MemberResult.group).toOption = reportOf (some (.group ran.1)) ↔
      (∃ lead, findSupervisor config members = .ok lead) ∧
        ((AllReturned stream.runs ∧ cumulativeMeter.unread ran.2 = 0) ∨
          (¬ AllReturned stream.runs ∧ Quiet stream.runs)) := by
  intro ran stream
  rcases h_find : findSupervisor config members with e | ⟨supervisor, agent⟩
  · -- without a supervisor the stream raises, and has no report to agree with
    have h_stream : stream.outcome = .error e := by
      simp only [stream, streamSupervisor, h_find]
    rw [h_stream]
    exact iff_of_false nofun fun h => by cases h.1.choose_spec
  · obtain ⟨g, h_outcome, h_runs, h_flat, h_weights, h_response, h_ended⟩ :
        ∃ g, LeadInStep ran stream g :=
      supervisors_inStep (fun x h_x => (h_sound turnsMeter x h_x).traced) h_find
    -- what both report is the sum over the same runs
    have h_counted : Counted ran.1 g ran.2 stream.runs := by
      refine ⟨fun m _ => ?_, fun m => ?_⟩
      · have h_weight := h_weights m
        rw [← h_runs] at h_weight
        rw [m.runSupervisor_adds config (h_sound m) input config.maxTurns w, m.sumOver_heard,
          ← h_runs, h_weight]
      · rw [m.sumOver_heard]
        exact m.streamSupervisor_adds config (h_sound m) input w h_flat g h_outcome
    rw [h_outcome, and_iff_right ⟨_, rfl⟩]
    change reportOf (some (.group g)) = _ ↔ _
    rw [reportOf_eq_iff]
    rcases h_ended with ⟨h_all, h_ran, h_g⟩ | ⟨h_not, h_ran, h_g⟩
    · rw [h_counted.completed_iff h_ran, h_ran, h_g]
      constructor
      · exact fun h_same => .inl ⟨h_all, h_same.2.2⟩
      · rintro (⟨-, h_unread⟩ | ⟨h_not, -⟩)
        · exact ⟨rfl, h_response, h_unread⟩
        · exact absurd h_all h_not
    · rw [h_counted.failed_iff (by rw [h_ran]; nofun), h_ran, h_g]
      constructor
      · exact fun h_same => .inr ⟨h_not, h_same.2.2⟩
      · rintro (⟨h_all, -⟩ | ⟨-, h_quiet⟩)
        · exact absurd h_all h_not
        · exact ⟨rfl, h_response, h_quiet⟩

end Agreement

/-- **Exactly when a streaming group reports what a blocking one does.** For every tree, script
and starting world, an unhindered streaming run reports what the blocking run does if and only
if its members returned, without recurring savings and for a pipeline with a response at the
end; or a pipeline or supervisor group failed before it heard of anything to report. A
supervisor group needs a supervisor besides. -/
theorem stream_agrees_iff (script : Script) (group : Group) (ctx : RunContext) (path : Path)
    (input : String) (w : World)
    (h : Unhindered script group.config path (group.parts script ctx path) input w) :
    Agrees (group.run script ctx path input none w).1 (group.stream script ctx path input w).1 ↔
      ReportsAlike group.config (group.parts script ctx path)
        (group.run script ctx path input none w).1.trace.inner
        (group.stream script ctx path input w).1.trace.inner := by
  -- member names are different by construction
  have h_keys : (Dict.keys (group.parts script ctx path)).Nodup :=
    (group.parts_induction (P := fun _ _ => True) ctx path (fun _ _ => trivial)
      (fun _ _ _ _ _ => trivial)).1
  -- the meters read what the runs report
  have h_sound (m : Meter) := m.parts_sound script group ctx path
  have h_streams : ∀ x ∈ group.parts script ctx path, StreamTraced script (path ++ [x.1]) x.2 :=
    group.parts_streamTraced ctx path
  unfold Agrees
  rw [group.stream_result]
  revert h
  simp only [Group.run, Group.stream, runGroup, streamGroup, runPattern, streamPattern,
    effectiveTurnBudget, Unhindered, ReportsAlike, Trace.outcome, Trace.inner]
  cases group.config.pattern with
  | pipeline => exact pipelines_agree h_sound h_streams
  | parallel => exact parallels_agree h_keys h_sound h_streams
  | supervisor => exact fun _ => supervisors_agree h_sound

/-! ### Two pipelines -/

/-- Agents that answer in one turn, and say so when it was the last one left; that of `check`
raises where it may. -/
def pressScript (raises : Bool) : Script where
  agent path _ _ limit _ :=
    if raises ∧ path = ["check"] then
      .finish
        { turns := 0
          outcome := .error "model unavailable"
          turns_le := Nat.zero_le limit
          counted := nofun
          answered := nofun }
    else .finish (.returning limit
      { sessionId := "s", finalResponse := some "out", turnsUsed := 1, totalTokensIn := 10,
        status := if limit = 1 then .maxTurnsReached else .completed })

/-- A pipeline of two agents, with a turn for each. -/
def pressGroup : Group where
  config := { name := "press", pattern := .pipeline, maxTurns := 2 }
  members := [.agent "draft" 5, .agent "check" 5]

/-- The blocking run of `check` ends with its last turn and the streaming one does not, and the
two runs of the pipeline report the same. -/
theorem stream_agrees_press :
    Agrees (pressGroup.run (pressScript false) {} [] "go" none freshWorld).1
      (pressGroup.stream (pressScript false) {} [] "go" freshWorld).1 := by
  apply (stream_agrees_iff (pressScript false) pressGroup {} [] "go" freshWorld ?_).mpr
  · exact .inl ⟨by decide +kernel, by decide +kernel, by decide +kernel⟩
  · refine ⟨by decide, _, rfl, ⟨rfl, rfl, rfl, rfl, rfl⟩, fun r h_r => ?_⟩
    cases h_r
    exact ⟨by decide, _, rfl, ⟨rfl, rfl, rfl, rfl, rfl⟩, fun _ _ => trivial⟩

instance (ran : Ran) (streamed : Streamed) : Decidable (Agrees ran streamed) :=
  inferInstanceAs (Decidable (_ = _))

/-- The second agent raises: the streaming pipeline reports the turn of the first one, and the
blocking pipeline reports none. -/
theorem failed_pipelines_differ :
    ¬ Agrees (pressGroup.run (pressScript true) {} [] "go" none freshWorld).1
      (pressGroup.stream (pressScript true) {} [] "go" freshWorld).1 := by
  decide +kernel

end Nexus.Team
