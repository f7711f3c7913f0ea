import NexusAgent.Lib.Grouping
import NexusAgent.Runner.State

/-!
# Members of a group and what their runs report

The parts of `nexus/multiagent/orchestrator.py`, `nexus/multiagent/results.py` and
`nexus/config/agent.py` below the patterns: the settings and results of a group, the bags of
the contexts with the copies between them, and one run of an agent.

* `GroupResult` is `AgentGroupResult`. A member reports one of those or an `AgentRunResult`
  (`MemberResult`), and the patterns read its fields by name. The field
  `cumulative_input_tokens_saved_by_rcs` is missing on a group's result.
* `World` is what outlives a run: the bags of every context, the savings counters of every
  member session, and how often each member ran.
* `Process` is what an agent does in one run, as far as its group can tell: its tools write
  its own bags, it delegates, and it ends. A `Desk` serves the delegations; tool calls of
  one turn overlap, so a delegation is started by one step and answered by a later one.
* `Trace` tells of the runs below a group, for statements about them. Nothing reads it while
  the group runs.

An agent with no desk of its own has no delegate tool. The tasks of a member that overlap
run one after another.
-/

open Lib

namespace Nexus.Team

/-! ### Settings -/

/-- `AgentGroupConfig.pattern`. -/
inductive Pattern
  | supervisor
  | pipeline
  | parallel
  deriving DecidableEq, Repr

/-- `AgentGroupConfig.aggregation_strategy`. -/
inductive AggregationStrategy
  | concat
  | firstComplete
  | vote
  | supervisor
  deriving DecidableEq, Repr

/-- `AgentGroupConfig.context_sharing`. -/
inductive ContextSharing
  | isolated
  | inherit
  | shared
  deriving DecidableEq, Repr

/-- The default of `max_turns` is positive. -/
theorem defaultMaxTurns_pos : 0 < 20 := by decide

/-- `AgentGroupConfig`, the fields the patterns read. -/
structure GroupConfig where
  name : String := "group"
  pattern : Pattern := .supervisor
  maxTurns : ℕ := 20
  aggregationStrategy : AggregationStrategy := .supervisor
  supervisor : Option String := none
  persistMembers : Bool := false
  contextSharing : ContextSharing := .inherit
  maxTurns_pos : 0 < maxTurns := by first | exact defaultMaxTurns_pos | decide

/-- The text of a pattern. -/
def Pattern.text : Pattern → String
  | .supervisor => "supervisor"
  | .pipeline => "pipeline"
  | .parallel => "parallel"

/-! ### Results -/

/-- `AgentGroupResult.status`. -/
inductive GroupStatus
  | completed
  | failed
  | interrupted
  deriving DecidableEq, Repr

/-- `AgentGroupResult`, over the type of the member results. -/
structure GroupResult (ρ : Type) where
  sessionId : String
  groupName : String
  finalResponse : Option String := none
  memberResults : List (String × ρ) := []
  turnsUsed : ℕ := 0
  totalTokensIn : ℕ := 0
  totalTokensOut : ℕ := 0
  totalTokensSavedByRcs : ℕ := 0
  cumulativeTokensSavedByRcs : ℕ := 0
  status : GroupStatus := .completed
  error : Option String := none

/-- What a member reports: a runner an `AgentRunResult`, an orchestrator an
`AgentGroupResult`. -/
inductive MemberResult
  | run (result : RunResult)
  | group (result : GroupResult MemberResult)

/-- The result of a group. -/
abbrev TeamResult : Type := GroupResult MemberResult

namespace MemberResult

/-- `res.final_response`. -/
def finalResponse : MemberResult → Option String
  | run r => r.finalResponse
  | group g => g.finalResponse

/-- `res.turns_used`. -/
def turnsUsed : MemberResult → ℕ
  | run r => r.turnsUsed
  | group g => g.turnsUsed

/-- `res.total_tokens_in`. -/
def totalTokensIn : MemberResult → ℕ
  | run r => r.totalTokensIn
  | group g => g.totalTokensIn

/-- `res.total_tokens_out`. -/
def totalTokensOut : MemberResult → ℕ
  | run r => r.totalTokensOut
  | group g => g.totalTokensOut

/-- `res.total_tokens_saved_by_rcs`. -/
def totalTokensSavedByRcs : MemberResult → ℕ
  | run r => r.totalTokensSavedByRcs
  | group g => g.totalTokensSavedByRcs

/-- `res.cumulative_input_tokens_saved_by_rcs`, or the text of the `AttributeError`. -/
def cumulativeInputTokensSavedByRcs : MemberResult → Except String ℕ
  | run r => .ok r.cumulativeInputTokensSavedByRcs
  | group _ => .error
      "'AgentGroupResult' object has no attribute 'cumulative_input_tokens_saved_by_rcs'"

/-- `event.data.get("cumulative_tokens_saved_by_rcs", 0)` on the dumped result: the dump of
a run has no such key. -/
def cumulativeTokensSavedByRcs : MemberResult → ℕ
  | run _ => 0
  | group g => g.cumulativeTokensSavedByRcs

/-- Whether the result is a group's. -/
def isGroup : MemberResult → Bool
  | run _ => false
  | group _ => true

/-- Whether the status says that the run came to its end. -/
def finished : MemberResult → Bool
  | run r => r.status = .completed || r.status = .maxTurnsReached
  | group g => g.status = .completed

/-- `AgentRunResult(**event.data)`: the dump of a group's result has the fields it needs, but
`failed` is not a status of a run. -/
def asRunResult (validationError : String) : MemberResult → Except String RunResult
  | run r => .ok r
  | group g =>
    let result (status : RunStatus) : RunResult :=
      { sessionId := g.sessionId
        finalResponse := g.finalResponse
        turnsUsed := g.turnsUsed
        totalTokensIn := g.totalTokensIn
        totalTokensOut := g.totalTokensOut
        totalTokensSavedByRcs := g.totalTokensSavedByRcs
        status := status
        error := g.error }
    match g.status with
    | .completed => .ok (result .completed)
    | .interrupted => .ok (result .interrupted)
    -- `failed` is no status of a RunResult, so the conversion does not validate
    | .failed => .error validationError

end MemberResult

/-- The running totals of a group. -/
structure Totals where
  turnsUsed : ℕ := 0
  tokensIn : ℕ := 0
  tokensOut : ℕ := 0
  tokensSaved : ℕ := 0
  cumulativeSaved : ℕ := 0
  deriving DecidableEq, Repr

/-- The four additions the blocking and the streaming patterns share. -/
def Totals.count (t : Totals) (res : MemberResult) : Totals :=
  { t with
    turnsUsed := t.turnsUsed + res.turnsUsed
    tokensIn := t.tokensIn + res.totalTokensIn
    tokensOut := t.tokensOut + res.totalTokensOut
    tokensSaved := t.tokensSaved + res.totalTokensSavedByRcs }

/-- The additions after a blocking run: the last one may raise, after the others. -/
def Totals.add (t : Totals) (res : MemberResult) : Totals × Except String Unit :=
  let t := t.count res
  match res.cumulativeInputTokensSavedByRcs with
  | .ok saved => ({ t with cumulativeSaved := t.cumulativeSaved + saved }, .ok ())
  | .error e => (t, .error e)

/-- The additions at a `final_response` event. -/
def Totals.addData (t : Totals) (res : MemberResult) : Totals :=
  let t := t.count res
  { t with cumulativeSaved := t.cumulativeSaved + res.cumulativeTokensSavedByRcs }

/-! ### Contexts -/

/-- Where a member is: the names on the way to it from the outermost group. -/
abbrev Path : Type := List String

/-- `metadata` and `state` of a run context. -/
structure Bags where
  metadata : StateBag := []
  state : StateBag := []
  deriving DecidableEq

/-- The savings counters of a session: `total_tokens_saved_by_rcs` and
`cumulative_input_tokens_saved_by_rcs`. -/
structure Counters where
  saved : ℕ := 0
  cumulative : ℕ := 0
  deriving DecidableEq, Repr

/-- The counters after a gain. -/
def Counters.plus (c gain : Counters) : Counters :=
  ⟨c.saved + gain.saved, c.cumulative + gain.cumulative⟩

/-- What outlives a run. -/
structure World where
  /-- The bags of the context at a path. -/
  bags : Path → Bags
  /-- The session id of the context at a path, empty for `None`. -/
  sessionId : Path → String := fun _ => ""
  /-- The counters in the stored session of the agent at a path. -/
  counters : Path → Counters := fun _ => {}
  /-- How often the member at a path was run. -/
  runs : Path → ℕ := fun _ => 0
  /-- Whether the adapter hands out the sessions it keeps, as the in-memory one does, and not
  copies of them. -/
  liveStore : Bool := true

/-- A world in which nothing happened yet. -/
def freshWorld : World where
  bags _ := {}

namespace World

/-- Edit the bags at a path. -/
def edit (path : Path) (f : Bags → Bags) (w : World) : World :=
  { w with bags := Function.update w.bags path (f (w.bags path)) }

/-- A run of the member at a path begins. -/
def begin (path : Path) (w : World) : World :=
  { w with runs := Function.update w.runs path (w.runs path + 1) }

/-- Store the counters of the session at a path. -/
def store (path : Path) (counters : Counters) (w : World) : World :=
  { w with counters := Function.update w.counters path counters }

end World

/-- The `nexus_delegation` entry. -/
def delegation (config : GroupConfig) (name : String) (delegatedBy : Option String) : StateValue :=
  .json (.obj [("group", .str config.name), ("member", .str name),
    ("delegated_by", (delegatedBy.map Json.str).getD .null), ("pattern", .str config.pattern.text)])

/-- `_sync_down`: refresh the bags of a member from those of its group. -/
def syncDown (config : GroupConfig) (path : Path) (name : String) (delegatedBy : Option String)
    (w : World) : World :=
  if config.contextSharing = .isolated then w
  else
    let group := w.bags path
    w.edit (path ++ [name]) fun b =>
      { metadata := Dict.set (Dict.update b.metadata group.metadata) "nexus_delegation"
          (delegation config name delegatedBy)
        state := Dict.update b.state group.state }

/-- `_sync_up`: merge the bags of a member back into those of its group. -/
def syncUp (config : GroupConfig) (path : Path) (name : String) (w : World) : World :=
  if config.contextSharing ≠ .shared then w
  else
    let member := w.bags (path ++ [name])
    w.edit path fun b =>
      { metadata := Dict.update b.metadata (Dict.erase member.metadata "nexus_delegation")
        state := Dict.update b.state member.state }

/-! ### One run of an agent -/

/-- How a run of an agent ends, with at most `limit` turns.

A run counts a turn in `turns_used` when the turn is over; a turn that paused, stopped or
raised is taken but not counted. A completed run has counted the turn of its answer. -/
structure Ending (limit : ℕ) where
  /-- What the run added to the counters of its session. -/
  gain : Counters := {}
  /-- The turns the run took. -/
  turns : ℕ
  /-- The result but for the counters, or the text of what `run` raised. -/
  outcome : Except String RunResult
  turns_le : turns ≤ limit
  counted : ∀ r, outcome = .ok r → r.turnsUsed ≤ turns
  answered : ∀ r, outcome = .ok r → r.status = .completed → 0 < r.turnsUsed

/-- A run that takes the turns its result reports and returns it, or raises when it may not
take them. -/
def Ending.returning (limit : ℕ) (r : RunResult) (gain : Counters := {}) : Ending limit :=
  if h : 0 < r.turnsUsed ∧ r.turnsUsed ≤ limit then
    { gain := gain
      turns := r.turnsUsed
      outcome := .ok r
      turns_le := h.2
      counted := by
        rintro _ ⟨⟩
        exact le_rfl
      answered := by
        rintro _ ⟨⟩ _
        exact h.1 }
  else
    { turns := 0
      outcome := .error "out of turns"
      turns_le := Nat.zero_le limit
      counted := nofun
      answered := nofun }

/-- What an agent does in one run. -/
inductive Process (limit : ℕ)
  | finish (ending : Ending limit)
  /-- A tool writes the agent's own bags. -/
  | tool (edit : Bags → Bags) (next : Process limit)
  /-- A call of `delegate_to_<member>` starts. -/
  | delegate (member task : String) (next : Process limit)
  /-- The `i`-th open delegation is answered. -/
  | collect (i : ℕ) (next : String → Process limit)

/-- What serves the delegations of an agent, with a state of its own. -/
structure Desk (σ : Type) where
  start : String → String → σ → World → σ × World
  collect : ℕ → σ → World → String × σ × World
  /-- Answer what is still open: a run does not end before its tool calls do. -/
  settle : σ → World → σ × World

/-- The desk of an agent that has no delegate tools. -/
def noDesk : Desk Unit where
  start _ _ s w := (s, w)
  collect _ s w := ("", s, w)
  settle s w := (s, w)

variable {σ : Type}

/-- Carry out what the agent at a path does. -/
def Process.exec {limit : ℕ} (desk : Desk σ) (path : Path) :
    Process limit → σ → World → Ending limit × σ × World
  | .finish ending, s, w => (ending, desk.settle s w)
  | .tool edit next, s, w => exec desk path next s (w.edit path edit)
  | .delegate member task next, s, w =>
    let started := desk.start member task s w
    exec desk path next started.1 started.2
  | .collect i next, s, w =>
    let answered := desk.collect i s w
    exec desk path (next answered.1) answered.2.1 answered.2.2

/-- How the members behave. The `ℕ` argument is how often the member ran before, so an
agent may do something else every time. -/
structure Script where
  /-- The run of an agent on an input, with a turn limit and the bags it starts from. -/
  agent : Path → ℕ → String → (limit : ℕ) → Bags → Process limit
  /-- The order in which the members of a parallel group finish. -/
  order : Path → ℕ → (n : ℕ) → { order : List ℕ // order.Perm (List.range n) } :=
    fun _ _ n => ⟨List.range n, perm_range n⟩
  /-- The text of the `ValidationError` of `AgentRunResult`. -/
  validationError : String := "1 validation error for AgentRunResult"

/-- One run of an agent. -/
structure AgentRun where
  path : Path
  input : String
  limit : ℕ
  /-- The bags of its context when it started. -/
  bags : Bags
  /-- The counters of its session when it started. -/
  before : Counters
  ending : Ending limit

/-- The counters of its session when it ended. -/
def AgentRun.after (run : AgentRun) : Counters := run.before.plus run.ending.gain

/-- What the run returned, or the text of what it raised: the result reports the counters of
the session. -/
def AgentRun.outcome (run : AgentRun) : Except String RunResult :=
  run.ending.outcome.map fun r =>
    { r with
      totalTokensSavedByRcs := run.after.saved
      cumulativeInputTokensSavedByRcs := run.after.cumulative }

/-- An agent of a group: `turns.max_turns`, and whether its runs save their session. -/
structure Agent where
  maxTurns : ℕ
  persists : Bool

/-- `turn_limit` of a run. -/
def Agent.turnLimit (agent : Agent) : Option ℤ → ℕ
  | none => agent.maxTurns
  | some maxTurns => min agent.maxTurns maxTurns.toNat

/-- Whether the adapter has the counters of a session when a run is over. A run that saves
nothing still works on the session that `create_session` stored or `load_session` handed out. -/
def Agent.keeps (agent : Agent) (w : World) : Bool := agent.persists || w.liveStore

/-- `AgentRunner.run`, served by a desk. -/
def runAgent (script : Script) (desk : Desk σ) (path : Path) (agent : Agent) (input : String)
    (maxTurns : Option ℤ) (s : σ) (w : World) : AgentRun × σ × World :=
  let limit := agent.turnLimit maxTurns
  let process := script.agent path (w.runs path) input limit (w.bags path)
  let done := process.exec desk path s (w.begin path)
  let run : AgentRun := ⟨path, input, limit, w.bags path, w.counters path, done.1⟩
  (run, done.2.1, if agent.keeps w then done.2.2.store path run.after else done.2.2)

/-! ### The trace of a group -/

/-- In what part a member was run. -/
inductive Role
  | member
  | supervisor
  | delegate
  deriving DecidableEq, Repr

/-- The start of a member run. -/
structure Slot where
  role : Role
  /-- The turns that were spoken for: those taken by the runs of the group that were over,
  and the limits of those in progress. -/
  standing : ℕ
  deriving DecidableEq, Repr

/-- One run of a group. -/
structure GroupRun where
  path : Path
  pattern : Pattern
  input : String
  /-- The bags of its context when it started. -/
  bags : Bags
  /-- `_effective_turn_budget`. -/
  budget : ℤ
  /-- What the run returned, or the text of what it raised. -/
  outcome : Except String TeamResult

/-- A run with the member runs below it, in the order in which they started. -/
inductive Trace
  | agent (slot : Slot) (run : AgentRun)
  | group (slot : Slot) (run : GroupRun) (inner : List Trace)

namespace Trace

/-- How the member run started. -/
def slot : Trace → Slot
  | agent slot _ => slot
  | group slot _ _ => slot

/-- The turns the run may take. -/
def limit : Trace → ℕ
  | agent _ run => run.limit
  | group _ run _ => run.budget.toNat

/-- What the run returned, or the text of what it raised. -/
def outcome : Trace → Except String MemberResult
  | agent _ run => run.outcome.map .run
  | group _ run _ => run.outcome.map .group

/-- The input of the run. -/
def input : Trace → String
  | agent _ run => run.input
  | group _ run _ => run.input

/-- The runs below a group. -/
def inner : Trace → List Trace
  | agent _ _ => []
  | group _ _ inner => inner

/-- Whether a group was run. -/
def isGroup : Trace → Bool
  | agent _ _ => false
  | group _ _ _ => true

mutual

/-- The agent runs of a run. -/
def leaves : Trace → List AgentRun
  | agent _ run => [run]
  | group _ _ inner => leavesAll inner

/-- The agent runs of several runs. -/
def leavesAll : List Trace → List AgentRun
  | [] => []
  | trace :: traces => leaves trace ++ leavesAll traces

end

/-- The turns taken by the agents of a run. -/
def turns (trace : Trace) : ℕ := (trace.leaves.map fun run => run.ending.turns).sum

@[simp] theorem leaves_agent (slot : Slot) (run : AgentRun) : leaves (agent slot run) = [run] := by
  rw [leaves]

@[simp] theorem leaves_group (slot : Slot) (run : GroupRun) (inner : List Trace) :
    leaves (group slot run inner) = leavesAll inner := by
  rw [leaves]

@[simp] theorem leavesAll_nil : leavesAll [] = [] := by
  rw [leavesAll]

@[simp] theorem leavesAll_cons (trace : Trace) (traces : List Trace) :
    leavesAll (trace :: traces) = trace.leaves ++ leavesAll traces := by
  rw [leavesAll]

@[simp] theorem leavesAll_append (xs ys : List Trace) :
    leavesAll (xs ++ ys) = leavesAll xs ++ leavesAll ys := by
  induction xs with
  | nil => simp
  | cons x xs ih => simp [ih]

end Trace

/-! ### Members -/

/-- The events of a group's stream its callers look at: a `final_response` with its data, and
the `error` events of the orchestrator. -/
inductive Event
  | final (result : MemberResult)
  | error (content : String)

/-- What one run of a member left: what it returned, or the text of what it raised, and the
trace of it. -/
structure Ran where
  outcome : Except String MemberResult
  trace : Trace

/-- What one streaming run of a member left: the events, and the text of what it raised at
the end, if it did. -/
structure Streamed where
  events : List Event
  raised : Option String
  trace : Trace

/-- A built member. The two functions of a nested orchestrator are its `run` on an input and
`max_turns`, and its `run_stream` on an input. -/
inductive Part
  | runner (agent : Agent)
  | orchestrator (maxTurns : ℕ)
      (run : Slot → String → Option ℤ → World → Ran × World)
      (stream : Slot → String → World → Streamed × World)

/-- `_effective_turn_budget`. -/
def effectiveTurnBudget (configured : ℕ) : Option ℤ → ℤ
  | none => configured
  | some maxTurns => min (configured : ℤ) maxTurns

/-- The turns a member may take when it is run with `max_turns`. -/
def Part.limit (remaining : ℤ) : Part → ℕ
  | .runner agent => agent.turnLimit (some remaining)
  | .orchestrator maxTurns _ _ => (effectiveTurnBudget maxTurns (some remaining)).toNat

/-- `isinstance(member, AgentRunner)`. -/
def Part.runner? : Part → Option Agent
  | .runner agent => some agent
  | .orchestrator _ _ _ => none

/-- `member.run(input, stream=False, max_turns=remaining)`. -/
def runPart (script : Script) (path : Path) (slot : Slot) (input : String) (remaining : ℤ) :
    Part → World → Ran × World
  | .runner agent, w =>
    let done := runAgent script noDesk path agent input (some remaining) () w
    (⟨done.1.outcome.map .run, .agent slot done.1⟩, done.2.2)
  | .orchestrator _ run _, w => run slot input (some remaining) w

/-- The stream of an agent, as far as its group looks at it: one `final_response` event,
unless it raises. -/
def streamOf (slot : Slot) (run : AgentRun) : Streamed :=
  match run.outcome with
  | .ok r => ⟨[.final (.run r)], none, .agent slot run⟩
  | .error e => ⟨[], some e, .agent slot run⟩

/-- `member.run_stream(input, stream=True)`. -/
def streamPart (script : Script) (path : Path) (slot : Slot) (input : String) :
    Part → World → Streamed × World
  | .runner agent, w =>
    let done := runAgent script noDesk path agent input none () w
    (streamOf slot done.1, done.2.2)
  | .orchestrator _ _ stream, w => stream slot input w

end Nexus.Team
