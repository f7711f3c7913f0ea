import NexusAgent.Multiagent.Results

/-!
# The patterns of a group, blocking

`AgentOrchestrator.run` of `nexus/multiagent/orchestrator.py`: `_run_pipeline`,
`_run_parallel` with `_aggregate_parallel`, and `_run_supervisor` with the delegate tools.
Each works on the members by name, whatever they are; what a member is comes from the tree
of configurations, in the module of the streaming patterns.

* The members of a parallel group run one whole run after another, in the order in which
  they finish. Their results are merged in the order of the members.
* A delegation runs its member when it starts and is counted when it is answered, so
  delegations that overlap are counted late.
-/

open Lib

namespace Nexus.Team

variable (script : Script) (config : GroupConfig) (path : Path)

/-! ### Results of a group -/

/-- The result of a group that was run to the end. -/
def completedResult (sessionId : String) (finalResponse : Option String)
    (memberResults : Dict String MemberResult) (totals : Totals) : TeamResult where
  sessionId := sessionId
  groupName := config.name
  finalResponse := finalResponse
  memberResults := memberResults
  turnsUsed := totals.turnsUsed
  totalTokensIn := totals.tokensIn
  totalTokensOut := totals.tokensOut
  totalTokensSavedByRcs := totals.tokensSaved
  cumulativeTokensSavedByRcs := totals.cumulativeSaved
  status := .completed

/-- The result of a group that failed: the totals are left at zero. -/
def failedResult (sessionId : String) (error : String) (memberResults : Dict String MemberResult) :
    TeamResult where
  sessionId := sessionId
  groupName := config.name
  memberResults := memberResults
  status := .failed
  error := some error

/-- The error of a group without turns left. -/
def budgetExhausted : String := "Group max_turns budget exhausted"

/-! ### Pipeline -/

/-- The variables of the loop over the members. -/
structure Line where
  currentInput : String
  memberResults : Dict String MemberResult := []
  totals : Totals := {}
  /-- The runs so far. -/
  runs : List Trace := []

/-- The turns taken by some runs. -/
def turnsTaken (runs : List Trace) : ℕ := (runs.map Trace.turns).sum

/-- The start of the next member run of a pipeline. -/
def Line.slot (line : Line) : Slot := ⟨.member, turnsTaken line.runs⟩

/-- A member returned: its response is the next input. -/
def Line.took (line : Line) (name : String) (res : MemberResult) (trace : Trace) : Line where
  currentInput := res.finalResponse.getD ""
  memberResults := Dict.set line.memberResults name res
  totals := (line.totals.add res).1
  runs := line.runs ++ [trace]

/-- The loop of `_run_pipeline`. -/
def runPipelineFrom (budget : ℤ) :
    Dict String Part → Line → World → (TeamResult × List Trace) × World
  | [], line, w =>
    ((completedResult config (w.sessionId path) (some line.currentInput) line.memberResults
      line.totals, line.runs), w)
  | (name, part) :: members, line, w =>
    let remaining := budget - line.totals.turnsUsed
    -- out of turns: the members left are not run, and the group still completes
    if remaining ≤ 0 then
      ((completedResult config (w.sessionId path) (some line.currentInput) line.memberResults
        line.totals, line.runs), w)
    else
      let down := syncDown config path name none w
      let ran := runPart script (path ++ [name]) line.slot line.currentInput remaining part down
      match ran.1.outcome with
      | .error e =>
        ((failedResult config (w.sessionId path) e line.memberResults,
          line.runs ++ [ran.1.trace]), ran.2)
      | .ok res =>
        let up := syncUp config path name ran.2
        match (line.totals.add res).2 with
        -- the result of a group lacks the last of the attributes added; it is kept all the same
        | .error e =>
          ((failedResult config (w.sessionId path) e (Dict.set line.memberResults name res),
            line.runs ++ [ran.1.trace]), up)
        | .ok () => runPipelineFrom budget members (line.took name res ran.1.trace) up

/-- `_run_pipeline`. -/
def runPipeline (members : Dict String Part) (input : String) (budget : ℤ) (w : World) :
    (TeamResult × List Trace) × World :=
  runPipelineFrom script config path budget members { currentInput := input } w

/-! ### Parallel -/

/-- `Counter(responses).most_common(1)`: the first of the responses that occur most often. -/
def mostCommon (responses : List String) : Option String :=
  responses.foldl (fun best r => match best with
    | none => some r
    | some b => if responses.count b < responses.count r then some r else some b) none

/-- `_aggregate_parallel`. -/
def aggregateParallel (results : Dict String MemberResult) (names : List String) :
    Option String :=
  let responses := names.filterMap fun name =>
    (truthy ((Dict.get? results name).bind MemberResult.finalResponse)).map (name, ·)
  if responses = [] then none
  else match config.aggregationStrategy with
    | .firstComplete => responses.head?.map Prod.snd
    | .vote => mostCommon (responses.map Prod.snd)
    | .concat | .supervisor =>
      some (PyStr.join "\n\n" (responses.map fun (name, resp) => "[" ++ name ++ "]\n" ++ resp))

/-- The start of a member run of a parallel group: the members before it are in progress. -/
def parallelSlot (members : Dict String Part) (budget : ℤ) (i : ℕ) : Slot :=
  ⟨.member, ((members.take i).map fun m => m.2.limit budget).sum⟩

/-- The members of a parallel group with a task for each, in the order in which they finish:
the place of each, its name and what its task left. -/
def gatherParts {β : Type} (task : ℕ → String → Part → World → β × World)
    (members : Dict String Part) : List ℕ → World → List (ℕ × String × β) × World
  | [], w => ([], w)
  | i :: order, w =>
    match members[i]? with
    | none => gatherParts task members order w
    | some (name, part) =>
      let done := task i name part w
      let rest := gatherParts task members order done.2
      ((i, name, done.1) :: rest.1, rest.2)

/-- `run_member` of a parallel group. -/
def runMember (members : Dict String Part) (input : String) (budget : ℤ) (i : ℕ) (name : String)
    (part : Part) (w : World) : Ran × World :=
  runPart script (path ++ [name]) (parallelSlot members budget i) input budget part
    (syncDown config path name none w)

/-- What was gathered, in the order of the members. -/
def inDefinitionOrder {α : Type} (n : ℕ) (gathered : List (ℕ × α)) : List α :=
  (List.range n).filterMap fun i => gathered.lookup i

/-- The loop over the gathered results. -/
def mergeResults (sessionId : String) (names : List String) :
    List (String × Ran) → Dict String MemberResult → Totals → Except String TeamResult
  | [], results, totals =>
    .ok (completedResult config sessionId (aggregateParallel config results names) results totals)
  | (name, ran) :: gathered, results, totals =>
    match ran.outcome with
    | .error e => .ok (failedResult config sessionId e results)
    | .ok res =>
      match totals.add res with
      | (_, .error e) => .error e
      | (totals, .ok ()) =>
        mergeResults sessionId names gathered (Dict.set results name res) totals

/-- The order in which the members of the group finish. -/
def finishOrder (members : Dict String Part) (w : World) : List ℕ :=
  (script.order path (w.runs path) members.length).1

/-- `_run_parallel`. -/
def runParallel (members : Dict String Part) (input : String) (budget : ℤ) (w : World) :
    (Except String TeamResult × List Trace) × World :=
  if budget < 1 then
    ((.ok (failedResult config (w.sessionId path) budgetExhausted []), []), w)
  else
    let gathered := gatherParts (runMember script config path members input budget) members
      (finishOrder script path members w) (w.begin path)
    let results := inDefinitionOrder members.length gathered.1
    ((mergeResults config (w.sessionId path) (members.map Prod.fst) results [] {},
      results.map fun r => r.2.trace), gathered.2)

/-! ### Supervisor -/

/-- `"supervisor" in name.lower()`. -/
def namesSupervisor (name : String) : Bool :=
  (name.toList.map Char.toLower).tails.any ("supervisor".toList.isPrefixOf ·)

/-- `_select_supervisor`: the supervisor's name, or the error. The name in the text is
written the way `repr` writes one without quotes and backslashes. -/
def selectSupervisor (members : Dict String Part) : Except String String :=
  match truthy config.supervisor with
  | some name =>
    if Dict.has members name then .ok name
    else .error ("Supervisor '" ++ name ++ "' is not a group member")
  | none =>
    match (members.map Prod.fst).find? namesSupervisor with
    | some name => .ok name
    | none =>
      match members.head? with
      | some (name, _) => .ok name
      | none => .error "No members available in supervisor group"

/-- The supervisor with its settings, or the error of the group. -/
def findSupervisor (members : Dict String Part) : Except String (String × Agent) :=
  match selectSupervisor config members with
  | .error e => .error e
  | .ok name =>
    if name = "" then .error "No supervisor available"
    else match (Dict.get? members name).bind Part.runner? with
      | some agent => .ok (name, agent)
      | none => .error "Supervisor member must be a single AgentRunner"

/-- A delegation that was not answered yet. -/
inductive Pending
  | answered (text : String)
  | running (name : String) (ran : Ran)

/-- What the delegate tools of a group share. -/
structure Office where
  memberResults : Dict String MemberResult := []
  totals : Totals := {}
  pending : List Pending := []
  /-- The turns taken by the delegations that were answered. -/
  answeredTurns : ℕ := 0
  /-- The delegated runs so far. -/
  runs : List Trace := []

/-- The limit of a delegated run in progress. -/
def Pending.limit : Pending → ℕ
  | answered _ => 0
  | running _ ran => ran.trace.limit

/-- The start of a delegated run: the supervisor is in progress, and so are the open
delegations. -/
def Office.slot (office : Office) (supervisorLimit : ℕ) : Slot :=
  ⟨.delegate, supervisorLimit + office.answeredTurns + (office.pending.map Pending.limit).sum⟩

/-- The text the supervisor gets for a delegate tool that raised. -/
def delegateError (name e : String) : String :=
  "Error executing tool supervisor.delegate_to_" ++ name ++ ": " ++ e

/-- `call_member_tool` up to the run of the member. -/
def startDelegation (members : Dict String Part) (supervisor : String) (supervisorLimit : ℕ)
    (budget : ℤ) (name task : String) (office : Office) (w : World) : Office × World :=
  match (if name = supervisor then none else Dict.get? members name) with
  -- no delegate tool has that name
  | none => (office, w)
  | some part =>
    let remaining := budget - office.totals.turnsUsed
    if remaining ≤ 0 then
      ({ office with pending := office.pending ++ [.answered (budgetExhausted ++ ".")] }, w)
    else
      let up := syncUp config path supervisor w
      let down := syncDown config path name (some supervisor) up
      let ran := runPart script (path ++ [name]) (office.slot supervisorLimit) task remaining part
        down
      ({ office with
          pending := office.pending ++ [.running name ran.1]
          runs := office.runs ++ [ran.1.trace] }, ran.2)

/-- `call_member_tool` after the run of the member. -/
def answerDelegation (answered : Pending) (office : Office) (w : World) :
    String × Office × World :=
  match answered with
  | .answered text => (text, office, w)
  | .running name ran =>
    let office := { office with answeredTurns := office.answeredTurns + ran.trace.turns }
    match ran.outcome with
    | .error e => (delegateError name e, office, w)
    | .ok res =>
      let added := office.totals.add res
      let office := { office with
        memberResults := Dict.set office.memberResults name res
        totals := added.1 }
      match added.2 with
      -- the result of a group: all totals but the last are added before this raises
      | .error e => (delegateError name e, office, w)
      | .ok () =>
        ((truthy res.finalResponse).getD "Completed with no output.", office,
          syncUp config path name w)

/-- The `i`-th open delegation is answered. -/
def collectDelegation (i : ℕ) (office : Office) (w : World) : String × Office × World :=
  match office.pending[i]? with
  | none => ("", office, w)
  | some answered =>
    answerDelegation config path answered { office with pending := office.pending.eraseIdx i } w

/-- Answer the open delegations, at most `n` of them. -/
def settleDelegations : ℕ → Office → World → Office × World
  | 0, office, w => (office, w)
  | n + 1, office, w =>
    let answered := collectDelegation config path 0 office w
    settleDelegations n answered.2.1 answered.2.2

/-- The delegate tools of a group. -/
def delegateTools (members : Dict String Part) (supervisor : String) (supervisorLimit : ℕ)
    (budget : ℤ) : Desk Office where
  start := startDelegation script config path members supervisor supervisorLimit budget
  collect := collectDelegation config path
  settle office w := settleDelegations config path office.pending.length office w

/-- The supervisor's run, refreshed from the group and served by its delegate tools. -/
def supervise (members : Dict String Part) (supervisor : String) (agent : Agent) (input : String)
    (budget maxTurns : ℤ) (w : World) : AgentRun × Office × World :=
  let tools := delegateTools script config path members supervisor
    (agent.turnLimit (some maxTurns)) budget
  runAgent script tools (path ++ [supervisor]) agent input (some maxTurns) {}
    (syncDown config path supervisor none w)

/-- The start of the supervisor's run: nothing else runs. -/
def supervisorSlot : Slot := ⟨.supervisor, 0⟩

/-- `_run_supervisor`. -/
def runSupervisor (members : Dict String Part) (input : String) (budget : ℤ) (w : World) :
    (TeamResult × List Trace) × World :=
  match findSupervisor config members with
  | .error e => ((failedResult config (w.sessionId path) e [], []), w)
  | .ok (supervisor, agent) =>
    if budget ≤ 0 then ((failedResult config (w.sessionId path) budgetExhausted [], []), w)
    else
      let ran := supervise script config path members supervisor agent input budget budget w
      let office := ran.2.1
      let runs := .agent supervisorSlot ran.1 :: office.runs
      match ran.1.outcome with
      -- the delegates have run all the same, so their results are in the report
      | .error e =>
        ((failedResult config (w.sessionId path) e office.memberResults, runs), ran.2.2)
      | .ok r =>
        ((completedResult config (w.sessionId path) r.finalResponse
          (Dict.set office.memberResults supervisor (.run r)) (office.totals.add (.run r)).1, runs),
          syncUp config path supervisor ran.2.2)

/-! ### Running a group -/

/-- The run of the group's pattern. -/
def runPattern (members : Dict String Part) (input : String) (budget : ℤ) (w : World) :
    (Except String TeamResult × List Trace) × World :=
  match config.pattern with
  | .pipeline =>
    let ran := runPipeline script config path members input budget w
    ((.ok ran.1.1, ran.1.2), ran.2)
  | .supervisor =>
    let ran := runSupervisor script config path members input budget w
    ((.ok ran.1.1, ran.1.2), ran.2)
  | .parallel => runParallel script config path members input budget w

/-- `run`: the pattern's run, within the effective budget. -/
def runGroup (members : Dict String Part) (slot : Slot) (input : String) (maxTurns : Option ℤ)
    (w : World) : Ran × World :=
  let budget := effectiveTurnBudget config.maxTurns maxTurns
  let ran := runPattern script config path members input budget w
  (⟨ran.1.1.map .group,
    .group slot ⟨path, config.pattern, input, w.bags path, budget, ran.1.1⟩ ran.1.2⟩, ran.2)

end Nexus.Team
