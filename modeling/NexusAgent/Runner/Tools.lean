import NexusAgent.Runner.State

/-!
# Handling the tool calls of a turn

`_handle_tool` and the two ways the loop of `nexus/runner/agent_runner.py` runs it over a
response: one call after the other, leaving at the first that pauses, or all at once
through `asyncio.gather`, looking at the results afterwards.

A handler decides by the emitted name whether the call is `gated`. A gated call becomes a
pending interaction and an empty record; any other is executed. A call that needs approval
asks for an interaction kind the record does not admit, so building it raises.
-/

open Lib

namespace Nexus

namespace ToolRegistry

/-- `resolved_tool`: the resolved name, or the name itself when nothing resolves it. -/
def resolvedTool (reg : ToolRegistry) (name : String) : String :=
  (reg.resolveToolName name).getD name

/-- `needs_approval`. -/
def needsApproval (reg : ToolRegistry) (name : String) : Bool :=
  reg.requiresApproval (reg.resolvedTool name)

/-- `tool_name.endswith("request_user_input")`. -/
def isElicitation (name : String) : Bool := PyStr.endsWith name "request_user_input"

/-- The condition under which a call waits for the caller instead of being executed. -/
def gated (reg : ToolRegistry) (name : String) : Bool :=
  reg.getExecutionMode name = "client" || isElicitation name || reg.needsApproval name

/-- The condition of `use_parallel` on one call. -/
def parallelisable (reg : ToolRegistry) (name : String) : Bool :=
  reg.getExecutionMode name ≠ "client" && !reg.requiresApproval name

end ToolRegistry

variable {a : StoreAdapter}

/-- What `_handle_tool` returns for a call. -/
structure Handled where
  record : ToolCallRecord
  paused : Bool
  updates : List ContextUpdate := []
  saved : ℕ := 0
  deriving DecidableEq, Repr

/-- The arguments left once the interceptor has taken its parameter off. -/
def cleanArgs (cfg : InterceptorConfig) (args : ToolArgs) : ToolArgs :=
  if cfg.enabled then Dict.erase args cfg.contextUpdatesParamName else args

/-- The id of the record with an index. -/
def tcIdOf (tcIndex : ℕ) : String := "TC" ++ toString tcIndex

/-- The pending interaction of a gated call. -/
def pendingOf (cfg : InterceptorConfig) (req : ToolCallRequest) (tcIndex : ℕ) :
    PendingInteraction where
  tcId := tcIdOf tcIndex
  callId := req.id
  toolName := req.toolName
  args := cleanArgs cfg req.toolInput
  kind := if ToolRegistry.isElicitation req.toolName then .elicitation else .clientTool

/-- The record of a call with its result. -/
def recordOf (env : Env a) (req : ToolCallRequest) (tcIndex : ℕ) (result : String) :
    ToolCallRecord where
  tcId := tcIdOf tcIndex
  tcIndex := tcIndex
  toolName := req.toolName
  callId := req.id
  toolInput := cleanArgs env.config.interceptor req.toolInput
  rawResponse := result
  tokensRaw := env.counter.countString result env.config.builder.model

/-- What becomes of a call, as its name and its arguments decide. -/
inductive CallFate
  /-- The handler raises: on a malformed update, or because the call needs approval. -/
  | raises
  /-- The call waits for the caller. -/
  | waits
  /-- The call is answered at once, by the body of a registered tool if one is reached. -/
  | answered (key : Option String)
  deriving DecidableEq, Repr

/-- The fate of a call. -/
def callFate (env : Env a) (req : ToolCallRequest) : CallFate :=
  if malformedUpdates env.config.interceptor req.toolInput then .raises
  else if env.registry.gated req.toolName then
    if env.registry.needsApproval req.toolName then .raises else .waits
  else .answered (env.registry.reachedKey req.toolName)

/-- `session.next_tc_index()`. -/
def nextTcIndex : Run a ℕ :=
  Prog.update fun s =>
    (s.session.tcCounter + 1, s.mutate fun t => { t with tcCounter := t.tcCounter + 1 })

/-- The call to `tool_registry.execute` and the text of its result or error, for the call at
place `pos` of response `k`. -/
def executeTool (env : Env a) (k pos : ℕ) (req : ToolCallRequest) (tcId : String)
    (args : ToolArgs) : Run a String :=
  match env.registry.reachedKey req.toolName with
  | none =>
    let parts := PyStr.split '.' req.toolName
    pure ("Error executing tool " ++ req.toolName ++ ": Tool '" ++ parts.headD "" ++ "." ++
      parts.tail.headD "" ++ "' not found in registry")
  | some key => Prog.update fun s =>
    let (result, state) := env.toolBody k pos key args s.state
    (match result with
      | .ok text => text
      | .error e => "Error executing tool " ++ req.toolName ++ ": " ++ e,
      RunState.observe (.executed tcId req.toolName key) { s with state := state })

/-- Append a pending interaction and mark the run as paused. -/
def defer (pending : PendingInteraction) (s : RunState a) : RunState a :=
  RunState.observe (.deferred pending)
    { s.mutate (AgentSession.addPending pending) with status := .paused }

/-- `_handle_tool`. -/
def handleTool (env : Env a) (k pos : ℕ) (req : ToolCallRequest) : Run a Handled := do
  let s ← Prog.get
  let (args, updates) ← onLive
    (intercept env.config.interceptor env.counter s.sessionTurnIndex req.toolInput)
  let saved := (updates.map ContextUpdate.tokensSaved).sum
  let tcIndex ← nextTcIndex
  if env.registry.gated req.toolName then
    -- the kind of an approval is not one the record admits
    if env.registry.needsApproval req.toolName then
      Prog.throw (.error (env.validationError "PendingInteraction"))
    else
      Prog.modify (defer (pendingOf env.config.interceptor req tcIndex))
      return ⟨recordOf env req tcIndex "", true, updates, saved⟩
  else
    let result ← executeTool env k pos req (tcIdOf tcIndex) args
    return ⟨recordOf env req tcIndex result, false, updates, saved⟩

/-- The sequential branch, from the call at place `pos` on. -/
def runSequential (env : Env a) (stream : Bool) (k : ℕ) :
    ℕ → List ToolCallRequest → Run a (List Handled)
  | _, [] => pure []
  | pos, req :: reqs => do
    raiseIfCancelled (env.cancelCall k pos)
    let s ← Prog.get
    emit stream (.toolCall s.sessionTurnIndex req.toolName req.toolInput)
    let h ← handleTool env k pos req
    if h.record.rawResponse ≠ "" then
      emit stream (.toolResult s.sessionTurnIndex req.toolName h.record.tcId h.record.rawResponse)
    -- the calls after one that waits are not made
    if h.paused then
      emitPaused stream
      return [h]
    else
      let hs ← runSequential env stream k (pos + 1) reqs
      return h :: hs

/-- The results up to the first that paused. -/
def untilPaused : List Handled → List Handled
  | [] => []
  | h :: hs => if h.paused then [h] else h :: untilPaused hs

/-- The handler of the call at a place of the response. -/
def handleAt (env : Env a) (k : ℕ) (calls : List ToolCallRequest) (pos : ℕ) : Run a Handled :=
  match calls[pos]? with
  | some req => handleTool env k pos req
  | none => Prog.throw (.error "index out of range")

/-- The parallel branch. -/
def runParallel (env : Env a) (k : ℕ) (calls : List ToolCallRequest) : Run a (List Handled) := do
  let results ← Prog.gather (handleAt env k calls) (env.gatherOrder k calls.length).val calls.length
  return untilPaused results

/-- `use_parallel`. -/
def useParallel (env : Env a) (calls : List ToolCallRequest) : Bool :=
  env.config.parallelToolCalls && 1 < calls.length &&
    calls.all fun tc => env.registry.parallelisable tc.toolName

/-- Handle the tool calls of a response: what the handlers returned up to the first that
paused, and how many calls were handled at all. -/
def runTools (env : Env a) (stream : Bool) (k : ℕ) (calls : List ToolCallRequest) :
    Run a (List Handled × ℕ) :=
  if useParallel env calls then do
    let handled ← runParallel env k calls
    return (handled, calls.length)
  else do
    let handled ← runSequential env stream k 0 calls
    return (handled, handled.length)

/-- The calls as they stand once the first `n` were handled: the interceptor takes its
parameter off the request itself. -/
def handledCalls (cfg : InterceptorConfig) (n : ℕ) (calls : List ToolCallRequest) :
    List ToolCallRequest :=
  (calls.take n).map (fun tc => { tc with toolInput := cleanArgs cfg tc.toolInput }) ++
    calls.drop n

end Nexus
