import NexusAgent.Runner.LlmTurn
import NexusAgent.Runner.Tools

/-!
# The agent loop

`AgentRunner._run_loop`, `run`, `run_stream` and `resume` of
`nexus/runner/agent_runner.py`.

`turn` is one pass of the loop: the context is built (`prepareTurn`), the model is called,
a structured result is validated (`checkStructured`), and the response is either the
answer of the run (`finalAnswer`) or a list of tool calls (`toolTurn`). Both store a turn
and end with the turn-end hook and the human-in-the-loop check (`endTurn`). `runLoop` is
the loop with its exits, `execRun` a whole run on a store, `execResume` a resume.
-/

open Lib

namespace Nexus

variable {a : StoreAdapter}

/-! ### The session and its store -/

/-- `_json_safe_state`. -/
def jsonSafeState (state : StateBag) : StateBag :=
  state.filter fun p => match p.2 with
    | .json _ | .coerced _ _ => true
    | .hostObject _ => false

/-- `_maybe_save_session`. -/
def maybeSave (ctx : RunContext) (l : Live a) : Live a :=
  if ctx.shouldPersist then l.saveSession else l

/-- `_persist_turn`. -/
def persistTurn (ctx : RunContext) (turn : TurnRecord) (l : Live a) : Live a :=
  if ctx.shouldPersist then
    let scope := ctx.sessionScope (some l.session)
    (l.appendTurn turn scope).reload scope
  else l.mutate (AgentSession.addTurn turn)

/-- `_persist_turn_with_state`. -/
def persistTurnWithState (env : Env a) (turn : TurnRecord) (s : RunState a) : RunState a :=
  let snapshot := jsonSafeState s.state
  let l := s.live.mutate (.withState snapshot)
  let l := persistTurn env.context turn (maybeSave env.context l)
  let l := l.mutate (.withState snapshot)
  RunState.observe (.turnAppended turn) { s with live := l, state := snapshot }

/-- A curation: what it does to the store. -/
def curate (env : Env a) (k : ℕ) (l : Live a) : Live a :=
  { l with store := env.curator.act k l.session l.contents }

/-- `_maybe_curate_after_turn`. -/
def maybeCurateAfterTurn (env : Env a) (k : ℕ) (l : Live a) : Live a :=
  if env.curator.active && env.curator.afterTurn k then
    let l := curate env k l
    let scope := env.context.sessionScope (some l.session)
    { l with store := l.contents }.reload scope
  else l

/-! ### Preparing a turn -/

/-- `_build_context_messages`. -/
def buildContextMessages (env : Env a) (k : ℕ) (s : RunState a) : List Message × RunState a :=
  let inp : BuildInput :=
    { session := s.session
      systemContent := env.systemContent k s.session
      currentUserMessage := s.turnUserMsg
      tokenBudget := env.config.contextWindowTokens }
  let w := buildWindow env.config.builder env.counter inp
  (build env.config.builder env.counter inp,
    RunState.observe (.contextBuilt w.degradedTcIds w.turnsDropped)
      { s with lastUntrimmedTokens := w.untrimmedTokens })

/-- The tokens the thresholds are compared with. -/
def currentTokens (env : Env a) (messages : List Message) (s : RunState a) : ℕ :=
  max (env.counter.countMessages messages) s.lastUntrimmedTokens

/-- The compactor's half of `_maybe_compact_and_summarize`: the messages and the tokens
saved. -/
def maybeCompact (env : Env a) (k : ℕ) (messages : List Message) (s : RunState a) :
    (List Message × ℕ) × RunState a :=
  if env.config.fallbackCompactor.shouldTrigger s.session (currentTokens env messages s) then
    let (l, saved) :=
      compact env.config.fallbackCompactor env.counter s.sessionTurnIndex (env.compactReply k) s.live
    let (messages, s) := buildContextMessages env k { s with live := l }
    ((messages, saved), s)
  else ((messages, 0), s)

/-- The summarizer's half of `_maybe_compact_and_summarize`. -/
def maybeSummarize (env : Env a) (k : ℕ) (messages : List Message) (s : RunState a) :
    List Message × RunState a :=
  if env.config.contextSummary.shouldTrigger s.session (currentTokens env messages s)
      env.config.contextWindowTokens then
    buildContextMessages env k
      { s with live := summarize env.config.contextSummary (env.summaryReply k) s.live }
  else (messages, s)

/-- The context of a turn: the messages, and the tokens the compactor saved. -/
def prepareTurn (env : Env a) (k : ℕ) (s : RunState a) : (List Message × ℕ) × RunState a :=
  let (messages, s) := buildContextMessages env k s
  let ((messages, saved), s) := maybeCompact env k messages s
  let (messages, s) := maybeSummarize env k messages s
  ((messages, saved), s)

/-- Count the savings of summarized records in this context. -/
def countSavings (env : Env a) (messages : List Message) (s : RunState a) : ℕ × RunState a :=
  let savings := countRcsSavings env.config.builder env.counter messages s.session
  (savings, s.mutate fun t =>
    { t with cumulativeInputTokensSavedByRcs := t.cumulativeInputTokensSavedByRcs + savings })

/-! ### The parts of a pass -/

/-- `validate_structured_result` in the loop: whether the model has to be asked again. -/
def checkStructured (env : Env a) (response : LLMResponse) : Run a Bool :=
  match env.config.resultType with
  | none => pure false
  | some resultType =>
    -- a response that calls tools is not checked
    if response.toolCalls.isEmpty then
      match validateStructuredResult env.jsonErrorText response.content resultType with
      | .ok v => do
        Prog.modify fun s =>
          { s with
            structuredResult := some v
            structRetriesRemaining := env.config.structuredOutputMaxRetries
            finalResp := if env.config.turns.stopOnResultType then response.content
              else s.finalResp }
        return false
      | .error e => do
        let s ← Prog.get
        if 0 < s.structRetriesRemaining then
          let message := formatValidationRetryMessage e
          Prog.modify fun s => RunState.observe (.retry message)
            { s with
              structRetriesRemaining := s.structRetriesRemaining - 1
              currentUserMessage := message }
          return true
        else Prog.throw (.error e)
    else pure false

/-- `_maybe_pause_for_human_in_loop`: whether the run pauses here. -/
def humanInLoopDue (cfg : TurnConfig) (runTurnIndex : ℕ) : Bool :=
  match cfg.humanInLoopAfterTurns with
  | none => false
  | some limit => limit ≤ runTurnIndex + 1

/-- The pending request of a human-in-the-loop pause. -/
def hitlRequest : PendingInteraction :=
  { tcId := "HITL", toolName := "human_in_loop", kind := .elicitation }

/-- Pause for the human in the loop. -/
def pauseForHuman (env : Env a) (stream : Bool) : Run a Unit := do
  Prog.modify fun s =>
    { s with
      live := maybeSave env.context (s.live.mutate (.addPending hitlRequest))
      status := .paused }
  emitPaused stream

/-- What follows a stored turn: the decision of `on_turn_end`, else the human-in-the-loop
check, else `onward`. -/
def endTurn (env : Env a) (stream : Bool) (k : ℕ) (onward : Run a Prog.Ctl) : Run a Prog.Ctl := do
  let decision := (env.onTurnEnd k).getD {}
  if decision.action = .stop then
    Prog.modify fun s => { s with status := .interrupted }
    return .stop
  -- an injected message that is empty counts as none
  match decision.action, truthy decision.message with
  | .inject, some message =>
    Prog.modify fun s =>
      RunState.observe (.inject message) { s.nextTurn with currentUserMessage := message }
    return .next
  | _, _ =>
    let s ← Prog.get
    if humanInLoopDue env.config.turns s.runTurnIndex then
      pauseForHuman env stream
      return .stop
    else onward

/-- The turn record of a response without tool calls. -/
def answerRecord (response : LLMResponse) (savings : ℕ) (s : RunState a) : TurnRecord where
  turnIndex := s.sessionTurnIndex
  userMessage := s.turnUserMsg
  llmMessages := [buildAssistantLlmMessage response.content response.toolCalls]
  reasoning := response.reasoning
  totalTokensIn := response.usage.promptTokens
  totalTokensOut := response.usage.completionTokens
  recurringSavingsThisTurn := savings

/-- The final-answer branch. -/
def finalAnswer (env : Env a) (stream : Bool) (k : ℕ) (response : LLMResponse) (savings : ℕ) :
    Run a Prog.Ctl := do
  Prog.modify fun s => { s with finalResp := response.content }
  Prog.modify fun s => persistTurnWithState env (answerRecord response savings s) s
  Prog.modify fun s => { s with live := maybeCurateAfterTurn env k s.live }
  endTurn env stream k do
    Prog.modify RunState.nextTurn
    return .stop

/-- The turn record of a response whose first `n` tool calls were handled. -/
def toolRecord (env : Env a) (response : LLMResponse) (compactorSaved savings n : ℕ)
    (handled : List Handled) (s : RunState a) : TurnRecord where
  turnIndex := s.sessionTurnIndex
  userMessage := s.turnUserMsg
  llmMessages := [buildAssistantLlmMessage response.content
    (handledCalls env.config.interceptor n response.toolCalls)]
  reasoning := response.reasoning
  toolCalls := handled.map Handled.record
  contextUpdatesReceived := handled.flatMap Handled.updates
  totalTokensIn := response.usage.promptTokens
  totalTokensOut := response.usage.completionTokens
  tokensSavedThisTurn := compactorSaved + (handled.map Handled.saved).sum
  recurringSavingsThisTurn := savings
  status := if s.status = .paused then .paused else .completed

/-- The error text of a turn that took too long. -/
def turnTimeoutMessage (cfg : TurnConfig) : String :=
  "Turn exceeded timeout of " ++ toString cfg.turnTimeoutSeconds ++ "s"

/-- The tool branch. -/
def toolTurn (env : Env a) (stream : Bool) (k : ℕ) (response : LLMResponse)
    (compactorSaved savings : ℕ) : Run a Prog.Ctl := do
  let (handled, n) ← runTools env stream k response.toolCalls
  Prog.modify fun s =>
    persistTurnWithState env (toolRecord env response compactorSaved savings n handled s) s
  let s ← Prog.get
  if s.status = .paused then
    -- a pause leaves before the curator and the turn's end
    Prog.modify fun s => { s with live := maybeSave env.context s.live }
    emitPaused stream
    return .stop
  Prog.modify fun s => { s with live := maybeCurateAfterTurn env k s.live }
  endTurn env stream k do
    if env.timedOut k then Prog.throw (.timeout (turnTimeoutMessage env.config.turns))
    Prog.modify RunState.nextTurn
    return .next

/-- The head of a pass up to the model call: the context is built and sent. -/
def openTurn (env : Env a) (stream : Bool) (k : ℕ) : Run a (ℕ × ℕ) := do
  let (messages, compactorSaved) ← Prog.update (prepareTurn env k)
  let savings ← Prog.update (countSavings env messages)
  let s ← Prog.get
  emit stream (.event ("Turn " ++ toString s.sessionTurnIndex ++ " started."))
  Prog.modify (RunState.observe (.llmCall ((env.beforeLLMCall k messages).getD messages)))
  return (compactorSaved, savings)

/-- One pass of the loop. -/
def turn (env : Env a) (stream : Bool) : Run a Prog.Ctl := do
  let k ← Prog.update fun s => (s.calls, { s with calls := s.calls + 1 })
  raiseIfCancelled (env.cancelTurn k)
  let (compactorSaved, savings) ← openTurn env stream k
  let s ← Prog.get
  let raw ← callLLM env stream k s.sessionTurnIndex
  let response := acceptedResponse env k raw
  -- the tokens are counted before the response is looked at
  Prog.modify fun s =>
    { s with
      totalTokensIn := s.totalTokensIn + response.usage.promptTokens
      totalTokensOut := s.totalTokensOut + response.usage.completionTokens }
  if ← checkStructured env response then
    return .next
  if response.toolCalls.isEmpty && env.config.turns.stopOnEmptyToolCalls then
    finalAnswer env stream k response savings
  else
    toolTurn env stream k response compactorSaved savings

/-! ### Whole runs -/

/-- The arguments of a run. -/
structure RunArgs where
  userMessage : String
  sessionId : Option String := none
  initialContext : StateBag := []
  maxTurns : Option ℕ := none

/-- The session id a run works under. -/
def runSessionId (env : Env a) (args : RunArgs) : String :=
  (truthy (pyOr args.sessionId env.context.sessionId)).getD env.freshId

/-- `_get_or_create_session`: the working session and its store. -/
def getOrCreateSession (env : Env a) (args : RunArgs) (st : Store a) : Live a :=
  let scope := env.context.sessionScope none
  let sid := runSessionId env args
  -- without an id there is nothing to load
  match (truthy (pyOr args.sessionId env.context.sessionId)).bind (st.loadSession · scope) with
  | some session => ⟨session, st⟩
  | none =>
    let (session, st) := st.createSession env.config.name sid scope
    ⟨session, st⟩

/-- `PENDING_SUPERSEDED`. -/
def pendingSuperseded : String :=
  "Not answered by user: the user sent a new message instead."

/-- Fill the empty result of a record. -/
def fillRawResponse (content : String) (tc : ToolCallRecord) : ToolCallRecord :=
  if tc.rawResponse = "" then { tc with rawResponse := content } else tc

/-- `_close_pending_interactions`. -/
def closePendingInteractions (s : AgentSession) : AgentSession :=
  let openIds := s.pendingInteractions.map PendingInteraction.tcId
  { s with
    turns := s.turns.map fun t => { t with toolCalls := t.toolCalls.map fun tc =>
      if tc.tcId ∈ openIds then fillRawResponse pendingSuperseded tc else tc }
    pendingInteractions := [] }

/-- `_hydrate_state_from_session`: the merged state bag. -/
def hydrateState (env : Env a) (args : RunArgs) (s : AgentSession) : StateBag :=
  Dict.update (Dict.update s.state args.initialContext) env.context.state

/-- The session as the loop finds it: loaded or created, open interactions superseded by
a user message, the state bag hydrated. -/
def openSession (env : Env a) (args : RunArgs) (st : Store a) : Live a × StateBag :=
  let l := getOrCreateSession env args st
  let l := l.mutate fun s => { s with rcsEnabled := env.config.builder.rcsEnabled }
  let l := if args.userMessage ≠ "" ∧ l.session.pendingInteractions ≠ [] then
    l.mutate closePendingInteractions else l
  let l := maybeSave env.context l
  let state := hydrateState env args l.session
  let l := l.mutate (.withState state)
  (if args.initialContext = [] then l else maybeSave env.context l, state)

/-- The loop's variables before its first pass. -/
def startRun (env : Env a) (stream : Bool) (args : RunArgs) (st : Store a) : RunState a :=
  let (l, state) := openSession env args st
  { live := l
    state := state
    sessionTurnIndex := l.session.turns.length
    structRetriesRemaining := env.config.structuredOutputMaxRetries
    currentUserMessage := args.userMessage
    trace := [.started args.userMessage]
    events := if stream then [.event "Agent started execution."] else [] }

/-- `turn_limit`. -/
def turnLimit (env : Env a) (args : RunArgs) : ℕ :=
  match args.maxTurns with
  | none => env.config.turns.maxTurns
  | some n => min env.config.turns.maxTurns n

/-- The condition of the loop. -/
def loopCond (limit : ℕ) (s : RunState a) : Bool := s.runTurnIndex < limit

/-- The passes a run can make: every turn may use up all retries. -/
def runFuel (env : Env a) (limit : ℕ) : ℕ :=
  (limit + 1) * (env.config.structuredOutputMaxRetries + 1)

/-- The state after an exception. -/
def raised (stream : Bool) (e : RunError) (s : RunState a) : RunState a :=
  let say (events : List StreamEvent) : List StreamEvent :=
    if stream then s.events ++ events else s.events
  match e with
  | .cancelled => { s with status := .interrupted, events := say [.event "Run cancelled."] }
  | .timeout msg | .error msg =>
    { s with status := .error, errorMsg := some msg, events := say [.error msg] }

/-- The loop with its exits: the limit check after it, or the handler of an exception. -/
def runLoop (env : Env a) (stream : Bool) (limit : ℕ) (s : RunState a) : RunState a :=
  match Prog.loop (loopCond limit) (turn env stream) (runFuel env limit) s with
  | (.ok _, s) => if limit ≤ s.runTurnIndex then { s with status := .maxTurnsReached } else s
  | (.error e, s) => raised stream e s

/-- The curation at the end of a run that did not fail. -/
def curateAtEnd (env : Env a) (s : RunState a) : RunState a :=
  if s.status ≠ .error ∧ env.curator.active then
    let scope := env.context.sessionScope (some s.session)
    let l := { s.live with store := s.live.contents }.reload scope
    { s with live := if env.curator.atEnd then curate env s.calls l else l }
  else s

/-- The response text of the last stored turn. -/
def lastTurnResponse (s : AgentSession) : Option String :=
  s.turns.getLast?.bind fun t =>
    (t.llmMessages.filterMap fun msg =>
      if msg.role = .assistant then truthy msg.content else none).getLast?

/-- What follows the loop, up to the last save. -/
def finishRun (env : Env a) (s : RunState a) : RunState a :=
  let s := curateAtEnd env s
  let snapshot := jsonSafeState s.state
  { s with
    finalResp := s.finalResp.or (lastTurnResponse s.session)
    state := snapshot
    live := maybeSave env.context (s.live.mutate (.withState snapshot)) }

/-- The `AgentRunResult` of a finished run. -/
def resultOf (s : RunState a) : RunResult where
  sessionId := s.session.sessionId
  finalResponse := s.finalResp
  structuredResult := s.structuredResult
  turnsUsed := s.runTurnIndex
  totalTokensIn := s.totalTokensIn
  totalTokensOut := s.totalTokensOut
  totalTokensSavedByRcs := s.session.totalTokensSavedByRcs
  cumulativeInputTokensSavedByRcs := s.session.cumulativeInputTokensSavedByRcs
  status := s.status
  error := s.errorMsg
  pendingInteractions := s.session.pendingInteractions
  state := s.state

/-- A run: `run`, or `run_stream` when `stream`. The final state of the loop. -/
def execRun (env : Env a) (stream : Bool) (args : RunArgs) (st : Store a) : RunState a :=
  let s := finishRun env (runLoop env stream (turnLimit env args) (startRun env stream args st))
  if stream then { s with events := s.events ++ [.finalResponse (resultOf s)] } else s

/-- The store after a run. -/
def storeAfter (s : RunState a) : Store a := s.live.contents

/-! ### Resuming -/

/-- One item of a resume's results. -/
structure ResumeItem where
  tcId : Option String := none
  callId : Option String := none
  content : String := ""
  deriving DecidableEq, Repr

/-- The content a resume supplies for a pending interaction: an item with its record id,
else one with its call id, the last of several. -/
def resumeContent (results : List ResumeItem) (pending : PendingInteraction) : String :=
  let item := (results.reverse.find? fun r => truthy r.tcId = some pending.tcId).or
    (results.reverse.find? fun r => truthy r.callId = some pending.callId)
  (item.map ResumeItem.content).getD ""

/-- Fill the first empty record of an interaction in every turn. -/
def fillPending (results : List ResumeItem) (turns : List TurnRecord)
    (pending : PendingInteraction) : List TurnRecord :=
  let waiting (tc : ToolCallRecord) : Bool := tc.tcId = pending.tcId && tc.rawResponse = ""
  let fill := fillRawResponse (resumeContent results pending)
  turns.map fun t => { t with toolCalls := updateFirst waiting fill t.toolCalls }

/-- The session with the results of its pending interactions. -/
def resumeSession (results : List ResumeItem) (s : AgentSession) : AgentSession :=
  { s with
    turns := s.pendingInteractions.foldl (fillPending results) s.turns
    pendingInteractions := [] }

/-- `resume`, up to the run it starts: the store that run finds, or the text of the
`ValueError`. -/
def resumeStore (env : Env a) (sid : String) (results : List ResumeItem) (st : Store a) :
    Except String (Store a) :=
  match st.loadSession sid (env.context.sessionScope none) with
  | none => .error ("Session not found: " ++ sid)
  | some session =>
    if session.pendingInteractions = [] then
      .error "Session has no pending interactions to resume"
    else
      .ok (maybeSave env.context ⟨resumeSession results session, st⟩).contents

/-- `resume`. -/
def execResume (env : Env a) (stream : Bool) (sid : String) (results : List ResumeItem)
    (st : Store a) : Except String (RunState a) :=
  (resumeStore env sid results st).map
    (execRun env stream { userMessage := "", sessionId := some sid })

end Nexus
