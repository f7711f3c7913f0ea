import NexusAgent.Context.Builder
import NexusAgent.Context.Summarizer
import NexusAgent.Llm.ContentToolCalls
import NexusAgent.Rcs.Compactor
import NexusAgent.Runner.StructuredOutput
import NexusAgent.Tools.Interceptor
import NexusAgent.Tools.Registry

/-!
# The state of a run and its surroundings

What `AgentRunner._run_loop` of `nexus/runner/agent_runner.py` works on.

* `AgentConfig` are the settings the loop reads.
* `Env` is everything outside the loop: the settings, the registry, the run context,
  and the answers of the parties the loop talks to (the model, the hooks, the tool
  bodies, the compacting and the summarizing model, the caller that may cancel, the
  clock). An answer is a function of the number of the agent call it belongs to, so an
  environment scripts one run, and a statement about every environment is one about
  every behaviour of the other parties.
* `RunState` are the loop's variables, the working session with the store behind it, the
  events streamed to the caller and the trace of what the loop did (`Obs`).

Left out are the trace events of the emitter, sequence numbers of stream events and
durations.
-/

open Lib

namespace Nexus

/-! ### Settings -/

/-- `TurnConfig`, the fields the loop reads. -/
structure TurnConfig where
  maxTurns : ℕ := 10
  maxToolCallsPerTurn : ℕ := 5
  stopOnEmptyToolCalls : Bool := true
  stopOnResultType : Bool := true
  humanInLoopAfterTurns : Option ℕ := none
  turnTimeoutSeconds : ℕ := 300

/-- `AgentConfig`, the fields the loop reads. -/
structure AgentConfig where
  name : String := "agent"
  turns : TurnConfig := {}
  builder : BuilderConfig := {}
  interceptor : InterceptorConfig := {}
  fallbackCompactor : ServerCompactorConfig := {}
  contextSummary : ContextSummaryConfig := {}
  contextWindowTokens : ℤ := 128000
  resultType : Option ResultType := none
  parallelToolCalls : Bool := false
  structuredOutputMaxRetries : ℕ := 2

/-! ### Surroundings -/

/-- The action of a `TurnDecision`. -/
inductive TurnAction
  | carryOn
  | stop
  | inject
  deriving DecidableEq, Repr

/-- `TurnDecision`: what `on_turn_end` tells the loop. -/
structure TurnDecision where
  action : TurnAction := .carryOn
  message : Option String := none
  deriving DecidableEq, Repr

/-- Doing nothing to a store touches no session. -/
theorem find?_untouched {a : StoreAdapter} (_ : ℕ) (s : AgentSession) (st : Store a)
    (sid : String) (_ : sid ≠ s.sessionId ++ "__memcurator") : st.find? sid = st.find? sid := rfl

/-- The memory curator as the loop sees it. `act k` is what a curation does to the
session store: nothing when the curator is a model call, and when it is an agent of its
own, what the nested run does under the session id it derives. -/
structure Curator (a : StoreAdapter) where
  active : Bool := false
  afterTurn : ℕ → Bool := fun _ => false
  atEnd : Bool := false
  act : ℕ → AgentSession → Store a → Store a := fun _ _ st => st
  frame : ∀ k s st sid, sid ≠ s.sessionId ++ "__memcurator" →
    (act k s st).find? sid = st.find? sid := by
    exact find?_untouched

/-- The order of creation is an order. -/
theorem perm_range (n : ℕ) : (List.range n).Perm (List.range n) := .refl _

/-- The surroundings of a run. The `ℕ` arguments are the number of the agent call
within the run and, where there is a second one, the place within it. -/
structure Env (a : StoreAdapter) where
  config : AgentConfig := {}
  registry : ToolRegistry := []
  context : RunContext := {}
  curator : Curator a := {}
  counter : TokenCounter := ⟨fun _ _ => 0, fun _ => 0⟩
  proxy : LLMProxy
  /-- The rendered system prompt. -/
  systemContent : ℕ → AgentSession → String := fun _ _ => ""
  /-- `extract_tool_calls_from_text`. -/
  extractToolCalls : ℕ → Option String → List ToolCallRequest × Option String :=
    fun _ text => ([], text)
  /-- The list `before_llm_call` returns; `none` when there is no hook or it returns or
  raises nothing of use. -/
  beforeLLMCall : ℕ → List Message → Option (List Message) := fun _ _ => none
  /-- The decision `on_turn_end` returns. -/
  onTurnEnd : ℕ → Option TurnDecision := fun _ => none
  /-- The body of the registered tool under a key, at a place in the response: its
  result as text or the text of its exception, and the state bag it leaves. -/
  toolBody : ℕ → ℕ → String → ToolArgs → StateBag → Except String String × StateBag :=
    fun _ _ _ _ state => (.ok "", state)
  /-- The order in which concurrent handlers run. -/
  gatherOrder : (k n : ℕ) → { order : List ℕ // order.Perm (List.range n) } :=
    fun _ n => ⟨List.range n, perm_range n⟩
  compactReply : ℕ → ℕ → Option String := fun _ _ => none
  summaryReply : ℕ → Option String := fun _ => none
  cancelTurn : ℕ → Bool := fun _ => false
  cancelChunk : ℕ → ℕ → Bool := fun _ _ => false
  cancelCall : ℕ → ℕ → Bool := fun _ _ => false
  timedOut : ℕ → Bool := fun _ => false
  /-- The id `create_session` draws when it is given none. -/
  freshId : String := ""
  /-- The text of the error, by the name of the record that was not built. -/
  validationError : String → String := fun name => "1 validation error for " ++ name
  /-- The text of a JSON decoding error. -/
  jsonErrorText : String → String := fun _ => ""
  /-- What the interpreter lets `json.loads` read of a tool call's arguments. -/
  limits : Json.Limits := {}

/-! ### Results and stream events -/

/-- The terminal status of a run. -/
inductive RunStatus
  | completed
  | maxTurnsReached
  | error
  | interrupted
  | paused
  deriving DecidableEq, Repr

/-- `AgentRunResult`. -/
structure RunResult where
  sessionId : String
  finalResponse : Option String := none
  structuredResult : Option Json := none
  turnsUsed : ℕ
  totalTokensIn : ℕ := 0
  totalTokensOut : ℕ := 0
  totalTokensSavedByRcs : ℕ := 0
  cumulativeInputTokensSavedByRcs : ℕ := 0
  status : RunStatus
  error : Option String := none
  pendingInteractions : List PendingInteraction := []
  state : StateBag := []
  deriving DecidableEq, Repr

/-- `AgentStreamEvent`, one constructor an event type. -/
inductive StreamEvent
  | event (content : String)
  | content (text : String) (turnIndex : ℕ)
  | reasoning (text : String) (turnIndex : ℕ)
  | toolCall (turnIndex : ℕ) (toolName : String) (toolArgs : ToolArgs)
  | toolResult (turnIndex : ℕ) (toolName tcId content : String)
  | paused (sessionId : String) (pending : List PendingInteraction)
  | error (content : String)
  | finalResponse (result : RunResult)
  deriving DecidableEq, Repr

/-! ### The state of a run -/

/-- What the loop did, as an observer of the session and of the parties sees it. -/
inductive Obs
  /-- The run starts on a user message. -/
  | started (userMessage : String)
  /-- The builder settled on a window: the records shown as a notice, the turns dropped. -/
  | contextBuilt (degraded : List String) (dropped : ℕ)
  /-- A message list was sent to the model. -/
  | llmCall (messages : List Message)
  /-- The body of the registered tool `key` ran for a call. -/
  | executed (tcId toolName key : String)
  /-- A call created a pending interaction. -/
  | deferred (pending : PendingInteraction)
  /-- A validation failure asks the model again. -/
  | retry (message : String)
  /-- A turn was appended to the session. -/
  | turnAppended (turn : TurnRecord)
  /-- `on_turn_end` gave the model a message. -/
  | inject (message : String)
  deriving DecidableEq, Repr

/-- How the loop is left by an exception. -/
inductive RunError
  | cancelled
  | timeout (message : String)
  | error (message : String)
  deriving DecidableEq, Repr

/-- The variables of the loop. -/
structure RunState (a : StoreAdapter) where
  live : Live a
  /-- `run_context.state`. -/
  state : StateBag := []
  lastUntrimmedTokens : ℕ := 0
  /-- How many agent calls the run has begun. -/
  calls : ℕ := 0
  sessionTurnIndex : ℕ
  runTurnIndex : ℕ := 0
  status : RunStatus := .completed
  errorMsg : Option String := none
  totalTokensIn : ℕ := 0
  totalTokensOut : ℕ := 0
  finalResp : Option String := none
  structuredResult : Option Json := none
  structRetriesRemaining : ℕ
  currentUserMessage : String
  trace : List Obs := []
  events : List StreamEvent := []

/-- A step of the runner. -/
abbrev Run (a : StoreAdapter) (α : Type) : Type := Prog (RunState a) RunError α

variable {a : StoreAdapter}

namespace RunState

/-- The working session. -/
abbrev session (s : RunState a) : AgentSession := s.live.session

/-- Record an observation. -/
def observe (o : Obs) (s : RunState a) : RunState a := { s with trace := s.trace ++ [o] }

/-- Mutate the working session. -/
def mutate (f : AgentSession → AgentSession) (s : RunState a) : RunState a :=
  { s with live := s.live.mutate f }

/-- `turn_user_msg`, and the `user_message` of the turn's record: the current message on
the first turn of the run only. -/
def turnUserMsg (s : RunState a) : Option String :=
  if s.runTurnIndex = 0 then some s.currentUserMessage else none

/-- Both turn indices go up by one. -/
def nextTurn (s : RunState a) : RunState a :=
  { s with sessionTurnIndex := s.sessionTurnIndex + 1, runTurnIndex := s.runTurnIndex + 1 }

end RunState

/-! ### Primitive steps -/

/-- Yield an event to the caller of a streaming run. -/
def emit (stream : Bool) (e : StreamEvent) : Run a Unit :=
  Prog.modify fun s => if stream then { s with events := s.events ++ [e] } else s

/-- Run a program on the working session and its store. -/
def onLive {α : Type} (x : Prog (Live a) String α) : Run a α :=
  Prog.zoom RunState.live (fun s l => { s with live := l }) RunError.error x

/-- `_raise_if_cancelled`. -/
def raiseIfCancelled (requested : Bool) : Run a Unit :=
  if requested then Prog.throw .cancelled else pure ()

/-- The `paused` event. -/
def emitPaused (stream : Bool) : Run a Unit := do
  let s ← Prog.get
  emit stream (.paused s.session.sessionId s.session.pendingInteractions)

end Nexus
