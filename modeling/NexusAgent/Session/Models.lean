import NexusAgent.Lib.Json

/-!
# Session data models

The records of `nexus/session/models.py`: an agent session is its turns, each turn
the message the model produced together with the records of the tool calls it made,
plus the interactions a paused run waits for.

Wall-clock fields and presentation fields (titles, pins, display names, free
metadata) are left out: nothing modelled reads them.
-/

open Lib

namespace Nexus

/-- Arguments of a tool call: a JSON object, as its items. -/
abbrev ToolArgs : Type := Dict String Json

/-- A value of the durable state bag: JSON; a host value that `json.dumps` writes as the JSON
`image` but that is not `image`, such as a tuple; or a host object it rejects. -/
inductive StateValue
  | json (v : Json)
  | coerced (name : String) (image : Json)
  | hostObject (name : String)
  deriving DecidableEq, Repr

/-- The durable state bag of a chat thread. -/
abbrev StateBag : Type := Dict String StateValue

/-! ### Provider messages -/

/-- The role of a provider message. -/
inductive Role
  | system
  | user
  | assistant
  | tool
  deriving DecidableEq, Repr

/-- One entry of an assistant message's `tool_calls`; `arguments` is JSON text. -/
structure ToolCallEntry where
  id : String
  name : String
  arguments : String
  deriving DecidableEq, Repr

/-- A provider message. No `tool_calls` key is the empty list. -/
structure Message where
  role : Role
  content : Option String
  toolCalls : List ToolCallEntry := []
  toolCallId : Option String := none
  deriving DecidableEq, Repr

/-! ### Tool calls and turns -/

/-- A context compression update from the model. -/
structure ContextUpdate where
  tcId : String
  summary : String
  tokensSaved : ℕ := 0
  deriving DecidableEq, Repr

/-- What a paused call waits for. `approval` is not among the values the record
admits. -/
inductive InteractionKind
  | clientTool
  | elicitation
  deriving DecidableEq, Repr

/-- A paused client tool or elicitation waiting for an external result. -/
structure PendingInteraction where
  tcId : String
  callId : String := ""
  toolName : String
  args : ToolArgs := []
  kind : InteractionKind := .clientTool
  deriving DecidableEq, Repr

/-- Record of a single tool call. -/
structure ToolCallRecord where
  tcId : String
  tcIndex : ℕ
  toolName : String
  callId : String := ""
  toolInput : ToolArgs := []
  rawResponse : String
  summarizedResponse : Option String := none
  summarizedByTurn : Option ℕ := none
  tokensRaw : ℕ := 0
  tokensSummarized : Option ℕ := none
  deriving DecidableEq, Repr

/-- The statuses a turn record is stored with by the runner. -/
inductive TurnStatus
  | completed
  | paused
  deriving DecidableEq, Repr

/-- Record of a single agent turn. -/
structure TurnRecord where
  turnIndex : ℕ
  userMessage : Option String := none
  llmMessages : List Message := []
  reasoning : Option String := none
  toolCalls : List ToolCallRecord := []
  contextUpdatesReceived : List ContextUpdate := []
  totalTokensIn : ℕ := 0
  totalTokensOut : ℕ := 0
  tokensSavedThisTurn : ℕ := 0
  recurringSavingsThisTurn : ℕ := 0
  status : TurnStatus := .completed
  deriving DecidableEq, Repr

/-! ### Sessions -/

/-- A complete agent session. `summaryThroughTurn` is the last turn index folded into
`summaryText`, `-1` when none is. -/
structure AgentSession where
  sessionId : String
  agentId : String
  tenantId : Option String := none
  companyId : Option String := none
  userId : Option String := none
  pendingInteractions : List PendingInteraction := []
  state : StateBag := []
  turns : List TurnRecord := []
  tcCounter : ℕ := 0
  summaryText : String := ""
  summaryThroughTurn : ℤ := -1
  totalTokensSavedByRcs : ℕ := 0
  cumulativeInputTokensSavedByRcs : ℕ := 0
  rcsEnabled : Bool := false
  deriving DecidableEq, Repr

/-- The session with one more turn. -/
def AgentSession.addTurn (turn : TurnRecord) (s : AgentSession) : AgentSession :=
  { s with turns := s.turns ++ [turn] }

@[simp] theorem AgentSession.addTurn_sessionId (turn : TurnRecord) (s : AgentSession) :
    (s.addTurn turn).sessionId = s.sessionId := rfl

@[simp] theorem AgentSession.addTurn_turns (turn : TurnRecord) (s : AgentSession) :
    (s.addTurn turn).turns = s.turns ++ [turn] := rfl

theorem AgentSession.forall_turns_addTurn {Q : TurnRecord → Prop} {s : AgentSession}
    {turn : TurnRecord} (h : ∀ t ∈ s.turns, Q t) (h_turn : Q turn) :
    ∀ t ∈ (s.addTurn turn).turns, Q t :=
  List.forall_mem_append.mpr ⟨h, List.forall_mem_singleton.mpr h_turn⟩

/-- The session with another state bag. -/
def AgentSession.withState (state : StateBag) (s : AgentSession) : AgentSession :=
  { s with state := state }

/-- The session with one more pending interaction. -/
def AgentSession.addPending (pending : PendingInteraction) (s : AgentSession) : AgentSession :=
  { s with pendingInteractions := s.pendingInteractions ++ [pending] }

/-- The record with a summary. -/
def ToolCallRecord.withSummary (summary : String) (byTurn : ℕ) (tc : ToolCallRecord) :
    ToolCallRecord :=
  { tc with summarizedResponse := some summary, summarizedByTurn := some byTurn }

/-- The record with the token count of its summary. -/
def ToolCallRecord.withSummaryTokens (tokens : ℕ) (tc : ToolCallRecord) : ToolCallRecord :=
  { tc with tokensSummarized := some tokens }

/-- Apply `f` to the first record that satisfies `p` in a list of records. -/
def updateFirst (p : ToolCallRecord → Bool) (f : ToolCallRecord → ToolCallRecord) :
    List ToolCallRecord → List ToolCallRecord
  | [] => []
  | tc :: tcs => if p tc then f tc :: tcs else tc :: updateFirst p f tcs

/-- Apply `f` to the first record that satisfies `p`, turn by turn: the record object
found is mutated in place. -/
def updateFirstTc (p : ToolCallRecord → Bool) (f : ToolCallRecord → ToolCallRecord) :
    List TurnRecord → List TurnRecord
  | [] => []
  | t :: ts =>
    if t.toolCalls.any p then { t with toolCalls := updateFirst p f t.toolCalls } :: ts
    else t :: updateFirstTc p f ts

end Nexus
