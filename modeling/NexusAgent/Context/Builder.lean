import Mathlib.Algebra.GroupWithZero.Nat
import NexusAgent.Llm.ContentToolCalls

/-!
# The context window builder

`nexus/context/builder.py`: the message list of one model call, from a session. Every
turn renders as its user message, the assistant message it stored and one `tool`
message for each of its tool-call records. When the list is over budget, the oldest
unsummarized tool results are replaced by a notice, one at a time, and after that the
oldest turns are dropped. A user message is inserted when none survived, and adjacent
assistant messages without tool calls are merged.

The rendered system prompt (template, memory, summary and skill blocks) is a parameter,
and so is the tag format, as a function of the record's index.
-/

open Lib

namespace Nexus

/-- The builder's settings for one agent. -/
structure BuilderConfig where
  rcsEnabled : Bool := false
  tcTag : ℕ → String := fun n => "[TC" ++ toString n ++ "]"
  includeSignature : Bool := true
  model : String := defaultModel

/-- `FALLBACK_USER_MESSAGE`. -/
def fallbackUserMessage : String := "Continue."

/-- `OVERSIZED_TOOL_RESULT_NOTICE`, filled in. -/
def overflowNotice (tokens : ℕ) : String :=
  "Result not included: it was " ++ toString tokens ++
    " tokens, which does not fit the remaining " ++
    "context budget. Re-run this tool with a narrower scope (shorter date range, " ++
    "fewer rows or columns, filters, or pagination), or use a tool that returns " ++
    "aggregates instead of raw records."

/-- `_format_tool_signature`: `tool_name(arg=value, ...)`, without the injected
`_context_updates` argument. -/
def formatToolSignature (tc : ToolCallRecord) (includeSignature : Bool) : String :=
  if includeSignature then
    tc.toolName ++ "(" ++ PyStr.join ", "
      ((tc.toolInput.filter fun p => p.1 ≠ "_context_updates").map fun p =>
        p.1 ++ "=" ++ p.2.dumps) ++ ")"
  else ""

/-- `_summary_text`: the usable summary of a record, `""` when it has none. -/
def summaryText (tc : ToolCallRecord) : String :=
  let summary := PyStr.strip (tc.summarizedResponse.getD "")
  if summary = "[]" then "" else summary

/-- The tag and signature lines before a raw result or a notice. -/
def tagPrefix (cfg : BuilderConfig) (tc : ToolCallRecord) : String :=
  let signature := formatToolSignature tc cfg.includeSignature
  if signature = "" then cfg.tcTag tc.tcIndex ++ "\n"
  else cfg.tcTag tc.tcIndex ++ " " ++ signature ++ "\n"

/-- `_render_tool_message`. -/
def renderToolMessage (cfg : BuilderConfig) (counter : TokenCounter) (tc : ToolCallRecord)
    (degraded : Bool) : String :=
  if degraded then
    let tokens :=
      if tc.tokensRaw = 0 then counter.countString tc.rawResponse defaultModel else tc.tokensRaw
    if cfg.rcsEnabled then tagPrefix cfg tc ++ overflowNotice tokens else overflowNotice tokens
  else
    let summary := summaryText tc
    if summary ≠ "" then
      let signature := formatToolSignature tc cfg.includeSignature
      if signature = "" then summary else signature ++ "\n" ++ summary
    else if cfg.rcsEnabled then tagPrefix cfg tc ++ tc.rawResponse
    else tc.rawResponse

/-- The call id a record's tool message answers: the id at the record's position in the
assistant message's tool calls. -/
def toolCallIdOf (turn : TurnRecord) (tc : ToolCallRecord) : String :=
  turn.llmMessages.foldl (fun callId msg =>
    if msg.role = .assistant ∧ msg.toolCalls ≠ [] then
      match msg.toolCalls[turn.toolCalls.idxOf tc]? with
      | some entry => entry.id
      | none => callId
    else callId) ("call_" ++ tc.tcId)

/-- The user message of a turn, if it has one. -/
def userMessages (text : Option String) : List Message :=
  match truthy text with
  | some t => [{ role := .user, content := some t }]
  | none => []

/-- `_turn_to_messages`. -/
def turnToMessages (cfg : BuilderConfig) (counter : TokenCounter) (degraded : List String)
    (turn : TurnRecord) : List Message :=
  userMessages turn.userMessage ++
    turn.llmMessages.map (fun msg =>
      if msg.role = .assistant then sanitizeAssistantLlmMessage msg emptyAssistantPlaceholder
      else msg) ++
    turn.toolCalls.map fun tc =>
      { role := .tool, toolCallId := some (toolCallIdOf turn tc),
        content := some (renderToolMessage cfg counter tc (tc.tcId ∈ degraded)) }

/-! ### Merging and anchoring -/

/-- Whether `_coalesce_consecutive_assistants` merges `msg` into `prev`. -/
def mergeable (prev msg : Message) : Bool :=
  prev.role = .assistant && msg.role = .assistant && prev.toolCalls.isEmpty &&
    msg.toolCalls.isEmpty && prev.content.isSome && msg.content.isSome

/-- The content of two merged assistant messages. -/
def joinContents (prev msg : String) : String :=
  let joined := PyStr.join "\n\n" ([PyStr.strip prev, PyStr.strip msg].filter (· ≠ ""))
  if joined = "" then prev else joined

/-- The loop of `_coalesce_consecutive_assistants`, with the last message put out so far. -/
def coalesceFrom (prev : Message) : List Message → List Message
  | [] => [prev]
  | msg :: msgs =>
    if mergeable prev msg then
      coalesceFrom { prev with
        content := some (joinContents (prev.content.getD "") (msg.content.getD "")) } msgs
    else prev :: coalesceFrom msg msgs

/-- `_coalesce_consecutive_assistants`. -/
def coalesceConsecutiveAssistants : List Message → List Message
  | [] => []
  | msg :: msgs => coalesceFrom msg msgs

/-- `_has_bare_user_message`. -/
def hasBareUserMessage (messages : List Message) : Bool :=
  messages.any fun msg => msg.role = .user && !PyStr.isBlank (msg.content.getD "")

/-- `_ensure_user_query`. -/
def ensureUserQuery (messages : List Message) (anchor : Option String) : List Message :=
  if hasBareUserMessage messages then messages
  else
    let stripped := PyStr.strip (anchor.getD "")
    let text := if stripped = "" then fallbackUserMessage else stripped
    let userMsg : Message := { role := .user, content := some text }
    match messages with
    | [] => [userMsg]
    | msg :: msgs =>
      if msg.role = .system then msg :: userMsg :: msgs else userMsg :: msg :: msgs

/-! ### The budgeting loop -/

/-- The window the budgeting loop works on: the turns still in it, the records shown as
a notice, the turns dropped, and the token count of the first pass. -/
structure Window where
  turns : List TurnRecord
  degradedTcIds : List String := []
  turnsDropped : ℕ := 0
  untrimmedTokens : ℕ := 0
  deriving DecidableEq, Repr

/-- `_degrade_oldest_tool`: the id of the oldest unsummarized record not yet degraded. -/
def degradeOldestTool (turns : List TurnRecord) (degraded : List String) : Option String :=
  ((turns.flatMap TurnRecord.toolCalls).find? fun tc =>
    tc.tcId ∉ degraded ∧ summaryText tc = "").map ToolCallRecord.tcId

/-- What one call of `build` is given. -/
structure BuildInput where
  session : AgentSession
  systemContent : String
  currentUserMessage : Option String := none
  tokenBudget : ℤ := 100000

/-- The message list of a window before the final touches. -/
def windowMessages (cfg : BuilderConfig) (counter : TokenCounter) (inp : BuildInput)
    (w : Window) : List Message :=
  { role := .system, content := some inp.systemContent } ::
    (w.turns.flatMap (turnToMessages cfg counter w.degradedTcIds) ++
      userMessages inp.currentUserMessage)

/-- The budgeting loop of `build`: degrade the oldest tool result, else drop the oldest
turn, until the list fits. -/
def budgetLoop (cfg : BuilderConfig) (counter : TokenCounter) (inp : BuildInput) :
    ℕ → Window → Window
  | 0, w => w
  | n + 1, w =>
    let total := counter.countMessages (windowMessages cfg counter inp w)
    let w := if w.untrimmedTokens = 0 then { w with untrimmedTokens := total } else w
    if (total : ℤ) ≤ inp.tokenBudget then w
    else
      -- tool results go before turns, each oldest first
      match degradeOldestTool w.turns w.degradedTcIds with
      | some tcId => budgetLoop cfg counter inp n { w with degradedTcIds := tcId :: w.degradedTcIds }
      | none =>
        match w.turns with
        | [] => w
        | _ :: turns =>
          budgetLoop cfg counter inp n { w with turns := turns, turnsDropped := w.turnsDropped + 1 }

/-- Enough passes for the budgeting loop: one for each record, one for each turn, and
the last. -/
def budgetFuel (turns : List TurnRecord) : ℕ :=
  (turns.flatMap TurnRecord.toolCalls).length + turns.length + 1

/-- The user message `_ensure_user_query` falls back to. -/
def anchorUserMessage (inp : BuildInput) : Option String :=
  match truthy inp.currentUserMessage with
  | some m => some m
  | none => inp.session.turns.reverse.findSome? fun t => truthy t.userMessage

/-- The window `build` settles on. -/
def buildWindow (cfg : BuilderConfig) (counter : TokenCounter) (inp : BuildInput) : Window :=
  budgetLoop cfg counter inp (budgetFuel inp.session.turns) { turns := inp.session.turns }

/-- `ContextWindowBuilder.build`. -/
def build (cfg : BuilderConfig) (counter : TokenCounter) (inp : BuildInput) : List Message :=
  coalesceConsecutiveAssistants
    (ensureUserQuery (windowMessages cfg counter inp (buildWindow cfg counter inp))
      (anchorUserMessage inp))

/-! ### Recurring savings -/

/-- The record a call id stands for: the last record of the session that carries it. -/
def tcByCallId (s : AgentSession) (callId : String) : Option ToolCallRecord :=
  if callId = "" then none
  else (s.turns.flatMap TurnRecord.toolCalls).reverse.find? fun tc => tc.callId = callId

/-- The saving of one message of the context. -/
def rcsSavingOf (cfg : BuilderConfig) (counter : TokenCounter) (s : AgentSession)
    (msg : Message) : ℕ :=
  if msg.role ≠ .tool then 0
  else
    match tcByCallId s (msg.toolCallId.getD "") with
    | none => 0
    | some tc =>
      if summaryText tc = "" then 0
      else
        counter.countString (tagPrefix cfg tc ++ tc.rawResponse) cfg.model -
          counter.countString (msg.content.getD "") cfg.model

/-- `count_rcs_savings`. -/
def countRcsSavings (cfg : BuilderConfig) (counter : TokenCounter) (messages : List Message)
    (s : AgentSession) : ℕ :=
  if cfg.rcsEnabled then (messages.map (rcsSavingOf cfg counter s)).sum else 0

end Nexus
