import NexusAgent.Llm.Response

/-!
# Assistant messages

`nexus/llm/tool_format.py` and the message half of `nexus/llm/content_tool_calls.py`:
how a response is stored as an assistant message, how a stored assistant message is
repaired before it is replayed, and how tool calls written into the text are promoted.
The text extraction itself (`extract_tool_calls_from_text`, which also draws fresh ids)
is a parameter of `promoteContentToolCalls`.
-/

open Lib

namespace Nexus

/-- `EMPTY_ASSISTANT_PLACEHOLDER`. -/
def emptyAssistantPlaceholder : String := "(prior step omitted)"

/-- `REASONING_ONLY_PLACEHOLDER`. -/
def reasoningOnlyPlaceholder : String := "(no response)"

/-- `tool_calls_to_openai_messages`. -/
def toolCallsToOpenaiMessages (calls : List ToolCallRequest) : List ToolCallEntry :=
  calls.map fun tc => ⟨tc.id, tc.toolName, (Json.obj tc.toolInput).dumps⟩

/-- `_has_assistant_substance`. -/
def hasAssistantSubstance (content : Option String) (toolCalls : List ToolCallEntry) : Bool :=
  !toolCalls.isEmpty ||
    match content with
    | none => false
    | some c => !PyStr.isBlank c

/-- `sanitize_assistant_llm_message`. -/
def sanitizeAssistantLlmMessage (msg : Message) (placeholder : String) : Message :=
  if msg.role ≠ .assistant then msg
  else if hasAssistantSubstance msg.content msg.toolCalls then msg
  else { msg with toolCalls := [], content := some placeholder }

/-- `build_assistant_llm_message`. -/
def buildAssistantLlmMessage (content : Option String) (toolCalls : List ToolCallRequest) :
    Message :=
  sanitizeAssistantLlmMessage
    { role := .assistant, content := content, toolCalls := toolCallsToOpenaiMessages toolCalls }
    reasoningOnlyPlaceholder

/-- `promote_content_tool_calls`: when there are no native tool calls, take those
written into the content, else those written into the reasoning. `extract` reads the
calls off a text and returns the text without them. -/
def promoteContentToolCalls (extract : Option String → List ToolCallRequest × Option String)
    (r : LLMResponse) : LLMResponse :=
  if !r.toolCalls.isEmpty then r
  else
    let (contentCalls, cleanedContent) := extract r.content
    if !contentCalls.isEmpty then
      { r with toolCalls := contentCalls, content := cleanedContent }
    else
      let (reasoningCalls, cleanedReasoning) := extract r.reasoning
      if !reasoningCalls.isEmpty then
        { r with toolCalls := reasoningCalls, reasoning := truthy cleanedReasoning }
      else r

/-! ### What a stored assistant message looks like -/

@[simp] theorem sanitize_role (msg : Message) (placeholder : String) :
    (sanitizeAssistantLlmMessage msg placeholder).role = msg.role := by
  unfold sanitizeAssistantLlmMessage
  split_ifs <;> rfl

/-- Repairing a message never changes the tool calls it carries. -/
@[simp] theorem sanitize_toolCalls (msg : Message) (placeholder : String) :
    (sanitizeAssistantLlmMessage msg placeholder).toolCalls = msg.toolCalls := by
  unfold sanitizeAssistantLlmMessage
  split_ifs with _ hs
  · rfl
  · rfl
  · -- without substance there were no tool calls
    have : msg.toolCalls = [] := by
      by_contra hne
      exact hs (by simp [hasAssistantSubstance, hne])
    simp [this]

@[simp] theorem buildAssistant_role (content : Option String) (calls : List ToolCallRequest) :
    (buildAssistantLlmMessage content calls).role = .assistant := by
  simp [buildAssistantLlmMessage]

@[simp] theorem buildAssistant_toolCalls (content : Option String)
    (calls : List ToolCallRequest) :
    (buildAssistantLlmMessage content calls).toolCalls = toolCallsToOpenaiMessages calls := by
  simp [buildAssistantLlmMessage]

end Nexus
