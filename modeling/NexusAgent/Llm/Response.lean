import NexusAgent.Session.Models

/-!
# Model responses and the proxy

The response models of `nexus/llm/response.py`, the proxy the runner talks to, and
the token counter. A proxy is what the provider does on each agent call of a run, in
order: the `k`-th call returns `chat k`, or streams the chunks of `chatStream k`.
-/

open Lib

namespace Nexus

/-- The token counts of one call that the runner reads. -/
structure TokenUsage where
  promptTokens : ℕ := 0
  completionTokens : ℕ := 0
  deriving DecidableEq, Repr

/-- A request from the model to call a tool. -/
structure ToolCallRequest where
  id : String
  toolName : String
  toolInput : ToolArgs := []
  deriving DecidableEq, Repr

/-- Building a request validates that the arguments are an object; `none` is the
validation error. -/
def ToolCallRequest.validate (id toolName : String) : Json → Option ToolCallRequest
  | .obj fields => some ⟨id, toolName, fields⟩
  | _ => none

/-- Complete response from a call. -/
structure LLMResponse where
  content : Option String := none
  reasoning : Option String := none
  toolCalls : List ToolCallRequest := []
  usage : TokenUsage := {}
  deriving DecidableEq, Repr

/-- The `function` part of an incremental tool-call chunk. -/
structure FunctionDelta where
  name : Option String := none
  arguments : Option String := none
  deriving DecidableEq, Repr

/-- An incremental tool-call chunk. -/
structure ToolCallDelta where
  index : ℕ := 0
  id : Option String := none
  name : Option String := none
  arguments : Option String := none
  function : Option FunctionDelta := none
  deriving DecidableEq, Repr

/-- A streaming chunk. -/
structure LLMStreamChunk where
  content : Option String := none
  reasoning : Option String := none
  toolCalls : List ToolCallDelta := []
  usage : Option TokenUsage := none
  deriving DecidableEq, Repr

/-- One streamed call: its chunks, and the error it ends with, if it does not end
normally. -/
structure StreamScript where
  chunks : List LLMStreamChunk := []
  failure : Option String := none
  deriving DecidableEq, Repr

/-- What the provider does on each agent call of a run. -/
structure LLMProxy where
  chat : ℕ → Except String LLMResponse
  chatStream : ℕ → StreamScript

/-- The proxy that answers its blocking calls with the given responses, and then fails. -/
def LLMProxy.scripted (responses : List LLMResponse) : LLMProxy where
  chat k := match responses[k]? with
    | some r => .ok r
    | none => .error "no response left"
  chatStream _ := {}

/-- A scripted proxy answers from its script. -/
theorem LLMProxy.mem_of_scripted {responses : List LLMResponse} {k : ℕ} {r : LLMResponse}
    (h : (LLMProxy.scripted responses).chat k = .ok r) : r ∈ responses := by
  simp only [LLMProxy.scripted] at h
  split at h
  · next h_get => exact Except.ok.inj h ▸ List.mem_of_getElem? h_get
  · cases h

/-- A token counter. `encode` is the tokenizer of a model, `countMessages` counts a
message list. -/
structure TokenCounter where
  encode : String → String → ℕ
  countMessages : List Message → ℕ

/-- `TokenCounter.count_string`; `model` names the tokenizer. -/
def TokenCounter.countString (c : TokenCounter) (text model : String) : ℕ :=
  if text = "" then 0 else c.encode model text

/-- The model `count_string` counts for when it is not told one. -/
def defaultModel : String := "gpt-4o"

/-- The value of an optional text that Python takes as true. -/
def truthy : Option String → Option String
  | some s => if s = "" then none else some s
  | none => none

end Nexus
