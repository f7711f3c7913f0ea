import NexusAgent.Llm.Response

/-!
# The provider adapter

The response conversion of `nexus/llm/adapters/litellm.py`: how a raw provider reply
becomes an `LLMResponse`. Argument texts that are not JSON become empty arguments; a
call that cannot be built (its arguments are JSON but not an object, or beyond the limits of
the interpreter) is dropped with a warning.
-/

open Lib

namespace Nexus

/-- A tool call as the provider sends it: an id, a function name and argument text. -/
structure RawToolCall where
  id : Option String := none
  name : Option String := none
  arguments : Option String := none
  deriving DecidableEq, Repr

/-- A provider reply, the parts the conversion reads. -/
structure RawReply where
  content : Option String := none
  reasoning : Option String := none
  toolCalls : List RawToolCall := []
  usage : TokenUsage := {}
  deriving DecidableEq, Repr

variable (limits : Json.Limits)

/-- The arguments an argument text stands for: text that is not JSON counts as `{}`. `none`: an
error that is no `JSONDecodeError`. -/
def parseArguments (text : String) : Option Json :=
  match Json.load limits text with
  | .ok args => some args
  | .error .decode => some (.obj [])
  | .error .limit => none

/-- The text of no arguments is within the limits of every interpreter. -/
theorem parseArguments_braces : parseArguments limits "\x7b\x7d" = some (.obj []) := by
  have h_within : Json.exceeds limits "\x7b\x7d" = false := by
    have h_shallow := limits.shallow
    show (decide (limits.nesting ≤ 0) || false) = false
    simp only [Bool.or_false, decide_eq_false_iff_not]
    omega
  have h_loads : Json.loads "\x7b\x7d" = some (.obj []) := by decide +kernel
  unfold parseArguments Json.load
  simp only [h_within, h_loads, Bool.false_eq_true, if_false]

/-- `LiteLLMAdapter._parse_tool_calls`, continuing with the calls converted so far. -/
def parseToolCallsFrom (done : List ToolCallRequest) : List RawToolCall → List ToolCallRequest
  | [] => done
  | tc :: tcs =>
    let args := parseArguments limits ((truthy tc.arguments).getD "\x7b\x7d")
    let id := (truthy tc.id).getD ("call_" ++ toString done.length)
    match args.bind (ToolCallRequest.validate id (tc.name.getD "")) with
    | some req => parseToolCallsFrom (done ++ [req]) tcs
    | none => parseToolCallsFrom done tcs

/-- `LiteLLMAdapter._parse_tool_calls`. -/
def parseToolCalls (raw : List RawToolCall) : List ToolCallRequest :=
  parseToolCallsFrom limits [] raw

/-- `LiteLLMAdapter._parse_response`. -/
def parseResponse (r : RawReply) : LLMResponse where
  content := r.content
  reasoning := truthy r.reasoning
  toolCalls := parseToolCalls limits r.toolCalls
  usage := r.usage

end Nexus
