import Mathlib
import NexusAgent.Llm.Response

/-!
# Counting tokens

`TokenCounter` of `nexus/llm/token_counter.py`. Where `tiktoken` is installed, a text counts the
tokens of its encoding; where it is not, a token is four characters. A message list counts the
messages one by one (`countMessages_tokenCounter`).
-/

open Lib

namespace Nexus

/-- What is used of `tiktoken`: the lengths of encoded texts. `encodingForModel` has no encoding for
a model it does not know. -/
structure Tiktoken where
  encodingForModel : String → Option (String → ℕ)
  getEncoding : String → String → ℕ

/-- `part in text`. -/
def isIn (part text : String) : Bool := part.toList <:+: text.toList

/-- The encoding that `count_string` picks for a model. -/
def Tiktoken.encodingOfString (t : Tiktoken) (model : String) : String → ℕ :=
  if isIn "gpt-4" model || isIn "gpt-3.5" model then
    (t.encodingForModel model).getD (t.getEncoding "cl100k_base")
  else if isIn "o1" model || isIn "o3" model then t.getEncoding "o200k_base"
  else t.getEncoding "cl100k_base"

/-- The encoding that `count_messages` picks for a model. -/
def Tiktoken.encodingOfMessages (t : Tiktoken) (model : String) : String → ℕ :=
  (t.encodingForModel model).getD (t.getEncoding "cl100k_base")

/-- The text of a role. -/
def Role.text : Role → String
  | .system => "system"
  | .user => "user"
  | .assistant => "assistant"
  | .tool => "tool"

variable (tiktoken : Option Tiktoken) (strEntry : ToolCallEntry → String) (model : String)

/-- What `count_messages` counts for a text. -/
def textCost (text : String) : ℕ :=
  match tiktoken with
  | none => text.length / 4
  | some t => t.encodingOfMessages model text

/-- What `count_messages` adds for each message. -/
def tokensPerMessage : ℕ := if isIn "gpt-3.5-turbo-0301" model then 4 else 3

/-- What `count_messages` adds for a message; `strEntry` is `str` of the dictionary of a tool
call. -/
def messageCost (msg : Message) : ℕ :=
  match tiktoken with
  | none => textCost none model (msg.content.getD "") + 4
  | some t =>
    let encode := t.encodingOfMessages model
    tokensPerMessage model + encode msg.role.text + (msg.content.map encode).getD 0 +
      (msg.toolCalls.map fun entry => encode (strEntry entry)).sum +
      (msg.toolCallId.map encode).getD 0

/-- What `count_messages` adds for the reply. -/
def replyCost : ℕ :=
  match tiktoken with
  | none => 0
  | some _ => 3

/-- `TokenCounter`, for the messages of a model. -/
def tokenCounter : TokenCounter where
  encode model text :=
    match tiktoken with
    | none => text.length / 4
    | some t => t.encodingOfString model text
  countMessages messages :=
    messages.foldl (fun total msg => total + messageCost tiktoken strEntry model msg) 0 +
      replyCost tiktoken

/-- **A list counts its messages** and the reply. -/
theorem countMessages_tokenCounter (messages : List Message) :
    (tokenCounter tiktoken strEntry model).countMessages messages =
      (messages.map (messageCost tiktoken strEntry model)).sum + replyCost tiktoken := by
  show messages.foldl _ 0 + _ = _
  rw [← List.foldl_map, ← List.sum_eq_foldl]

/-- The part of a tool message's count that is not its content's. -/
def toolOverhead (callId : String) : ℕ :=
  match tiktoken with
  | none => 4
  | some t =>
    tokensPerMessage model + t.encodingOfMessages model Role.tool.text +
      t.encodingOfMessages model callId

/-- What a tool message counts. -/
theorem messageCost_tool (callId text : String) :
    messageCost tiktoken strEntry model
        { role := .tool, content := some text, toolCallId := some callId } =
      toolOverhead tiktoken model callId + textCost tiktoken model text := by
  cases tiktoken with
  | none => exact Nat.add_comm _ _
  | some t =>
    simp only [messageCost, toolOverhead, textCost, Option.map_some, Option.getD_some, List.map_nil,
      List.sum_nil]
    omega

end Nexus
