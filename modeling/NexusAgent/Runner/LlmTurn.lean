import NexusAgent.Llm.Adapter
import NexusAgent.Runner.State
import Mathlib.Data.List.Sort

/-!
# The model call

`_call_llm` and the delta accumulation of `nexus/runner/agent_runner.py`. A blocking
call returns the proxy's response. A streaming call yields an event for every text
delta, collects the deltas (`StreamAcc`), and assembles a response when the stream ends.

`callResponse` is the response either call ends with when nobody cancels, as a function
of the proxy alone, and `wp_callLLM` says that this is the one the loop gets.
-/

open Lib

namespace Nexus

/-! ### Accumulating tool-call deltas -/

/-- One tool call under accumulation. -/
structure AccEntry where
  id : Option String := none
  name : String := ""
  arguments : String := ""
  deriving DecidableEq, Repr

/-- `_merge_tool_call_delta` on the entry of the delta's index. -/
def AccEntry.merge (entry : AccEntry) (delta : ToolCallDelta) : AccEntry :=
  let fn := delta.function.getD {}
  { id := (truthy delta.id).or entry.id
    name := ((truthy fn.name).or (truthy delta.name)).getD entry.name
    arguments := entry.arguments ++ delta.arguments.getD "" ++ fn.arguments.getD "" }

/-- `_merge_tool_call_delta`. -/
def mergeToolCallDelta (accumulated : Dict ℕ AccEntry) (delta : ToolCallDelta) :
    Dict ℕ AccEntry :=
  Dict.set accumulated delta.index (((Dict.get? accumulated delta.index).getD {}).merge delta)

section Requests

variable (limits : Json.Limits)

/-- The request of one accumulated entry; entries without a name have none. -/
def AccEntry.request (idx : ℕ) (entry : AccEntry) : Option (Option ToolCallRequest) :=
  if entry.name = "" then none
  else
    let args := if entry.arguments = "" then some (.obj []) else parseArguments limits entry.arguments
    some (args.bind
      (ToolCallRequest.validate (entry.id.getD ("call_stream_" ++ toString idx)) entry.name))

/-- `_tool_calls_from_accumulated`; `none` is the validation error, or one of `json.loads` that is
no `JSONDecodeError`. -/
def toolCallsFromAccumulated (accumulated : Dict ℕ AccEntry) : Option (List ToolCallRequest) :=
  ((accumulated.insertionSort fun p q => p.1 ≤ q.1).filterMap fun p =>
    p.2.request limits p.1).mapM id

end Requests

/-- What a streaming call has collected. -/
structure StreamAcc where
  contentParts : List String := []
  reasoningParts : List String := []
  toolCalls : Dict ℕ AccEntry := []
  usage : TokenUsage := {}

/-- Take a chunk into account. -/
def StreamAcc.add (acc : StreamAcc) (chunk : LLMStreamChunk) : StreamAcc where
  contentParts := acc.contentParts ++ (truthy chunk.content).toList
  reasoningParts := acc.reasoningParts ++ (truthy chunk.reasoning).toList
  toolCalls := chunk.toolCalls.foldl mergeToolCallDelta acc.toolCalls
  usage := chunk.usage.getD acc.usage

/-- `"".join(parts) if parts else None`. -/
def joinParts (parts : List String) : Option String :=
  if parts.isEmpty then none else some (PyStr.join "" parts)

/-- The response assembled at the end of a stream; `none` is an error. -/
def StreamAcc.response (limits : Json.Limits) (acc : StreamAcc) : Option LLMResponse :=
  (toolCallsFromAccumulated limits acc.toolCalls).map fun calls =>
    { content := joinParts acc.contentParts
      reasoning := joinParts acc.reasoningParts
      toolCalls := calls
      usage := acc.usage }

/-! ### The call -/

variable {a : StoreAdapter}

/-- The events a chunk makes a streaming run yield. -/
def chunkEvents (turnIndex : ℕ) (chunk : LLMStreamChunk) : List StreamEvent :=
  ((truthy chunk.reasoning).map (StreamEvent.reasoning · turnIndex)).toList ++
    ((truthy chunk.content).map (StreamEvent.content · turnIndex)).toList

/-- The `async for` over the chunks of call `k`, from chunk `i` on. -/
def streamFrom (env : Env a) (k turnIndex : ℕ) :
    ℕ → StreamAcc → List LLMStreamChunk → Run a StreamAcc
  | _, acc, [] => pure acc
  | i, acc, chunk :: chunks => do
    raiseIfCancelled (env.cancelChunk k i)
    Prog.modify fun s => { s with events := s.events ++ chunkEvents turnIndex chunk }
    streamFrom env k turnIndex (i + 1) (acc.add chunk) chunks

/-- `_call_llm`, for call `k` of the run. -/
def callLLM (env : Env a) (stream : Bool) (k turnIndex : ℕ) : Run a LLMResponse :=
  if !stream then
    Prog.ofExcept ((env.proxy.chat k).mapError RunError.error)
  else do
    let script := env.proxy.chatStream k
    let acc ← streamFrom env k turnIndex 0 {} script.chunks
    match script.failure with
    | some e => Prog.throw (.error e)
    | none =>
      match acc.response env.limits with
      | some response => pure response
      | none => Prog.throw (.error (env.validationError "ToolCallRequest"))

/-- `_limit_tool_calls`. -/
def limitToolCalls (cfg : TurnConfig) (calls : List ToolCallRequest) : List ToolCallRequest :=
  if cfg.maxToolCallsPerTurn = 0 ∨ calls.length ≤ cfg.maxToolCallsPerTurn then calls
  else calls.take cfg.maxToolCallsPerTurn

/-- The response the loop works with: calls in the text promoted, their number limited. -/
def acceptedResponse (env : Env a) (k : ℕ) (r : LLMResponse) : LLMResponse :=
  let r := promoteContentToolCalls (env.extractToolCalls k) r
  { r with toolCalls := limitToolCalls env.config.turns r.toolCalls }

/-! ### The response as a function of the proxy -/

/-- The response the proxy's stream of call `k` stands for. -/
def streamedResponse (env : Env a) (k : ℕ) : Except String LLMResponse :=
  let script := env.proxy.chatStream k
  match script.failure with
  | some e => .error e
  | none =>
    match (script.chunks.foldl StreamAcc.add {}).response env.limits with
    | some response => .ok response
    | none => .error (env.validationError "ToolCallRequest")

/-- The response call `k` ends with unless it is cancelled. -/
def callResponse (env : Env a) (stream : Bool) (k : ℕ) : Except String LLMResponse :=
  if stream then streamedResponse env k else env.proxy.chat k

/-- Whether call `k` is left alone while it streams. -/
def Uncancelled (env : Env a) (k : ℕ) : Prop :=
  ∀ j < (env.proxy.chatStream k).chunks.length, env.cancelChunk k j = false

/-- Streaming only yields events: it collects the fold of the chunks, or is cancelled. -/
theorem wp_streamFrom (env : Env a) (k turnIndex : ℕ) (chunks : List LLMStreamChunk)
    (i : ℕ) (acc : StreamAcc) (s : RunState a) :
    Prog.wp (streamFrom env k turnIndex i acc chunks)
      (fun acc' s' => (acc' = chunks.foldl StreamAcc.add acc ∧
        ∀ j < chunks.length, env.cancelChunk k (i + j) = false) ∧
          ∃ events, s' = { s with events := events })
      (fun e s' => (e = .cancelled ∧ ∃ j < chunks.length, env.cancelChunk k (i + j) = true) ∧
        ∃ events, s' = { s with events := events }) s := by
  induction chunks generalizing i acc s with
  | nil => exact ⟨⟨rfl, by simp⟩, s.events, rfl⟩
  | cons chunk chunks ih =>
    unfold streamFrom raiseIfCancelled
    rw [Prog.wp_bind, Prog.wp_ite]
    -- cancelled before the first of the chunks left, or at one of the others
    refine ⟨fun h_cancel => ⟨⟨rfl, 0, by simp, h_cancel⟩, s.events, rfl⟩, fun h_cancel => ?_⟩
    rw [Bool.not_eq_true] at h_cancel
    simp only [Prog.wp_pure, Prog.wp_bind, Prog.wp_modify]
    refine Prog.wp_mono (ih (i + 1) (acc.add chunk) _) ?_ ?_
    · rintro acc' t ⟨⟨rfl, h_free⟩, h_t⟩
      refine ⟨⟨rfl, fun j h_j => ?_⟩, h_t⟩
      cases j with
      | zero => exact h_cancel
      | succ j =>
        rw [Nat.add_comm j 1, ← Nat.add_assoc]
        exact h_free j (by simpa using h_j)
    · rintro e t ⟨⟨rfl, j, h_j, h_hit⟩, h_t⟩
      refine ⟨⟨rfl, j + 1, by simpa using h_j, ?_⟩, h_t⟩
      rw [Nat.add_comm j 1, ← Nat.add_assoc]
      exact h_hit

/-- **The model call.** It changes nothing but the streamed events, and returns or raises
what the proxy's script says, unless it is cancelled. -/
theorem wp_callLLM (env : Env a) (stream : Bool) (k turnIndex : ℕ) (s : RunState a) :
    Prog.wp (callLLM env stream k turnIndex)
      (fun r s' => (callResponse env stream k = .ok r ∧ (stream = true → Uncancelled env k)) ∧
        ∃ events, s' = { s with events := events })
      (fun e s' => ((e = .cancelled ∧ stream = true ∧ ¬Uncancelled env k) ∨
          ∃ msg, e = .error msg ∧ callResponse env stream k = .error msg) ∧
        ∃ events, s' = { s with events := events }) s := by
  unfold callLLM callResponse
  cases stream with
  | false =>
    simp only [Bool.not_false, if_true, Prog.wp_ofExcept]
    cases h : env.proxy.chat k with
    | error msg => exact ⟨.inr ⟨msg, rfl, rfl⟩, s.events, rfl⟩
    | ok r => exact ⟨⟨rfl, fun h_stream => absurd h_stream Bool.false_ne_true⟩, s.events, rfl⟩
  | true =>
    simp only [Bool.not_true, Bool.false_eq_true, if_false, if_true, Prog.wp_bind]
    refine Prog.wp_mono (wp_streamFrom env k turnIndex _ 0 {} s) ?_ ?_
    · rintro acc s' ⟨⟨rfl, h_free⟩, events, rfl⟩
      have h_free' : Uncancelled env k := by simpa [Uncancelled] using h_free
      unfold streamedResponse
      cases h_script : env.proxy.chatStream k with
      | mk chunks failure =>
        -- an error after all the chunks is an error of the call
        cases failure with
        | some e => exact ⟨.inr ⟨e, rfl, rfl⟩, events, rfl⟩
        | none =>
          simp only
          cases (chunks.foldl StreamAcc.add {}).response env.limits with
          | none => exact ⟨.inr ⟨_, rfl, rfl⟩, events, rfl⟩
          | some r => exact ⟨⟨rfl, fun _ => h_free'⟩, events, rfl⟩
    · rintro e s' ⟨⟨rfl, j, h_j, h_hit⟩, events, rfl⟩
      refine ⟨.inl ⟨rfl, trivial, fun h_free => ?_⟩, events, rfl⟩
      rw [Nat.zero_add, h_free j h_j] at h_hit
      cases h_hit

end Nexus
