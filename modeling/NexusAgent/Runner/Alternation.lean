import NexusAgent.Context.Alternation
import NexusAgent.Runner.Pairing
import NexusAgent.Runner.Underway

/-!
# Alternating roles

The turns a runner stores have one assistant message each, with a record for the first of
its tool calls at least. So the contexts built from any session a runner can have are safe
for strict providers but for one pattern: the tool calls of a turn without a user message
come directly after the text of the turn before.

* `NewTurn.stepwise`: a pass stores a stepwise turn.
* `context_safe`: what the builder makes of any session reached.
* `context_not_alternating`: a text, and then a tool call in the same run.
-/

open Lib

namespace Nexus

variable {a : StoreAdapter}

/-- A session of stepwise turns. -/
def StepwiseSession (s : AgentSession) : Prop := ∀ t ∈ s.turns, Stepwise t

/-- Turns of one shell have the same steps. -/
theorem stepwise_of_shell {t t' : TurnRecord} (h : t'.shell = t.shell) (h_step : Stepwise t) :
    Stepwise t' := by
  have h_messages : t'.llmMessages = t.llmMessages := by
    have := congrArg TurnRecord.llmMessages h
    exact this
  have h_length : t'.toolCalls.length = t.toolCalls.length := by
    have := congrArg (fun u : TurnRecord => u.toolCalls.length) h
    simpa [TurnRecord.shell] using this
  obtain ⟨msg, h_msg, h_role, h_calls⟩ := h_step
  refine ⟨msg, h_messages.trans h_msg, h_role, h_calls.trans ?_⟩
  rw [← List.length_eq_zero_iff, ← h_length, List.length_eq_zero_iff]

/-- Handlers return nothing only for a response without calls. -/
theorem Results.eq_nil_iff {calls : List ToolCallRequest}
    {outs : List (ℕ × Except RunError Handled)} {handled : List Handled}
    (h : Results calls outs handled) : handled = [] ↔ calls = [] := by
  have h_bound := h.bound
  constructor
  · rintro rfl
    have h_complete := h.complete (by simp)
    exact List.eq_nil_of_length_eq_zero h_complete.symm
  · rintro rfl
    exact List.eq_nil_of_length_eq_zero (Nat.le_zero.mp h_bound)

/-- **A pass stores a stepwise turn.** -/
theorem NewTurn.stepwise {env : Env a} {stream : Bool} {s : RunState a} {turn : TurnRecord}
    (h : NewTurn env stream s turn) : Stepwise turn := by
  cases h with
  -- an answer: an assistant message without calls
  | @answer sent r t u h_reply h_accepted h_none savings =>
    refine ⟨_, rfl, buildAssistant_role _ _, ?_⟩
    rw [buildAssistant_toolCalls, h_none]
    exact iff_of_true rfl rfl
  -- tool calls: the message has calls exactly when the turn has records
  | @tools sent r t u v h_reply h_accepted outs obs h_effect handled n h_handled c savings =>
    have h_results := h_handled.results h_effect.logged
    -- intercepting changes no number of calls
    have h_calls : handledCalls env.config.interceptor n r.toolCalls = [] ↔ r.toolCalls = [] := by
      rw [← List.length_eq_zero_iff, ← List.length_eq_zero_iff,
        ← List.length_map ToolCallRequest.id, handledCalls_ids, List.length_map]
    refine ⟨_, rfl, buildAssistant_role _ _, ?_⟩
    rw [buildAssistant_toolCalls]
    show List.map _ _ = [] ↔ handled.map Handled.record = []
    rw [List.map_eq_nil_iff, List.map_eq_nil_iff, h_calls, h_results.eq_nil_iff]

/-- Every session a runner can have is made of stepwise turns. -/
theorem Reachable.stepwise {sid : String} {s : AgentSession} (h : Reachable sid s) :
    StepwiseSession s :=
  h.turns (fun _ _ => stepwise_of_shell) fun h_new => h_new.stepwise

/-- **The context of any session reached** is safe: assistant messages have content or tool
calls, and only a text and tool calls come one directly after the other. -/
theorem context_safe {sid : String} {s : AgentSession} (h : Reachable sid s) (cfg : BuilderConfig)
    (counter : TokenCounter) (systemContent : String) (currentUserMessage : Option String)
    (tokenBudget : ℤ) :
    ProviderSafe (build cfg counter ⟨s, systemContent, currentUserMessage, tokenBudget⟩) :=
  build_safe cfg counter _ h.stepwise

/-! ### A text, and then a tool call -/

/-- An agent that goes on after a text. -/
def talkingEnv : Env .memory where
  config := { turns := { stopOnEmptyToolCalls := false } }
  registry := [("desk.lookup", {})]
  proxy := .scripted [{ content := some "Let me see." }, { toolCalls := [⟨"c1", "desk.lookup", []⟩] }]

/-- Two turns of the agent. -/
def talkingRun : RunState .memory :=
  execRun talkingEnv false { userMessage := "find it", sessionId := some "s", maxTurns := some 2 }
    (.empty .memory)

theorem reachable_talking : Reachable "s" talkingRun.session := by
  have h_start : (Store.empty .memory).find? "s" = none := rfl
  exact .working h_start .refl (.run (by decide +kernel)) .finished

/-- **Two assistant messages in a row**: the text and the call are both sent. -/
theorem context_not_alternating :
    ∃ s, Reachable "s" s ∧ ∃ inp : BuildInput, inp.session = s ∧
      ¬Alternates (build {} ⟨fun _ _ => 0, fun _ => 0⟩ inp) := by
  refine ⟨talkingRun.session, reachable_talking, ⟨talkingRun.session, "", none, 100000⟩, rfl, fun h => ?_⟩
  -- the turn that answered by text alone is followed by one with a call
  have h_built : build {} ⟨fun _ _ => 0, fun _ => 0⟩ ⟨talkingRun.session, "", none, 100000⟩ =
      [{ role := .system, content := some "" }, { role := .user, content := some "find it" },
        { role := .assistant, content := some "Let me see." },
        { role := .assistant, content := none, toolCalls := [⟨"c1", "desk.lookup", "\x7b\x7d"⟩] },
        { role := .tool, content := some "", toolCallId := some "c1" }] := by
    decide +kernel
  rw [h_built] at h
  simp [Alternates] at h

/-- What is sent after the two turns is safe but for that. -/
theorem context_safe_talking :
    ProviderSafe (build {} ⟨fun _ _ => 0, fun _ => 0⟩ ⟨talkingRun.session, "", none, 100000⟩) :=
  context_safe reachable_talking {} ⟨fun _ _ => 0, fun _ => 0⟩ "" none 100000

end Nexus
