import NexusAgent.Context.Recurring
import NexusAgent.Rcs.Savings
import NexusAgent.Runner.Pairing
import NexusAgent.Runner.TcIds

/-!
# Recurring savings over a history

The turns a runner stores keep the calls of the response in their assistant message, and a
record for each of the first of them, under the call id that the model or the adapter gave. So
a tool message answers the call of its record, and the savings count is exact as long as call
ids tell the records with a summary from all others. Nothing in the code sees to that: ids are
stored as given, and an adapter makes up the same ids for every response that has none.

* `NewTurn.answersInOrder`: a pass stores the records in the order of the calls.
* `savings_exact_reachable`: the count for any session reached.
* `savings_not_exact`: two responses with the same call id.
-/

open Lib

namespace Nexus

variable {a : StoreAdapter}

/-- The turn has one assistant message, and its records have the ids of its first calls. -/
def AnswersInOrder (t : TurnRecord) : Prop :=
  ∃ msg, t.llmMessages = [msg] ∧ msg.role = .assistant ∧
    t.toolCalls.map ToolCallRecord.callId <+: msg.toolCalls.map ToolCallEntry.id

/-- The tool message of a record answers its call. -/
theorem AnswersInOrder.toolCallIdOf {t : TurnRecord} (h : AnswersInOrder t)
    (h_nodup : (t.toolCalls.map ToolCallRecord.tcId).Nodup) {tc : ToolCallRecord}
    (h_tc : tc ∈ t.toolCalls) : toolCallIdOf t tc = tc.callId := by
  obtain ⟨msg, h_msg, h_role, h_prefix⟩ := h
  obtain ⟨i, h_i, rfl⟩ := List.getElem_of_mem h_tc
  -- the record is found at its own place
  have h_idx : t.toolCalls.idxOf t.toolCalls[i] = i :=
    List.Nodup.idxOf_getElem (List.Nodup.of_map _ h_nodup) i h_i
  -- the message has a call for each record
  have h_le : t.toolCalls.length ≤ msg.toolCalls.length := by
    simpa using h_prefix.length_le
  have h_calls : msg.toolCalls ≠ [] := List.ne_nil_of_length_pos (by omega)
  have h_entry := List.getElem?_eq_getElem (h_i.trans_le h_le)
  -- with the id of the record
  have h_id : msg.toolCalls[i].id = t.toolCalls[i].callId := by
    have h_get := h_prefix.getElem (i := i) (by simpa using h_i)
    simpa using h_get.symm
  simp [Nexus.toolCallIdOf, h_msg, h_role, h_calls, h_idx, h_entry, h_id]

/-- Turns of one shell answer their calls alike. -/
theorem answersInOrder_of_shell {t t' : TurnRecord} (h : t'.shell = t.shell)
    (h_answers : AnswersInOrder t) : AnswersInOrder t' := by
  have h_messages : t'.llmMessages = t.llmMessages := by
    have := congrArg TurnRecord.llmMessages h
    exact this
  have h_ids : t'.toolCalls.map ToolCallRecord.callId = t.toolCalls.map ToolCallRecord.callId := by
    have := congrArg (fun u : TurnRecord => u.toolCalls.map ToolCallRecord.callId) h
    simpa [TurnRecord.shell, ToolCallRecord.bare, Function.comp_def] using this
  unfold AnswersInOrder
  rwa [h_messages, h_ids]

/-- **A pass stores the records in the order of the calls.** -/
theorem NewTurn.answersInOrder {env : Env a} {stream : Bool} {s : RunState a} {turn : TurnRecord}
    (h : NewTurn env stream s turn) : AnswersInOrder turn := by
  cases h with
  -- an answer has no calls
  | answer => exact ⟨_, rfl, buildAssistant_role _ _, List.nil_prefix⟩
  | @tools sent r t u v h_reply h_accepted outs obs h_effect handled n h_handled c savings =>
    have h_results := h_handled.results h_effect.logged
    refine ⟨_, rfl, buildAssistant_role _ _, ?_⟩
    rw [buildAssistant_toolCalls, toolCallsToOpenaiMessages_ids, handledCalls_ids,
      List.prefix_iff_getElem?]
    intro i h_i
    -- the record at each place is that of the call there
    have h_i : i < handled.length := by simpa [toolRecord] using h_i
    obtain ⟨req, j, h_req, -, -, h_as⟩ := h_effect.logged.returned i handled[i]
      (h_results.returned i _ (List.getElem?_eq_getElem h_i))
    simp [toolRecord, h_req, h_as.tcId.2.2]

/-- **The savings count is exact** for every list built from a session reached, as long as RCS is
on, and the call id of each record with a usable summary is not empty and no other record's. -/
theorem savings_exact_reachable {sid : String} {s : AgentSession} (h : Reachable sid s)
    (h_linked : SummariesLinked s) (cfg : BuilderConfig) (h_on : SummariesOn cfg s)
    (counter : TokenCounter) (systemContent : String) (currentUserMessage : Option String) (tokenBudget : ℤ) :
    SavingsExact cfg counter ⟨s, systemContent, currentUserMessage, tokenBudget⟩ := by
  have h_answers := h.turns (fun _ _ => answersInOrder_of_shell) fun h_new => h_new.answersInOrder
  have h_ids := (tcIds_unique h).1
  refine savings_exact cfg counter _ h_on (fun t ht msg h_msg => ?_) (fun t ht tc h_tc => ?_) h_linked
  · -- the stored messages are the assistant's
    obtain ⟨msg', h_messages, h_role, -⟩ := h_answers t ht
    rw [h_messages, List.mem_singleton] at h_msg
    rwa [h_msg]
  · -- the turn's records are among those of the session
    have h_sub : t.toolCalls.Sublist s.records := by
      rw [AgentSession.records, List.flatMap_def]
      exact List.sublist_flatten_of_mem (List.mem_map_of_mem ht)
    exact (h_answers t ht).toolCallIdOf ((h_sub.map _).nodup h_ids) h_tc

/-! ### Two responses with the same call id -/

/-- An agent with RCS that looks up twice, the second time with a summary of the first. -/
def resummingEnv (firstId secondId : String) : Env .memory where
  config := { builder := { rcsEnabled := true }, interceptor := { enabled := true } }
  registry := [("desk.lookup", {})]
  proxy := .scripted
    [{ toolCalls := [⟨firstId, "desk.lookup", []⟩] },
      { toolCalls := [⟨secondId, "desk.lookup", [("_context_updates",
        .arr [.obj [("tc_id", .str "TC1"), ("summary", .str "b")]])]⟩] },
      { content := some "Done." }]
  toolBody _ _ _ _ state := (.ok "data", state)

/-- The session after a run of the agent. -/
def resummedSession (firstId secondId : String) : AgentSession :=
  (execRun (resummingEnv firstId secondId) false { userMessage := "find it", sessionId := some "s" }
    (.empty .memory)).session

theorem reachable_resummed (firstId secondId : String) :
    Reachable "s" (resummedSession firstId secondId) := by
  have h_start : (Store.empty .memory).find? "s" = none := rfl
  exact .working h_start .refl (.run rfl) .finished

/-- **The count misses a saving**: the adapter made up the same id for both calls. -/
theorem savings_not_exact : ¬∀ (s : AgentSession), Reachable "s" s →
    ∀ (cfg : BuilderConfig) (counter : TokenCounter) (inp : BuildInput), inp.session = s →
      SavingsExact cfg counter inp := by
  intro h
  have h_exact := (h _ (reachable_resummed "call_0" "call_0") { rcsEnabled := true } charCounter
    ⟨_, "", none, 100000⟩ rfl).2
  exact absurd h_exact (by decide +kernel)

/-- With an id for each call the saving is there: ten characters less one. -/
theorem savings_exact_resummed :
    SavingsExact { rcsEnabled := true } charCounter ⟨resummedSession "c1" "c2", "", none, 100000⟩ ∧
      countRcsSavings { rcsEnabled := true } charCounter
        (build { rcsEnabled := true } charCounter ⟨resummedSession "c1" "c2", "", none, 100000⟩)
        (resummedSession "c1" "c2") ≠ 0 :=
  ⟨savings_exact_reachable (reachable_resummed "c1" "c2") (by decide +kernel) _ (.inl rfl) _ _ _ _,
    by decide +kernel⟩

end Nexus
