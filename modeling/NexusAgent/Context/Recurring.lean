import NexusAgent.Lib.Perm
import NexusAgent.Context.Pairing

/-!
# Recurring savings

`count_rcs_savings` of `nexus/context/builder.py` compares the tool messages of a context with
what they would be without RCS. It finds the record of a message by the provider's call id.

* `renderedTools`: the tool messages of a context, each with the record it was rendered from.
* `SavingsExact`: the count is the sum of what these records save.
* `savings_exact`: it is, if RCS is on and call ids tell the records with a summary from all others.
-/

open Lib

namespace Nexus

/-! ### The tool messages of a context -/

/-- The tool messages of a list. -/
def toolMessages (messages : List Message) : List Message := messages.filter (·.role = .tool)

/-- The tool messages of a window, with the records they render. -/
def renderedTools (cfg : BuilderConfig) (counter : TokenCounter) (w : Window) :
    List (ToolCallRecord × Message) :=
  w.turns.flatMap fun t => t.toolCalls.map fun tc =>
    (tc, { role := .tool, toolCallId := some (toolCallIdOf t tc),
           content := some (renderToolMessage cfg counter tc (tc.tcId ∈ w.degradedTcIds)) })

@[simp] theorem toolMessages_cons (msg : Message) (messages : List Message) :
    toolMessages (msg :: messages) =
      if msg.role = .tool then msg :: toolMessages messages else toolMessages messages := by
  simp [toolMessages, List.filter_cons]

@[simp] theorem toolMessages_append (messages messages' : List Message) :
    toolMessages (messages ++ messages') = toolMessages messages ++ toolMessages messages' :=
  List.filter_append ..

/-- Merging assistant messages leaves the tool messages. -/
theorem toolMessages_coalesceFrom (prev : Message) (messages : List Message) :
    toolMessages (coalesceFrom prev messages) = toolMessages (prev :: messages) := by
  induction messages generalizing prev with
  | nil => rfl
  | cons msg messages ih =>
    unfold coalesceFrom
    split_ifs with h
    · -- both are assistant messages
      simp only [mergeable, Bool.and_eq_true, decide_eq_true_eq] at h
      obtain ⟨⟨⟨⟨⟨h_prev, h_msg⟩, -⟩, -⟩, -⟩, -⟩ := h
      simp [ih, h_prev, h_msg]
    · rw [toolMessages_cons, ih, ← toolMessages_cons]

/-- The user message put in front is no tool message. -/
theorem toolMessages_ensureUserQuery (messages : List Message) (anchor : Option String) :
    toolMessages (ensureUserQuery messages anchor) = toolMessages messages := by
  unfold ensureUserQuery
  split_ifs
  · rfl
  · cases messages with
    | nil => simp
    | cons msg messages => dsimp only; split_ifs <;> simp

theorem toolMessages_userMessages (text : Option String) : toolMessages (userMessages text) = [] := by
  unfold userMessages
  split <;> simp [toolMessages]

/-- A turn whose messages are the assistant's renders its records, and no other tool message. -/
theorem toolMessages_turnToMessages (cfg : BuilderConfig) (counter : TokenCounter)
    (degraded : List String) {t : TurnRecord} (h : ∀ msg ∈ t.llmMessages, msg.role = .assistant) :
    toolMessages (turnToMessages cfg counter degraded t) = t.toolCalls.map fun tc =>
      { role := .tool, toolCallId := some (toolCallIdOf t tc),
        content := some (renderToolMessage cfg counter tc (tc.tcId ∈ degraded)) } := by
  -- the stored messages are the assistant's, and no tool messages
  have h_llm : toolMessages (t.llmMessages.map fun msg =>
      if msg.role = .assistant then sanitizeAssistantLlmMessage msg emptyAssistantPlaceholder
      else msg) = [] := by
    refine List.filter_eq_nil_iff.mpr fun msg' h_mem => ?_
    obtain ⟨msg, h_msg, rfl⟩ := List.mem_map.mp h_mem
    simp [h msg h_msg, sanitize_role]
  rw [turnToMessages, toolMessages_append, toolMessages_append, toolMessages_userMessages, h_llm,
    List.nil_append, List.nil_append]
  -- what is left are the answers to the calls, all of them tool messages
  refine List.filter_eq_self.mpr fun msg h_mem => ?_
  obtain ⟨tc, -, rfl⟩ := List.mem_map.mp h_mem
  rfl

/-- **The tool messages of a context** are the renderings of the records in its window. -/
theorem toolMessages_build (cfg : BuilderConfig) (counter : TokenCounter) (inp : BuildInput)
    (h : ∀ t ∈ inp.session.turns, ∀ msg ∈ t.llmMessages, msg.role = .assistant) :
    toolMessages (build cfg counter inp) =
      (renderedTools cfg counter (buildWindow cfg counter inp)).map Prod.snd := by
  -- only assistant messages are merged
  have h_coalesce (messages : List Message) :
      toolMessages (coalesceConsecutiveAssistants messages) = toolMessages messages := by
    cases messages with
    | nil => rfl
    | cons msg messages => exact toolMessages_coalesceFrom msg messages
  -- the window's turns are turns of the session
  have h_window : ∀ t ∈ (buildWindow cfg counter inp).turns, t ∈ inp.session.turns :=
    budgetLoop_turns cfg counter inp _ _
  have h_turns (turns : List TurnRecord) (degraded : List String) :
      toolMessages (turns.flatMap (turnToMessages cfg counter degraded)) =
        turns.flatMap fun t => toolMessages (turnToMessages cfg counter degraded t) :=
    List.filter_flatMap ..
  rw [build, h_coalesce, toolMessages_ensureUserQuery, windowMessages, toolMessages_cons,
    if_neg (by simp), toolMessages_append, toolMessages_userMessages, List.append_nil, h_turns,
    renderedTools, List.map_flatMap]
  refine List.flatMap_congr fun t h_t => ?_
  rw [toolMessages_turnToMessages cfg counter _ (h t (h_window t h_t)), List.map_map]
  rfl

/-! ### The count -/

/-- What a record is rendered as that has no summary. -/
def rawRendering (cfg : BuilderConfig) (tc : ToolCallRecord) : String :=
  if cfg.rcsEnabled then tagPrefix cfg tc ++ tc.rawResponse else tc.rawResponse

/-- What a summary saves in a tool message: the tokens of the raw rendering of its record less
those of the message, if the record has a usable summary. -/
def recurringSaving (cfg : BuilderConfig) (counter : TokenCounter)
    (rendered : ToolCallRecord × Message) : ℕ :=
  if summaryText rendered.1 ≠ "" then
    counter.countString (rawRendering cfg rendered.1) cfg.model -
      counter.countString (rendered.2.content.getD "") cfg.model
  else 0

/-- The tool messages of the context are rendered from the records in its window, and the count
is the sum of what they save. -/
def SavingsExact (cfg : BuilderConfig) (counter : TokenCounter) (inp : BuildInput) : Prop :=
  let rendered := renderedTools cfg counter (buildWindow cfg counter inp)
  toolMessages (build cfg counter inp) = rendered.map Prod.snd ∧
    countRcsSavings cfg counter (build cfg counter inp) inp.session =
      (rendered.map (recurringSaving cfg counter)).sum

/-- The call id of a record with a usable summary is not empty, and no other record has it. -/
def SummariesLinked (s : AgentSession) : Prop :=
  ∀ tc ∈ s.turns.flatMap TurnRecord.toolCalls, summaryText tc ≠ "" →
    tc.callId ≠ "" ∧ ∀ tc' ∈ s.turns.flatMap TurnRecord.toolCalls, tc'.callId = tc.callId → tc' = tc

instance (s : AgentSession) : Decidable (SummariesLinked s) :=
  inferInstanceAs (Decidable (∀ _ ∈ _, _))

/-- A record with a usable summary is the one its call id leads to, and a record without one is
not taken for one that has it. -/
theorem tcByCallId_of_linked {s : AgentSession} (h : SummariesLinked s) {tc : ToolCallRecord}
    (h_tc : tc ∈ s.turns.flatMap TurnRecord.toolCalls) :
    (summaryText tc ≠ "" ∧ tcByCallId s tc.callId = some tc) ∨
      summaryText tc = "" ∧ ∀ tc', tcByCallId s tc.callId = some tc' → summaryText tc' = "" := by
  unfold tcByCallId
  by_cases h_summary : summaryText tc = ""
  · refine .inr ⟨h_summary, fun tc' h_found => ?_⟩
    split at h_found
    · cases h_found
    · have h_mem : tc' ∈ s.turns.flatMap TurnRecord.toolCalls :=
        List.mem_reverse.mp (List.mem_of_find?_eq_some h_found)
      have h_id : tc'.callId = tc.callId := by simpa using List.find?_some h_found
      -- a usable summary under the same id would be the only call with it
      by_contra h_usable
      rw [← (h tc' h_mem h_usable).2 tc h_tc h_id.symm] at h_usable
      exact h_usable h_summary
  · obtain ⟨h_id, h_only⟩ := h tc h_tc h_summary
    refine .inl ⟨h_summary, ?_⟩
    rw [if_neg h_id]
    cases h_found : (s.turns.flatMap TurnRecord.toolCalls).reverse.find? fun tc' =>
        tc'.callId = tc.callId with
    -- the call itself is among those searched
    | none =>
      have h_none := List.find?_eq_none.mp h_found tc (List.mem_reverse.mpr h_tc)
      simp at h_none
    | some tc' =>
      have h_mem := List.mem_reverse.mp (List.mem_of_find?_eq_some h_found)
      rw [h_only tc' h_mem (by simpa using List.find?_some h_found)]

/-- RCS is on, or the session has no summary that is still rendered. -/
def SummariesOn (cfg : BuilderConfig) (s : AgentSession) : Prop :=
  cfg.rcsEnabled = true ∨ ∀ tc ∈ s.turns.flatMap TurnRecord.toolCalls, summaryText tc = ""

/-- **The count is exact**, if RCS is on, every tool message answers the call of its record, and
call ids tell the records with a summary from all others. -/
theorem savings_exact (cfg : BuilderConfig) (counter : TokenCounter) (inp : BuildInput)
    (h_summaries : SummariesOn cfg inp.session)
    (h_roles : ∀ t ∈ inp.session.turns, ∀ msg ∈ t.llmMessages, msg.role = .assistant)
    (h_answers : ∀ t ∈ inp.session.turns, ∀ tc ∈ t.toolCalls, toolCallIdOf t tc = tc.callId)
    (h_linked : SummariesLinked inp.session) : SavingsExact cfg counter inp := by
  have h_tools := toolMessages_build cfg counter inp h_roles
  -- a tool message in the context was rendered from a record of the session
  have h_rendered : ∀ rendered ∈ renderedTools cfg counter (buildWindow cfg counter inp),
      ∃ t ∈ inp.session.turns, ∃ tc ∈ t.toolCalls, rendered =
        (tc, { role := .tool, toolCallId := some (toolCallIdOf t tc),
               content := some (renderToolMessage cfg counter tc
                (tc.tcId ∈ (buildWindow cfg counter inp).degradedTcIds)) }) := by
    intro rendered h_mem
    obtain ⟨t, h_t, h_mem⟩ := List.mem_flatMap.mp h_mem
    obtain ⟨tc, h_tc, rfl⟩ := List.mem_map.mp h_mem
    exact ⟨t, budgetLoop_turns cfg counter inp _ _ t h_t, tc, h_tc, rfl⟩
  refine ⟨h_tools, ?_⟩
  unfold countRcsSavings
  cases h_on : cfg.rcsEnabled with
  | false =>
    -- the code counts nothing, and no record has a summary
    have h_empty := h_summaries.resolve_left (by simp [h_on])
    rw [if_neg Bool.false_ne_true]
    refine (List.sum_eq_zero fun saving h_saving => ?_).symm
    obtain ⟨rendered, h_mem, rfl⟩ := List.mem_map.mp h_saving
    obtain ⟨t, h_t, tc, h_tc, rfl⟩ := h_rendered rendered h_mem
    exact if_neg (not_not.mpr (h_empty tc (List.mem_flatMap.mpr ⟨t, h_t, h_tc⟩)))
  | true =>
    -- only the tool messages count
    have h_sum : ((build cfg counter inp).map (rcsSavingOf cfg counter inp.session)).sum =
        ((toolMessages (build cfg counter inp)).map (rcsSavingOf cfg counter inp.session)).sum :=
      (sum_filter_of_zero _ fun msg _ h_role => by
        simp [rcsSavingOf, of_decide_eq_false h_role]).symm
    rw [if_pos rfl, h_sum, h_tools, List.map_map]
    refine congrArg List.sum (List.map_congr_left fun rendered h_mem => ?_)
    obtain ⟨t, h_t, tc, h_tc, rfl⟩ := h_rendered rendered h_mem
    simp only [Function.comp_apply, rcsSavingOf, recurringSaving, rawRendering, h_on, if_true,
      Option.getD_some, h_answers t h_t tc h_tc, ne_eq, not_true_eq_false, if_false]
    rcases tcByCallId_of_linked h_linked (List.mem_flatMap.mpr ⟨t, h_t, h_tc⟩) with
      ⟨h_summary, h_found⟩ | ⟨h_summary, h_found⟩
    · simp [h_found, h_summary]
    · rw [if_neg (not_not.mpr h_summary)]
      split
      · rfl
      · next tc' h_some => rw [if_pos (h_found tc' h_some)]

end Nexus
