import NexusAgent.Context.Pairing
import NexusAgent.Runner.History
import NexusAgent.Runner.Results

/-!
# Tool-call pairing over a history

Every message list a run sends for a session is well paired, as long as no response was
left with unanswered calls: a turn stores all calls of the response, but records only up to
the first call that was deferred, and nothing fills the gap later.

* `NewTurn.paired`: a pass stores a paired turn, unless the response leaves calls
  unanswered.
* `messages_wellPaired`: the lists sent in any run or resume at the end of any history.
* `messages_not_wellPaired`: a deferred call with another call after it.
-/

open Lib

namespace Nexus

variable {a : StoreAdapter}

/-! ### Paired sessions -/

/-- A session of paired turns. -/
def PairedSession (s : AgentSession) : Prop := ∀ t ∈ s.turns, PairedTurn t

/-- Turns of one shell are paired alike. -/
theorem pairedTurn_of_shell {t t' : TurnRecord} (h : t'.shell = t.shell) (h_paired : PairedTurn t) :
    PairedTurn t' := by
  -- the messages are part of the shell
  have h_messages : t'.llmMessages = t.llmMessages := by
    have := congrArg TurnRecord.llmMessages h
    exact this
  -- and so are the ids of the records
  have h_ids : t'.toolCalls.map ToolCallRecord.tcId = t.toolCalls.map ToolCallRecord.tcId := by
    have := congrArg (fun u : TurnRecord => u.toolCalls.map ToolCallRecord.tcId) h
    simpa [TurnRecord.shell, ToolCallRecord.bare, Function.comp_def] using this
  have h_length : t'.toolCalls.length = t.toolCalls.length := by
    simpa using congrArg List.length h_ids
  obtain ⟨h_message, h_records⟩ := h_paired
  exact ⟨h_messages ▸ h_length ▸ h_message, h_ids ▸ h_records⟩

theorem coreInv_pairedSession : Live.CoreInv PairedSession :=
  .turns fun _ _ => pairedTurn_of_shell

theorem foldInv_pairedSession (env : Env a) : FoldInv env PairedSession :=
  fun _ _ _ h t ht => h t (List.mem_filter.mp ht).1

/-! ### The turns a run stores -/

/-- A run of a model whose responses give their calls distinct ids, with a hook that keeps
paired lists paired, if it rewrites them at all. -/
structure DistinctCalls (env : Env a) (stream : Bool) (_args : RunArgs) (_st : Store a) : Prop where
  ids : ∀ k raw, callResponse env stream k = .ok raw →
    ((acceptedResponse env k raw).toolCalls.map ToolCallRequest.id).Nodup
  hook : ∀ k messages messages', env.beforeLLMCall k messages = some messages' →
    WellPaired messages → WellPaired messages'

/-- A run of a model whose responses leave no call unanswered, besides. -/
structure AnswersCalls (env : Env a) (stream : Bool) (args : RunArgs) (st : Store a) : Prop
    extends DistinctCalls env stream args st where
  answered : ∀ k raw, callResponse env stream k = .ok raw →
    leavesUnanswered env (acceptedResponse env k raw).toolCalls = false

/-- The calls handled keep their ids. -/
theorem handledCalls_ids (cfg : InterceptorConfig) (n : ℕ) (calls : List ToolCallRequest) :
    (handledCalls cfg n calls).map ToolCallRequest.id = calls.map ToolCallRequest.id := by
  have h_comp : ToolCallRequest.id ∘ (fun tc : ToolCallRequest =>
      { tc with toolInput := cleanArgs cfg tc.toolInput }) = ToolCallRequest.id := rfl
  rw [handledCalls, List.map_append, List.map_map, h_comp, ← List.map_append,
    List.take_append_drop]

theorem toolCallsToOpenaiMessages_ids (calls : List ToolCallRequest) :
    (toolCallsToOpenaiMessages calls).map ToolCallEntry.id = calls.map ToolCallRequest.id := by
  rw [toolCallsToOpenaiMessages, List.map_map]
  rfl

/-- The stored turn of a response whose calls all got a record. -/
theorem pairedTurn_toolRecord {env : Env a} {r : LLMResponse} {handled : List Handled}
    (h_ids : (r.toolCalls.map ToolCallRequest.id).Nodup)
    (h_length : handled.length = r.toolCalls.length)
    (h_records : ((handled.map Handled.record).map ToolCallRecord.tcId).Nodup)
    (compactorSaved savings n : ℕ) (s : RunState a) :
    PairedTurn (toolRecord env r compactorSaved savings n handled s) := by
  -- the stored calls have the ids of the calls
  have h_stored := toolCallsToOpenaiMessages_ids
    (handledCalls env.config.interceptor n r.toolCalls)
  rw [handledCalls_ids] at h_stored
  refine ⟨⟨_, rfl, buildAssistant_role _ _, ?_, ?_⟩, h_records⟩ <;> rw [buildAssistant_toolCalls]
  · have := congrArg List.length h_stored
    simpa [toolRecord, h_length] using this
  · exact h_stored ▸ h_ids

/-- **A pass stores a paired turn.** -/
theorem NewTurn.paired {env : Env a} {stream : Bool} {args : RunArgs} {st : Store a}
    (h_calls : AnswersCalls env stream args st) {s : RunState a} {turn : TurnRecord}
    (h : NewTurn env stream s turn) : PairedTurn turn := by
  -- an answer has no calls, and no records
  cases h with
  | @answer sent r t u h_reply h_accepted h_none savings =>
    refine ⟨⟨_, rfl, buildAssistant_role _ _, ?_, ?_⟩, .nil⟩ <;>
      rw [buildAssistant_toolCalls, h_none]
    · rfl
    · exact .nil
  -- a turn with tools has a record for each call
  | @tools sent r t u v h_reply h_accepted outs obs h_effect handled n h_handled c savings =>
    obtain ⟨raw, h_raw, rfl⟩ := h_reply.response
    have h_results := h_handled.results h_effect.logged
    have h_length := (h_results.length_eq_iff h_handled h_effect.logged).mpr
      (h_calls.answered _ _ h_raw)
    exact pairedTurn_toolRecord (h_calls.ids _ _ h_raw) h_length
      (h_results.tcIds_nodup h_effect.logged) c savings n v

/-! ### The messages a run sends -/

/-- The session is paired, and so are all lists sent so far. -/
structure SendsPaired (s : RunState a) : Prop where
  session : s.live.Inv PairedSession
  sent : ∀ messages, .llmCall messages ∈ s.trace → WellPaired messages

/-- The list of a call is well paired if the session it was built from is. -/
theorem Opened.sends {env : Env a} {s t : RunState a} {sent : List Message}
    (h : Opened env s sent t) (h_session : PairedSession t.session)
    (h_hook : ∀ k messages messages', env.beforeLLMCall k messages = some messages' →
      WellPaired messages → WellPaired messages')
    (h_before : ∀ messages, .llmCall messages ∈ s.trace → WellPaired messages) :
    ∀ messages, .llmCall messages ∈ t.trace → WellPaired messages := by
  obtain ⟨builds, session, built, h_trace, h_builds, h_bare, ⟨h_built, -⟩, h_sent⟩ := h.trace
  -- what was built is paired
  have h_paired : WellPaired built := by
    rw [h_built]
    exact wellPaired_build _ _ _
      (coreInv_pairedSession _ _ (AgentSession.core_of_bare h_bare) h_session)
  intro messages h_mem
  rw [h_trace, List.append_assoc, List.mem_append, List.mem_append, List.mem_singleton] at h_mem
  -- sent before, built only, or sent now
  rcases h_mem with h_old | h_build | h_new
  · exact h_before messages h_old
  · obtain ⟨degraded, dropped, h_eq⟩ := h_builds _ h_build
    cases h_eq
  · obtain rfl := Obs.llmCall.inj h_new
    rw [h_sent]
    -- a hook may have rewritten it
    cases h_rewrite : env.beforeLLMCall s.calls built with
    | none => exact h_paired
    | some messages' => exact h_hook _ _ _ h_rewrite h_paired

/-- Storing a turn keeps the session paired. -/
theorem Storing.paired {env : Env a} {stream : Bool} {args : RunArgs} {st : Store a}
    (h_calls : AnswersCalls env stream args st) {s v : RunState a} {turn : TurnRecord}
    (h : Storing env stream s turn v) (h_inv : s.live.Inv PairedSession) :
    (persistTurnWithState env turn v).live.Inv PairedSession :=
  h.inv_persist coreInv_pairedSession.grow coreInv_pairedSession.grow (foldInv_pairedSession env)
    (fun _ h => h)
    (fun _ h_new _ h_x => AgentSession.forall_turns_addTurn h_x (h_new.paired h_calls)) h_inv

/-- **A pass keeps the session paired and sends a well-paired list.** -/
theorem TurnStep.sends {env : Env a} {stream : Bool} {args : RunArgs} {st : Store a}
    (h_calls : AnswersCalls env stream args st) {s s' : RunState a}
    {o : Except RunError Prog.Ctl} (h : TurnStep env stream s o s') (h_s : SendsPaired s) :
    SendsPaired s' where
  session := h.inv coreInv_pairedSession.grow coreInv_pairedSession.grow (foldInv_pairedSession env)
    (fun _ h => h) (fun _ _ h_storing => h_storing.paired h_calls) h_s.session
  sent := by
    -- cancelled before the call, or opened
    rcases h.opened with ⟨-, rfl⟩ | ⟨sent, t, after, h_open, h_trace, h_after⟩
    · exact h_s.sent
    · have h_t := h_open.inv coreInv_pairedSession.grow (foldInv_pairedSession env) h_s.session
      have h_sends := h_open.sends h_t.session h_calls.hook h_s.sent
      intro messages h_mem
      rw [h_trace] at h_mem
      rcases List.mem_append.mp h_mem with h_mem | h_mem
      · exact h_sends messages h_mem
      · -- what comes after the call is no call
        exact (h_after _ h_mem).elim

/-- **A run** of a paired session. -/
theorem execRun_sends {env : Env a} {stream : Bool} {args : RunArgs} {st : Store a}
    (h_calls : AnswersCalls env stream args st)
    (h : Stored (runSessionId env args) PairedSession st) :
    Stored (runSessionId env args) PairedSession (storeAfter (execRun env stream args st)) ∧
      ∀ messages, .llmCall messages ∈ (execRun env stream args st).trace → WellPaired messages := by
  -- the session that is opened is paired
  have h_open : (openSession env args st).1.Inv PairedSession :=
    inv_openSession coreInv_pairedSession.grow
      (inv_getOrCreateSession (fun s hs _ => h s hs) (fun t ht => by cases ht))
      fun _ s _ => coreInv_pairedSession.close s
  refine ⟨stored_execRun rfl (execRun_inv coreInv_pairedSession.grow (foldInv_pairedSession env) ?_
    h_open), ?_⟩
  · exact fun _ _ _ h_storing => h_storing.paired h_calls
  · have h_loop : SendsPaired (runLoop env stream (turnLimit env args) (startRun env stream args st)) :=
      runLoop_invariant env stream _ (J := SendsPaired)
        (fun _ _ _ _ h_s _ h_step => h_step.sends h_calls h_s) (fun _ _ _ _ h => ⟨h.1, h.2⟩)
        -- the stored session is paired after any history
        ⟨h_open, by simp [startRun]⟩ (startRun_retries env stream args st)
    rw [execRun_trace]
    exact h_loop.sent

/-- **Every list sent for a session is well paired**, in any run or resume at the end of any
history whose responses leave no call unanswered. -/
theorem messages_wellPaired {sid : String} {st st' : Store a} (h_start : st.find? sid = none)
    (h : History sid AnswersCalls st st') {s : RunState a} (h_run : RunOn sid AnswersCalls st' s)
    (messages : List Message) (h_sent : .llmCall messages ∈ s.trace) : WellPaired messages := by
  have h_resume : ∀ (env : Env a) results (st st' : Store a), resumeStore env sid results st = .ok st' →
      Stored sid PairedSession st → Stored sid PairedSession st' :=
    fun _ _ _ _ h_store h_st => h_st.resume coreInv_pairedSession h_store
  have h_paired : Stored sid PairedSession st' := by
    refine h.stored ?_ h_resume (stored_of_none h_start _)
    rintro env stream args st rfl h_calls h_st
    exact (execRun_sends h_calls h_st).1
  cases h_run with
  | @run env stream args h_sid h_calls =>
    subst h_sid
    exact (execRun_sends h_calls h_paired).2 messages h_sent
  | @resume env stream results st'' h_sid h_store h_calls =>
    have h_st'' := h_resume _ _ _ _ h_store h_paired
    rw [← h_sid] at h_st''
    exact (execRun_sends h_calls h_st'').2 messages h_sent

/-! ### A deferred call with another call after it -/

/-- An agent with a tool of the caller and one of its own. -/
def deskEnv (responses : List LLMResponse) : Env .memory where
  registry := [("desk.ask", { execution := "client" }), ("desk.lookup", {})]
  proxy := .scripted responses

/-- A run of the agent on the session `s`. -/
def deskRun (responses : List LLMResponse) (userMessage : String) (st : Store .memory) :
    RunState .memory :=
  execRun (deskEnv responses) false { userMessage := userMessage, sessionId := some "s" } st

/-- What the responses of a scripted run have to meet. -/
theorem distinctCalls_desk {responses : List LLMResponse}
    (h : ∀ r ∈ responses,
      ((acceptedResponse (deskEnv responses) 0 r).toolCalls.map ToolCallRequest.id).Nodup)
    (args : RunArgs) (st : Store .memory) : DistinctCalls (deskEnv responses) false args st where
  ids _ _ h_raw := h _ (LLMProxy.mem_of_scripted h_raw)
  hook _ _ _ h_rewrite := by cases h_rewrite

/-- The model looks something up and asks the user. -/
def lookThenAsk : List LLMResponse :=
  [{ toolCalls := [⟨"c1", "desk.lookup", []⟩, ⟨"c2", "desk.ask", []⟩] }]

/-- What the model is sent when the user answers the last call with a new message instead. -/
def supersededMessages : List Message :=
  [{ role := .system, content := some "" },
    { role := .user, content := some "find it" },
    { role := .assistant, content := none,
      toolCalls := [⟨"c1", "desk.lookup", "\x7b\x7d"⟩, ⟨"c2", "desk.ask", "\x7b\x7d"⟩] },
    { role := .tool, toolCallId := some "c1", content := some "" },
    { role := .tool, toolCallId := some "c2", content := some pendingSuperseded },
    { role := .user, content := some "never mind" }]

/-- A deferred call at the end of its response does no harm: the list of a later run is
well paired. -/
theorem messages_wellPaired_superseded :
    .llmCall supersededMessages ∈ (deskRun [{ content := some "Fine." }] "never mind"
      (storeAfter (deskRun lookThenAsk "find it" (.empty .memory)))).trace ∧
      WellPaired supersededMessages := by
  -- the first run leaves no call of its own unanswered but the one that waits
  have h_ask : AnswersCalls (deskEnv lookThenAsk) false
      { userMessage := "find it", sessionId := some "s" } (.empty .memory) := by
    refine ⟨distinctCalls_desk (by decide +kernel) _ _, fun k raw h_raw => ?_⟩
    have h_all : ∀ r ∈ lookThenAsk, leavesUnanswered (deskEnv lookThenAsk)
        (acceptedResponse (deskEnv lookThenAsk) 0 r).toolCalls = false := by decide +kernel
    exact h_all _ (LLMProxy.mem_of_scripted h_raw)
  have h_fine : AnswersCalls (deskEnv [{ content := some "Fine." }]) false
      { userMessage := "never mind", sessionId := some "s" }
      (storeAfter (deskRun lookThenAsk "find it" (.empty .memory))) := by
    refine ⟨distinctCalls_desk (by decide +kernel) _ _, fun k raw h_raw => ?_⟩
    have h_all : ∀ r ∈ [({ content := some "Fine." } : LLMResponse)],
        leavesUnanswered (deskEnv [{ content := some "Fine." }])
          (acceptedResponse (deskEnv [{ content := some "Fine." }]) 0 r).toolCalls = false := by
      decide +kernel
    exact h_all _ (LLMProxy.mem_of_scripted h_raw)
  have h_start : (Store.empty .memory).find? "s" = none := rfl
  have h_sent : .llmCall supersededMessages ∈ (deskRun [{ content := some "Fine." }] "never mind"
      (storeAfter (deskRun lookThenAsk "find it" (.empty .memory)))).trace := by decide +kernel
  exact ⟨h_sent, messages_wellPaired h_start (.single (.ran (.run (by decide +kernel) h_ask)))
    (.run (by decide +kernel) h_fine) supersededMessages h_sent⟩

/-- The model asks the user and looks something up: the second call is never handled. -/
def askThenLook : List LLMResponse :=
  [{ toolCalls := [⟨"c1", "desk.ask", []⟩, ⟨"c2", "desk.lookup", []⟩] }]

/-- What the model is sent when the user answers with a new message instead. -/
def abandonedMessages : List Message :=
  [{ role := .system, content := some "" },
    { role := .user, content := some "find it" },
    { role := .assistant, content := none,
      toolCalls := [⟨"c1", "desk.ask", "\x7b\x7d"⟩, ⟨"c2", "desk.lookup", "\x7b\x7d"⟩] },
    { role := .tool, toolCallId := some "c1", content := some pendingSuperseded },
    -- the abandoned call is sent without an answer behind it
    { role := .user, content := some "never mind" }]

/-- The call after the deferred one is sent without an answer. -/
theorem messages_not_wellPaired :
    ∃ st : Store .memory, History "s" DistinctCalls (.empty .memory) st ∧
      ∃ s, RunOn "s" DistinctCalls st s ∧
        ∃ messages, .llmCall messages ∈ s.trace ∧ ¬WellPaired messages := by
  refine ⟨storeAfter (deskRun askThenLook "find it" (.empty .memory)),
    .single (.ran (.run (by decide +kernel) (distinctCalls_desk (by decide +kernel) _ _))),
    deskRun [{ content := some "Fine." }] "never mind" _,
    .run (by decide +kernel) (distinctCalls_desk (by decide +kernel) _ _),
    abandonedMessages, by decide +kernel, fun h => ?_⟩
  have h_answers := h.answered (abandonedMessages.take 2) _ (abandonedMessages.drop 3) rfl rfl
    ⟨"c2", "desk.lookup", "\x7b\x7d"⟩ (by decide)
  exact absurd h_answers (by decide)

end Nexus
