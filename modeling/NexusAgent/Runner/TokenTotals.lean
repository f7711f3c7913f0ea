import Mathlib.Algebra.Order.Monoid.Prod
import NexusAgent.Lib.Perm
import NexusAgent.Runner.Isolation
import NexusAgent.Runner.Recorded
import NexusAgent.Runner.Unpersisted

/-!
# Token totals of a session

A run counts the tokens of every response it gets. A session reports the tokens of the turns
it still has. The two agree over a history as long as every response that costs something
becomes a turn and the summarizer folds no turn that has tokens.

* `Booked`: what a run needs for its tokens to end up in the session, by its passes
  (`PassBooked`).
* `TurnStep.booked`: one pass books what it counts.
* `tokens_conserved`: the session reports what all results together report.
* `tokens_lost`: a folded turn.
-/

open Lib

namespace Nexus

variable {a : StoreAdapter}

/-! ### Totals -/

/-- Tokens sent and received, in the record of a turn. -/
def TurnRecord.tokens (t : TurnRecord) : ℕ × ℕ := (t.totalTokensIn, t.totalTokensOut)

/-- The totals of `AgentSession.token_usage`, which is computed from the turns. -/
def AgentSession.tokenUsage (s : AgentSession) : ℕ × ℕ :=
  ((s.turns.map TurnRecord.totalTokensIn).sum, (s.turns.map TurnRecord.totalTokensOut).sum)

/-- The totals an `AgentRunResult` reports. -/
def RunResult.tokens (r : RunResult) : ℕ × ℕ := (r.totalTokensIn, r.totalTokensOut)

/-- The totals a run has counted so far. -/
def RunState.tokens (s : RunState a) : ℕ × ℕ := (s.totalTokensIn, s.totalTokensOut)

/-- The tokens of a response. -/
def TokenUsage.tokens (u : TokenUsage) : ℕ × ℕ := (u.promptTokens, u.completionTokens)

/-- The totals of the session stored under `sid`; there are none without a session. -/
def usageAt (sid : String) (st : Store a) : ℕ × ℕ :=
  ((st.find? sid).map AgentSession.tokenUsage).getD 0

/-- The usage belongs to the core. -/
theorem AgentSession.tokenUsage_of_core {s s' : AgentSession} (h : s'.core = s.core) :
    s'.tokenUsage = s.tokenUsage := by
  have h_core : ∀ s : AgentSession, s.core.tokenUsage = s.tokenUsage := by
    intro s
    simp [tokenUsage, core, bare, TurnRecord.shell, TurnRecord.bare, Function.comp_def]
  rw [← h_core s', h, h_core]

theorem AgentSession.tokenUsage_addTurn (s : AgentSession) (turn : TurnRecord) :
    (s.addTurn turn).tokenUsage = s.tokenUsage + turn.tokens := by
  simp [tokenUsage, addTurn, TurnRecord.tokens]

/-- The turns the summarizer would remove have no tokens. -/
def FoldsNoTokens (cfg : ContextSummaryConfig) (s : AgentSession) : Prop :=
  ∀ t ∈ s.turns, t.turnIndex ∈ (turnsToFold cfg s).map TurnRecord.turnIndex → t.tokens = 0

/-- Folding turns without tokens leaves the totals. -/
theorem tokenUsage_foldSession {cfg : ContextSummaryConfig} {s : AgentSession}
    (h : FoldsNoTokens cfg s) (newPart : String) :
    (foldSession cfg (turnsToFold cfg s) newPart s).tokenUsage = s.tokenUsage := by
  have h_zero : ∀ t ∈ s.turns,
      decide (t.turnIndex ∉ (turnsToFold cfg s).map TurnRecord.turnIndex) = false → t.tokens = 0 :=
    fun t ht h_mem => h t ht (by simpa using h_mem)
  refine Prod.ext ?_ ?_
  · exact sum_filter_of_zero s.turns fun t ht h_mem => congrArg Prod.fst (h_zero t ht h_mem)
  · exact sum_filter_of_zero s.turns fun t ht h_mem => congrArg Prod.snd (h_zero t ht h_mem)

/-! ### What a run needs -/

/-- A pass from `s` books its tokens: the summarizer removes no turn that has some, and a
response that has some is stored as a turn: it needs no second attempt, and its tool calls do
not raise. -/
structure PassBooked (env : Env a) (stream : Bool) (s : RunState a) : Prop where
  folds : let c := firstContext env s
    let c := maybeCompact env s.calls c.1 c.2
    env.config.contextSummary.shouldTrigger c.2.session (currentTokens env c.1.1 c.2)
        env.config.contextWindowTokens = true →
      foldsTurns env.config.contextSummary (env.summaryReply s.calls) c.2.session = true →
        FoldsNoTokens env.config.contextSummary c.2.session
  replies : (stream = true → Uncancelled env s.calls) → ∀ raw, callResponse env stream s.calls = .ok raw →
    let r := acceptedResponse env s.calls raw
    r.usage.tokens = 0 ∨ structuredFailure env r = none ∧ ¬RaisesIn env s.calls r.toolCalls

/-- A run books its tokens: it asks for the stored session and is admitted to it, if that has
tokens, the stored entry follows what it does, and every pass that is not cancelled books. -/
structure Booked (env : Env a) (stream : Bool) (args : RunArgs) (st : Store a) : Prop where
  admitted : Stored (runSessionId env args)
    (fun s => (truthy (pyOr args.sessionId env.context.sessionId) ≠ none ∧
      (env.context.sessionScope none).matchesSession s = true) ∨ s.tokenUsage = 0) st
  persists : persists a env.context = true
  passes : ∀ s, TurnOf env stream args st s → env.cancelTurn s.calls = false →
    PassBooked env stream s

/-! ### One pass -/

/-- The session has the tokens `total`, and is one the run may load. -/
def HasTokens (ctx : RunContext) (total : ℕ × ℕ) (s : AgentSession) : Prop :=
  s.tokenUsage = total ∧ Owned ctx s

theorem coreInv_hasTokens (ctx : RunContext) (total : ℕ × ℕ) :
    Live.CoreInv (HasTokens ctx total) := fun s s' h_core h =>
  ⟨(AgentSession.tokenUsage_of_core h_core).trans h.1, coreInv_owned ctx s s' h_core h.2⟩

section Pass

variable {env : Env a} {stream : Bool} {s : RunState a} {total : ℕ × ℕ}

/-- The context of a pass is prepared without touching tokens. -/
theorem PassBooked.prepared (h : PassBooked env stream s)
    (h_inv : s.live.Inv (HasTokens env.context total)) :
    (prepareTurn env s.calls { s with calls := s.calls + 1 }).2.live.Inv
      (HasTokens env.context total) := by
  have hP := coreInv_hasTokens env.context total
  have h_folds := h.folds
  have h_first := built_buildContext env s.calls { s with calls := s.calls + 1 }
  have h_compacted := (built_maybeCompact h_first).2
  have h_c := Live.Inv.sameCore (l := s.live) h_inv hP h_compacted.sameCore
  unfold prepareTurn
  unfold firstContext at h_folds
  dsimp only at h_folds ⊢
  generalize maybeCompact env s.calls _ _ = c at h_folds h_c
  obtain ⟨⟨messages, saved⟩, c⟩ := c
  dsimp only at h_folds h_c ⊢
  unfold maybeSummarize
  split_ifs with h_trigger
  · show (summarize env.config.contextSummary (env.summaryReply s.calls) c.live).Inv _
    cases h_fold : foldsTurns env.config.contextSummary (env.summaryReply s.calls) c.session with
    | false =>
      rw [summarize_of_not_folds h_fold]
      exact h_c
    | true =>
      -- a fold is only made where it books nothing
      have h_zero := h_folds h_trigger h_fold
      have h_folded := folded_summarize env s.calls c.live
      generalize summarize env.config.contextSummary (env.summaryReply s.calls) c.live = l at h_folded
      cases h_folded with
      | kept => exact h_c
      | folded _ _ newPart =>
        refine .saveSession ⟨?_, h_c.session.2⟩
        exact (tokenUsage_foldSession h_zero newPart).trans h_c.session.1
  · exact h_c

/-- A model call adds its tokens to the run, and none to the session yet. -/
theorem Replied.hasTokens {sent : List Message} {r : LLMResponse} {t : RunState a}
    (h : Replied env stream s sent r t) (h_booked : PassBooked env stream s)
    (h_inv : s.live.Inv (HasTokens env.context total)) :
    t.live.Inv (HasTokens env.context total) ∧ t.tokens = s.tokens + r.usage.tokens := by
  have h_tokens : t.tokens = s.tokens + r.usage.tokens := by
    rw [RunState.tokens, h.rest]
    rfl
  obtain ⟨u, events, h_open, rfl⟩ := h.opened
  exact ⟨(h_booked.prepared h_inv).sameCore (coreInv_hasTokens _ _) h_open.prepared.sameCore, h_tokens⟩

/-- What is known of the response of a pass that books. -/
theorem Replied.booked {sent : List Message} {r : LLMResponse} {t : RunState a}
    (h : Replied env stream s sent r t) (h_booked : PassBooked env stream s) :
    r.usage.tokens = 0 ∨ structuredFailure env r = none ∧ ¬RaisesIn env s.calls r.toolCalls := by
  obtain ⟨raw, h_raw, rfl⟩ := h.response
  exact h_booked.replies h.uncancelled raw h_raw

/-- A stored turn adds its tokens. -/
theorem hasTokens_persistTurn (turn : TurnRecord) (h_persists : persists a env.context = true)
    (h : s.live.Inv (HasTokens env.context total)) :
    (persistTurnWithState env turn s).live.Inv (HasTokens env.context (total + turn.tokens)) := by
  obtain ⟨h_total, h_owned⟩ := h.session
  have h_session := persistTurnWithState_session turn h_owned
  -- the session with the turn has its tokens as well
  have h_new : HasTokens env.context (total + turn.tokens)
      (s.session.withTurn turn (jsonSafeState s.state)) := by
    refine ⟨?_, h_owned⟩
    rw [← h_total]
    exact (s.session.withState (jsonSafeState s.state)).tokenUsage_addTurn turn
  refine ⟨h_session ▸ h_new, fun s' hs' => ?_⟩
  -- and the store has this session
  have h_synced := persistTurnWithState_synced turn h_persists h_owned
  obtain rfl := Option.some.inj (h_synced.symm.trans hs')
  exact h_session ▸ h_new

/-- The totals of the session are those it had at first and those of the run. -/
def InBooks (ctx : RunContext) (start : ℕ × ℕ) (s : RunState a) : Prop :=
  s.live.Inv (HasTokens ctx (start + s.tokens))

/-- The end of a turn counts nothing. -/
theorem EndTurn.inBooks {k : ℕ} {final : Bool} {start : ℕ × ℕ} {s' : RunState a}
    {o : Except RunError Prog.Ctl} (h : EndTurn env k final s o s') (h_s : InBooks env.context start s) :
    InBooks env.context start s' := by
  have h_tokens : s'.tokens = s.tokens := by cases h <;> rfl
  unfold InBooks
  rw [h_tokens]
  exact h.inv (coreInv_hasTokens _ _).grow h_s

/-- A response that is not stored as a turn costs nothing. -/
theorem InBooks.unstored {start : ℕ × ℕ} {sent : List Message} {r : LLMResponse} {t u : RunState a}
    (h_reply : Replied env stream s sent r t) (h_booked : PassBooked env stream s)
    (h_lost : structuredFailure env r ≠ none ∨ RaisesIn env s.calls r.toolCalls)
    (h_s : InBooks env.context start s) (h_live : t.live.SameCore u.live) (h_tokens : u.tokens = t.tokens) :
    InBooks env.context start u := by
  obtain ⟨h_t, h_count⟩ := h_reply.hasTokens h_booked h_s
  -- tokens that are not stored have to be none
  have h_free : r.usage.tokens = 0 := by
    rcases h_reply.booked h_booked with h_free | ⟨h_valid, h_calls⟩
    · exact h_free
    · rcases h_lost with h_fail | h_raises
      · exact absurd h_valid h_fail
      · exact absurd h_raises h_calls
  rw [h_free, add_zero] at h_count
  unfold InBooks
  rw [h_tokens, h_count]
  exact h_t.sameCore (coreInv_hasTokens _ _) h_live

/-- A response that is stored as a turn. -/
theorem Storing.inBooks {start : ℕ × ℕ} {turn : TurnRecord} {v : RunState a}
    (h : Storing env stream s turn v) (h_persists : persists a env.context = true)
    (h_booked : PassBooked env stream s) (h_s : InBooks env.context start s) :
    InBooks env.context start (persistTurnWithState env turn v) := by
  have h_v : v.live.Inv (HasTokens env.context (start + s.tokens)) ∧
      v.tokens = s.tokens + turn.tokens := by
    cases h with
    -- an answer: the turn has the tokens of the response
    | @answer sent r t u h_reply h_accepted =>
      obtain ⟨h_t, h_count⟩ := h_reply.hasTokens h_booked h_s
      rw [← h_accepted.live] at h_t
      have h_tokens : u.tokens = t.tokens := by cases h_accepted <;> rfl
      exact ⟨h_t, h_tokens.trans h_count⟩
    -- tool calls: so has this turn
    | @tools sent r t u v h_reply h_accepted outs obs h_effect =>
      obtain ⟨h_t, h_count⟩ := h_reply.hasTokens h_booked h_s
      rw [← h_accepted.live] at h_t
      have h_tokens : v.tokens = t.tokens := by
        rw [RunState.tokens, h_effect.rest]
        cases h_accepted <;> rfl
      exact ⟨h_t.sameCore (coreInv_hasTokens _ _) h_effect.live, h_tokens.trans h_count⟩
  -- persisting adds the turn's tokens to the session
  have h_stored := hasTokens_persistTurn turn h_persists h_v.1
  rw [add_assoc, ← h_v.2] at h_stored
  exact h_stored

/-- **One pass** books what it counts. -/
theorem TurnStep.booked {start : ℕ × ℕ} {s' : RunState a} {o : Except RunError Prog.Ctl}
    (h : TurnStep env stream s o s') (h_persists : persists a env.context = true)
    (h_booked : env.cancelTurn s.calls = false → PassBooked env stream s)
    (h_s : InBooks env.context start s) : InBooks env.context start s' := by
  -- a turn with a reply was not cancelled, so the pass is one that books
  have h_pass : ∀ {sent : List Message} {r : LLMResponse} {t : RunState a},
      Replied env stream s sent r t → PassBooked env stream s := by
    intro sent r t h_reply
    obtain ⟨u, events, h_open, -⟩ := h_reply.opened
    exact h_booked h_open.running
  cases h with
  | cancelled => exact h_s
  | @callFailed sent t e h_open events =>
    -- a call that failed brought no tokens
    have h_tokens : (t.withEvents events).tokens = s.tokens := by
      rw [RunState.tokens, h_open.rest]
      rfl
    unfold InBooks
    rw [h_tokens]
    exact ((h_booked h_open.running).prepared h_s).sameCore (coreInv_hasTokens _ _)
      h_open.prepared.sameCore
  | retried h_reply h_fail =>
    exact h_s.unstored h_reply (h_pass h_reply) (.inl (by simp [h_fail])) (.refl _) rfl
  | rejected h_reply h_fail =>
    exact h_s.unstored h_reply (h_pass h_reply) (.inl (by simp [h_fail])) (.refl _) rfl
  | answered h_reply h_accepted h_calls _ savings h_end =>
    -- the tokens of the reply and those of its turn go into the books together
    have h_stored := (Storing.answer h_reply h_accepted h_calls savings).inBooks h_persists
      (h_pass h_reply) h_s
    exact h_end.inBooks (inv_maybeCurate h_stored env s.calls)
  | toolsRaised h_reply h_accepted _ h_effect h_raised =>
    refine h_s.unstored h_reply (h_pass h_reply) (.inr (h_effect.raisesIn h_raised)) ?_ ?_
    · rw [← h_accepted.live]
      exact h_effect.live
    · rw [RunState.tokens, h_effect.rest]
      cases h_accepted <;> rfl
  | paused h_reply h_accepted _ h_effect h_handled _ c savings h_w =>
    subst h_w
    have h_stored := (Storing.tools h_reply h_accepted h_effect h_handled c savings).inBooks
      h_persists (h_pass h_reply) h_s
    exact inv_maybeSave h_stored env.context
  | handled h_reply h_accepted _ h_effect h_handled _ c savings h_end =>
    have h_stored := (Storing.tools h_reply h_accepted h_effect h_handled c savings).inBooks
      h_persists (h_pass h_reply) h_s
    exact h_end.inBooks (inv_maybeCurate h_stored env s.calls)

end Pass

/-! ### One run -/

section Run

variable {env : Env a} {stream : Bool} {args : RunArgs} {st : Store a}

/-- The session starts with the totals that are stored. -/
theorem hasTokens_getOrCreateSession (h : Booked env stream args st) :
    (getOrCreateSession env args st).Inv (HasTokens env.context (usageAt (runSessionId env args) st)) := by
  refine inv_getOrCreateSession_of (fun s hs h_match => ⟨?_, owned_of_matches h_match⟩)
    fun h_none => ⟨?_, owned_of_matches (matches_createdSession env args)⟩
  · simp [usageAt, hs]
  · -- nothing is lost with the session that is replaced
    show 0 = usageAt (runSessionId env args) st
    unfold usageAt
    cases h_find : st.find? (runSessionId env args) with
    | none => rfl
    | some s =>
      rcases h.admitted s h_find with ⟨h_asked, h_match⟩ | h_zero
      · have h_load := Store.loadSession_eq_some.mpr ⟨h_find, h_match⟩
        rcases h_none with h_none | h_none
        · exact absurd h_none h_asked
        · rw [h_load] at h_none
          cases h_none
      · exact h_zero.symm

/-- **One run** adds to the session what its result reports. -/
theorem execRun_booked (h : Booked env stream args st) :
    (execRun env stream args st).live.Inv (HasTokens env.context
      (usageAt (runSessionId env args) st + (resultOf (execRun env stream args st)).tokens)) := by
  have hP := fun total => coreInv_hasTokens env.context total
  -- at the start the run has used nothing
  have h_start : InBooks env.context (usageAt (runSessionId env args) st) (startRun env stream args st) := by
    have h_open := inv_openSession (hP _).grow (hasTokens_getOrCreateSession h)
      fun _ s _ => (hP _).close s
    rw [← add_zero (usageAt (runSessionId env args) st)] at h_open
    exact h_open
  -- each pass adds to both
  have h_loop : InBooks env.context (usageAt (runSessionId env args) st)
      (runLoop env stream (turnLimit env args) (startRun env stream args st)) :=
    runLoop_invariant env stream (turnLimit env args)
      (fun s _ _ h_head h_s h_lt h_step => h_step.booked h.persists (h.passes s ⟨h_head, h_lt⟩) h_s)
      (fun _ _ _ _ h_s => h_s) h_start (startRun_retries env stream args st)
  -- the result reports the tokens of the run
  have h_tokens : (resultOf (execRun env stream args st)).tokens =
      (runLoop env stream (turnLimit env args) (startRun env stream args st)).tokens := by
    unfold execRun finishRun curateAtEnd
    dsimp only
    split_ifs <;> rfl
  rw [h_tokens, execRun_live]
  exact inv_finishRun (hP _).grow h_loop env

/-- The session is in the store after the run. -/
theorem find?_execRun (env : Env a) (stream : Bool) (args : RunArgs) (st : Store a)
    (h : persists a env.context = true) :
    ∃ s, (storeAfter (execRun env stream args st)).find? (runSessionId env args) = some s := by
  have h_id := (execRun_keeps env stream args st (curatorWrites_derived env _)).sessionId
  rw [openSession_sessionId] at h_id
  have h_synced : (execRun env stream args st).live.Synced := by
    rw [execRun_live]
    exact synced_maybeSave h _
  unfold Live.Synced at h_synced
  rw [h_id] at h_synced
  exact ⟨_, h_synced⟩

end Run

/-! ### A history -/

/-- A history of the session that starts without one, with the results its runs and resumes
returned. -/
inductive Billed (sid : String) (Meets : Env a → Bool → RunArgs → Store a → Prop) :
    Store a → List RunResult → Prop
  | start {st : Store a} (h : st.find? sid = none) : Billed sid Meets st []
  | ran {st : Store a} {results : List RunResult} {s : RunState a} (h : Billed sid Meets st results)
      (h_run : RunOn sid Meets st s) : Billed sid Meets (storeAfter s) (results ++ [resultOf s])
  /-- Something that does not concern the session. -/
  | other {st st' : Store a} {results : List RunResult} (h : Billed sid Meets st results)
      (h_same : st'.find? sid = st.find? sid) : Billed sid Meets st' results

section History

variable {sid : String} {st : Store a}

/-- **A run or resume** adds to the stored session what its result reports. -/
theorem RunOn.booked {s : RunState a} (h : RunOn sid Booked st s) :
    usageAt sid (storeAfter s) = usageAt sid st + (resultOf s).tokens := by
  have h_run : ∀ {env : Env a} {stream args st}, runSessionId env args = sid →
      Booked env stream args st →
      usageAt sid (storeAfter (execRun env stream args st)) =
        usageAt sid st + (resultOf (execRun env stream args st)).tokens := by
    intro env stream args st h_sid h_booked
    subst h_sid
    have h_inv := execRun_booked h_booked
    obtain ⟨s, hs⟩ := find?_execRun env stream args st h_booked.persists
    have h_s := stored_execRun rfl h_inv s hs
    unfold usageAt
    rw [hs]
    exact h_s.1
  cases h with
  | run h_sid h_booked => exact h_run h_sid h_booked
  | resume h_sid h_store h_booked =>
    rw [h_run h_sid h_booked]
    -- filling in results does not touch tokens
    obtain ⟨s, h_find, -, h_find'⟩ := find?_resumeStore h_store
    have h_same : usageAt sid st = s.tokenUsage := by simp [usageAt, h_find]
    rw [h_same, usageAt, h_find']
    split_ifs
    · exact congrArg (· + _) (AgentSession.tokenUsage_of_core (core_resumeSession _ s))
    · rfl

/-- **The session reports what the results report**, and never less than before. -/
theorem tokens_conserved {results : List RunResult} (h : Billed sid Booked st results) :
    usageAt sid st = (results.map RunResult.tokens).sum ∧
      ∀ s, RunOn sid Booked st s → usageAt sid st ≤ usageAt sid (storeAfter s) := by
  constructor
  · induction h with
    | start h_none => simp [usageAt, h_none]
    -- the run adds what it reports
    | ran _ h_run ih =>
      rw [h_run.booked, ih, List.map_append, List.sum_append, List.map_singleton, List.sum_singleton]
    -- other steps leave the session
    | other _ h_same ih => rw [usageAt, h_same, ← usageAt, ih]
  · intro s h_run
    rw [h_run.booked]
    exact ⟨Nat.le_add_right _ _, Nat.le_add_right _ _⟩

end History

/-- An agent that answers at once, for a price. -/
def meteredEnv (summarizeOn : Option ℚ) (usage : TokenUsage) : Env .memory where
  config := { contextSummary := { summarizeOn := summarizeOn } }
  proxy := .scripted [{ content := some "Hello.", usage := usage }]
  summaryReply _ := some "They met."

/-- A run of the agent. -/
def meteredRun (summarizeOn : Option ℚ) (usage : TokenUsage) (st : Store .memory) : RunState .memory :=
  execRun (meteredEnv summarizeOn usage) false { userMessage := "hi", sessionId := some "s" } st

/-- The metered run meets the condition. -/
theorem booked_metered (usage : TokenUsage) :
    Booked (meteredEnv none usage) false { userMessage := "hi", sessionId := some "s" }
      (.empty .memory) where
  admitted := stored_of_none rfl _
  persists := rfl
  passes s _ _ := by
    refine ⟨fun h_trigger => ?_, fun _ raw h_raw => .inr ⟨rfl, ?_⟩⟩
    · cases h_trigger
    · -- the answer calls no tools
      have h_mem := LLMProxy.mem_of_scripted h_raw
      obtain rfl := List.mem_singleton.mp h_mem
      rintro ⟨p, h_p⟩
      obtain ⟨req, h_req, -⟩ := h_p.call
      cases h_req

/-- After the first run, the session reports what the run did. -/
theorem tokens_conserved_metered :
    usageAt "s" (storeAfter (meteredRun none ⟨10, 2⟩ (.empty .memory))) =
        ([resultOf (meteredRun none ⟨10, 2⟩ (.empty .memory))].map RunResult.tokens).sum ∧
      ∀ s, RunOn "s" Booked (storeAfter (meteredRun none ⟨10, 2⟩ (.empty .memory))) s →
        usageAt "s" (storeAfter (meteredRun none ⟨10, 2⟩ (.empty .memory))) ≤
          usageAt "s" (storeAfter s) := by
  have h_start : (Store.empty .memory).find? "s" = none := rfl
  exact tokens_conserved (.ran (.start h_start) (.run rfl (booked_metered ⟨10, 2⟩)))

/-- **Tokens are lost**: the second run folds the turn of the first. -/
theorem tokens_lost :
    ∃ (st : Store .memory) (results : List RunResult) (s : RunState .memory),
      Billed "s" (fun _ _ _ _ => True) st results ∧ RunOn "s" (fun _ _ _ _ => True) st s ∧
        ¬usageAt "s" st ≤ usageAt "s" (storeAfter s) ∧
        usageAt "s" (storeAfter s) ≠ ((results ++ [resultOf s]).map RunResult.tokens).sum := by
  have h_start : (Store.empty .memory).find? "s" = none := rfl
  have h_first : RunOn "s" (fun _ _ _ _ => True) (.empty .memory)
      (meteredRun none ⟨10, 2⟩ (.empty .memory)) := .run rfl trivial
  refine ⟨storeAfter (meteredRun none ⟨10, 2⟩ (.empty .memory)), _,
    meteredRun (some 0) ⟨1, 1⟩ (storeAfter (meteredRun none ⟨10, 2⟩ (.empty .memory))),
    -- the second run folds the only turn away, with its tokens
    .ran (.start h_start) h_first, .run rfl trivial, ?_, ?_⟩
  · decide +kernel
  · decide +kernel

end Nexus
