import NexusAgent.Runner.TurnStep

/-!
# Whole runs

The induction over the passes of a run, made once. `TurnStep.progress` is why a run ends:
a pass that goes on either moves to the next turn or uses up a retry. `wp_loop_turns` is
the loop rule for the agent loop, and `runLoop_cases` and `execRun_trace` read it at a run.
-/

open Lib

namespace Nexus

variable {a : StoreAdapter}

/-! ### Progress -/

/-- A turn that goes on counts one turn more. -/
theorem EndTurn.progress {env : Env a} {k : ℕ} {final : Bool} {s s' : RunState a}
    (h : EndTurn env k final s (.ok .next) s') :
    s'.runTurnIndex = s.runTurnIndex + 1 ∧
      s'.structRetriesRemaining = s.structRetriesRemaining := by
  generalize ho : (Except.ok Prog.Ctl.next : Except RunError Prog.Ctl) = o at h
  cases h with
  | stopped => cases ho
  | injected h_msg => exact ⟨rfl, rfl⟩
  | human => cases ho
  | timedOut => cases ho
  | onward => exact ⟨rfl, rfl⟩

/-- A model call changes these fields of the state and no others. -/
theorem Replied.rest {env : Env a} {stream : Bool} {s t : RunState a} {sent : List Message}
    {r : LLMResponse} (h : Replied env stream s sent r t) :
    t = { s with
      calls := s.calls + 1
      live := t.live
      lastUntrimmedTokens := t.lastUntrimmedTokens
      trace := t.trace
      totalTokensIn := s.totalTokensIn + r.usage.promptTokens
      totalTokensOut := s.totalTokensOut + r.usage.completionTokens
      events := t.events } := by
  obtain ⟨u, events, h_open, rfl⟩ := h.opened
  rw [h_open.rest]
  rfl

/-- Accepting a response never raises the retries above their limit. -/
theorem Accepted.retries {env : Env a} {r : LLMResponse} {s t : RunState a}
    (h : Accepted env r s t) :
    t.runTurnIndex = s.runTurnIndex ∧
      t.structRetriesRemaining ≤ max s.structRetriesRemaining env.config.structuredOutputMaxRetries := by
  cases h with
  | unasked => exact ⟨rfl, le_max_left _ _⟩
  | valid => exact ⟨rfl, le_max_right _ _⟩

/-- A pass that goes on moves to the next turn, or uses up a retry on the same turn. -/
theorem TurnStep.progress {env : Env a} {stream : Bool} {s s' : RunState a}
    (h : TurnStep env stream s (.ok .next) s') :
    (s'.runTurnIndex = s.runTurnIndex + 1 ∧ s'.structRetriesRemaining ≤
        max s.structRetriesRemaining env.config.structuredOutputMaxRetries) ∨
      (s'.runTurnIndex = s.runTurnIndex ∧
        s'.structRetriesRemaining + 1 = s.structRetriesRemaining) := by
  generalize ho : (Except.ok Prog.Ctl.next : Except RunError Prog.Ctl) = o at h
  cases h with
  | cancelled => cases ho
  | callFailed => cases ho
  | @retried sent r t h_reply e h_fail h_left =>
    -- a retry uses one of the attempts left and ends no turn
    refine .inr ?_
    rw [h_reply.rest] at h_left ⊢
    exact ⟨rfl, Nat.sub_add_cancel h_left⟩
  | rejected => cases ho
  | answered h_reply h_accepted h_calls h_stop savings h_end =>
    subst ho
    obtain ⟨h_turn, h_retries⟩ := h_end.progress
    obtain ⟨h_turn', h_retries'⟩ := h_accepted.retries
    rw [h_reply.rest] at h_turn' h_retries'
    exact .inl ⟨h_turn.trans (congrArg (· + 1) h_turn'), h_retries.le.trans h_retries'⟩
  | toolsRaised => cases ho
  | paused => cases ho
  | handled h_reply h_accepted h_tools h_effect h_handled h_paused c v h_end =>
    subst ho
    obtain ⟨h_turn, h_retries⟩ := h_end.progress
    obtain ⟨h_turn', h_retries'⟩ := h_accepted.retries
    rw [h_reply.rest] at h_turn' h_retries'
    rw [h_effect.rest] at h_turn h_retries
    exact .inl ⟨h_turn.trans (congrArg (· + 1) h_turn'), h_retries.le.trans h_retries'⟩

/-! ### The trace of a pass -/

theorem storedTurn_trace (env : Env a) (k : ℕ) (turn : TurnRecord) (s : RunState a) :
    (storedTurn env k turn s).trace = s.trace ++ [.turnAppended turn] :=
  rfl

/-- The end of a turn adds an injected message to the trace at most. -/
theorem EndTurn.trace {env : Env a} {k : ℕ} {final : Bool} {s s' : RunState a}
    {o : Except RunError Prog.Ctl} (h : EndTurn env k final s o s') :
    s'.trace = s.trace ∨ ∃ message, s'.trace = s.trace ++ [.inject message] := by
  cases h with
  | stopped => exact .inl rfl
  | injected => exact .inr ⟨_, rfl⟩
  | human => exact .inl rfl
  | timedOut => exact .inl rfl
  | onward => exact .inl rfl

/-- What handlers of `calls` can be observed to do. -/
def HandlerObs (env : Env a) (calls : List ToolCallRequest) : Obs → Prop
  | .executed _ name key => ∃ tc ∈ calls, tc.toolName = name ∧
      env.registry.gated name = false ∧ env.registry.reachedKey name = some key
  | .deferred pending => ∃ tc ∈ calls, tc.toolName = pending.toolName ∧
      env.registry.gated tc.toolName = true ∧ env.registry.needsApproval tc.toolName = false
  | _ => False

/-- What handlers are observed to do is about their calls. -/
theorem Logged.observed {env : Env a} {calls : List ToolCallRequest} {n m : ℕ}
    {outs : List (ℕ × Except RunError Handled)} {obs : List Obs}
    (h : Logged env calls n outs obs m) : ∀ o ∈ obs, HandlerObs env calls o := by
  induction h with
  | nil => simp
  | malformed _ ih => exact ih
  | approval _ _ _ ih => exact ih
  | deferred updates saved h_req h_gated h_app _ ih =>
    rw [List.forall_mem_cons]
    -- a deferred call is gated
    exact ⟨⟨_, List.mem_of_getElem? h_req, rfl, h_gated, h_app⟩, ih⟩
  | unknown _ _ _ _ _ _ _ ih => exact ih
  | executed updates saved result h_req h_gated h_key _ ih =>
    rw [List.forall_mem_cons]
    -- an executed one is not
    exact ⟨⟨_, List.mem_of_getElem? h_req, rfl, h_gated, h_key⟩, ih⟩

/-- What a pass that makes call `k` can be observed to do. -/
def PassObs (env : Env a) (stream : Bool) (k : ℕ) : Obs → Prop
  | .started _ => False
  | .executed tcId name key => ∃ raw, callResponse env stream k = .ok raw ∧
      HandlerObs env (acceptedResponse env k raw).toolCalls (.executed tcId name key)
  | .deferred pending => ∃ raw, callResponse env stream k = .ok raw ∧
      HandlerObs env (acceptedResponse env k raw).toolCalls (.deferred pending)
  | _ => True

/-- A handler's observation is one of the pass. -/
theorem PassObs.of_handler {env : Env a} {stream : Bool} {k : ℕ} {raw : LLMResponse} {o : Obs}
    (h_raw : callResponse env stream k = .ok raw)
    (h : HandlerObs env (acceptedResponse env k raw).toolCalls o) : PassObs env stream k o := by
  cases o with
  | executed => exact ⟨raw, h_raw, h⟩
  | deferred => exact ⟨raw, h_raw, h⟩
  | started => exact h
  | contextBuilt => trivial
  | llmCall => trivial
  | retry => trivial
  | turnAppended => trivial
  | inject => trivial

/-- `t` comes after `s` in a pass that makes call `k`. -/
def Extends (env : Env a) (stream : Bool) (k : ℕ) (s t : RunState a) : Prop :=
  ∃ new, t.trace = s.trace ++ new ∧ ∀ o ∈ new, PassObs env stream k o

theorem Extends.refl (env : Env a) (stream : Bool) (k : ℕ) {s t : RunState a}
    (h : t.trace = s.trace) : Extends env stream k s t :=
  ⟨[], by simp [h], by simp⟩

theorem Extends.one {env : Env a} {stream : Bool} {k : ℕ} {s t : RunState a} {o : Obs}
    (h : t.trace = s.trace ++ [o]) (ho : PassObs env stream k o) : Extends env stream k s t :=
  ⟨[o], h, by simpa using ho⟩

/-- Two parts of a pass extend the trace one after the other. -/
theorem Extends.trans {env : Env a} {stream : Bool} {k : ℕ} {s t u : RunState a}
    (h : Extends env stream k s t) (h' : Extends env stream k t u) : Extends env stream k s u := by
  obtain ⟨new, h_trace, h_new⟩ := h
  obtain ⟨new', h_trace', h_new'⟩ := h'
  refine ⟨new ++ new', by rw [h_trace', h_trace, List.append_assoc], fun o ho => ?_⟩
  rcases List.mem_append.mp ho with ho | ho
  · exact h_new o ho
  · exact h_new' o ho

/-- The end of a turn extends its trace. -/
theorem EndTurn.extends {env : Env a} (stream : Bool) {k : ℕ} {final : Bool} {s s' : RunState a}
    {o : Except RunError Prog.Ctl} (h : EndTurn env k final s o s') : Extends env stream k s s' := by
  rcases h.trace with h | ⟨message, h⟩
  · exact .refl env stream k h
  · exact .one h trivial

/-- Opening a turn extends the trace. -/
theorem Opened.extends {env : Env a} (stream : Bool) {s t : RunState a} {sent : List Message}
    (h : Opened env s sent t) : Extends env stream s.calls s t := by
  obtain ⟨builds, session, messages, h_trace, h_builds, -⟩ := h.trace
  refine ⟨builds ++ [.llmCall sent], by rw [h_trace, List.append_assoc], fun o ho => ?_⟩
  rcases List.mem_append.mp ho with ho | ho
  · obtain ⟨degraded, dropped, rfl⟩ := h_builds o ho
    trivial
  · rw [List.mem_singleton.mp ho]
    trivial

theorem Replied.extends {env : Env a} {stream : Bool} {s t : RunState a} {sent : List Message}
    {r : LLMResponse} (h : Replied env stream s sent r t) : Extends env stream s.calls s t := by
  obtain ⟨u, events, h_open, rfl⟩ := h.opened
  exact h_open.extends stream

theorem Accepted.trace {env : Env a} {r : LLMResponse} {s t : RunState a}
    (h : Accepted env r s t) : t.trace = s.trace := by
  cases h <;> rfl

/-- Up to the handlers of the response's calls. -/
theorem HandlingEffect.extends {env : Env a} {stream : Bool} {s t u v : RunState a}
    {sent : List Message} {r : LLMResponse} (h_reply : Replied env stream s sent r t)
    (h_accepted : Accepted env r t u) {outs : List (ℕ × Except RunError Handled)} {obs : List Obs}
    (h : HandlingEffect env r.toolCalls u outs obs v) : Extends env stream s.calls s v := by
  obtain ⟨raw, h_raw, rfl⟩ := h_reply.response
  refine h_reply.extends.trans (.trans (.refl env stream _ h_accepted.trace) ⟨obs, h.trace, ?_⟩)
  exact fun o ho => .of_handler h_raw (h.logged.observed o ho)

/-- **The trace of a pass** extends the trace before it. -/
theorem TurnStep.extends {env : Env a} {stream : Bool} {s s' : RunState a}
    {o : Except RunError Prog.Ctl} (h : TurnStep env stream s o s') :
    Extends env stream s.calls s s' := by
  cases h with
  | cancelled => exact .refl env stream _ rfl
  | callFailed h_open => exact h_open.extends stream
  | retried h_reply => exact h_reply.extends.trans (.one rfl trivial)
  | rejected h_reply => exact h_reply.extends
  | @answered sent r t u h_reply h_accepted _ _ savings _ _ h_end =>
    -- the call, the stored turn, the end of the turn
    refine h_reply.extends.trans (.trans (.refl env stream _ h_accepted.trace) ?_)
    exact .trans (.one (storedTurn_trace env s.calls _ (answering r u)) trivial)
      (h_end.extends stream)
  | toolsRaised h_reply h_accepted _ h_effect => exact h_effect.extends h_reply h_accepted
  -- paused: the stored turn comes last
  | paused h_reply h_accepted _ h_effect _ _ _ _ h_w =>
    subst h_w
    exact (h_effect.extends h_reply h_accepted).trans (.one rfl trivial)
  | handled h_reply h_accepted _ h_effect _ _ _ _ h_end =>
    refine (h_effect.extends h_reply h_accepted).trans ?_
    exact .trans (.one (storedTurn_trace env s.calls _ _) trivial) (h_end.extends stream)

/-- What can still be observed in a pass after its model call. -/
def AfterCall : Obs → Prop
  | .started _ | .contextBuilt .. | .llmCall _ => False
  | _ => True

/-- The end of a turn comes after its call. -/
theorem EndTurn.afterCall {env : Env a} {k : ℕ} {final : Bool} {s s' : RunState a}
    {o : Except RunError Prog.Ctl} (h : EndTurn env k final s o s') :
    ∃ after, s'.trace = s.trace ++ after ∧ ∀ o ∈ after, AfterCall o := by
  rcases h.trace with h | ⟨message, h⟩
  · exact ⟨[], by simp [h], by simp⟩
  · exact ⟨[.inject message], h, by simp [AfterCall]⟩

/-- So does handling the tool calls. -/
theorem Logged.afterCall {env : Env a} {calls : List ToolCallRequest} {n m : ℕ}
    {outs : List (ℕ × Except RunError Handled)} {obs : List Obs}
    (h : Logged env calls n outs obs m) : ∀ o ∈ obs, AfterCall o := by
  intro o ho
  have h_obs := h.observed o ho
  cases o <;> first | exact trivial | exact h_obs

/-- **The model call of a pass**: a pass that was not cancelled sent one message list, and
observes no other call afterwards. -/
theorem TurnStep.opened {env : Env a} {stream : Bool} {s s' : RunState a}
    {o : Except RunError Prog.Ctl} (h : TurnStep env stream s o s') :
    (o = .error .cancelled ∧ s' = { s with calls := s.calls + 1 }) ∨
      ∃ sent t after, Opened env s sent t ∧ s'.trace = t.trace ++ after ∧
        ∀ o ∈ after, AfterCall o := by
  cases h with
  | cancelled => exact .inl ⟨rfl, rfl⟩
  | callFailed h_open => exact .inr ⟨_, _, [], h_open, by simp [RunState.withEvents], by simp⟩
  | retried h_reply =>
    obtain ⟨u, events, h_open, rfl⟩ := h_reply.opened
    exact .inr ⟨_, u, _, h_open, rfl, by simp [AfterCall]⟩
  | rejected h_reply =>
    obtain ⟨u, events, h_open, rfl⟩ := h_reply.opened
    exact .inr ⟨_, u, [], h_open, (List.append_nil _).symm, by simp⟩
  | @answered sent r t u h_reply h_accepted _ _ savings _ _ h_end =>
    obtain ⟨t', events, h_open, rfl⟩ := h_reply.opened
    -- the turn record follows the call, and then what `on_turn_end` made of it
    obtain ⟨after, h_trace, h_after⟩ := h_end.afterCall
    refine .inr ⟨_, t', .turnAppended (answerRecord r savings (answering r u)) :: after, h_open,
      ?_, List.forall_mem_cons.mpr ⟨?_, h_after⟩⟩
    · rw [h_trace, storedTurn_trace, List.append_assoc]
      exact congrArg (· ++ _) h_accepted.trace
    · trivial
  | @toolsRaised sent r t u v h_reply h_accepted _ outs obs h_effect =>
    obtain ⟨t', events, h_open, rfl⟩ := h_reply.opened
    refine .inr ⟨_, t', obs, h_open, ?_, h_effect.logged.afterCall⟩
    rw [h_effect.trace]
    exact congrArg (· ++ _) h_accepted.trace
  | @paused sent r t u v h_reply h_accepted _ outs obs h_effect handled n _ _ c savings _ h_w =>
    subst h_w
    obtain ⟨t', events, h_open, rfl⟩ := h_reply.opened
    refine .inr ⟨_, t', obs ++ [.turnAppended (toolRecord env r c savings n handled v)], h_open, ?_,
      List.forall_mem_append.mpr
        ⟨h_effect.logged.afterCall, List.forall_mem_singleton.mpr ?_⟩⟩
    · change v.trace ++ _ = _
      rw [h_effect.trace, List.append_assoc]
      exact congrArg (· ++ _) h_accepted.trace
    · trivial
  | @handled sent r t u v h_reply h_accepted _ outs obs h_effect handled n _ _ c savings _ _ h_end =>
    obtain ⟨t', events, h_open, rfl⟩ := h_reply.opened
    obtain ⟨after, h_trace, h_after⟩ := h_end.afterCall
    refine .inr ⟨_, t', obs ++ .turnAppended (toolRecord env r c savings n handled v) :: after,
      h_open, ?_, List.forall_mem_append.mpr
        ⟨h_effect.logged.afterCall, List.forall_mem_cons.mpr ⟨?_, h_after⟩⟩⟩
    · rw [h_trace, storedTurn_trace, h_effect.trace, List.append_assoc, List.append_assoc]
      exact congrArg (· ++ _) h_accepted.trace
    · trivial

/-! ### The loop rule -/

/-- How much a run can still do. -/
def budget (env : Env a) (limit : ℕ) (s : RunState a) : ℕ :=
  (limit - s.runTurnIndex) * (env.config.structuredOutputMaxRetries + 1) + s.structRetriesRemaining

/-- The states at the head of the loop of a run. -/
def HeadOf (env : Env a) (stream : Bool) (limit : ℕ) : RunState a → RunState a → Prop :=
  Prog.Visits (loopCond limit) (turn env stream)

/-- A run that is not at its limit has more left than the retries of one turn. -/
theorem lt_budget {env : Env a} {limit : ℕ} {s : RunState a} (h : s.runTurnIndex < limit) :
    env.config.structuredOutputMaxRetries < budget env limit s := by
  have h_one := Nat.mul_le_mul_right (env.config.structuredOutputMaxRetries + 1)
    (show 1 ≤ limit - s.runTurnIndex by omega)
  unfold budget
  omega

/-- **A pass that goes on uses up some of the budget**, and refills the retries of a turn at
most. -/
theorem TurnStep.budget_lt {env : Env a} {stream : Bool} {limit : ℕ} {s s' : RunState a}
    (h : TurnStep env stream s (.ok .next) s') (h_lt : s.runTurnIndex < limit)
    (h_retries : s.structRetriesRemaining ≤ env.config.structuredOutputMaxRetries) :
    budget env limit s' < budget env limit s ∧
      s'.structRetriesRemaining ≤ env.config.structuredOutputMaxRetries := by
  unfold budget
  rcases h.progress with ⟨h_turn, h_ret⟩ | ⟨h_turn, h_ret⟩
  · rw [max_eq_right h_retries] at h_ret
    -- a turn more: all the retries of the next one are there
    refine ⟨?_, h_ret⟩
    obtain ⟨d, hd⟩ : ∃ d, limit - s.runTurnIndex = d + 1 := ⟨limit - s.runTurnIndex - 1, by omega⟩
    rw [show limit - s'.runTurnIndex = d by omega, hd, Nat.succ_mul]
    omega
  · -- a retry less in the same turn
    rw [h_turn]
    omega

/-- The rule of the run loop, from what holds at each turn. -/
theorem wp_loop_turns (env : Env a) (stream : Bool) (limit : ℕ) {I Q : RunState a → Prop}
    {E : RunError → RunState a → Prop} (s₀ : RunState a)
    (h_next : ∀ s s', HeadOf env stream limit s₀ s → I s → s.runTurnIndex < limit →
      TurnStep env stream s (.ok .next) s' → I s')
    (h_stop : ∀ s s', HeadOf env stream limit s₀ s → I s → s.runTurnIndex < limit →
      TurnStep env stream s (.ok .stop) s' → Q s')
    (h_error : ∀ s e s', HeadOf env stream limit s₀ s → I s → s.runTurnIndex < limit →
      TurnStep env stream s (.error e) s' → E e s')
    (h_init : I s₀)
    (h_retries : s₀.structRetriesRemaining ≤ env.config.structuredOutputMaxRetries) :
    Prog.wp (Prog.loop (loopCond limit) (turn env stream) (runFuel env limit))
      (fun c s => (c = .done ∧ I s ∧ limit ≤ s.runTurnIndex ∧ HeadOf env stream limit s₀ s) ∨
        (c = .broke ∧ Q s)) E s₀ := by
  refine Prog.wp_loop_visits
    (I := fun s => I s ∧ s.structRetriesRemaining ≤ env.config.structuredOutputMaxRetries)
    (budget env limit) ?_ ?_ ?_ ⟨h_init, h_retries⟩ ?_
  · -- below the limit there is budget left
    rintro s - h_cond
    have h_lt : s.runTurnIndex < limit := by simpa [loopCond] using h_cond
    exact (Nat.zero_le _).trans_lt (lt_budget h_lt)
  · rintro s h_head ⟨hI, hR⟩ h_cond
    have h_lt : s.runTurnIndex < limit := by simpa [loopCond] using h_cond
    refine Prog.wp_mono (wp_turn env stream s) ?_ (fun e s' h => h_error s e s' h_head hI h_lt h)
    intro c s' h
    cases c with
    | stop => exact .inr ⟨rfl, h_stop s s' h_head hI h_lt h⟩
    | next =>
      obtain ⟨h_budget, h_ret⟩ := h.budget_lt h_lt hR
      exact ⟨⟨h_next s s' h_head hI h_lt h, h_ret⟩, h_budget⟩
  · rintro s h_head ⟨hI, -⟩ h_cond
    exact .inl ⟨rfl, hI, by simpa [loopCond] using h_cond, h_head⟩
  · unfold budget runFuel
    rw [Nat.succ_mul]
    have := Nat.mul_le_mul_right (env.config.structuredOutputMaxRetries + 1)
      (Nat.sub_le limit s₀.runTurnIndex)
    omega

/-! ### Facts about runs -/

/-- The states at the head of the loop of a run, before a pass. -/
def TurnOf (env : Env a) (stream : Bool) (args : RunArgs) (st : Store a) (s : RunState a) : Prop :=
  HeadOf env stream (turnLimit env args) (startRun env stream args st) s ∧
    s.runTurnIndex < turnLimit env args

theorem startRun_retries (env : Env a) (stream : Bool) (args : RunArgs) (st : Store a) :
    (startRun env stream args st).structRetriesRemaining = env.config.structuredOutputMaxRetries :=
  rfl

/-- **How a run's loop ends**: at the limit, by a pass that stops, or by an exception. -/
theorem runLoop_cases (env : Env a) (stream : Bool) (limit : ℕ) {I Q : RunState a → Prop}
    {E : RunError → RunState a → Prop} (s₀ : RunState a)
    (h_next : ∀ s s', HeadOf env stream limit s₀ s → I s → s.runTurnIndex < limit →
      TurnStep env stream s (.ok .next) s' → I s')
    (h_stop : ∀ s s', HeadOf env stream limit s₀ s → I s → s.runTurnIndex < limit →
      TurnStep env stream s (.ok .stop) s' → Q s')
    (h_error : ∀ s e s', HeadOf env stream limit s₀ s → I s → s.runTurnIndex < limit →
      TurnStep env stream s (.error e) s' → E e s')
    (h_init : I s₀)
    (h_retries : s₀.structRetriesRemaining = env.config.structuredOutputMaxRetries) :
    (∃ s, I s ∧ limit ≤ s.runTurnIndex ∧ HeadOf env stream limit s₀ s ∧
        runLoop env stream limit s₀ = { s with status := .maxTurnsReached }) ∨
      (∃ s, Q s ∧ runLoop env stream limit s₀ =
        if limit ≤ s.runTurnIndex then { s with status := .maxTurnsReached } else s) ∨
      (∃ e s, E e s ∧ runLoop env stream limit s₀ = raised stream e s) := by
  have h := wp_loop_turns env stream limit s₀ h_next h_stop h_error h_init h_retries.le
  unfold runLoop
  unfold Prog.wp at h
  rcases hr : Prog.loop (loopCond limit) (turn env stream) (runFuel env limit) s₀ with ⟨e | c, s⟩
  · -- a turn raised
    rw [hr] at h
    exact .inr (.inr ⟨e, s, h, rfl⟩)
  · rw [hr] at h
    -- the limit was reached, or a turn stopped the loop
    rcases h with ⟨-, hI, h_limit, h_head⟩ | ⟨-, hQ⟩
    · exact .inl ⟨s, hI, h_limit, h_head, if_pos h_limit⟩
    · exact .inr (.inl ⟨s, hQ, rfl⟩)

@[simp] theorem raised_trace (stream : Bool) (e : RunError) (s : RunState a) :
    (raised stream e s).trace = s.trace := by
  cases e <;> rfl

@[simp] theorem raised_live (stream : Bool) (e : RunError) (s : RunState a) :
    (raised stream e s).live = s.live := by
  cases e <;> rfl

/-- A property of states that passes keep, and that does not look at the status, the error
text and the streamed events, holds after the loop. -/
theorem runLoop_invariant (env : Env a) (stream : Bool) (limit : ℕ) {J : RunState a → Prop}
    {s₀ : RunState a}
    (h_step : ∀ s o s', HeadOf env stream limit s₀ s → J s → s.runTurnIndex < limit →
      TurnStep env stream s o s' → J s')
    (h_frame : ∀ s status errorMsg events, J s →
      J { s with status := status, errorMsg := errorMsg, events := events })
    (h_init : J s₀)
    (h_retries : s₀.structRetriesRemaining = env.config.structuredOutputMaxRetries) :
    J (runLoop env stream limit s₀) := by
  have h := runLoop_cases env stream limit (I := J) (Q := J) (E := fun _ => J) s₀
    (fun s s' hh hJ hl => h_step s _ s' hh hJ hl) (fun s s' hh hJ hl => h_step s _ s' hh hJ hl)
    (fun s e s' hh hJ hl => h_step s _ s' hh hJ hl) h_init h_retries
  rcases h with ⟨s, hJ, -, -, h_eq⟩ | ⟨s, hJ, h_eq⟩ | ⟨e, s, hJ, h_eq⟩ <;> rw [h_eq]
  · -- the status alone is set
    exact h_frame s _ s.errorMsg s.events hJ
  · split_ifs
    · exact h_frame s _ s.errorMsg s.events hJ
    · exact hJ
  · -- an exception sets the status and the error
    cases e <;> exact h_frame s _ _ _ hJ

@[simp] theorem curateAtEnd_trace (env : Env a) (s : RunState a) :
    (curateAtEnd env s).trace = s.trace := by
  unfold curateAtEnd
  split_ifs <;> rfl

@[simp] theorem curateAtEnd_status (env : Env a) (s : RunState a) :
    (curateAtEnd env s).status = s.status := by
  unfold curateAtEnd
  split_ifs <;> rfl

/-- Everything a run is observed to do after it started was done by a pass. -/
theorem runLoop_observed (env : Env a) (stream : Bool) (limit : ℕ) {s₀ : RunState a}
    (h_retries : s₀.structRetriesRemaining = env.config.structuredOutputMaxRetries) :
    ∀ o ∈ (runLoop env stream limit s₀).trace, o ∈ s₀.trace ∨ ∃ k, PassObs env stream k o := by
  refine runLoop_invariant env stream limit
    (J := fun s => ∀ o ∈ s.trace, o ∈ s₀.trace ∨ ∃ k, PassObs env stream k o) ?_
    (fun _ _ _ _ h => h) (fun o ho => .inl ho) h_retries
  intro s c s' _ hJ _ h_step o ho
  obtain ⟨new, h_trace, h_new⟩ := h_step.extends
  rw [h_trace] at ho
  -- seen before this turn, or in it
  rcases List.mem_append.mp ho with ho | ho
  · exact hJ o ho
  · exact .inr ⟨_, h_new o ho⟩

/-- What a run did is what its loop did. -/
theorem execRun_trace (env : Env a) (stream : Bool) (args : RunArgs) (st : Store a) :
    (execRun env stream args st).trace =
      (runLoop env stream (turnLimit env args) (startRun env stream args st)).trace := by
  unfold execRun
  split_ifs <;> simp [finishRun]

/-- The status of a run is that of its loop. -/
theorem execRun_status (env : Env a) (stream : Bool) (args : RunArgs) (st : Store a) :
    (execRun env stream args st).status =
      (runLoop env stream (turnLimit env args) (startRun env stream args st)).status := by
  unfold execRun
  split_ifs <;> simp [finishRun]

end Nexus
