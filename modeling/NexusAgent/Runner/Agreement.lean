import NexusAgent.Lib.Lockstep
import NexusAgent.Runner.Assembly
import NexusAgent.Runner.Runs

/-!
# Streaming and blocking runs

`run` and `run_stream` share the loop and differ in the model call and in the events they
yield. Nothing in the loop reads the events, so the two keep step as long as the model
calls return the same (`inStep_turn`), and then end with the same result, session and store
(`execRun_agree`).

What the calls return is a matter of the replies: those that are read alike give the same
response streamed and at once, and no cancel may come between two chunks, where only a
streaming run looks for one.
-/

open Lib

namespace Nexus

variable {a : StoreAdapter} {α β : Type}

/-! ### The same but for the events -/

/-- The states differ in the streamed events only. -/
def SameButEvents (s t : RunState a) : Prop := ∃ events, t = s.withEvents events

/-- The programs do the same but for the events they stream. -/
def SameSteps (x y : Run a α) : Prop :=
  ∀ s t, SameButEvents s t → Prog.InStep SameButEvents x y s t

theorem sameSteps_pure (v : α) : SameSteps (pure v : Run a α) (pure v) :=
  fun _ _ h => Prog.inStep_pure v h

theorem sameSteps_throw (e : RunError) : SameSteps (Prog.throw e : Run a α) (Prog.throw e) :=
  fun _ _ h => Prog.inStep_throw e h

theorem SameSteps.bind {x y : Run a α} {f g : α → Run a β} (h : SameSteps x y)
    (h_rest : ∀ v, SameSteps (f v) (g v)) : SameSteps (x >>= f) (y >>= g) :=
  fun s t h_same => (h s t h_same).bind fun v s' t' _ h' => h_rest v s' t' h'

/-- A change that does not read the events. -/
theorem sameSteps_modify {f : RunState a → RunState a}
    (h : ∀ s events, f (s.withEvents events) = (f s).withEvents events) :
    SameSteps (Prog.modify f) (Prog.modify f) := by
  rintro s _ ⟨events, rfl⟩
  exact Prog.inStep_modify ⟨events, h s events⟩

/-- An update that ignores the events does the same steps. -/
theorem sameSteps_update {f : RunState a → α × RunState a}
    (h : ∀ s events, f (s.withEvents events) = ((f s).1, (f s).2.withEvents events)) :
    SameSteps (Prog.update f) (Prog.update f) := by
  rintro s _ ⟨events, rfl⟩
  refine Prog.inStep_update ?_ ⟨events, ?_⟩
  · rw [h]
  · rw [h]

/-- The state is read first. -/
theorem sameSteps_get {f g : RunState a → Run a α}
    (h : ∀ s events, SameSteps (f s) (g (s.withEvents events))) :
    SameSteps (Prog.get >>= f) (Prog.get >>= g) := by
  rintro s _ ⟨events, rfl⟩
  exact Prog.inStep_get (h s events s _ ⟨events, rfl⟩)

theorem sameSteps_ite {c : Prop} [Decidable c] {x x' y y' : Run a α}
    (h : c → SameSteps x y) (h' : ¬c → SameSteps x' y') :
    SameSteps (if c then x else x') (if c then y else y') :=
  fun s t h_same => Prog.inStep_ite (fun hc => h hc s t h_same) (fun hc => h' hc s t h_same)

theorem sameSteps_onLive (x : Prog (Live a) String α) : SameSteps (onLive x) (onLive x) := by
  rintro s _ ⟨events, rfl⟩
  exact Prog.inStep_zoom RunError.error x rfl fun l => ⟨events, rfl⟩

theorem sameSteps_raiseIfCancelled (requested : Bool) :
    SameSteps (raiseIfCancelled requested : Run a Unit) (raiseIfCancelled requested) :=
  sameSteps_ite (fun _ => sameSteps_throw _) (fun _ => sameSteps_pure _)

/-- Emitting, to a caller who listens or not. -/
theorem sameSteps_emit (stream stream' : Bool) (e e' : StreamEvent) :
    SameSteps (emit stream e : Run a Unit) (emit stream' e') := by
  rintro s _ ⟨events, rfl⟩
  refine Prog.inStep_modify ?_
  cases stream <;> cases stream' <;> exact ⟨_, rfl⟩

theorem sameSteps_emitPaused (stream stream' : Bool) :
    SameSteps (emitPaused stream : Run a Unit) (emitPaused stream') :=
  sameSteps_get fun _ _ => sameSteps_emit _ _ _ _

/-! ### Handling tool calls -/

/-- Executing a tool does the same steps. -/
theorem sameSteps_executeTool (env : Env a) (k pos : ℕ) (req : ToolCallRequest) (tcId : String)
    (args : ToolArgs) :
    SameSteps (executeTool env k pos req tcId args) (executeTool env k pos req tcId args) := by
  unfold executeTool
  cases env.registry.reachedKey req.toolName with
  | none => exact sameSteps_pure _
  | some key => exact sameSteps_update fun s events => rfl

/-- The handling of a call does not look at the events. -/
theorem sameSteps_handleTool (env : Env a) (k pos : ℕ) (req : ToolCallRequest) :
    SameSteps (handleTool env k pos req) (handleTool env k pos req) := by
  unfold handleTool
  refine sameSteps_get fun s events => ?_
  refine (sameSteps_onLive _).bind fun p => ?_
  refine SameSteps.bind (sameSteps_update fun s events => rfl) fun tcIndex => ?_
  refine sameSteps_ite (fun _ => ?_) (fun _ => ?_)
  · refine sameSteps_ite (fun _ => sameSteps_throw _) (fun _ => ?_)
    exact SameSteps.bind (sameSteps_modify fun s events => rfl) fun _ => sameSteps_pure _
  · exact (sameSteps_executeTool env k pos req _ _).bind fun _ => sameSteps_pure _

/-- Nor does a sequence of calls. -/
theorem sameSteps_runSequential (env : Env a) (stream stream' : Bool) (k : ℕ)
    (calls : List ToolCallRequest) (pos : ℕ) :
    SameSteps (runSequential env stream k pos calls) (runSequential env stream' k pos calls) := by
  induction calls generalizing pos with
  | nil => exact sameSteps_pure _
  | cons req calls ih =>
    unfold runSequential
    refine (sameSteps_raiseIfCancelled _).bind fun _ => ?_
    refine sameSteps_get fun s events => ?_
    refine (sameSteps_emit _ _ _ _).bind fun _ => ?_
    refine (sameSteps_handleTool env k pos req).bind fun h => ?_
    -- after a pause the rest of the calls is left, on both sides
    have h_rest : SameSteps (if h.paused = true then do
          emitPaused stream
          pure [h]
        else do
          let hs ← runSequential env stream k (pos + 1) calls
          pure (h :: hs))
        (if h.paused = true then do
          emitPaused stream'
          pure [h]
        else do
          let hs ← runSequential env stream' k (pos + 1) calls
          pure (h :: hs)) := by
      refine sameSteps_ite (fun _ => ?_) (fun _ => ?_)
      · exact (sameSteps_emitPaused stream stream').bind fun _ => sameSteps_pure _
      · exact (ih (pos + 1)).bind fun hs => sameSteps_pure _
    exact sameSteps_ite (fun _ => (sameSteps_emit _ _ _ _).bind fun _ => h_rest) (fun _ => h_rest)

/-- Nor do calls in parallel. -/
theorem sameSteps_runParallel (env : Env a) (k : ℕ) (calls : List ToolCallRequest) :
    SameSteps (runParallel env k calls) (runParallel env k calls) := by
  unfold runParallel
  refine SameSteps.bind (fun s t h => ?_) fun results => sameSteps_pure _
  refine Prog.inStep_gather (fun i s' t' h' => ?_) _ _ h
  unfold handleAt
  cases calls[i]? with
  | none => exact Prog.inStep_throw _ h'
  | some req => exact sameSteps_handleTool env k i req s' t' h'

/-- So does running all tools. -/
theorem sameSteps_runTools (env : Env a) (stream stream' : Bool) (k : ℕ)
    (calls : List ToolCallRequest) :
    SameSteps (runTools env stream k calls) (runTools env stream' k calls) :=
  sameSteps_ite
    (fun _ => (sameSteps_runParallel env k calls).bind fun _ => sameSteps_pure _)
    (fun _ => (sameSteps_runSequential env stream stream' k calls 0).bind fun _ => sameSteps_pure _)

/-! ### The parts of a pass -/

/-- Nor does a compaction. -/
theorem maybeCompact_withEvents (env : Env a) (k : ℕ) (messages : List Message) (s : RunState a)
    (events : List StreamEvent) :
    maybeCompact env k messages (s.withEvents events) =
      ((maybeCompact env k messages s).1, (maybeCompact env k messages s).2.withEvents events) := by
  have h_tokens : currentTokens env messages (s.withEvents events) = currentTokens env messages s :=
    rfl
  have h_session : (s.withEvents events).session = s.session := rfl
  unfold maybeCompact
  rw [h_tokens, h_session]
  split_ifs <;> rfl

/-- Nor does a summary. -/
theorem maybeSummarize_withEvents (env : Env a) (k : ℕ) (messages : List Message) (s : RunState a)
    (events : List StreamEvent) :
    maybeSummarize env k messages (s.withEvents events) =
      ((maybeSummarize env k messages s).1, (maybeSummarize env k messages s).2.withEvents events) := by
  have h_tokens : currentTokens env messages (s.withEvents events) = currentTokens env messages s :=
    rfl
  have h_session : (s.withEvents events).session = s.session := rfl
  unfold maybeSummarize
  rw [h_tokens, h_session]
  split_ifs <;> rfl

/-- Preparing a turn ignores the events. -/
theorem prepareTurn_withEvents (env : Env a) (k : ℕ) (s : RunState a) (events : List StreamEvent) :
    prepareTurn env k (s.withEvents events) =
      ((prepareTurn env k s).1, (prepareTurn env k s).2.withEvents events) := by
  have h_built : buildContextMessages env k (s.withEvents events) =
      ((buildContextMessages env k s).1, (buildContextMessages env k s).2.withEvents events) := rfl
  unfold prepareTurn
  simp only [h_built, maybeCompact_withEvents, maybeSummarize_withEvents]

/-- Opening a turn gives the same, whether or not events are emitted. -/
theorem sameSteps_openTurn (env : Env a) (stream stream' : Bool) (k : ℕ) :
    SameSteps (openTurn env stream k) (openTurn env stream' k) := by
  unfold openTurn
  refine SameSteps.bind (sameSteps_update (prepareTurn_withEvents env k)) fun p => ?_
  refine SameSteps.bind (sameSteps_update fun s events => rfl) fun savings => ?_
  refine sameSteps_get fun s events => ?_
  refine (sameSteps_emit _ _ _ _).bind fun _ => ?_
  exact SameSteps.bind (sameSteps_modify fun s events => rfl) fun _ => sameSteps_pure _

/-- So does the check of a structured result. -/
theorem sameSteps_checkStructured (env : Env a) (r : LLMResponse) :
    SameSteps (checkStructured env r) (checkStructured env r) := by
  unfold checkStructured
  cases env.config.resultType with
  | none => exact sameSteps_pure _
  | some resultType =>
    refine sameSteps_ite (fun _ => ?_) (fun _ => sameSteps_pure _)
    cases validateStructuredResult env.jsonErrorText r.content resultType with
    -- valid: the value is kept; else a retry, or the error is raised
    | ok v => exact SameSteps.bind (sameSteps_modify fun s events => rfl) fun _ => sameSteps_pure _
    | error e =>
      refine sameSteps_get fun s events => ?_
      refine sameSteps_ite (fun _ => ?_) (fun _ => sameSteps_throw _)
      exact SameSteps.bind (sameSteps_modify fun s events => rfl) fun _ => sameSteps_pure _

/-- So does the end of a turn. -/
theorem sameSteps_endTurn (env : Env a) (stream stream' : Bool) (k : ℕ)
    {onward onward' : Run a Prog.Ctl} (h : SameSteps onward onward') :
    SameSteps (endTurn env stream k onward) (endTurn env stream' k onward') := by
  -- the human check comes last, and emits its event only in a stream
  have h_human : SameSteps (do
        let s ← Prog.get
        if humanInLoopDue env.config.turns s.runTurnIndex then
          pauseForHuman env stream
          return .stop
        else onward) (do
        let s ← Prog.get
        if humanInLoopDue env.config.turns s.runTurnIndex then
          pauseForHuman env stream'
          return .stop
        else onward') := by
    refine sameSteps_get fun s events => sameSteps_ite (fun _ => ?_) (fun _ => h)
    refine SameSteps.bind ?_ fun _ => sameSteps_pure _
    exact SameSteps.bind (sameSteps_modify fun s events => rfl) fun _ => sameSteps_emitPaused _ _
  unfold endTurn
  refine sameSteps_ite (fun _ => ?_) (fun _ => ?_)
  · exact SameSteps.bind (sameSteps_modify fun s events => rfl) fun _ => sameSteps_pure _
  · split
    · exact SameSteps.bind (sameSteps_modify fun s events => rfl) fun _ => sameSteps_pure _
    · exact h_human

/-- So does the final answer. -/
theorem sameSteps_finalAnswer (env : Env a) (stream stream' : Bool) (k : ℕ) (r : LLMResponse)
    (savings : ℕ) :
    SameSteps (finalAnswer env stream k r savings) (finalAnswer env stream' k r savings) := by
  unfold finalAnswer
  refine SameSteps.bind (sameSteps_modify fun s events => rfl) fun _ => ?_
  refine SameSteps.bind (sameSteps_modify fun s events => rfl) fun _ => ?_
  refine SameSteps.bind (sameSteps_modify fun s events => rfl) fun _ => ?_
  apply sameSteps_endTurn
  exact SameSteps.bind (sameSteps_modify fun s events => rfl) fun _ => sameSteps_pure _

/-- So does a turn with tool calls. -/
theorem sameSteps_toolTurn (env : Env a) (stream stream' : Bool) (k : ℕ) (r : LLMResponse)
    (saved savings : ℕ) :
    SameSteps (toolTurn env stream k r saved savings) (toolTurn env stream' k r saved savings) := by
  unfold toolTurn
  refine (sameSteps_runTools env stream stream' k r.toolCalls).bind fun p => ?_
  refine SameSteps.bind (sameSteps_modify fun s events => rfl) fun _ => ?_
  refine sameSteps_get fun s events => sameSteps_ite (fun _ => ?_) (fun _ => ?_)
  · -- a call waits, so the run pauses
    refine SameSteps.bind (sameSteps_modify fun s events => rfl) fun _ => ?_
    exact (sameSteps_emitPaused _ _).bind fun _ => sameSteps_pure _
  · refine SameSteps.bind (sameSteps_modify fun s events => rfl) fun _ => ?_
    apply sameSteps_endTurn
    -- the delay between turns, if there is one
    have h_onward : SameSteps (do
        Prog.modify (σ := RunState a) (ε := RunError) RunState.nextTurn
        return Prog.Ctl.next) (do
        Prog.modify RunState.nextTurn
        return .next) :=
      SameSteps.bind (sameSteps_modify fun s events => rfl) fun _ => sameSteps_pure _
    exact sameSteps_ite (fun _ => (sameSteps_throw _).bind fun _ => h_onward) (fun _ => h_onward)

/-! ### The model call -/

/-- A stream nobody cancels is read to its end. -/
theorem streamFrom_eq (env : Env a) (k turnIndex : ℕ) (chunks : List LLMStreamChunk) (i : ℕ)
    (acc : StreamAcc) (s : RunState a)
    (h : ∀ j < chunks.length, env.cancelChunk k (i + j) = false) :
    ∃ events, streamFrom env k turnIndex i acc chunks s =
      (.ok (chunks.foldl StreamAcc.add acc), s.withEvents events) := by
  induction chunks generalizing i acc s with
  | nil => exact ⟨s.events, rfl⟩
  | cons chunk chunks ih =>
    -- no cancel before this chunk, nor before a later one
    have h_first : env.cancelChunk k i = false := h 0 (by simp)
    have h_later : ∀ j < chunks.length, env.cancelChunk k (i + 1 + j) = false := by
      intro j hj
      rw [Nat.add_assoc, Nat.add_comm 1 j]
      exact h (j + 1) (by simpa using hj)
    obtain ⟨events, h_eq⟩ := ih (i + 1) (acc.add chunk)
      { s with events := s.events ++ chunkEvents turnIndex chunk } h_later
    refine ⟨events, ?_⟩
    unfold streamFrom raiseIfCancelled
    rw [if_neg (by simp [h_first])]
    exact h_eq

/-- A streamed call gives the accumulated response, and more events. -/
theorem callLLM_streaming {env : Env a} {k : ℕ} (h : Uncancelled env k) (turnIndex : ℕ)
    (s : RunState a) : ∃ events, callLLM env true k turnIndex s =
      ((callResponse env true k).mapError RunError.error, s.withEvents events) := by
  obtain ⟨events, h_read⟩ := streamFrom_eq env k turnIndex (env.proxy.chatStream k).chunks 0 {} s
    (by simpa [Uncancelled] using h)
  refine ⟨events, ?_⟩
  unfold callLLM callResponse streamedResponse
  simp only [Bool.not_true, Bool.false_eq_true, if_false, if_true]
  rw [Prog.bind_of_ok h_read]
  -- the stream failed, or its chunks make a response
  cases (env.proxy.chatStream k).failure with
  | some e => rfl
  | none =>
    simp only
    cases ((env.proxy.chatStream k).chunks.foldl StreamAcc.add {}).response env.limits with
    | some r => rfl
    | none => rfl

/-- The blocking call tells no event. -/
theorem callLLM_blocking (env : Env a) (k turnIndex : ℕ) (s : RunState a) :
    callLLM env false k turnIndex s = ((callResponse env false k).mapError RunError.error, s) := by
  unfold callLLM callResponse
  simp only [Bool.not_false, if_true, Bool.false_eq_true, if_false]
  cases env.proxy.chat k with
  | ok r => rfl
  | error e => rfl

/-- The calls agree on what call `k` returns, and nobody cancels it. -/
def CallsAgree (env : Env a) (k : ℕ) : Prop :=
  callResponse env true k = callResponse env false k ∧ Uncancelled env k

/-- If both calls agree, calling does the same steps. -/
theorem sameSteps_callLLM {env : Env a} {k : ℕ} (h : CallsAgree env k) (turnIndex : ℕ) :
    SameSteps (callLLM env false k turnIndex) (callLLM env true k turnIndex) := by
  rintro s _ ⟨events, rfl⟩
  obtain ⟨events', h_stream⟩ := callLLM_streaming h.2 turnIndex (s.withEvents events)
  unfold Prog.InStep
  rw [h_stream, callLLM_blocking, h.1]
  exact ⟨rfl, events', rfl⟩

/-! ### Whole runs -/

/-- **A pass of the loop**, blocking and streaming. -/
theorem inStep_turn {env : Env a} {s t : RunState a} (h_same : SameButEvents s t)
    (h : CallsAgree env s.calls) :
    Prog.InStep SameButEvents (turn env false) (turn env true) s t := by
  unfold turn
  refine Prog.InStep.bind (sameSteps_update (fun s events => rfl) s t h_same) ?_
  intro k s' t' h_k h_same'
  -- both take the same number for the call
  obtain rfl : s.calls = k := Except.ok.inj (Prod.mk.inj h_k).1
  refine (?_ : SameSteps _ _) s' t' h_same'
  -- the parts of the turn, one after the other
  refine (sameSteps_raiseIfCancelled _).bind fun _ => ?_
  refine (sameSteps_openTurn env false true s.calls).bind fun p => ?_
  refine sameSteps_get fun u events => ?_
  refine (sameSteps_callLLM h u.sessionTurnIndex).bind fun raw => ?_
  refine SameSteps.bind (sameSteps_modify fun u events => rfl) fun _ => ?_
  refine (sameSteps_checkStructured env _).bind fun again => ?_
  refine sameSteps_ite (fun _ => sameSteps_pure _) (fun _ => ?_)
  refine sameSteps_ite (fun _ => ?_) (fun _ => ?_)
  · exact sameSteps_finalAnswer env false true _ _ _
  · exact sameSteps_toolTurn env false true _ _ _ _

theorem sameButEvents_raised (e : RunError) {s t : RunState a} (h : SameButEvents s t) :
    SameButEvents (raised false e s) (raised true e t) := by
  obtain ⟨events, rfl⟩ := h
  cases e <;> exact ⟨_, rfl⟩

/-- The loops do the same if the calls agree. -/
theorem sameButEvents_runLoop {env : Env a} {limit : ℕ} {s t : RunState a}
    (h_same : SameButEvents s t)
    (h : ∀ s', HeadOf env false limit s s' → s'.runTurnIndex < limit → CallsAgree env s'.calls) :
    SameButEvents (runLoop env false limit s) (runLoop env true limit t) := by
  have h_cond : ∀ s t : RunState a, SameButEvents s t → loopCond limit s = loopCond limit t := by
    rintro s _ ⟨events, rfl⟩
    rfl
  have h_loop := Prog.inStep_loop h_cond (runFuel env limit)
    (fun s' t' h_visits h_turn h_same' =>
      inStep_turn h_same' (h s' h_visits (by simpa [loopCond] using h_turn))) h_same
  obtain ⟨h_value, h_state⟩ := h_loop
  unfold runLoop
  rcases hs : Prog.loop (loopCond limit) (turn env false) (runFuel env limit) s with ⟨e | c, s'⟩ <;>
    rcases ht : Prog.loop (loopCond limit) (turn env true) (runFuel env limit) t with ⟨e' | c', t'⟩ <;>
    rw [hs, ht] at h_value h_state <;> cases h_value
  · exact sameButEvents_raised e h_state
  · -- both loops end alike: the limit is read from the state, not from the events
    obtain ⟨events, h_t⟩ := h_state
    have h_t : t' = s'.withEvents events := h_t
    subst h_t
    by_cases h_limit : limit ≤ s'.runTurnIndex
    · simp only [if_pos h_limit]
      exact ⟨events, if_pos h_limit⟩
    · simp only [if_neg h_limit]
      exact ⟨events, if_neg h_limit⟩

/-- The finish of a run does not look at the events. -/
theorem finishRun_withEvents (env : Env a) (s : RunState a) (events : List StreamEvent) :
    finishRun env (s.withEvents events) = (finishRun env s).withEvents events := by
  have h_curate : curateAtEnd env (s.withEvents events) = (curateAtEnd env s).withEvents events := by
    have h_status : (s.withEvents events).status = s.status := rfl
    unfold curateAtEnd
    rw [h_status]
    split_ifs <;> rfl
  unfold finishRun
  rw [h_curate]
  rfl

/-- **A run and its streaming twin**: as long as the calls agree, they end in the same state
but for the events. -/
theorem execRun_agree {env : Env a} {args : RunArgs} {st : Store a}
    (h : ∀ s, TurnOf env false args st s → CallsAgree env s.calls) :
    SameButEvents (execRun env false args st) (execRun env true args st) := by
  -- both runs start in the same state
  have h_start : SameButEvents (startRun env false args st) (startRun env true args st) :=
    ⟨_, rfl⟩
  have h_loop : SameButEvents (runLoop env false (turnLimit env args) (startRun env false args st))
      (runLoop env true (turnLimit env args) (startRun env true args st)) :=
    sameButEvents_runLoop h_start fun s' h_head h_turn => h s' ⟨h_head, h_turn⟩
  obtain ⟨events, h_eq⟩ := h_loop
  unfold execRun
  simp only [Bool.false_eq_true, if_false, if_true]
  rw [h_eq, finishRun_withEvents]
  exact ⟨_, rfl⟩

/-! ### One script, streamed or not -/

/-- The proxy answers its blocking calls with the replies, and its streams are cut from them. -/
structure Scripted (limits : Json.Limits) (proxy : LLMProxy) (replies : ℕ → Except String RawReply) : Prop where
  chat : ∀ k, proxy.chat k = (replies k).map (parseResponse limits)
  failed : ∀ k e, replies k = .error e → (proxy.chatStream k).failure = some e
  cut : ∀ k reply, replies k = .ok reply → (proxy.chatStream k).failure = none ∧
    Concatenates (proxy.chatStream k).chunks reply

/-- A call whose reply is alike gives the same, streamed or not. -/
theorem Scripted.callsAgree {env : Env a} {replies : ℕ → Except String RawReply}
    (h : Scripted env.limits env.proxy replies) {k : ℕ} (h_free : Uncancelled env k)
    (h_alike : ∀ reply, replies k = .ok reply → reply.Alike env.limits) : CallsAgree env k := by
  refine ⟨?_, h_free⟩
  have h_chat := h.chat k
  unfold callResponse streamedResponse
  simp only [if_true, Bool.false_eq_true, if_false]
  -- the call fails on both ways, or the cuts make up the reply
  cases h_reply : replies k with
  | error e =>
    rw [h_reply] at h_chat
    rw [h.failed k e h_reply, h_chat]
    rfl
  | ok reply =>
    obtain ⟨h_normal, h_cut⟩ := h.cut k reply h_reply
    rw [h_reply] at h_chat
    rw [h_normal, h_chat, (h_cut.response_eq_iff env.limits).mpr (h_alike reply h_reply)]
    rfl

/-- **A run and its streaming twin agree** on result, session and store, as long as nobody
cancels between the chunks of a call, and the replies are read alike. -/
theorem run_stream_agrees {env : Env a} {replies : ℕ → Except String RawReply}
    (h_script : Scripted env.limits env.proxy replies) {args : RunArgs} {st : Store a}
    (h_calls : ∀ s, TurnOf env false args st s → Uncancelled env s.calls ∧
      ∀ reply, replies s.calls = .ok reply → reply.Alike env.limits) :
    resultOf (execRun env true args st) = resultOf (execRun env false args st) ∧
      (execRun env true args st).session = (execRun env false args st).session ∧
      storeAfter (execRun env true args st) = storeAfter (execRun env false args st) := by
  obtain ⟨events, h_same⟩ := execRun_agree fun s h_turn =>
    h_script.callsAgree (h_calls s h_turn).1 (h_calls s h_turn).2
  rw [h_same]
  exact ⟨rfl, rfl, rfl⟩

/-- An agent without tools, whose model sends one reply in the given chunks. -/
def cutReplyEnv (reply : RawReply) (chunks : List LLMStreamChunk) : Env .memory where
  proxy :=
    { chat := fun _ => .ok (parseResponse {} reply)
      chatStream := fun _ => { chunks := chunks } }

/-- The environment with its reply cut up is scripted. -/
theorem scripted_cutReplyEnv {reply : RawReply} {chunks : List LLMStreamChunk}
    (h : Concatenates chunks reply) :
    Scripted (cutReplyEnv reply chunks).limits (cutReplyEnv reply chunks).proxy fun _ => .ok reply where
  chat _ := rfl
  failed _ _ h_error := by cases h_error
  cut _ _ h_reply := Except.ok.inj h_reply ▸ ⟨rfl, h⟩

/-- A call to look something up. -/
def lookupReply (arguments : String) : RawReply where
  content := some "Let me see."
  toolCalls := [⟨some "c1", some "shop.lookup", some arguments⟩]

/-- The reply in three chunks. -/
def lookupChunks (first second : String) : List LLMStreamChunk :=
  [{ content := some "Let me " },
   { content := some "see.",
     toolCalls := [⟨0, some "c1", none, none, some ⟨some "shop.lookup", some first⟩⟩] },
   { toolCalls := [⟨0, none, none, none, some ⟨none, some second⟩⟩], usage := some {} }]

/-- The chunks of the lookup reply concatenate to it. -/
theorem concatenates_lookupChunks (first second : String) :
    Concatenates (lookupChunks first second) (lookupReply (first ++ second)) where
  content := by
    show PyStr.join "" ["Let me ", "see.", ""] = "Let me see."
    decide +kernel
  reasoning := rfl
  toolCalls := by
    refine ⟨[0], List.pairwise_singleton _ _, ?_, .cons ⟨rfl, rfl, ?_⟩ .nil⟩
    · simp [toolCallDeltas, lookupChunks]
    · simp [deltasAt, toolCallDeltas, lookupChunks, ToolCallDelta.text, PyStr.join]
  usage := rfl

/-- The agent whose model makes the call. -/
def lookupEnv (first second : String) : Env .memory :=
  cutReplyEnv (lookupReply (first ++ second)) (lookupChunks first second)

/-- A lookup with an object for its arguments: both runs give the same result. -/
theorem run_stream_agrees_lookup :
    resultOf (execRun (lookupEnv "\x7b" "\x7d") true { userMessage := "Where is it?" } (.empty _)) =
      resultOf (execRun (lookupEnv "\x7b" "\x7d") false { userMessage := "Where is it?" }
        (.empty _)) := by
  have h_script := scripted_cutReplyEnv (concatenates_lookupChunks "\x7b" "\x7d")
  refine (run_stream_agrees h_script fun s _ => ⟨fun _ _ => rfl, fun reply h_reply => ?_⟩).1
  obtain rfl := Except.ok.inj h_reply
  decide +kernel

/-- **A list for arguments**: the streaming run ends with an error, the blocking run takes the
text for an answer. -/
theorem run_stream_disagrees :
    Scripted (lookupEnv "[" "]").limits (lookupEnv "[" "]").proxy (fun _ => .ok (lookupReply "[]")) ∧
      (resultOf (execRun (lookupEnv "[" "]") true { userMessage := "Where is it?" }
        (.empty _))).status = .error ∧
      (resultOf (execRun (lookupEnv "[" "]") false { userMessage := "Where is it?" }
        (.empty _))).status = .completed :=
  ⟨scripted_cutReplyEnv (concatenates_lookupChunks "[" "]"), by decide +kernel, by decide +kernel⟩

end Nexus
