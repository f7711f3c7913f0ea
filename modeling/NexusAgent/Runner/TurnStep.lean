import NexusAgent.Runner.Handling
import NexusAgent.Runner.Loop

/-!
# One pass of the loop, by cases

`TurnStep` lists everything a pass of the agent loop can do, with the state it leaves:
it is cancelled, the model call fails, the model is asked again, the response is rejected,
it is the run's answer, its tool calls raise, pause the run or are all handled. `wp_turn`
says that the pass is one of these, and is the only place where the program text of the
pass is unfolded; the invariants of a run are proved by cases on `TurnStep`.
-/

open Lib

namespace Nexus

variable {a : StoreAdapter}

/-! ### The head of a pass -/

/-- What the summarizer can do to the working session and its store. -/
inductive Folded (env : Env a) (k : ℕ) (l : Live a) : Live a → Prop
  | kept : Folded env k l l
  | folded {ratio : ℚ} (h_on : env.config.contextSummary.summarizeOn = some ratio)
      (h_some : turnsToFold env.config.contextSummary l.session ≠ []) (newPart : String) :
    Folded env k l
      (l.mutate (foldSession env.config.contextSummary
        (turnsToFold env.config.contextSummary l.session) newPart)).saveSession

/-- A summary folds the session, or leaves it. -/
theorem folded_summarize (env : Env a) (k : ℕ) (l : Live a) :
    Folded env k l (summarize env.config.contextSummary (env.summaryReply k) l) := by
  unfold summarize
  cases h_on : env.config.contextSummary.summarizeOn with
  | none => exact .kept
  | some ratio =>
    dsimp only
    -- nothing to fold, or nothing to tell
    split_ifs with h_none h_blank
    · exact .kept
    · exact .kept
    · refine .folded h_on (fun h => h_none ?_) _
      simp [h]

/-- What one context of call `k` is built from. -/
def buildInputOf (env : Env a) (k : ℕ) (session : AgentSession) (userMessage : Option String) :
    BuildInput where
  session := session
  systemContent := env.systemContent k session
  currentUserMessage := userMessage
  tokenBudget := env.config.contextWindowTokens

/-- `messages` are the context of the session of `t`, and `t` is `s` but for the working
session, the builder's token count and the windows built. -/
structure Built (env : Env a) (k : ℕ) (s : RunState a) (messages : List Message)
    (t : RunState a) : Prop where
  messages : messages = build env.config.builder env.counter
    (buildInputOf env k t.session s.turnUserMsg)
  trace : ∃ builds, t.trace = s.trace ++ builds ∧
    (∀ o ∈ builds, ∃ degraded dropped, o = .contextBuilt degraded dropped) ∧
    let w := buildWindow env.config.builder env.counter (buildInputOf env k t.session s.turnUserMsg)
    Obs.contextBuilt w.degradedTcIds w.turnsDropped ∈ builds
  rest : t = { s with live := t.live, lastUntrimmedTokens := t.lastUntrimmedTokens, trace := t.trace }

/-- What the context is built from. -/
theorem built_buildContext (env : Env a) (k : ℕ) (s : RunState a) :
    Built env k s (buildContextMessages env k s).1 (buildContextMessages env k s).2 where
  messages := rfl
  trace := ⟨[_], rfl, by simp, by simp [buildContextMessages, RunState.observe, buildInputOf]⟩
  rest := rfl

/-- Building the context again after the working session changed. -/
theorem Built.rebuild {env : Env a} {k : ℕ} {s t : RunState a} {messages : List Message}
    (h : Built env k s messages t) (l : Live a) :
    Built env k s (buildContextMessages env k { t with live := l }).1
      (buildContextMessages env k { t with live := l }).2 := by
  obtain ⟨builds, h_trace, h_builds, -⟩ := h.trace
  -- the message of the turn is the same
  have h_user : RunState.turnUserMsg { t with live := l } = s.turnUserMsg := by
    rw [h.rest]
    rfl
  have h_again := built_buildContext env k { t with live := l }
  -- what was built before, and what is built again
  obtain ⟨builds', h_trace', h_builds', h_mem'⟩ := h_again.trace
  refine ⟨h_user ▸ h_again.messages, ⟨builds ++ builds', ?_, ?_, ?_⟩, ?_⟩
  · rw [h_trace', ← List.append_assoc, ← h_trace]
  · intro o ho
    rcases List.mem_append.mp ho with ho | ho
    · exact h_builds o ho
    · exact h_builds' o ho
  · rw [h_user] at h_mem'
    exact List.mem_append_right _ h_mem'
  · rw [h.rest]
    rfl

/-- Compacting builds the context again, or leaves it. -/
theorem built_maybeCompact {env : Env a} {k : ℕ} {s t : RunState a} {messages : List Message}
    (h : Built env k s messages t) :
    Built env k s (maybeCompact env k messages t).1.1 (maybeCompact env k messages t).2 ∧
      t.live.Similar (maybeCompact env k messages t).2.live := by
  unfold maybeCompact
  split_ifs
  · exact ⟨h.rebuild _, similar_compact _ _ _ _ _⟩
  · exact ⟨h, .refl _⟩

/-- Summarising does so as well. -/
theorem built_maybeSummarize {env : Env a} {k : ℕ} {s t : RunState a} {messages : List Message}
    (h : Built env k s messages t) :
    Built env k s (maybeSummarize env k messages t).1 (maybeSummarize env k messages t).2 ∧
      Folded env k t.live (maybeSummarize env k messages t).2.live := by
  unfold maybeSummarize
  split_ifs
  · exact ⟨h.rebuild _, folded_summarize _ _ _⟩
  · exact ⟨h, .kept⟩

/-- Preparing the context of call `k`: summaries may be written, then turns folded, and the
messages are those of the session this leaves. -/
theorem built_prepareTurn (env : Env a) (k : ℕ) (s : RunState a) :
    Built env k s (prepareTurn env k s).1.1 (prepareTurn env k s).2 ∧
      ∃ l, s.live.Similar l ∧ Folded env k l (prepareTurn env k s).2.live := by
  have h_first := built_buildContext env k s
  obtain ⟨h_compacted, h_similar⟩ := built_maybeCompact h_first
  obtain ⟨h_summarized, h_folded⟩ := built_maybeSummarize h_compacted
  exact ⟨h_summarized, _, h_similar, h_folded⟩

/-- The state in which call `s.calls` is sent the messages `sent`. -/
structure Opened (env : Env a) (s : RunState a) (sent : List Message) (t : RunState a) : Prop where
  running : env.cancelTurn s.calls = false
  live : ∃ l l', s.live.Similar l ∧ Folded env s.calls l l' ∧ l'.Similar t.live
  prepared : (prepareTurn env s.calls { s with calls := s.calls + 1 }).2.live.Similar t.live
  trace : ∃ (builds : List Obs) (session : AgentSession) (messages : List Message),
    t.trace = s.trace ++ builds ++ [.llmCall sent] ∧
    (∀ o ∈ builds, ∃ degraded dropped, o = .contextBuilt degraded dropped) ∧
    session.bare = t.session.bare ∧
    (let inp := buildInputOf env s.calls session s.turnUserMsg
     let w := buildWindow env.config.builder env.counter inp
     messages = build env.config.builder env.counter inp ∧
     Obs.contextBuilt w.degradedTcIds w.turnsDropped ∈ builds) ∧
    sent = (env.beforeLLMCall s.calls messages).getD messages
  rest : t = { s with
    calls := s.calls + 1
    live := t.live
    lastUntrimmedTokens := t.lastUntrimmedTokens
    trace := t.trace
    events := t.events }

/-- A turn is opened with what was built, after the hook. -/
theorem wp_openTurn {env : Env a} (stream : Bool) {s : RunState a}
    (h_running : env.cancelTurn s.calls = false) :
    Prog.wp (openTurn env stream s.calls) (fun _ t => ∃ sent, Opened env s sent t)
      (fun _ _ => False) { s with calls := s.calls + 1 } := by
  obtain ⟨h_built, l, h_similar, h_folded⟩ := built_prepareTurn env s.calls { s with calls := s.calls + 1 }
  unfold openTurn
  simp only [Prog.wp_bind, Prog.wp_update, Prog.wp_get]
  generalize h_prepared : prepareTurn env s.calls { s with calls := s.calls + 1 } = r at h_built h_folded
  obtain ⟨⟨messages, saved⟩, t⟩ := r
  dsimp only at h_built h_folded ⊢
  refine wp_emit stream _ fun events => ?_
  simp only [Prog.wp_modify, Prog.wp_pure]
  obtain ⟨builds, h_trace, h_builds, h_window⟩ := h_built.trace
  -- the savings of the build are counted in the session
  have h_counted := Live.similar_mutate t.live
    (f := fun u => { u with
      cumulativeInputTokensSavedByRcs := u.cumulativeInputTokensSavedByRcs +
        (countSavings env messages t).1 }) rfl
  refine ⟨(env.beforeLLMCall s.calls messages).getD messages, h_running,
    ⟨l, t.live, h_similar, h_folded, h_counted⟩, by rw [h_prepared]; exact h_counted,
    ⟨builds, t.session, messages, ?_, h_builds, rfl, ⟨h_built.messages, h_window⟩, rfl⟩, ?_⟩
  · exact congrArg (· ++ _) h_trace
  · rw [h_built.rest]
    rfl

/-! ### The response -/

/-- The state with the tokens of a response counted. -/
def RunState.countTokens (usage : TokenUsage) (s : RunState a) : RunState a :=
  { s with
    totalTokensIn := s.totalTokensIn + usage.promptTokens
    totalTokensOut := s.totalTokensOut + usage.completionTokens }

/-- The pass from `s` sent `sent` and got the response `r`, in the state `t`. -/
structure Replied (env : Env a) (stream : Bool) (s : RunState a) (sent : List Message)
    (r : LLMResponse) (t : RunState a) : Prop where
  opened : ∃ u events, Opened env s sent u ∧ t = (u.withEvents events).countTokens r.usage
  response : ∃ raw, callResponse env stream s.calls = .ok raw ∧ r = acceptedResponse env s.calls raw
  uncancelled : stream = true → Uncancelled env s.calls

/-- Why a response needs a second attempt: a response without tool calls that fails the
validation of the run's result type. -/
def structuredFailure (env : Env a) (r : LLMResponse) : Option String :=
  match env.config.resultType with
  | none => none
  | some resultType =>
    if r.toolCalls.isEmpty then
      match validateStructuredResult env.jsonErrorText r.content resultType with
      | .ok _ => none
      | .error e => some e
    else none

/-- A failure of the structured reply is one without tool calls. -/
theorem toolCalls_of_structuredFailure {env : Env a} {r : LLMResponse} {e : String}
    (h : structuredFailure env r = some e) : r.toolCalls = [] := by
  unfold structuredFailure at h
  split at h
  · cases h
  · split_ifs at h with h_calls
    simpa using h_calls

/-- A response that needs no second attempt. -/
inductive Accepted (env : Env a) (r : LLMResponse) (s : RunState a) : RunState a → Prop
  | unasked (h_valid : structuredFailure env r = none) : Accepted env r s s
  | valid (h_valid : structuredFailure env r = none) (v : Json) :
    Accepted env r s { s with
      structuredResult := some v
      structRetriesRemaining := env.config.structuredOutputMaxRetries
      finalResp := if env.config.turns.stopOnResultType then r.content else s.finalResp }

/-- An accepted response has no failure. -/
theorem Accepted.noFailure {env : Env a} {r : LLMResponse} {s t : RunState a}
    (h : Accepted env r s t) : structuredFailure env r = none := by
  cases h with
  | unasked h_valid => exact h_valid
  | valid h_valid => exact h_valid

/-! ### The end of a turn -/

/-- The decision of the turn-end hook after call `k`. -/
def decisionAfter (env : Env a) (k : ℕ) : TurnDecision := (env.onTurnEnd k).getD {}

/-- The message the turn-end hook injects after call `k`. -/
def injectedMessage (env : Env a) (k : ℕ) : Option String :=
  match (decisionAfter env k).action with
  | .inject => truthy (decisionAfter env k).message
  | _ => none

/-- What follows a stored turn. `final` tells the final-answer branch from the tool branch. -/
inductive EndTurn (env : Env a) (k : ℕ) (final : Bool) (s : RunState a) :
    Except RunError Prog.Ctl → RunState a → Prop
  | stopped (h : (decisionAfter env k).action = .stop) :
    EndTurn env k final s (.ok .stop) { s with status := .interrupted }
  | injected {message : String} (h_msg : injectedMessage env k = some message) :
    EndTurn env k final s (.ok .next)
      (RunState.observe (.inject message) { s.nextTurn with currentUserMessage := message })
  | human (h_stop : (decisionAfter env k).action ≠ .stop) (h_none : injectedMessage env k = none)
      (h_due : humanInLoopDue env.config.turns s.runTurnIndex = true) (events : List StreamEvent) :
    EndTurn env k final s (.ok .stop)
      ({ s with
        live := maybeSave env.context (s.live.mutate (.addPending hitlRequest))
        status := .paused }.withEvents events)
  | timedOut (h_tools : final = false) (h : env.timedOut k = true) :
    EndTurn env k final s (.error (.timeout (turnTimeoutMessage env.config.turns))) s
  | onward (h_stop : (decisionAfter env k).action ≠ .stop) (h_none : injectedMessage env k = none)
      (h_due : humanInLoopDue env.config.turns s.runTurnIndex = false) :
    EndTurn env k final s (.ok (if final then .stop else .next)) s.nextTurn

/-- The end of a turn, for any way to go on that meets the specification. -/
theorem wp_endTurn (env : Env a) (stream : Bool) (k : ℕ) (final : Bool) {onward : Run a Prog.Ctl}
    (s : RunState a)
    (h_onward : (decisionAfter env k).action ≠ .stop → injectedMessage env k = none →
      humanInLoopDue env.config.turns s.runTurnIndex = false →
      Prog.wp onward (fun c s' => EndTurn env k final s (.ok c) s')
        (fun e s' => EndTurn env k final s (.error e) s') s) :
    Prog.wp (endTurn env stream k onward) (fun c s' => EndTurn env k final s (.ok c) s')
      (fun e s' => EndTurn env k final s (.error e) s') s := by
  -- neither stopped nor injected: the human in the loop may be due
  have h_human : (decisionAfter env k).action ≠ .stop → injectedMessage env k = none →
      Prog.wp (do
          let s ← Prog.get
          if humanInLoopDue env.config.turns s.runTurnIndex then
            pauseForHuman env stream
            return .stop
          else onward)
        (fun c s' => EndTurn env k final s (.ok c) s')
        (fun e s' => EndTurn env k final s (.error e) s') s := by
    intro h_stop h_none
    simp only [Prog.wp_bind, Prog.wp_get]
    rw [Prog.wp_ite]
    refine ⟨fun h_due => ?_, fun h_due => h_onward h_stop h_none (by simpa using h_due)⟩
    simp only [pauseForHuman, Prog.wp_bind, Prog.wp_modify, Prog.wp_pure]
    exact wp_emitPaused stream fun events => .human h_stop h_none h_due events
  unfold endTurn
  rw [Prog.wp_ite]
  refine ⟨fun h => .stopped h, fun h_stop => ?_⟩
  split
  · next message h_act h_msg =>
    refine .injected ?_
    unfold injectedMessage decisionAfter
    rw [h_act]
    exact h_msg
  · -- `inject` without a message is like `continue`
    next h_not =>
    refine h_human h_stop ?_
    unfold injectedMessage
    split
    · next h_act =>
      by_contra h_some
      obtain ⟨message, h_msg⟩ := Option.ne_none_iff_exists'.mp h_some
      exact h_not message h_act h_msg
    · rfl

/-- What comes after a turn was stored in the final-answer branch. -/
theorem wp_endTurn_answer (env : Env a) (stream : Bool) (k : ℕ) (s : RunState a) :
    Prog.wp (endTurn env stream k do
        Prog.modify RunState.nextTurn
        return .stop)
      (fun c s' => EndTurn env k true s (.ok c) s')
      (fun e s' => EndTurn env k true s (.error e) s') s :=
  wp_endTurn env stream k true s fun h_stop h_none h_due => .onward h_stop h_none h_due

/-- What comes after a turn was stored in the tool branch. -/
theorem wp_endTurn_tools (env : Env a) (stream : Bool) (k : ℕ) (s : RunState a) :
    Prog.wp (endTurn env stream k do
        if env.timedOut k then Prog.throw (.timeout (turnTimeoutMessage env.config.turns))
        Prog.modify RunState.nextTurn
        return .next)
      (fun c s' => EndTurn env k false s (.ok c) s')
      (fun e s' => EndTurn env k false s (.error e) s') s := by
  refine wp_endTurn env stream k false s fun h_stop h_none h_due => ?_
  rw [Prog.wp_ite]
  exact ⟨fun h => .timedOut rfl h, fun _ => .onward h_stop h_none h_due⟩

/-! ### The pass -/

/-- The results of handlers, as the two branches hand them to the turn. -/
def HandledBy (env : Env a) (k : ℕ) (calls : List ToolCallRequest)
    (outs : List (ℕ × Except RunError Handled)) (handled : List Handled) (n : ℕ) : Prop :=
  if useParallel env calls then
    outs.map Prod.fst = (env.gatherOrder k calls.length).val ∧ Prog.firstError outs = none ∧
      handled = untilPaused (Prog.inOrder calls.length outs) ∧ n = calls.length
  else
    InSequence 0 outs handled ∧ n = handled.length ∧
      ((∀ h ∈ handled, h.paused = false) → handled.length = calls.length) ∧
      ∀ i < handled.length, env.cancelCall k i = false

/-- The outcomes of handlers of a turn that raised. -/
def RaisedBy (env : Env a) (k : ℕ) (calls : List ToolCallRequest)
    (outs : List (ℕ × Except RunError Handled)) : Prop :=
  if useParallel env calls then
    outs.map Prod.fst = (env.gatherOrder k calls.length).val ∧ Prog.firstError outs ≠ none
  else BrokenOff env k 0 outs ∧ ∃ p, BreaksAt env k calls p

/-- The calls are handled, or one of them raises. -/
theorem wp_runTools (env : Env a) (stream : Bool) (k : ℕ) (calls : List ToolCallRequest)
    (s : RunState a) :
    Prog.wp (runTools env stream k calls)
      (fun r s' => ∃ outs obs, HandlingEffect env calls s outs obs s' ∧
        HandledBy env k calls outs r.1 r.2)
      (fun _ s' => ∃ outs obs, HandlingEffect env calls s outs obs s' ∧
        RaisedBy env k calls outs) s := by
  unfold runTools HandledBy RaisedBy
  split_ifs with h_par
  · simp only [Prog.wp_bind, Prog.wp_pure]
    refine Prog.wp_mono (wp_runParallel env k calls s) ?_ ?_
    · rintro handled s' ⟨outs, h_runs, h_places, h_first, h_handled⟩
      obtain ⟨obs, h_effect⟩ := h_runs.effect
      exact ⟨outs, obs, h_effect, h_places, h_first, h_handled, trivial⟩
    · rintro e s' ⟨outs, h_runs, h_raised⟩
      obtain ⟨obs, h_effect⟩ := h_runs.effect
      exact ⟨outs, obs, h_effect, h_raised⟩
  · simp only [Prog.wp_bind, Prog.wp_pure]
    -- where a sequence ends without a result, a call broke it off
    have h_breaks : Prog.wp (runSequential env stream k 0 calls) (fun _ _ => True)
        (fun _ _ => ∃ p, BreaksAt env k calls p) s :=
      wp_runSequential_breaks stream calls calls 0 rfl (by simp) s
    refine Prog.wp_mono (Prog.wp_and (wp_runSequential env stream k calls calls 0 rfl s) h_breaks)
      ?_ ?_
    · rintro handled s' ⟨⟨outs, h_runs, h_seq, h_len, h_free⟩, -⟩
      obtain ⟨obs, h_effect⟩ := h_runs.effect
      exact ⟨outs, obs, h_effect, h_seq, trivial, h_len, by simpa using h_free⟩
    · rintro e s' ⟨⟨outs, h_runs, h_raised⟩, h_break⟩
      obtain ⟨obs, h_effect⟩ := h_runs.effect
      exact ⟨outs, obs, h_effect, h_raised, h_break⟩

/-- The state once a turn was stored and, perhaps, curated. -/
def storedTurn (env : Env a) (k : ℕ) (turn : TurnRecord) (s : RunState a) : RunState a :=
  let s := persistTurnWithState env turn s
  { s with live := maybeCurateAfterTurn env k s.live }

/-- The state of the final-answer branch before the turn is stored. -/
def answering (r : LLMResponse) (s : RunState a) : RunState a := { s with finalResp := r.content }

/-- The state in which the model is asked again. -/
def askingAgain (e : String) (s : RunState a) : RunState a :=
  RunState.observe (.retry (formatValidationRetryMessage e))
    { s with
      structRetriesRemaining := s.structRetriesRemaining - 1
      currentUserMessage := formatValidationRetryMessage e }

/-- Everything a pass of the loop from `s` can do. -/
inductive TurnStep (env : Env a) (stream : Bool) (s : RunState a) :
    Except RunError Prog.Ctl → RunState a → Prop
  | cancelled (h : env.cancelTurn s.calls = true) :
    TurnStep env stream s (.error .cancelled) { s with calls := s.calls + 1 }
  | callFailed {sent : List Message} {t : RunState a} {e : RunError}
      (h_open : Opened env s sent t) (events : List StreamEvent) :
    TurnStep env stream s (.error e) (t.withEvents events)
  | retried {sent : List Message} {r : LLMResponse} {t : RunState a}
      (h_reply : Replied env stream s sent r t) {e : String}
      (h_fail : structuredFailure env r = some e) (h_left : 0 < t.structRetriesRemaining) :
    TurnStep env stream s (.ok .next) (askingAgain e t)
  | rejected {sent : List Message} {r : LLMResponse} {t : RunState a}
      (h_reply : Replied env stream s sent r t) {e : String}
      (h_fail : structuredFailure env r = some e) :
    TurnStep env stream s (.error (.error e)) t
  | answered {sent : List Message} {r : LLMResponse} {t u : RunState a}
      (h_reply : Replied env stream s sent r t) (h_accepted : Accepted env r t u)
      (h_calls : r.toolCalls = []) (h_stop : env.config.turns.stopOnEmptyToolCalls = true)
      (savings : ℕ) {o : Except RunError Prog.Ctl} {s' : RunState a}
      (h_end : EndTurn env s.calls true
        (storedTurn env s.calls (answerRecord r savings (answering r u)) (answering r u)) o s') :
    TurnStep env stream s o s'
  | toolsRaised {sent : List Message} {r : LLMResponse} {t u v : RunState a}
      (h_reply : Replied env stream s sent r t) (h_accepted : Accepted env r t u)
      (h_tools : r.toolCalls ≠ [] ∨ env.config.turns.stopOnEmptyToolCalls = false)
      {outs : List (ℕ × Except RunError Handled)} {obs : List Obs}
      (h_effect : HandlingEffect env r.toolCalls u outs obs v)
      (h_raised : RaisedBy env s.calls r.toolCalls outs) (e : RunError) :
    TurnStep env stream s (.error e) v
  | paused {sent : List Message} {r : LLMResponse} {t u v : RunState a}
      (h_reply : Replied env stream s sent r t) (h_accepted : Accepted env r t u)
      (h_tools : r.toolCalls ≠ [] ∨ env.config.turns.stopOnEmptyToolCalls = false)
      {outs : List (ℕ × Except RunError Handled)} {obs : List Obs}
      (h_effect : HandlingEffect env r.toolCalls u outs obs v)
      {handled : List Handled} {n : ℕ} (h_handled : HandledBy env s.calls r.toolCalls outs handled n)
      (h_paused : v.status = .paused) (compactorSaved savings : ℕ) {w : RunState a}
      (h_w : w = persistTurnWithState env (toolRecord env r compactorSaved savings n handled v) v)
      (events : List StreamEvent) :
    TurnStep env stream s (.ok .stop)
      ({ w with live := maybeSave env.context w.live }.withEvents events)
  | handled {sent : List Message} {r : LLMResponse} {t u v : RunState a}
      (h_reply : Replied env stream s sent r t) (h_accepted : Accepted env r t u)
      (h_tools : r.toolCalls ≠ [] ∨ env.config.turns.stopOnEmptyToolCalls = false)
      {outs : List (ℕ × Except RunError Handled)} {obs : List Obs}
      (h_effect : HandlingEffect env r.toolCalls u outs obs v)
      {handled : List Handled} {n : ℕ} (h_handled : HandledBy env s.calls r.toolCalls outs handled n)
      (h_paused : v.status ≠ .paused) (compactorSaved savings : ℕ)
      {o : Except RunError Prog.Ctl} {s' : RunState a}
      (h_end : EndTurn env s.calls false
        (storedTurn env s.calls (toolRecord env r compactorSaved savings n handled v) v) o s') :
    TurnStep env stream s o s'

/-- Validation accepts the response, asks again, or rejects it. -/
theorem wp_checkStructured (env : Env a) (r : LLMResponse) (t : RunState a) :
    Prog.wp (checkStructured env r)
      (fun again u => if again = true then
          ∃ e, structuredFailure env r = some e ∧ 0 < t.structRetriesRemaining ∧ u = askingAgain e t
        else Accepted env r t u)
      (fun e u => ∃ msg, e = .error msg ∧ u = t ∧ structuredFailure env r = some msg) t := by
  unfold checkStructured
  cases h_typed : env.config.resultType with
  | none => exact .unasked (by simp [structuredFailure, h_typed])
  | some resultType =>
    dsimp only
    rw [Prog.wp_ite]
    -- only a response without calls is checked
    refine ⟨fun h_calls => ?_, fun h_calls => .unasked (by simp [structuredFailure, h_typed, h_calls])⟩
    cases h_result : validateStructuredResult env.jsonErrorText r.content resultType with
    | ok v => exact .valid (by simp [structuredFailure, h_typed, h_result]) v
    | error e =>
      -- it is not valid: asked again, or raised
      have h_fail : structuredFailure env r = some e := by
        simp only [structuredFailure, h_typed, h_calls, if_true, h_result]
      simp only [Prog.wp_bind, Prog.wp_get]
      rw [Prog.wp_ite]
      exact ⟨fun h_left => ⟨e, h_fail, h_left, rfl⟩, fun _ => ⟨e, rfl, rfl, h_fail⟩⟩

/-- A final answer is stored, and the turn ends. -/
theorem wp_finalAnswer {env : Env a} {stream : Bool} {s : RunState a} {sent : List Message}
    {r : LLMResponse} {t u : RunState a} (h_reply : Replied env stream s sent r t)
    (h_accepted : Accepted env r t u) (h_calls : r.toolCalls = [])
    (h_stop : env.config.turns.stopOnEmptyToolCalls = true) (savings : ℕ) :
    Prog.wp (finalAnswer env stream s.calls r savings)
      (fun c s' => TurnStep env stream s (.ok c) s')
      (fun e s' => TurnStep env stream s (.error e) s') u := by
  unfold finalAnswer
  simp only [Prog.wp_bind, Prog.wp_modify]
  exact Prog.wp_mono (wp_endTurn_answer env stream s.calls _)
    (fun _ _ h => .answered h_reply h_accepted h_calls h_stop savings h)
    (fun _ _ h => .answered h_reply h_accepted h_calls h_stop savings h)

/-- A turn with calls pauses, is stored, or raises. -/
theorem wp_toolTurn {env : Env a} {stream : Bool} {s : RunState a} {sent : List Message}
    {r : LLMResponse} {t u : RunState a} (h_reply : Replied env stream s sent r t)
    (h_accepted : Accepted env r t u)
    (h_tools : r.toolCalls ≠ [] ∨ env.config.turns.stopOnEmptyToolCalls = false)
    (compactorSaved savings : ℕ) :
    Prog.wp (toolTurn env stream s.calls r compactorSaved savings)
      (fun c s' => TurnStep env stream s (.ok c) s')
      (fun e s' => TurnStep env stream s (.error e) s') u := by
  unfold toolTurn
  rw [Prog.wp_bind]
  refine Prog.wp_mono (wp_runTools env stream s.calls r.toolCalls u) ?_ ?_
  · rintro ⟨handled, n⟩ v ⟨outs, obs, h_effect, h_handled⟩
    simp only [Prog.wp_bind, Prog.wp_modify, Prog.wp_get]
    rw [Prog.wp_ite]
    refine ⟨fun h_paused => ?_, fun h_paused => ?_⟩
    · -- a call waits
      simp only [Prog.wp_bind, Prog.wp_modify]
      exact wp_emitPaused stream fun events => .paused h_reply h_accepted h_tools h_effect h_handled
        h_paused compactorSaved savings rfl events
    · -- all calls were handled
      simp only [Prog.wp_bind, Prog.wp_modify]
      exact Prog.wp_mono (wp_endTurn_tools env stream s.calls _)
        (fun _ _ h => .handled h_reply h_accepted h_tools h_effect h_handled h_paused
          compactorSaved savings h)
        (fun _ _ h => .handled h_reply h_accepted h_tools h_effect h_handled h_paused
          compactorSaved savings h)
  · -- one of them raised
    rintro e v ⟨outs, obs, h_effect, h_raised⟩
    exact .toolsRaised h_reply h_accepted h_tools h_effect h_raised e

/-- **One pass of the loop** is one of the listed steps. -/
theorem wp_turn (env : Env a) (stream : Bool) (s : RunState a) :
    Prog.wp (turn env stream) (fun c s' => TurnStep env stream s (.ok c) s')
      (fun e s' => TurnStep env stream s (.error e) s') s := by
  unfold turn raiseIfCancelled
  simp only [Prog.wp_bind, Prog.wp_update]
  rw [Prog.wp_ite]
  refine ⟨fun h_cancel => .cancelled h_cancel, fun h_cancel => ?_⟩
  rw [Prog.wp_pure]
  rw [Bool.not_eq_true] at h_cancel
  refine Prog.wp_mono (wp_openTurn stream h_cancel) ?_ (fun _ _ h => h.elim)
  rintro ⟨compactorSaved, savings⟩ t ⟨sent, h_open⟩
  simp only [Prog.wp_get]
  refine Prog.wp_mono (wp_callLLM env stream s.calls _ t) ?_ ?_
  · -- a response: checked, and then either a final answer or calls of tools
    rintro raw t' ⟨⟨h_raw, h_free⟩, events, rfl⟩
    simp only [Prog.wp_modify]
    have h_reply : Replied env stream s sent (acceptedResponse env s.calls raw)
        ((t.withEvents events).countTokens (acceptedResponse env s.calls raw).usage) :=
      ⟨⟨t, events, h_open, rfl⟩, ⟨raw, h_raw, rfl⟩, h_free⟩
    refine Prog.wp_mono (wp_checkStructured env (acceptedResponse env s.calls raw) _) ?_ ?_
    · rintro again u h_check
      split_ifs at h_check with h_again
      · obtain ⟨e, h_fail, h_left, rfl⟩ := h_check
        rw [if_pos h_again]
        exact .retried h_reply h_fail h_left
      · rw [if_neg h_again, Prog.wp_ite]
        refine ⟨fun h_final => ?_, fun h_final => ?_⟩
        · obtain ⟨h_calls, h_stop⟩ := Bool.and_eq_true_iff.mp h_final
          exact wp_finalAnswer h_reply h_check (by simpa using h_calls) h_stop savings
        · refine wp_toolTurn h_reply h_check ?_ compactorSaved savings
          -- it has calls, or a text without calls does not stop the loop
          rw [Bool.and_eq_true_iff, not_and_or] at h_final
          simpa using h_final
    · rintro e u ⟨msg, rfl, rfl, h_fail⟩
      exact .rejected h_reply h_fail
  · rintro e t' ⟨-, events, rfl⟩
    exact .callFailed h_open events

end Nexus
