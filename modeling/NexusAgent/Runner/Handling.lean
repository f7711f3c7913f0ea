import NexusAgent.Runner.Tools
import NexusAgent.Session.Frame

/-!
# What handling tool calls does

`HandleStep` lists everything one call of `_handle_tool` can do, and `HandlerRuns` is a
sequence of such calls, as the sequential and the parallel branch make them. From a
sequence of handler calls the facts that matter to a turn are derived once
(`HandlingEffect`): the pending list grows by what was deferred, the record indices are
fresh and increasing, nothing but summaries changes otherwise.
-/

open Lib

namespace Nexus

variable {a : StoreAdapter}

/-! ### One call -/

/-- The working session with one more record counted. -/
def Live.counted (l : Live a) : Live a := l.mutate fun t => { t with tcCounter := t.tcCounter + 1 }

/-- What `_handle_tool` can do with the call `req`, starting in `s`. -/
inductive HandleStep (env : Env a) (req : ToolCallRequest) (s : RunState a) :
    Except RunError Handled → RunState a → Prop
  /-- The interceptor raises on a malformed update. -/
  | malformed {l : Live a} (msg : String) (hl : s.live.Similar l)
      (h_fate : callFate env req = .raises) :
    HandleStep env req s (.error (.error msg)) { s with live := l }
  /-- The call needs approval, whose kind no pending interaction admits. -/
  | approval {l : Live a} (hl : s.live.Similar l)
      (h_app : env.registry.needsApproval req.toolName = true)
      (h_fate : callFate env req = .raises) :
    HandleStep env req s (.error (.error (env.validationError "PendingInteraction")))
      { s with live := l.counted }
  /-- The call is deferred. -/
  | deferred {l : Live a} (hl : s.live.Similar l) (updates : List ContextUpdate) (saved : ℕ)
      (h_gated : env.registry.gated req.toolName = true)
      (h_app : env.registry.needsApproval req.toolName = false)
      (h_fate : callFate env req = .waits) :
    HandleStep env req s
      (.ok ⟨recordOf env req (l.session.tcCounter + 1) "", true, updates, saved⟩)
      (defer (pendingOf env.config.interceptor req (l.session.tcCounter + 1))
        { s with live := l.counted })
  /-- No registered tool is reached. -/
  | unknown {l : Live a} (hl : s.live.Similar l) (updates : List ContextUpdate) (saved : ℕ)
      (h_gated : env.registry.gated req.toolName = false)
      (h_key : env.registry.reachedKey req.toolName = none) (result : String)
      (h_fate : callFate env req = .answered none) :
    HandleStep env req s
      (.ok ⟨recordOf env req (l.session.tcCounter + 1) result, false, updates, saved⟩)
      { s with live := l.counted }
  /-- The body of a registered tool runs. -/
  | executed {l : Live a} (hl : s.live.Similar l) (updates : List ContextUpdate) (saved : ℕ)
      (h_gated : env.registry.gated req.toolName = false) {key : String}
      (h_key : env.registry.reachedKey req.toolName = some key) (result : String)
      (state : StateBag) (h_fate : callFate env req = .answered (some key)) :
    HandleStep env req s
      (.ok ⟨recordOf env req (l.session.tcCounter + 1) result, false, updates, saved⟩)
      (RunState.observe (.executed (tcIdOf (l.session.tcCounter + 1)) req.toolName key)
        { s with live := l.counted, state := state })

theorem Live.Similar.tcCounter {l l' : Live a} (h : Live.Similar l l') :
    l'.session.tcCounter = l.session.tcCounter := by
  have := congrArg AgentSession.tcCounter h.session
  exact this

/-- **Handling one call** is one of the listed steps. -/
theorem wp_handleTool (env : Env a) (k pos : ℕ) (req : ToolCallRequest) (s : RunState a) :
    Prog.wp (handleTool env k pos req) (fun h s' => HandleStep env req s (.ok h) s')
      (fun e s' => HandleStep env req s (.error e) s') s := by
  unfold handleTool onLive nextTcIndex
  simp only [Prog.wp_bind, Prog.wp_get, Prog.wp_zoom]
  refine Prog.wp_mono (wp_intercept _ env.counter s.sessionTurnIndex req.toolInput s.live) ?_ ?_
  · rintro ⟨args, updates⟩ l ⟨-, hl, h_formed⟩
    simp only [Prog.wp_update]
    by_cases h_gated : env.registry.gated req.toolName = true
    · -- an approval is no kind of interaction a record may have, so that gate raises
      by_cases h_app : env.registry.needsApproval req.toolName = true
      · simp only [h_gated, h_app, if_true, Prog.wp_throw]
        exact .approval hl h_app (by simp [callFate, h_formed, h_gated, h_app])
      · rw [Bool.not_eq_true] at h_app
        simp only [h_gated, h_app, if_true, Bool.false_eq_true, if_false, Prog.wp_bind,
          Prog.wp_modify, Prog.wp_pure]
        exact .deferred hl updates _ h_gated h_app (by simp [callFate, h_formed, h_gated, h_app])
    · rw [Bool.not_eq_true] at h_gated
      simp only [h_gated, Bool.false_eq_true, if_false, Prog.wp_bind]
      unfold executeTool
      split
      · next h_key =>
        exact .unknown hl updates _ h_gated h_key _ (by simp [callFate, h_formed, h_gated, h_key])
      · next key h_key =>
        exact .executed hl updates _ h_gated h_key _ _ (by simp [callFate, h_formed, h_gated, h_key])
  · -- the arguments could not be read: the exception leaves the handler
    rintro msg l ⟨hl, h_bad⟩
    exact .malformed msg hl (by simp [callFate, h_bad])

/-- A handler raises exactly when the fate of its call says so. -/
theorem HandleStep.raises_iff {env : Env a} {req : ToolCallRequest} {s s' : RunState a}
    {o : Except RunError Handled} (h : HandleStep env req s o s') :
    callFate env req = .raises ↔ ∃ e, o = .error e := by
  cases h with
  | malformed _ _ h_fate => simp [h_fate]
  | approval _ _ h_fate => simp [h_fate]
  | deferred _ _ _ _ _ h_fate => simp [h_fate]
  | unknown _ _ _ _ _ _ h_fate => simp [h_fate]
  | executed _ _ _ _ _ _ _ h_fate => simp [h_fate]

/-! ### Sequences of calls -/

/-- The state with other streamed events. -/
def RunState.withEvents (s : RunState a) (events : List StreamEvent) : RunState a :=
  { s with events := events }

/-- Handlers of `calls` that ran one after another from `s` to `s'`, with the place and the
outcome of each. Between two handlers events may be streamed. -/
inductive HandlerRuns (env : Env a) (calls : List ToolCallRequest) :
    RunState a → List (ℕ × Except RunError Handled) → RunState a → Prop
  | nil (s : RunState a) (events : List StreamEvent) : HandlerRuns env calls s [] (s.withEvents events)
  | step {s t s' : RunState a} {pos : ℕ} {req : ToolCallRequest}
      {o : Except RunError Handled} {outs : List (ℕ × Except RunError Handled)}
      (events : List StreamEvent) (h_req : calls[pos]? = some req)
      (h_step : HandleStep env req (s.withEvents events) o t)
      (h_rest : HandlerRuns env calls t outs s') :
    HandlerRuns env calls s ((pos, o) :: outs) s'

/-- Handlers that run after others run with them. -/
theorem HandlerRuns.append {env : Env a} {calls : List ToolCallRequest} {s t u : RunState a}
    {outs outs' : List (ℕ × Except RunError Handled)}
    (h : HandlerRuns env calls s outs t) (h' : HandlerRuns env calls t outs' u) :
    HandlerRuns env calls s (outs ++ outs') u := by
  induction h with
  | nil s events =>
    cases h' with
    | nil => exact .nil s _
    | step events' h_req h_step h_rest => exact .step events' h_req h_step h_rest
  | step events h_req h_step _ ih => exact .step events h_req h_step (ih h')

/-- Streaming events after a sequence of handlers. -/
theorem HandlerRuns.emit {env : Env a} {calls : List ToolCallRequest} {s t : RunState a}
    {outs : List (ℕ × Except RunError Handled)} (h : HandlerRuns env calls s outs t)
    (events : List StreamEvent) : HandlerRuns env calls s outs (t.withEvents events) := by
  simpa using h.append (.nil t events)

/-- One handler. -/
theorem HandlerRuns.single {env : Env a} {calls : List ToolCallRequest} {s t : RunState a}
    {pos : ℕ} {req : ToolCallRequest} {o : Except RunError Handled}
    (h_req : calls[pos]? = some req) (h_step : HandleStep env req s o t) :
    HandlerRuns env calls s [(pos, o)] t :=
  .step s.events h_req h_step (.nil t t.events)

section Emitting

variable {Q : Unit → RunState a → Prop} {E : RunError → RunState a → Prop} {s : RunState a}

/-- Emitting changes the streamed events only. -/
theorem wp_emit (stream : Bool) (e : StreamEvent) (h : ∀ events, Q () (s.withEvents events)) :
    Prog.wp (emit stream e) Q E s := by
  cases stream with
  | false => exact h s.events
  | true => exact h (s.events ++ [e])

theorem wp_emitPaused (stream : Bool) (h : ∀ events, Q () (s.withEvents events)) :
    Prog.wp (emitPaused stream) Q E s := by
  simp only [emitPaused, Prog.wp_bind, Prog.wp_get]
  exact wp_emit stream _ h

end Emitting

/-- Handlers of the calls from place `pos` on, all returned, none but the last paused. -/
def InSequence (pos : ℕ) : List (ℕ × Except RunError Handled) → List Handled → Prop
  | [], [] => True
  | (i, .ok h) :: outs, h' :: hs =>
    i = pos ∧ h' = h ∧ (h.paused = true → hs = []) ∧ InSequence (pos + 1) outs hs
  | _, _ => False

/-- Handlers of the calls from place `pos` on that were broken off: all returned without
pausing, and then the run was cancelled before the next call, or its handler raised. -/
def BrokenOff (env : Env a) (k : ℕ) : ℕ → List (ℕ × Except RunError Handled) → Prop
  | pos, [] => env.cancelCall k pos = true
  | pos, (i, .ok h) :: outs =>
    i = pos ∧ h.paused = false ∧ env.cancelCall k pos = false ∧ BrokenOff env k (pos + 1) outs
  | pos, (i, .error _) :: outs => i = pos ∧ env.cancelCall k pos = false ∧ outs = []

/-- The sequential branch runs handlers in the order of the calls. It stops early only at a
call that paused, and what it raises leaves the handlers that ran before done. -/
theorem wp_runSequential (env : Env a) (stream : Bool) (k : ℕ) (all : List ToolCallRequest)
    (calls : List ToolCallRequest) (pos : ℕ) (h_calls : all.drop pos = calls) (s : RunState a) :
    Prog.wp (runSequential env stream k pos calls)
      (fun hs s' => ∃ outs, HandlerRuns env all s outs s' ∧ InSequence pos outs hs ∧
        ((∀ h ∈ hs, h.paused = false) → hs.length = calls.length) ∧
        ∀ i < hs.length, env.cancelCall k (pos + i) = false)
      (fun _ s' => ∃ outs, HandlerRuns env all s outs s' ∧ BrokenOff env k pos outs) s := by
  induction calls generalizing pos s with
  | nil => exact ⟨[], .nil s s.events, trivial, fun _ => rfl, by simp⟩
  | cons req calls ih =>
    have h_req : all[pos]? = some req := by
      have := congrArg List.head? h_calls
      simpa [List.head?_drop] using this
    have h_next : all.drop (pos + 1) = calls := by
      have := congrArg List.tail h_calls
      simpa [List.tail_drop] using this
    unfold runSequential raiseIfCancelled
    rw [Prog.wp_bind, Prog.wp_ite]
    refine ⟨fun h_cancel => ⟨[], .nil s s.events, h_cancel⟩, fun h_cancel => ?_⟩
    rw [Bool.not_eq_true] at h_cancel
    simp only [Prog.wp_pure, Prog.wp_bind, Prog.wp_get]
    refine wp_emit stream _ fun es => ?_
    refine Prog.wp_mono (wp_handleTool env k pos req _) ?_ ?_
    · intro h t h_step
      have h_one : HandlerRuns env all s [(pos, .ok h)] t := .step es h_req h_step (.nil t t.events)
      -- whether or not a result event is emitted, the rest goes on the same way
      have h_rest : ∀ es', Prog.wp (if h.paused = true then do
            emitPaused stream
            pure [h]
          else do
            let hs ← runSequential env stream k (pos + 1) calls
            pure (h :: hs))
          (fun hs s' => ∃ outs, HandlerRuns env all s outs s' ∧ InSequence pos outs hs ∧
            ((∀ h ∈ hs, h.paused = false) → hs.length = (req :: calls).length) ∧
            ∀ i < hs.length, env.cancelCall k (pos + i) = false)
          (fun _ s' => ∃ outs, HandlerRuns env all s outs s' ∧ BrokenOff env k pos outs)
          (t.withEvents es') := by
        intro es'
        rw [Prog.wp_ite]
        refine ⟨fun h_paused => ?_, fun h_paused => ?_⟩
        · simp only [Prog.wp_bind, Prog.wp_pure]
          refine wp_emitPaused stream fun es'' => ?_
          exact ⟨_, (h_one.emit es').emit es'', ⟨rfl, rfl, fun _ => rfl, trivial⟩,
            fun h_none => absurd h_paused (by simp [h_none h]), by simp [h_cancel]⟩
        · simp only [Prog.wp_bind, Prog.wp_pure]
          refine Prog.wp_mono (ih (pos + 1) h_next _) ?_ ?_
          · rintro hs s' ⟨outs, h_runs, h_seq, h_len, h_free⟩
            refine ⟨_, (h_one.emit es').append h_runs,
              ⟨rfl, rfl, fun hp => absurd hp h_paused, h_seq⟩, fun h_none => ?_, fun i hi => ?_⟩
            · simp [h_len fun h' hm => h_none h' (List.mem_cons_of_mem _ hm)]
            · cases i with
              | zero => exact h_cancel
              | succ i =>
                rw [show pos + (i + 1) = pos + 1 + i by omega]
                exact h_free i (by simpa using hi)
          · rintro e s' ⟨outs, h_runs, h_broken⟩
            exact ⟨_, (h_one.emit es').append h_runs, rfl, by simpa using h_paused, h_cancel, h_broken⟩
      rw [Prog.wp_ite]
      exact ⟨fun _ => (Prog.wp_bind _ _).mpr (wp_emit stream _ h_rest), fun _ => h_rest t.events⟩
    · intro e t h_step
      exact ⟨_, .step es h_req h_step (.nil t t.events), rfl, h_cancel, rfl⟩

/-- The sequential branch, come to the call at place `p`, raises there: the run is cancelled or
the call raises. -/
structure BreaksAt (env : Env a) (k : ℕ) (calls : List ToolCallRequest) (p : ℕ) : Prop where
  call : ∃ req, calls[p]? = some req ∧ (env.cancelCall k p = true ∨ callFate env req = .raises)
  before : ∀ q < p, env.cancelCall k q = false ∧
    ∀ req, calls[q]? = some req → ∃ key, callFate env req = .answered key

/-- A handler that returned without pausing answered its call. -/
theorem HandleStep.answered {req : ToolCallRequest} {r : Handled}
    (h : HandleStep env req s (.ok r) t) (h_paused : r.paused = false) :
    ∃ key, callFate env req = .answered key := by
  cases h with
  | deferred => cases h_paused
  | unknown _ _ _ _ _ _ h_fate => exact ⟨none, h_fate⟩
  | executed _ _ _ _ _ _ _ h_fate => exact ⟨_, h_fate⟩

/-- Where the sequential branch raises. -/
theorem wp_runSequential_breaks (stream : Bool) (all calls : List ToolCallRequest) (pos : ℕ)
    (h_calls : all.drop pos = calls)
    (h_before : ∀ q < pos, env.cancelCall k q = false ∧
      ∀ req, all[q]? = some req → ∃ key, callFate env req = .answered key) (s : RunState a) :
    Prog.wp (runSequential env stream k pos calls) (fun _ _ => True)
      (fun _ _ => ∃ p, BreaksAt env k all p) s := by
  induction calls generalizing pos s with
  | nil => trivial
  | cons req calls ih =>
    have h_req : all[pos]? = some req := by
      have := congrArg List.head? h_calls
      simpa [List.head?_drop] using this
    have h_next : all.drop (pos + 1) = calls := by
      have := congrArg List.tail h_calls
      simpa [List.tail_drop] using this
    unfold runSequential raiseIfCancelled
    rw [Prog.wp_bind, Prog.wp_ite]
    -- cancelled before this call, or the call itself raises, or a later one breaks
    refine ⟨fun h_cancel => ⟨pos, ⟨req, h_req, .inl h_cancel⟩, h_before⟩, fun h_cancel => ?_⟩
    rw [Bool.not_eq_true] at h_cancel
    simp only [Prog.wp_pure, Prog.wp_bind, Prog.wp_get]
    refine wp_emit stream _ fun _ => ?_
    refine Prog.wp_mono (wp_handleTool env k pos req _) ?_ ?_
    · intro r t h_step
      have h_rest : ∀ events, Prog.wp (if r.paused = true then do
            emitPaused stream
            pure [r]
          else do
            let hs ← runSequential env stream k (pos + 1) calls
            pure (r :: hs))
          (fun _ _ => True) (fun _ _ => ∃ p, BreaksAt env k all p) (t.withEvents events) := by
        intro events
        rw [Prog.wp_ite]
        refine ⟨fun _ => ?_, fun h_paused => ?_⟩
        · simp only [Prog.wp_bind, Prog.wp_pure]
          exact wp_emitPaused stream fun _ => trivial
        · simp only [Prog.wp_bind, Prog.wp_pure]
          refine ih (pos + 1) h_next (fun q h_q => ?_) _
          -- the calls before the rest are those before this one, and this one, which was answered
          rcases Nat.lt_succ_iff_lt_or_eq.mp h_q with h_lt | rfl
          · exact h_before q h_lt
          · refine ⟨h_cancel, fun req' h_req' => ?_⟩
            obtain rfl := Option.some.inj (h_req.symm.trans h_req')
            exact h_step.answered (by simpa using h_paused)
      rw [Prog.wp_ite]
      exact ⟨fun _ => (Prog.wp_bind _ _).mpr (wp_emit stream _ h_rest), fun _ => h_rest t.events⟩
    · intro e t h_step
      exact ⟨pos, ⟨req, h_req, .inr (h_step.raises_iff.mpr ⟨e, rfl⟩)⟩, h_before⟩

/-- The parallel branch runs a handler for every place of the schedule, and its results are
those of the handlers, in the order of the calls, up to the first that paused. -/
theorem wp_runParallel (env : Env a) (k : ℕ) (calls : List ToolCallRequest) (s : RunState a) :
    Prog.wp (runParallel env k calls)
      (fun hs s' => ∃ outs, HandlerRuns env calls s outs s' ∧
        outs.map Prod.fst = (env.gatherOrder k calls.length).val ∧
        Prog.firstError outs = none ∧ hs = untilPaused (Prog.inOrder calls.length outs))
      (fun _ s' => ∃ outs, HandlerRuns env calls s outs s' ∧
        outs.map Prod.fst = (env.gatherOrder k calls.length).val ∧
        Prog.firstError outs ≠ none) s := by
  unfold runParallel Prog.gather
  simp only [Prog.wp_bind]
  -- one call more in the order in which they end
  have h_task : ∀ i ∈ (env.gatherOrder k calls.length).val, ∀ outs t,
      HandlerRuns env calls s outs t →
      Prog.wp (handleAt env k calls i)
        (fun b => HandlerRuns env calls s (outs ++ [(i, .ok b)]))
        (fun e => HandlerRuns env calls s (outs ++ [(i, .error e)])) t := by
    intro i hi outs t h_runs
    have h_lt : i < calls.length := by
      simpa using (env.gatherOrder k calls.length).property.subset hi
    have h_req : calls[i]? = some calls[i] := List.getElem?_eq_getElem h_lt
    unfold handleAt
    rw [h_req]
    exact Prog.wp_mono (wp_handleTool env k i calls[i] t)
      (fun _ _ h => h_runs.append (.single h_req h)) (fun _ _ h => h_runs.append (.single h_req h))
  refine Prog.wp_mono (Prog.wp_gatherFrom _ h_task [] s (.nil s s.events)) ?_
    (fun _ _ h => h)
  rintro outs t ⟨h_runs, h_places⟩
  cases h_first : Prog.firstError outs with
  | some e => exact ⟨outs, h_runs, by simpa using h_places, by simp [h_first]⟩
  | none => exact ⟨outs, h_runs, by simpa using h_places, h_first, rfl⟩

/-! ### What a sequence of calls leaves behind -/

/-- The pending interaction an observation tells of. -/
def Obs.pending? : Obs → Option PendingInteraction
  | .deferred pending => some pending
  | _ => none

/-- What handlers with these outcomes observe, and the record indices they use: from `n`
exclusive to the last index inclusive. -/
inductive Logged (env : Env a) (calls : List ToolCallRequest) :
    ℕ → List (ℕ × Except RunError Handled) → List Obs → ℕ → Prop
  | nil (n : ℕ) : Logged env calls n [] [] n
  | malformed {n m pos : ℕ} {e : RunError} {outs obs}
      (h : Logged env calls n outs obs m) : Logged env calls n ((pos, .error e) :: outs) obs m
  | approval {n m pos : ℕ} {req : ToolCallRequest} {e : RunError} {outs obs}
      (h_req : calls[pos]? = some req) (h_app : env.registry.needsApproval req.toolName = true)
      (h : Logged env calls (n + 1) outs obs m) :
    Logged env calls n ((pos, .error e) :: outs) obs m
  | deferred {n m pos : ℕ} {req : ToolCallRequest} {outs obs} (updates : List ContextUpdate)
      (saved : ℕ) (h_req : calls[pos]? = some req)
      (h_gated : env.registry.gated req.toolName = true)
      (h_app : env.registry.needsApproval req.toolName = false)
      (h : Logged env calls (n + 1) outs obs m) :
    Logged env calls n ((pos, .ok ⟨recordOf env req (n + 1) "", true, updates, saved⟩) :: outs)
      (.deferred (pendingOf env.config.interceptor req (n + 1)) :: obs) m
  | unknown {n m pos : ℕ} {req : ToolCallRequest} {outs obs} (updates : List ContextUpdate)
      (saved : ℕ) (result : String) (h_req : calls[pos]? = some req)
      (h_gated : env.registry.gated req.toolName = false)
      (h_key : env.registry.reachedKey req.toolName = none)
      (h : Logged env calls (n + 1) outs obs m) :
    Logged env calls n ((pos, .ok ⟨recordOf env req (n + 1) result, false, updates, saved⟩) :: outs)
      obs m
  | executed {n m pos : ℕ} {req : ToolCallRequest} {outs obs} (updates : List ContextUpdate)
      (saved : ℕ) (result : String) {key : String} (h_req : calls[pos]? = some req)
      (h_gated : env.registry.gated req.toolName = false)
      (h_key : env.registry.reachedKey req.toolName = some key)
      (h : Logged env calls (n + 1) outs obs m) :
    Logged env calls n ((pos, .ok ⟨recordOf env req (n + 1) result, false, updates, saved⟩) :: outs)
      (.executed (tcIdOf (n + 1)) req.toolName key :: obs) m

/-- A handler that raised or returned as the fate of its call says. -/
def Fated (env : Env a) (calls : List ToolCallRequest) (o : ℕ × Except RunError Handled) : Prop :=
  ∃ req, calls[o.1]? = some req ∧ (callFate env req = .raises ↔ ∃ e, o.2 = .error e)

/-- The run is paused once something was deferred. -/
def statusAfter (status : RunStatus) (pendings : List PendingInteraction) : RunStatus :=
  if pendings = [] then status else .paused

/-- **What handlers do to a run**, with the observations they make. -/
structure HandlingEffect (env : Env a) (calls : List ToolCallRequest) (s : RunState a)
    (outs : List (ℕ × Except RunError Handled)) (obs : List Obs) (s' : RunState a) : Prop where
  logged : Logged env calls s.session.tcCounter outs obs s'.session.tcCounter
  /-- Every handler raised or returned as the fate of its call says. -/
  fates : ∀ o ∈ outs, Fated env calls o
  trace : s'.trace = s.trace ++ obs
  pending : s'.session.pendingInteractions =
    s.session.pendingInteractions ++ obs.filterMap Obs.pending?
  status : s'.status = statusAfter s.status (obs.filterMap Obs.pending?)
  /-- Otherwise only summaries, the record counter and the state bag of the context change. -/
  live : s.live.SameCore s'.live
  grows : s.live.Grows s'.live
  stem : s.live.SameStem s'.live
  /-- A shared store sees what was deferred. -/
  entries : a.aliased = false ∨ obs.filterMap Obs.pending? = [] → s.live.SameEntries s'.live
  rest : s' = { s with
    live := s'.live, state := s'.state, status := s'.status, trace := s'.trace, events := s'.events }

theorem Live.sameCore_counted (l : Live a) : l.SameCore l.counted :=
  Live.sameCore_mutate l rfl

theorem Live.grows_counted (l : Live a) : l.Grows l.counted :=
  Live.grows_mutate l ⟨rfl, Nat.le_succ _⟩

theorem Live.sameStem_counted (l : Live a) : l.SameStem l.counted :=
  Live.sameStem_mutate l rfl

theorem Live.sameEntries_counted (l : Live a) : l.SameEntries l.counted :=
  Live.sameEntries_mutate l rfl

/-- What was logged for two parts is logged for both. -/
theorem Logged.append {env : Env a} {calls : List ToolCallRequest} {n m r : ℕ}
    {outs outs' : List (ℕ × Except RunError Handled)} {obs obs' : List Obs}
    (h : Logged env calls n outs obs m) (h' : Logged env calls m outs' obs' r) :
    Logged env calls n (outs ++ outs') (obs ++ obs') r := by
  induction h with
  | nil n => exact h'
  | malformed _ ih => exact .malformed (ih h')
  | approval h_req h_app _ ih => exact .approval h_req h_app (ih h')
  | deferred updates saved h_req h_gated h_app _ ih =>
    exact .deferred updates saved h_req h_gated h_app (ih h')
  | unknown updates saved result h_req h_gated h_key _ ih =>
    exact .unknown updates saved result h_req h_gated h_key (ih h')
  | executed updates saved result h_req h_gated h_key _ ih =>
    exact .executed updates saved result h_req h_gated h_key (ih h')

theorem statusAfter_append (status : RunStatus) (ps qs : List PendingInteraction) :
    statusAfter (statusAfter status ps) qs = statusAfter status (ps ++ qs) := by
  unfold statusAfter
  cases ps <;> cases qs <;> simp

/-- The effects of two parts are the effect of both. -/
theorem HandlingEffect.append {env : Env a} {calls : List ToolCallRequest} {s t u : RunState a}
    {outs outs' : List (ℕ × Except RunError Handled)} {obs obs' : List Obs}
    (h : HandlingEffect env calls s outs obs t) (h' : HandlingEffect env calls t outs' obs' u) :
    HandlingEffect env calls s (outs ++ outs') (obs ++ obs') u where
  logged := h.logged.append h'.logged
  fates := List.forall_mem_append.mpr ⟨h.fates, h'.fates⟩
  trace := by rw [h'.trace, h.trace, List.append_assoc]
  pending := by rw [h'.pending, h.pending, List.filterMap_append, List.append_assoc]
  status := by rw [h'.status, h.status, List.filterMap_append, statusAfter_append]
  live := h.live.trans h'.live
  grows := h.grows.trans h'.grows
  stem := h.stem.trans h'.stem
  entries h_quiet := by
    -- both parts are quiet
    rw [List.filterMap_append, List.append_eq_nil_iff] at h_quiet
    exact (h.entries (h_quiet.imp_right And.left)).trans (h'.entries (h_quiet.imp_right And.right))
  rest := by rw [h'.rest, h.rest]

theorem Live.Similar.pendingInteractions {l l' : Live a} (h : Live.Similar l l') :
    l'.session.pendingInteractions = l.session.pendingInteractions := by
  have := congrArg AgentSession.pendingInteractions h.session
  exact this

/-- The effect of one handler. -/
theorem HandleStep.effect {env : Env a} {calls : List ToolCallRequest} {s t : RunState a}
    {pos : ℕ} {req : ToolCallRequest} {o : Except RunError Handled}
    (h_req : calls[pos]? = some req) (h : HandleStep env req s o t) :
    ∃ obs, HandlingEffect env calls s [(pos, o)] obs t := by
  have h_fates : ∀ o' ∈ [(pos, o)], Fated env calls o' :=
    List.forall_mem_singleton.mpr ⟨req, h_req, h.raises_iff⟩
  cases h with
  | @malformed l msg hl =>
    refine ⟨[], ?_, h_fates, by simp, by simpa using hl.pendingInteractions, rfl, hl.sameCore,
      hl.grows, hl.sameStem, fun _ => hl.sameEntries, rfl⟩
    exact .malformed (hl.tcCounter ▸ .nil _)
  | @approval l hl h_app =>
    refine ⟨[], ?_, h_fates, by simp, hl.pendingInteractions.trans (List.append_nil _).symm, rfl,
      hl.sameCore.trans l.sameCore_counted, hl.grows.trans l.grows_counted,
      hl.sameStem.trans l.sameStem_counted,
      fun _ => hl.sameEntries.trans l.sameEntries_counted, rfl⟩
    exact hl.tcCounter ▸ .approval h_req h_app (.nil _)
  | @deferred l hl updates saved h_gated h_app =>
    refine ⟨[.deferred (pendingOf env.config.interceptor req (l.session.tcCounter + 1))],
      ?_, h_fates, rfl, ?_, rfl, ?_, ?_, ?_, fun h_quiet => ?_, rfl⟩
    · exact hl.tcCounter ▸ .deferred updates saved h_req h_gated h_app (.nil _)
    · rw [← hl.pendingInteractions]
      rfl
    · refine hl.sameCore.trans (l.sameCore_counted.trans ?_)
      exact Live.sameCore_mutate l.counted (f := .addPending _) rfl
    · refine hl.grows.trans (l.grows_counted.trans ?_)
      exact Live.grows_mutate l.counted (f := .addPending _) ⟨rfl, le_rfl⟩
    · refine hl.sameStem.trans (l.sameStem_counted.trans ?_)
      exact Live.sameStem_mutate l.counted (f := .addPending _) rfl
    · -- something was deferred, so the store is one that hands out copies
      have h_copies : a.aliased = false := h_quiet.resolve_right (by simp [Obs.pending?])
      exact hl.sameEntries.trans (l.sameEntries_counted.trans
        (Live.sameEntries_of_not_aliased h_copies l.counted (.addPending _)))
  | @unknown l hl updates saved h_gated h_key result =>
    refine ⟨[], ?_, h_fates, by simp, hl.pendingInteractions.trans (List.append_nil _).symm, rfl,
      hl.sameCore.trans l.sameCore_counted, hl.grows.trans l.grows_counted,
      hl.sameStem.trans l.sameStem_counted,
      fun _ => hl.sameEntries.trans l.sameEntries_counted, rfl⟩
    exact hl.tcCounter ▸ .unknown updates saved result h_req h_gated h_key (.nil _)
  | @executed l hl updates saved h_gated key h_key result state =>
    refine ⟨[.executed (tcIdOf (l.session.tcCounter + 1)) req.toolName key], ?_, h_fates, rfl, ?_,
      rfl, hl.sameCore.trans l.sameCore_counted, hl.grows.trans l.grows_counted,
      hl.sameStem.trans l.sameStem_counted,
      fun _ => hl.sameEntries.trans l.sameEntries_counted, rfl⟩
    · exact hl.tcCounter ▸ .executed updates saved result h_req h_gated h_key (.nil _)
    · exact hl.pendingInteractions.trans (List.append_nil _).symm

/-- The effect of a sequence of handlers. -/
theorem HandlerRuns.effect {env : Env a} {calls : List ToolCallRequest} {s s' : RunState a}
    {outs : List (ℕ × Except RunError Handled)} (h : HandlerRuns env calls s outs s') :
    ∃ obs, HandlingEffect env calls s outs obs s' := by
  induction h with
  | nil s events =>
    -- no handler, no effect
    exact ⟨[], .nil _, by simp, by simp [RunState.withEvents], by simp [RunState.withEvents],
      rfl, .refl _, .refl _, .refl _, fun _ _ => rfl, rfl⟩
  | step events h_req h_step _ ih =>
    -- the first handler's effect, and that of the others
    obtain ⟨obs', ih⟩ := ih
    obtain ⟨obs, h_one⟩ := h_step.effect h_req
    have h_all := h_one.append ih
    exact ⟨obs ++ obs', h_all.logged, h_all.fates, h_all.trace, h_all.pending, h_all.status,
      h_all.live, h_all.grows, h_all.stem, h_all.entries, h_all.rest⟩

end Nexus
