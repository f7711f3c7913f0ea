import NexusAgent.Runner.Approval
import NexusAgent.Runner.Persistence

/-!
# Runs that do not persist

A run of a scheduled job or of a subagent is not to write to the session store. The runner's
own saves are skipped, but a session that is not found is created, and the summarizer, the
compactor, the interceptor and a curating agent write without asking.

* `Unwritten`: the store has what it had before the run.
* `LeavesStore`: what keeps it so, told from the arguments of the run and from the states it
  comes to.
* `store_unwritten`: a run that does not persist and meets these conditions writes nothing.
* `store_written`: a scheduled run on a new session, and one that summarizes its session.
-/

open Lib

namespace Nexus

variable {a : StoreAdapter}

/-! ### Writes past the runner -/

/-- The store has the entries it had. -/
def StoreKept (st st' : Store a) : Prop := ∀ sid, st'.find? sid = st.find? sid

/-- No stored record of the session would be changed by this summary. -/
def NothingNew (st : Store a) (sid tcId summary : String) (byTurn : ℕ) : Prop :=
  ∀ s, st.find? sid = some s → ∀ t ∈ s.turns, ∀ tc ∈ t.toolCalls, tc.tcId = tcId →
    tc.withSummary summary byTurn = tc

/-- Whether the summarizer folds turns of the session, given the reply of its model. -/
def foldsTurns (cfg : ContextSummaryConfig) (reply : Option String) (s : AgentSession) : Bool :=
  cfg.summarizeOn.isSome && !(turnsToFold cfg s).isEmpty &&
    !PyStr.isBlank (buildTurnsDigest (turnsToFold cfg s)) && PyStr.strip (reply.getD "") ≠ ""

/-- The context of the pass from `s` before anything is compacted. -/
def firstContext (env : Env a) (s : RunState a) : List Message × RunState a :=
  buildContextMessages env s.calls { s with calls := s.calls + 1 }

/-- The pass from `s` writes nothing about the session `sid` that is not in the store: no
record is compacted, no turn folded and no update supplied that would change it. -/
structure WritesNothing (env : Env a) (stream : Bool) (st : Store a) (sid : String)
    (s : RunState a) : Prop where
  compacts : let c := firstContext env s
    env.config.fallbackCompactor.shouldTrigger c.2.session (currentTokens env c.1 c.2) = true →
      ∀ j p, (compactTargets env.config.fallbackCompactor c.2.session)[j]? = some p →
        let summary := PyStr.strip ((env.compactReply s.calls j).getD "")
        summary = "" ∨ summary = "[]" ∨ NothingNew st sid p.record.tcId summary s.sessionTurnIndex
  folds : let c := firstContext env s
    let c := maybeCompact env s.calls c.1 c.2
    env.config.contextSummary.shouldTrigger c.2.session (currentTokens env c.1.1 c.2)
        env.config.contextWindowTokens = true →
      foldsTurns env.config.contextSummary (env.summaryReply s.calls) c.2.session = false
  updates : ∀ raw, callResponse env stream s.calls = .ok raw →
    let calls := (acceptedResponse env s.calls raw).toolCalls
    ∀ p req, calls[p]? = some req → Reached env s.calls calls p →
      ∀ u ∈ suppliedSummaries env.config.interceptor req.toolInput,
        NothingNew st sid u.1 u.2 s.sessionTurnIndex

/-- A curation of the session `sid` leaves the contents of the store as they are. -/
def CuratorKeeps (env : Env a) (st : Store a) (sid : String) : Prop :=
  env.curator.active = true → ∀ k s st', s.sessionId = sid → StoreKept st st' →
    StoreKept st (env.curator.act k s st')

/-- A run leaves the store alone: the adapter hands out copies, the session is found, the
curator writes nothing, and no pass does. -/
structure LeavesStore (env : Env a) (stream : Bool) (args : RunArgs) (st : Store a) : Prop where
  copies : a.aliased = false
  found : (truthy (pyOr args.sessionId env.context.sessionId)).bind
    (st.loadSession · (env.context.sessionScope none)) ≠ none
  curator : CuratorKeeps env st (runSessionId env args)
  passes : ∀ s, TurnOf env stream args st s → env.cancelTurn s.calls = false →
    WritesNothing env stream st (runSessionId env args) s

/-! ### The session and its store -/

/-- The run works on the session `sid`, and the store has what it had before. -/
structure Unwritten (st : Store a) (sid : String) (l : Live a) : Prop where
  session : l.session.sessionId = sid
  store : StoreKept st l.store

section Live

variable {st : Store a} {sid : String} {l : Live a}

theorem Unwritten.mutate (h : Unwritten st sid l) {f : AgentSession → AgentSession}
    (h_f : ∀ s, (f s).sessionId = s.sessionId) : Unwritten st sid (l.mutate f) where
  session := (h_f l.session).trans h.session
  store := h.store

/-- Loading again writes nothing. -/
theorem Unwritten.reload (h : Unwritten st sid l) (scope : SessionScope) :
    Unwritten st sid (l.reload scope) where
  session := by
    unfold Live.reload
    cases h_load : l.store.loadSession l.session.sessionId scope with
    | none => exact h.session
    | some s => exact (Store.find?_sessionId (Store.loadSession_eq_some.mp h_load).1).trans h.session
  store := h.store

theorem Unwritten.contents (h_copies : a.aliased = false) (l : Live a) : l.contents = l.store := by
  unfold Live.contents
  rw [if_neg (by simp [h_copies])]

/-- A rewrite that finds nothing to change. -/
theorem updateFirst_of_forall {p : ToolCallRecord → Bool} {f : ToolCallRecord → ToolCallRecord}
    {tcs : List ToolCallRecord} (h : ∀ tc ∈ tcs, p tc = true → f tc = tc) :
    updateFirst p f tcs = tcs := by
  induction tcs with
  | nil => rfl
  | cons tc tcs ih =>
    rw [List.forall_mem_cons] at h
    rw [updateFirst]
    split_ifs with h_p
    · rw [h.1 h_p]
    · rw [ih h.2]

/-- An update that changes no call changes nothing. -/
theorem updateFirstTc_of_forall {p : ToolCallRecord → Bool} {f : ToolCallRecord → ToolCallRecord}
    {ts : List TurnRecord} (h : ∀ t ∈ ts, ∀ tc ∈ t.toolCalls, p tc = true → f tc = tc) :
    updateFirstTc p f ts = ts := by
  induction ts with
  | nil => rfl
  | cons t ts ih =>
    rw [List.forall_mem_cons] at h
    rw [updateFirstTc]
    split_ifs
    · rw [updateFirst_of_forall h.1]
    · rw [ih h.2]

/-- Saving what is stored already. -/
theorem storeKept_saveSession {st : Store a} {s : AgentSession} {sid : String}
    (h : st.find? sid = some s) : StoreKept st (st.saveSession s) := by
  obtain rfl := Store.find?_sessionId h
  intro sid'
  by_cases h_sid : s.sessionId = sid'
  · rw [← h_sid, h]
    exact Store.find?_saveSession_self st s
  · exact Store.find?_saveSession_ne st s h_sid

/-- A summary that is nothing new leaves the entries as they are. -/
theorem storeKept_updateTcSummary {st : Store a} {sid tcId summary : String} {byTurn : ℕ}
    (h : NothingNew st sid tcId summary byTurn) (scope : SessionScope) :
    StoreKept st (st.updateTcSummary sid tcId summary byTurn scope) := by
  unfold Store.updateTcSummary
  cases h_load : st.loadSession sid scope with
  | none => exact fun _ => rfl
  | some s =>
    have h_find := (Store.loadSession_eq_some.mp h_load).1
    -- the summary is there already, so writing it again changes no record
    have h_same : ∀ t ∈ s.turns, ∀ tc ∈ t.toolCalls,
        (decide (tc.tcId = tcId)) = true → tc.withSummary summary byTurn = tc :=
      fun t h_t tc h_tc h_id => h s h_find t h_t tc h_tc (of_decide_eq_true h_id)
    cases a with
    | memory =>
      dsimp only
      rw [updateFirstTc_of_forall h_same]
      exact storeKept_saveSession h_find
    -- this adapter updates the first match in every turn
    | redis p =>
      dsimp only
      have h_turns : s.turns.map (fun t => { t with
          toolCalls := updateFirst (fun tc => decide (tc.tcId = tcId))
            (ToolCallRecord.withSummary summary byTurn) t.toolCalls }) = s.turns := by
        conv_rhs => rw [← List.map_id s.turns]
        refine List.map_congr_left fun t h_t => ?_
        rw [updateFirst_of_forall (h_same t h_t)]
        rfl
      rw [h_turns]
      exact storeKept_saveSession h_find

/-- The same, for the entries the store had before the run. -/
theorem Unwritten.updateTcSummary (h_copies : a.aliased = false) (h : Unwritten st sid l)
    {tcId summary : String} {byTurn : ℕ} (h_new : NothingNew st sid tcId summary byTurn) :
    Unwritten st sid (l.updateTcSummary tcId summary byTurn) where
  session := h.session
  store := by
    show StoreKept st (l.contents.updateTcSummary _ _ _ _ _)
    rw [Unwritten.contents h_copies]
    have h_same : NothingNew l.store l.session.sessionId tcId summary byTurn := by
      intro s h_s
      rw [h.session, h.store] at h_s
      exact h_new s h_s
    exact fun sid' => (storeKept_updateTcSummary h_same _ sid').trans (h.store sid')

/-! ### The interceptor, the compactor and the summarizer -/

/-- An update with nothing new writes nothing. -/
theorem Unwritten.applyUpdate (h_copies : a.aliased = false) (h : Unwritten st sid l)
    {tcId summary : String} {turnIndex : ℕ} (h_new : NothingNew st sid tcId summary turnIndex)
    (counter : TokenCounter) (tc : ToolCallRecord) :
    Unwritten st sid (applyUpdate counter turnIndex tcId summary tc l).2 := by
  unfold Nexus.applyUpdate
  dsimp only
  refine .mutate (.updateTcSummary h_copies (.mutate h ?_) h_new) ?_
  · exact fun _ => rfl
  · exact fun _ => rfl

theorem wp_interceptItems_unwritten (h_copies : a.aliased = false) (counter : TokenCounter)
    {turnIndex : ℕ} (items : List Json) (done : List ContextUpdate)
    (h_new : ∀ u ∈ suppliedBy items, NothingNew st sid u.1 u.2 turnIndex)
    (h : Unwritten st sid l) :
    Prog.wp (interceptItems counter turnIndex items done) (fun _ => Unwritten st sid)
      (fun _ => Unwritten st sid) l := by
  induction items generalizing done l with
  | nil => exact h
  | cons item items ih =>
    unfold interceptItems
    rw [Prog.wp_bind, Prog.wp_ofExcept]
    rw [suppliedBy] at h_new
    cases h_item : updateItem item with
    | error e => exact h
    | ok found =>
      rw [h_item] at h_new
      cases found with
      | none => exact ih done h_new h
      | some u =>
        rw [List.forall_mem_cons] at h_new
        simp only [Prog.wp_bind, Prog.wp_get]
        cases (l.session.turns.flatMap TurnRecord.toolCalls).find? fun tc => tc.tcId = u.1 with
        -- an update for a call that is not there is passed over
        | none => exact ih done h_new.2 h
        | some tc =>
          simp only [Prog.wp_bind, Prog.wp_update]
          exact ih _ h_new.2 (h.applyUpdate h_copies h_new.1 counter tc)

theorem wp_intercept_unwritten (h_copies : a.aliased = false) (cfg : InterceptorConfig)
    (counter : TokenCounter) {turnIndex : ℕ} (args : ToolArgs)
    (h_new : ∀ u ∈ suppliedSummaries cfg args, NothingNew st sid u.1 u.2 turnIndex)
    (h : Unwritten st sid l) :
    Prog.wp (intercept cfg counter turnIndex args) (fun _ => Unwritten st sid)
      (fun _ => Unwritten st sid) l := by
  unfold intercept
  unfold suppliedSummaries at h_new
  cases h_on : cfg.enabled with
  | false => exact h
  | true =>
    simp only [h_on, Bool.not_true, Bool.false_eq_true, if_false, Bool.true_and] at h_new ⊢
    generalize (Dict.get? args cfg.contextUpdatesParamName).getD (.arr []) = raw at h_new ⊢
    rw [Prog.wp_ite]
    refine ⟨fun _ => h, fun h_some => ?_⟩
    rw [if_pos (by simpa using h_some)] at h_new
    simp only [Prog.wp_bind, Prog.wp_pure, Prog.wp_ofExcept]
    cases h_items : updateItems raw with
    | error e => exact h
    | ok items =>
      rw [h_items] at h_new
      exact Prog.wp_mono (wp_interceptItems_unwritten h_copies counter items [] h_new h)
        (fun _ _ h => h) (fun _ _ h => h)

theorem unwritten_compactFrom (h_copies : a.aliased = false) (counter : TokenCounter)
    {turnIndex : ℕ} (reply : ℕ → Option String) (ps : List TcPosition) (j : ℕ) (acc : Live a × ℕ)
    (h_new : ∀ i p, ps[i]? = some p →
      let summary := PyStr.strip ((reply (j + i)).getD "")
      summary = "" ∨ summary = "[]" ∨ NothingNew st sid p.record.tcId summary turnIndex)
    (h : Unwritten st sid acc.1) :
    Unwritten st sid (compactFrom counter turnIndex reply j ps acc).1 := by
  induction ps generalizing j acc with
  | nil => exact h
  | cons p ps ih =>
    -- the replies after this one, counted from the next call
    have h_later : ∀ i p, ps[i]? = some p →
        let summary := PyStr.strip ((reply (j + 1 + i)).getD "")
        summary = "" ∨ summary = "[]" ∨ NothingNew st sid p.record.tcId summary turnIndex := by
      intro i p h_p
      have := h_new (i + 1) p (by simpa using h_p)
      rwa [show j + (i + 1) = j + 1 + i by omega] at this
    unfold compactFrom
    dsimp only
    split_ifs with h_blank
    · exact ih _ _ h_later h
    · rw [not_or] at h_blank
      have h_first := (h_new 0 p rfl).resolve_left h_blank.1 |>.resolve_left h_blank.2
      refine ih _ _ h_later ?_
      unfold compactOne
      dsimp only
      refine .mutate (.mutate (.updateTcSummary h_copies (.mutate h ?_) h_first) ?_) ?_
      · exact fun _ => rfl
      · exact fun _ => rfl
      · exact fun _ => rfl

/-- Without folding the session stays as it is. -/
theorem summarize_of_not_folds {cfg : ContextSummaryConfig} {reply : Option String} {l : Live a}
    (h : foldsTurns cfg reply l.session = false) : summarize cfg reply l = l := by
  unfold summarize
  cases h_on : cfg.summarizeOn with
  | none => rfl
  | some ratio =>
    dsimp only
    split_ifs with h_none h_blank
    · rfl
    · rfl
    · rw [Bool.or_eq_true, not_or, Bool.not_eq_true, Bool.not_eq_true] at h_none
      simp [foldsTurns, h_on, h_none.1, h_none.2, h_blank] at h

end Live

/-! ### A pass -/

section Pass

variable {env : Env a} {st : Store a} {sid : String} {n : ℕ} {s : RunState a}

/-- Within a pass on turn `n` of the session. -/
structure InPass (st : Store a) (sid : String) (n : ℕ) (s : RunState a) : Prop where
  live : Unwritten st sid s.live
  turn : s.sessionTurnIndex = n

theorem InPass.withEvents (h : InPass st sid n s) (events : List StreamEvent) :
    InPass st sid n (s.withEvents events) := ⟨h.live, h.turn⟩

theorem wp_handleTool_unwritten (h_copies : a.aliased = false) (k pos : ℕ) {req : ToolCallRequest}
    (h_new : ∀ u ∈ suppliedSummaries env.config.interceptor req.toolInput,
      NothingNew st sid u.1 u.2 n) (h : InPass st sid n s) :
    Prog.wp (handleTool env k pos req) (fun _ => InPass st sid n) (fun _ => InPass st sid n) s := by
  obtain ⟨h_live, rfl⟩ := h
  unfold handleTool onLive nextTcIndex
  simp only [Prog.wp_bind, Prog.wp_get, Prog.wp_zoom]
  refine Prog.wp_mono (wp_intercept_unwritten h_copies env.config.interceptor env.counter
    req.toolInput h_new h_live) ?_ (fun _ l h_l => ⟨h_l, rfl⟩)
  rintro ⟨args, updates⟩ l h_l
  -- the counter is moved on in the live session, which is a copy
  have h_counted : Unwritten st sid (l.mutate fun t => { t with tcCounter := t.tcCounter + 1 }) :=
    h_l.mutate fun _ => rfl
  simp only [Prog.wp_update]
  rw [Prog.wp_ite]
  refine ⟨fun _ => ?_, fun _ => ?_⟩
  · rw [Prog.wp_ite]
    refine ⟨fun _ => ⟨h_counted, rfl⟩, fun _ => ?_⟩
    simp only [Prog.wp_bind, Prog.wp_modify, Prog.wp_pure]
    exact ⟨h_counted.mutate (f := .addPending _) fun _ => rfl, rfl⟩
  · rw [Prog.wp_bind]
    unfold executeTool
    cases env.registry.reachedKey req.toolName with
    | none => exact ⟨h_counted, rfl⟩
    | some key => exact ⟨h_counted, rfl⟩

/-- What a property that does not look at the events and is kept by every handler that is
reached is worth to the sequential branch. -/
theorem wp_runSequential_keeps {J : RunState a → Prop}
    (h_events : ∀ s events, J s → J (s.withEvents events)) (stream : Bool) (k : ℕ)
    (calls : List ToolCallRequest) (pos : ℕ)
    (h_handler : ∀ i req s, calls[i]? = some req → (∀ q ≤ i, env.cancelCall k (pos + q) = false) →
      (∀ q < i, ∀ req, calls[q]? = some req → ∃ key, callFate env req = .answered key) → J s →
      Prog.wp (handleTool env k (pos + i) req) (fun _ => J) (fun _ => J) s) (s : RunState a)
    (h : J s) :
    Prog.wp (runSequential env stream k pos calls) (fun _ => J) (fun _ => J) s := by
  induction calls generalizing pos s with
  | nil => exact h
  | cons req calls ih =>
    unfold runSequential raiseIfCancelled
    rw [Prog.wp_bind, Prog.wp_ite]
    refine ⟨fun _ => h, fun h_cancel => ?_⟩
    rw [Bool.not_eq_true] at h_cancel
    simp only [Prog.wp_pure, Prog.wp_bind, Prog.wp_get]
    refine wp_emit stream _ fun es => ?_
    have h_first := h_handler 0 req (s.withEvents es) rfl
      (fun q h_q => by rw [Nat.le_zero.mp h_q]; exact h_cancel)
      (fun q h_q => absurd h_q (Nat.not_lt_zero q)) (h_events s es h)
    refine Prog.wp_mono (Prog.wp_and (wp_handleTool env k pos req _) h_first) ?_
      (fun _ _ h => h.2)
    rintro r t ⟨h_step, h_t⟩
    have h_rest : ∀ es', Prog.wp (if r.paused = true then do
          emitPaused stream
          pure [r]
        else do
          let hs ← runSequential env stream k (pos + 1) calls
          pure (r :: hs)) (fun _ => J) (fun _ => J) (t.withEvents es') := by
      intro es'
      rw [Prog.wp_ite]
      refine ⟨fun _ => ?_, fun h_running => ?_⟩
      · rw [Prog.wp_bind]
        exact wp_emitPaused stream fun es'' => h_events _ _ (h_events _ _ h_t)
      · -- the call was answered at once, so the next one is reached as well
        have h_answered : ∃ key, callFate env req = .answered key := by
          cases h_step with
          | deferred => exact absurd rfl h_running
          | unknown _ _ _ _ _ _ h_fate => exact ⟨_, h_fate⟩
          | executed _ _ _ _ _ _ _ h_fate => exact ⟨_, h_fate⟩
        rw [Prog.wp_bind]
        refine Prog.wp_mono (ih (pos + 1) ?_ _ (h_events _ _ h_t)) (fun _ _ h => h) (fun _ _ h => h)
        intro i req' s' h_i h_free h_fates h_s'
        rw [show pos + 1 + i = pos + (i + 1) by omega]
        refine h_handler (i + 1) req' s' (by simpa using h_i) ?_ ?_ h_s'
        · intro q h_q
          cases q with
          | zero => exact h_cancel
          | succ q =>
            rw [show pos + (q + 1) = pos + 1 + q by omega]
            exact h_free q (by omega)
        · intro q h_q req'' h_req''
          cases q with
          | zero =>
            obtain rfl := Option.some.inj h_req''
            exact h_answered
          | succ q => exact h_fates q (by omega) req'' (by simpa using h_req'')
    rw [Prog.wp_ite]
    exact ⟨fun _ => (Prog.wp_bind _ _).mpr (wp_emit stream _ h_rest), fun _ => h_rest t.events⟩

/-- The same for both ways to handle the calls of a response. -/
theorem wp_runTools_keeps {J : RunState a → Prop}
    (h_events : ∀ s events, J s → J (s.withEvents events)) (stream : Bool) (k : ℕ)
    (calls : List ToolCallRequest)
    (h_handler : ∀ i req s, calls[i]? = some req → Reached env k calls i → J s →
      Prog.wp (handleTool env k i req) (fun _ => J) (fun _ => J) s) (s : RunState a) (h : J s) :
    Prog.wp (runTools env stream k calls) (fun _ => J) (fun _ => J) s := by
  unfold runTools
  rw [Prog.wp_ite]
  refine ⟨fun h_par => ?_, fun h_seq => ?_⟩
  · unfold runParallel Prog.gather
    simp only [Prog.wp_bind]
    refine Prog.wp_mono (Prog.wp_gatherFrom (J := fun _ => J) _ ?_ [] s h) ?_ (fun _ _ h => h)
    · intro i h_i outs t h_t
      have h_lt : i < calls.length := by
        simpa using (env.gatherOrder k calls.length).property.subset h_i
      unfold handleAt
      rw [List.getElem?_eq_getElem h_lt]
      refine h_handler i calls[i] t (List.getElem?_eq_getElem h_lt) ?_ h_t
      unfold Reached
      rwa [if_pos h_par]
    · rintro outs t ⟨h_t, -⟩
      cases Prog.firstError outs with
      | some e => exact h_t
      | none => exact h_t
  · rw [Prog.wp_bind]
    refine Prog.wp_mono (wp_runSequential_keeps h_events stream k calls 0 ?_ s h) (fun _ _ h => h)
      (fun _ _ h => h)
    -- in a sequence a call is reached if the ones before it did not break off
    intro i req t h_i h_free h_fates h_t
    rw [Nat.zero_add]
    refine h_handler i req t h_i ?_ h_t
    unfold Reached
    rw [if_neg h_seq]
    exact ⟨fun q h_q => by simpa using h_free q h_q, h_fates⟩

theorem unwritten_maybeSave (h_not : env.context.shouldPersist = false) {l : Live a}
    (h : Unwritten st sid l) : Unwritten st sid (maybeSave env.context l) := by
  unfold maybeSave
  rwa [if_neg (by simp [h_not])]

/-- Persisting a turn writes nothing. -/
theorem unwritten_persistTurnWithState (h_not : env.context.shouldPersist = false)
    (turn : TurnRecord) (h : Unwritten st sid s.live) :
    Unwritten st sid (persistTurnWithState env turn s).live := by
  unfold persistTurnWithState persistTurn maybeSave
  simp only [h_not, Bool.false_eq_true, if_false]
  refine .mutate (.mutate (.mutate h ?_) ?_) ?_
  · exact fun _ => rfl
  · exact fun _ => rfl
  · exact fun _ => rfl

/-- The curator writes nothing by itself. -/
theorem unwritten_curate (h_copies : a.aliased = false) (h_act : CuratorKeeps env st sid)
    (h_active : env.curator.active = true) (k : ℕ) {l : Live a} (h : Unwritten st sid l) :
    Unwritten st sid (curate env k l) where
  session := h.session
  store := by
    refine h_act h_active k l.session l.contents h.session ?_
    rw [Unwritten.contents h_copies]
    exact h.store

/-- Nor does it after a turn. -/
theorem unwritten_maybeCurate (h_copies : a.aliased = false) (h_act : CuratorKeeps env st sid)
    (k : ℕ) {l : Live a} (h : Unwritten st sid l) :
    Unwritten st sid (maybeCurateAfterTurn env k l) := by
  unfold maybeCurateAfterTurn
  split_ifs with h_on
  · have h_curated := unwritten_curate h_copies h_act (Bool.and_eq_true_iff.mp h_on).1 k h
    have h_contents : Unwritten st sid { curate env k l with store := (curate env k l).contents } := by
      refine ⟨h_curated.session, ?_⟩
      show StoreKept st (curate env k l).contents
      rw [Unwritten.contents h_copies]
      exact h_curated.store
    exact h_contents.reload _
  · exact h

/-- The end of a turn writes nothing. -/
theorem EndTurn.unwritten (h_not : env.context.shouldPersist = false) {k : ℕ} {final : Bool}
    {s' : RunState a} {o : Except RunError Prog.Ctl} (h : EndTurn env k final s o s')
    (h_s : Unwritten st sid s.live) : Unwritten st sid s'.live := by
  cases h with
  | stopped => exact h_s
  | injected => exact h_s
  | human =>
    exact unwritten_maybeSave h_not (h_s.mutate (f := .addPending hitlRequest) fun _ => rfl)
  | timedOut => exact h_s
  | onward => exact h_s

/-- The context of a pass that writes nothing. -/
theorem unwritten_prepareTurn (h_copies : a.aliased = false) {stream : Bool}
    (h_pass : WritesNothing env stream st sid s) (h : Unwritten st sid s.live) :
    InPass st sid s.sessionTurnIndex (prepareTurn env s.calls { s with calls := s.calls + 1 }).2 := by
  -- a compaction may only write summaries that are there already
  have h_compacted : InPass st sid s.sessionTurnIndex
      (maybeCompact env s.calls (firstContext env s).1 (firstContext env s).2).2 := by
    unfold maybeCompact
    split_ifs with h_trigger
    · refine ⟨?_, rfl⟩
      refine unwritten_compactFrom h_copies env.counter (env.compactReply s.calls) _ 0 _ ?_ h
      intro i p h_p
      rw [Nat.zero_add]
      exact h_pass.compacts h_trigger i p h_p
    · exact ⟨h, rfl⟩
  have h_folds := h_pass.folds
  dsimp only at h_folds
  show InPass st sid _ (maybeSummarize env s.calls
    (maybeCompact env s.calls (firstContext env s).1 (firstContext env s).2).1.1
    (maybeCompact env s.calls (firstContext env s).1 (firstContext env s).2).2).2
  generalize maybeCompact env s.calls (firstContext env s).1 (firstContext env s).2 = c
    at h_compacted h_folds ⊢
  unfold maybeSummarize
  split_ifs with h_trigger
  · refine ⟨?_, h_compacted.turn⟩
    show Unwritten st sid (summarize _ _ _)
    rw [summarize_of_not_folds (h_folds h_trigger)]
    exact h_compacted.live
  · exact h_compacted

/-- **A pass that writes nothing.** -/
theorem wp_turn_unwritten (h_not : env.context.shouldPersist = false) (h_copies : a.aliased = false)
    (h_act : CuratorKeeps env st sid) {stream : Bool}
    (h_pass : env.cancelTurn s.calls = false → WritesNothing env stream st sid s)
    (h : Unwritten st sid s.live) :
    Prog.wp (turn env stream) (fun _ t => Unwritten st sid t.live)
      (fun _ t => Unwritten st sid t.live) s := by
  unfold turn raiseIfCancelled
  simp only [Prog.wp_bind, Prog.wp_update]
  rw [Prog.wp_ite]
  refine ⟨fun _ => h, fun h_cancel => ?_⟩
  replace h_pass := h_pass (by simpa using h_cancel)
  rw [Prog.wp_pure]
  -- the messages are built on the live session, which is a copy
  have h_prepared := unwritten_prepareTurn h_copies h_pass h
  unfold openTurn
  simp only [Prog.wp_bind, Prog.wp_update, Prog.wp_get]
  generalize prepareTurn env s.calls { s with calls := s.calls + 1 } = r at h_prepared
  obtain ⟨⟨messages, saved⟩, t⟩ := r
  have h_counted : InPass st sid s.sessionTurnIndex (countSavings env messages t).2 := by
    refine ⟨h_prepared.live.mutate (l := t.live) (f := fun u =>
      { u with cumulativeInputTokensSavedByRcs := _ }) fun _ => rfl, h_prepared.turn⟩
  refine wp_emit stream _ fun events => ?_
  simp only [Prog.wp_modify, Prog.wp_pure]
  refine Prog.wp_mono (wp_callLLM env stream s.calls _ _) ?_ ?_
  · rintro raw t' ⟨⟨h_raw, -⟩, events', rfl⟩
    refine Prog.wp_mono (wp_checkStructured env (acceptedResponse env s.calls raw) _) ?_ ?_
    · rintro again u h_check
      split_ifs at h_check with h_again
      · obtain ⟨e, -, -, rfl⟩ := h_check
        rw [if_pos h_again]
        exact h_counted.live
      · -- the check changes no session
        have h_u : InPass st sid s.sessionTurnIndex u := by
          cases h_check with
          | unasked => exact ⟨h_counted.live, h_counted.turn⟩
          | valid => exact ⟨h_counted.live, h_counted.turn⟩
        rw [if_neg h_again, Prog.wp_ite]
        refine ⟨fun _ => ?_, fun _ => ?_⟩
        · unfold finalAnswer
          simp only [Prog.wp_bind, Prog.wp_modify]
          -- a final answer: the turn is kept in the session only, and the curator writes elsewhere
          have h_stored : Unwritten st sid (storedTurn env s.calls (answerRecord
              (acceptedResponse env s.calls raw) (countSavings env messages t).1
              (answering (acceptedResponse env s.calls raw) u))
              (answering (acceptedResponse env s.calls raw) u)).live :=
            unwritten_maybeCurate h_copies h_act s.calls
              (unwritten_persistTurnWithState h_not _ h_u.live)
          exact Prog.wp_mono (wp_endTurn_answer env stream s.calls _)
            (fun _ _ h_end => h_end.unwritten h_not h_stored)
            (fun _ _ h_end => h_end.unwritten h_not h_stored)
        · unfold toolTurn
          rw [Prog.wp_bind]
          -- calls of tools: none that the loop comes to writes by its context updates
          refine Prog.wp_mono (wp_runTools_keeps (J := InPass st sid s.sessionTurnIndex)
            (fun _ events h => h.withEvents events) stream s.calls _ ?_ u h_u) ?_
            (fun _ _ h => h.live)
          · intro i req v h_i h_reached h_v
            exact wp_handleTool_unwritten h_copies s.calls i
              (h_pass.updates raw h_raw i req h_i h_reached) h_v
          · rintro ⟨handled, m⟩ v h_v
            simp only [Prog.wp_bind, Prog.wp_modify, Prog.wp_get]
            -- their record, too, is kept in the session only
            have h_persisted := unwritten_persistTurnWithState h_not (toolRecord env
              (acceptedResponse env s.calls raw) saved (countSavings env messages t).1 m handled v)
              h_v.live
            rw [Prog.wp_ite]
            refine ⟨fun _ => ?_, fun _ => ?_⟩
            · simp only [Prog.wp_bind, Prog.wp_modify]
              exact wp_emitPaused stream fun _ => unwritten_maybeSave h_not h_persisted
            · simp only [Prog.wp_bind, Prog.wp_modify]
              have h_stored := unwritten_maybeCurate h_copies h_act s.calls h_persisted
              exact Prog.wp_mono (wp_endTurn_tools env stream s.calls _)
                (fun _ _ h_end => h_end.unwritten h_not h_stored)
                (fun _ _ h_end => h_end.unwritten h_not h_stored)
    · rintro e u ⟨msg, -, rfl, -⟩
      exact h_counted.live
  · rintro e t' ⟨-, events', rfl⟩
    exact h_counted.live

end Pass

/-! ### The run -/

section Run

variable {env : Env a} {stream : Bool} {args : RunArgs} {st : Store a}

/-- A property of the session and its store that every pass of a run keeps. -/
theorem runLoop_keeps {J : Live a → Prop}
    (h_pass : ∀ s, TurnOf env stream args st s → J s.live →
      Prog.wp (turn env stream) (fun _ t => J t.live) (fun _ t => J t.live) s)
    (h_init : J (startRun env stream args st).live) :
    J (runLoop env stream (turnLimit env args) (startRun env stream args st)).live := by
  have h_turn : ∀ {s}, HeadOf env stream (turnLimit env args) (startRun env stream args st) s →
      loopCond (turnLimit env args) s = true → TurnOf env stream args st s :=
    fun h_head h_cond => ⟨h_head, by simpa [loopCond] using h_cond⟩
  -- up to any pass, by induction on the passes before it
  have h_head : ∀ {s}, HeadOf env stream (turnLimit env args) (startRun env stream args st) s →
      J s.live := by
    intro s h
    induction h with
    | refl => exact h_init
    | tail h_before h_next ih => exact Prog.wp_ok (h_pass _ (h_turn h_before h_next.1) ih) h_next.2
  unfold runLoop
  rcases @Prog.loop_ends _ _ (loopCond (turnLimit env args)) (turn env stream)
    (runFuel env (turnLimit env args)) (startRun env stream args st) with
    ⟨s, c, h_s, -, h_loop⟩ | ⟨s, s', h_s, h_cond, h_body, h_loop⟩ |
      ⟨s, e, s', h_s, h_cond, h_body, h_loop⟩ <;> rw [h_loop]
  · have h_live := h_head h_s
    dsimp only
    split_ifs <;> exact h_live
  · have h_s' := Prog.wp_ok (h_pass s (h_turn h_s h_cond) (h_head h_s)) h_body
    dsimp only
    split_ifs <;> exact h_s'
  · have h_s' := Prog.wp_error (h_pass s (h_turn h_s h_cond) (h_head h_s)) h_body
    cases e <;> exact h_s'

theorem unwritten_startRun (h_not : env.context.shouldPersist = false)
    (h_found : (truthy (pyOr args.sessionId env.context.sessionId)).bind
      (st.loadSession · (env.context.sessionScope none)) ≠ none) :
    Unwritten st (runSessionId env args) (startRun env stream args st).live := by
  -- the session was there, so none is created
  have h_got : Unwritten st (runSessionId env args) (getOrCreateSession env args st) := by
    obtain ⟨s, h_load⟩ := Option.ne_none_iff_exists'.mp h_found
    have h_eq : getOrCreateSession env args st = ⟨s, st⟩ := by
      unfold getOrCreateSession
      dsimp only
      rw [h_load]
    obtain ⟨sid, h_sid, h_load'⟩ := Option.bind_eq_some_iff.mp h_load
    refine ⟨?_, ?_⟩
    · rw [h_eq]
      refine (Store.find?_sessionId (Store.loadSession_eq_some.mp h_load').1).trans ?_
      rw [runSessionId, h_sid]
      rfl
    · rw [h_eq]
      exact fun _ => rfl
  -- entering it edits the copy
  have h_entered : Unwritten st (runSessionId env args)
      (enteredSession env args (getOrCreateSession env args st)) := by
    unfold enteredSession
    dsimp only
    split_ifs
    · refine .mutate (.mutate h_got ?_) ?_
      · exact fun _ => rfl
      · exact fun _ => rfl
    · refine .mutate h_got ?_
      exact fun _ => rfl
  obtain ⟨state, h_eq⟩ := openSession_eq env args st
  show Unwritten st (runSessionId env args) (openSession env args st).1
  rw [h_eq]
  have h_state := (unwritten_maybeSave h_not h_entered).mutate (f := .withState state) fun _ => rfl
  dsimp only
  split_ifs
  · exact h_state
  · exact unwritten_maybeSave h_not h_state

/-- Nor does the end of the run. -/
theorem unwritten_finishRun (h_not : env.context.shouldPersist = false)
    (h_copies : a.aliased = false) {sid : String} (h_act : CuratorKeeps env st sid) {s : RunState a}
    (h : Unwritten st sid s.live) : Unwritten st sid (finishRun env s).live := by
  have h_curated : Unwritten st sid (curateAtEnd env s).live := by
    have h_contents : Unwritten st sid { s.live with store := s.live.contents } := by
      refine ⟨h.session, ?_⟩
      show StoreKept st s.live.contents
      rw [Unwritten.contents h_copies]
      exact h.store
    unfold curateAtEnd
    dsimp only
    split_ifs with h_on h_atEnd
    · exact unwritten_curate h_copies h_act h_on.2 _ (h_contents.reload _)
    · exact h_contents.reload _
    · exact h
  exact unwritten_maybeSave h_not (h_curated.mutate (f := .withState _) fun _ => rfl)

/-- **A run that does not persist** leaves the contents of the store as they were. -/
theorem store_unwritten (h_not : env.context.shouldPersist = false)
    (h_leaves : LeavesStore env stream args st) :
    StoreKept st (storeAfter (execRun env stream args st)) := by
  have h_loop := runLoop_keeps (J := Unwritten st (runSessionId env args))
    (fun s h_turn h_s => wp_turn_unwritten h_not h_leaves.copies h_leaves.curator
      (h_leaves.passes s h_turn) h_s)
    (unwritten_startRun h_not h_leaves.found)
  have h_run := unwritten_finishRun h_not h_leaves.copies h_leaves.curator h_loop
  unfold storeAfter
  rw [execRun_live, Unwritten.contents h_leaves.copies]
  exact h_run.store

end Run

/-- A scheduled agent that answers at once, and its summarizer. -/
def scheduledEnv (summarizeOn : Option ℚ) : Env (.redis "app:") where
  config := { contextSummary := { summarizeOn := summarizeOn } }
  context := { sessionId := some "s", isCron := true }
  proxy := .scripted [{ content := some "Done." }]
  summaryReply := fun _ => some "They met."

/-- A store with a session of one turn. -/
def metStore : Store (.redis "app:") :=
  (Store.empty _).saveSession
    { sessionId := "s", agentId := "agent", turns := [{ turnIndex := 0, userMessage := some "Hello." }] }

/-- Without a summarizer the scheduled run on a stored session writes nothing. -/
theorem store_unwritten_scheduled :
    StoreKept metStore
      (storeAfter (execRun (scheduledEnv none) false { userMessage := "Report." } metStore)) := by
  refine store_unwritten (by decide) ⟨rfl, by decide +kernel, nofun, fun s _ _ => ⟨nofun, nofun, ?_⟩⟩
  intro raw _ calls p req _ _ u h_u
  cases h_u

/-- **A scheduled run writes**: it creates its session, and the summarizer saves it. -/
theorem store_written :
    (scheduledEnv (some 0)).context.shouldPersist = false ∧
      ¬StoreKept (.empty _)
        (storeAfter (execRun (scheduledEnv (some 0)) false { userMessage := "Report." } (.empty _))) ∧
      ¬StoreKept metStore
        (storeAfter (execRun (scheduledEnv (some 0)) false { userMessage := "Report." } metStore)) := by
  refine ⟨by decide, fun h => ?_, fun h => ?_⟩
  · have h_created : ((storeAfter (execRun (scheduledEnv (some 0)) false { userMessage := "Report." }
        (.empty _))).find? "s").isSome = true := by decide +kernel
    rw [h "s"] at h_created
    cases h_created
  · have h_folded : ((storeAfter (execRun (scheduledEnv (some 0)) false { userMessage := "Report." }
        metStore)).find? "s").map (fun s => s.turns.length) = some 0 := by decide +kernel
    rw [h "s"] at h_folded
    exact absurd h_folded (by decide +kernel)

end Nexus
