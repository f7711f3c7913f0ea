import NexusAgent.Runner.Deferral
import NexusAgent.Runner.Recall

/-!
# The pending interactions of a session, along its history

After every run with a message and after every resume, the session's pending interactions are
the records of its last turn that wait for a result.

* `Tidy`: the invariant of the loop. The working session waits for nothing, and the stored
  entry, wherever the loop may read it back, neither.
* `AfterPass`: what a pass leaves, as it goes on, stops or raises.
* `Exchange`: a run or a resume, with what is required of it; `Exchanges`: any sequence.
* `pendings_match`: the claim for every sequence; `pendings_unmatched`: two elicitations in
  one parallel response.
-/

open Lib

namespace Nexus

variable {a : StoreAdapter}

/-! ### The invariant of the loop -/

/-- The working session waits for nothing. The entry of the store waits for the records of
its last turn, and for nothing if the run saves its session or may read it back. -/
structure Tidy (env : Env a) (gated : String → Bool) (l : Live a) : Prop where
  owned : Owned env.context l.session
  session : l.session.Settled gated
  owner : ∀ e ∈ l.contents.find? l.session.sessionId, e.toScope = l.session.toScope
  stored : ∀ e ∈ l.contents.find? l.session.sessionId, e.Waits gated
  follows : persists a env.context = true ∨ env.curator.active = true →
    ∀ e ∈ l.contents.find? l.session.sessionId, e.Settled gated

variable {env : Env a} {gated : String → Bool} {l l' : Live a}

theorem Tidy.waits (h : Tidy env gated l) : l.Inv (AgentSession.Waits gated) :=
  ⟨h.session.waits, h.stored⟩

/-- An invariant where the entry is the working session. -/
theorem Tidy.of_synced (h_owned : Owned env.context l.session) (h : l.session.Settled gated)
    (h_synced : l.Synced) : Tidy env gated l := by
  -- the stored session is the one in hand
  have h_entry : ∀ e ∈ l.contents.find? l.session.sessionId, e = l.session :=
    fun e h_e => (Option.some.inj (h_synced.symm.trans h_e)).symm
  exact
    { owned := h_owned
      session := h
      owner := fun e h_e => by rw [h_entry e h_e]
      stored := fun e h_e => by
        rw [h_entry e h_e]
        exact h.waits
      follows := fun _ e h_e => by
        rw [h_entry e h_e]
        exact h }

/-- Changes that the dialogue does not see. -/
theorem Tidy.same (h : Tidy env gated l) (h_session : l'.session.dialogue = l.session.dialogue)
    (h_entries : l.SameEntries l') : Tidy env gated l' := by
  have h_id := AgentSession.sessionId_of_dialogue h_session
  have h_scope := AgentSession.toScope_of_dialogue h_session
  -- an entry of the new contents is one of the old
  have h_entry : ∀ {P : AgentSession → Prop},
      (∀ e e' : AgentSession, e'.dialogue = e.dialogue → P e → P e') →
      (∀ e ∈ l.contents.find? l.session.sessionId, P e) →
      ∀ e' ∈ l'.contents.find? l'.session.sessionId, P e' := by
    intro P hP h_all e' h_e'
    rw [h_id] at h_e'
    have h_eq := h_entries l.session.sessionId
    rw [h_e', Option.map_some] at h_eq
    obtain ⟨e, h_e, h_dialogue⟩ := Option.map_eq_some_iff.mp h_eq.symm
    exact hP e e' h_dialogue.symm (h_all e h_e)
  exact
    { owned := (h.owned.of_toScope h_scope).2
      session := h.session.of_dialogue h_session
      owner := by
        rw [h_scope]
        exact h_entry (fun _ _ h_eq h_e => (AgentSession.toScope_of_dialogue h_eq).trans h_e) h.owner
      stored := h_entry (fun _ _ h_eq h_e => h_e.of_dialogue h_eq) h.stored
      follows := fun h_read =>
        h_entry (fun _ _ h_eq h_e => h_e.of_dialogue h_eq) (h.follows h_read) }

theorem Tidy.similar (h : Tidy env gated l) (h_similar : l.Similar l') : Tidy env gated l' :=
  h.same (AgentSession.dialogue_of_bare h_similar.session) h_similar.sameEntries

/-- A context summary, which is saved at once. -/
theorem Tidy.folded (h : Tidy env gated l) {k : ℕ} (h_folded : Folded env k l l') :
    Tidy env gated l' := by
  cases h_folded with
  | kept => exact h
  | folded h_on h_some newPart =>
    exact .of_synced h.owned (h.session.fold _ _ _) (Live.synced_saveSession _)

theorem Opened.tidy {s t : RunState a} {sent : List Message} (h_open : Opened env s sent t)
    (h : Tidy env gated s.live) : Tidy env gated t.live := by
  obtain ⟨l, l', h_similar, h_folded, h_similar'⟩ := h_open.live
  exact ((h.similar h_similar).folded h_folded).similar h_similar'

/-- A reply leaves the session tidy. -/
theorem Replied.tidy {stream : Bool} {s t : RunState a} {sent : List Message} {r : LLMResponse}
    (h_reply : Replied env stream s sent r t) (h : Tidy env gated s.live) :
    Tidy env gated t.live := by
  obtain ⟨u, h_open, h_live⟩ := h_reply.live
  exact h_live ▸ h_open.tidy h

/-- Reading the session back, if the run does that at all. -/
theorem Tidy.reread (h : Tidy env gated l) (h_reread : l.Reread l')
    (h_read : env.curator.active = true ∨ l' = l) : Tidy env gated l' := by
  rcases h_read with h_active | rfl
  · have h_settled := h.follows (.inr h_active)
    -- the session is the one there was, or the entry
    have h_session : l'.session.Settled gated ∧ l'.session.toScope = l.session.toScope := by
      rcases h_reread.session with h_same | h_old
      · rw [h_same]
        exact ⟨h.session, rfl⟩
      · exact ⟨h_settled _ h_old, h.owner _ h_old⟩
    rw [← h_reread.entry, ← h_reread.sessionId] at h_settled
    exact
      { owned := (h.owned.of_toScope h_session.2).2
        session := h_session.1
        owner := by
          rw [h_session.2, h_reread.sessionId, h_reread.entry]
          exact h.owner
        stored := fun e h_e => (h_settled e h_e).waits
        follows := fun _ => h_settled }
  · exact h

/-- Curating keeps a tidy session tidy. -/
theorem Tidy.maybeCurate (h : Tidy env gated l) (k : ℕ) :
    Tidy env gated (maybeCurateAfterTurn env k l) := by
  refine h.reread (reread_maybeCurate env k l) ?_
  unfold maybeCurateAfterTurn
  split_ifs with h_curates
  · rw [Bool.and_eq_true] at h_curates
    exact .inl h_curates.1
  · exact .inr rfl

/-- So does curating at the end. -/
theorem Tidy.curateAtEnd {s : RunState a} (h : Tidy env gated s.live) :
    Tidy env gated (curateAtEnd env s).live := by
  refine h.reread (reread_curateAtEnd env s) ?_
  unfold Nexus.curateAtEnd
  split_ifs with h_curates
  · exact .inl h_curates.2
  · exact .inl h_curates.2
  · exact .inr rfl

/-- **Storing a turn that waits for nothing.** -/
theorem Tidy.persistTurn {s : RunState a} (h : Tidy env gated s.live) {turn : TurnRecord}
    (h_turn : turn.waiting gated = []) : Tidy env gated (persistTurnWithState env turn s).live := by
  have h_session := persistTurnWithState_session turn h.owned
  have h_entry := persistTurnWithState_entry turn h.owned
  have h_owned : Owned env.context (persistTurnWithState env turn s).live.session := by
    rw [h_session]
    exact h.owned
  have h_settled : (persistTurnWithState env turn s).live.session.Settled gated := by
    rw [h_session]
    have h_state : (s.live.session.withState (jsonSafeState s.state)).Settled gated :=
      ⟨h.session.pending, h.session.turns⟩
    exact h_state.addTurn h_turn
  cases h_persists : persists a env.context with
  | true => exact .of_synced h_owned h_settled (persistTurnWithState_synced turn h_persists h.owned)
  | false =>
    -- the entry stays what it was
    rw [h_persists, if_neg Bool.false_ne_true] at h_entry
    have h_id : (persistTurnWithState env turn s).live.session.sessionId =
        s.live.session.sessionId := by
      rw [h_session]
      rfl
    rw [← h_id] at h_entry
    exact
      { owned := h_owned
        session := h_settled
        owner := fun e h_e => by
          rw [h_session]
          exact h.owner e (h_id ▸ h_entry ▸ h_e)
        stored := fun e h_e => h.stored e (h_id ▸ h_entry ▸ h_e)
        follows := fun h_read e h_e => h.follows (by rwa [h_persists] at h_read ⊢) e (h_id ▸ h_entry ▸ h_e) }

/-- Handlers that left nothing to wait for. -/
theorem Tidy.quiet {calls : List ToolCallRequest} {outs : List (ℕ × Except RunError Handled)}
    {obs : List Obs} {s t : RunState a} (h : Tidy env gated s.live)
    (h_effect : HandlingEffect env calls s outs obs t)
    (h_quiet : obs.filterMap Obs.pending? = []) : Tidy env gated t.live := by
  have h_pending : t.session.pendingInteractions = s.session.pendingInteractions := by
    rw [h_effect.pending, h_quiet, List.append_nil]
  exact h.same (AgentSession.dialogue_of_stem h_effect.stem.session h_pending)
    (h_effect.entries (.inr h_quiet))

/-- **Storing a turn that waits for one call**, and saving the session once more. -/
theorem Tidy.pause {calls : List ToolCallRequest} {outs : List (ℕ × Except RunError Handled)}
    {obs : List Obs} {s t : RunState a} (h : Tidy env gated s.live)
    (h_effect : HandlingEffect env calls s outs obs t) {turn : TurnRecord} {tc : ToolCallRecord}
    {p : PendingInteraction} (h_pending : obs.filterMap Obs.pending? = [p])
    (h_turn : turn.waiting gated = [tc]) (h_ids : p.ids = tc.ids)
    (h_distinct : (turn.toolCalls.map ToolCallRecord.tcId).Nodup) :
    (maybeSave env.context (persistTurnWithState env turn t).live).Inv (AgentSession.Waits gated) := by
  have h_owned : Owned env.context t.live.session :=
    coreInv_owned _ _ _ h_effect.live.session h.owned
  have h_human : p ≠ hitlRequest :=
    h_effect.logged.not_human p (by simp [h_pending])
  have h_session := persistTurnWithState_session turn h_owned
  have h_entry := persistTurnWithState_entry turn h_owned
  have h_same : (maybeSave env.context (persistTurnWithState env turn t).live).session =
      t.live.session.withTurn turn (jsonSafeState t.state) :=
    (maybeSave_session _ _).trans h_session
  -- but for the interaction, the session waited for nothing
  have h_before : ({ t.live.session with pendingInteractions := [] } : AgentSession).Settled gated :=
    h.session.of_dialogue (AgentSession.dialogue_of_stem h_effect.stem.session h.session.pending.symm)
  have h_waits : (maybeSave env.context (persistTurnWithState env turn t).live).session.Waits gated := by
    rw [h_same]
    refine h_before.pause h_turn h_ids h_human h_distinct rfl ?_
    show t.session.pendingInteractions = [p]
    rw [h_effect.pending, h_pending]
    show s.live.session.pendingInteractions ++ [p] = [p]
    rw [h.session.pending, List.nil_append]
  refine ⟨h_waits, fun e h_e => ?_⟩
  cases h_persists : persists a env.context with
  | true =>
    have h_synced := synced_maybeSave h_persists (persistTurnWithState env turn t).live
    obtain rfl := Option.some.inj (h_synced.symm.trans h_e)
    exact h_waits
  | false =>
    rw [h_persists, if_neg Bool.false_ne_true] at h_entry
    rw [maybeSave_of_not_persists h_persists, h_session] at h_e
    have h_entries := h_effect.entries (.inl (copies_of_not_persists h_persists))
      s.live.session.sessionId
    have h_id : t.live.session.sessionId = s.live.session.sessionId := h_effect.live.sessionId
    rw [← h_id, ← h_entry] at h_entries
    have h_found : (persistTurnWithState env turn t).live.contents.find?
        t.live.session.sessionId = some e := h_e
    rw [h_found, Option.map_some] at h_entries
    obtain ⟨e₀, h_e₀, h_dialogue⟩ := Option.map_eq_some_iff.mp h_entries.symm
    exact (h.stored e₀ (h_id ▸ h_e₀)).of_dialogue h_dialogue.symm

/-- **A request to the human in the loop**, and saving the session. -/
theorem Tidy.askHuman (h : Tidy env gated l) :
    (maybeSave env.context (l.mutate (.addPending hitlRequest))).Inv
      (AgentSession.Waits gated) := by
  have h_waits : (maybeSave env.context (l.mutate (.addPending hitlRequest))).session.Waits gated := by
    rw [maybeSave_session]
    exact h.session.askHuman
  refine ⟨h_waits, fun e h_e => ?_⟩
  cases h_persists : persists a env.context with
  | true =>
    have h_synced := synced_maybeSave h_persists (l.mutate (.addPending hitlRequest))
    obtain rfl := Option.some.inj (h_synced.symm.trans h_e)
    exact h_waits
  | false =>
    -- the store does not see the request
    rw [maybeSave_of_not_persists h_persists] at h_e
    have h_entries := Live.sameEntries_of_not_aliased (copies_of_not_persists h_persists) l
      (.addPending hitlRequest) l.session.sessionId
    have h_found : (l.mutate (.addPending hitlRequest)).contents.find? l.session.sessionId =
        some e := h_e
    rw [h_found, Option.map_some] at h_entries
    obtain ⟨e₀, h_e₀, h_dialogue⟩ := Option.map_eq_some_iff.mp h_entries.symm
    exact (h.stored e₀ h_e₀).of_dialogue h_dialogue.symm

/-- So does a save. -/
theorem Tidy.saved (h : Tidy env gated l) : Tidy env gated (maybeSave env.context l) := by
  cases h_persists : persists a env.context with
  | true =>
    refine .of_synced ?_ ?_ (synced_maybeSave h_persists l) <;> rw [maybeSave_session]
    · exact h.owned
    · exact h.session
  | false =>
    rw [maybeSave_of_not_persists h_persists]
    exact h

theorem Tidy.withState (h : Tidy env gated l) (state : StateBag) :
    Tidy env gated (l.mutate (.withState state)) :=
  h.same rfl (Live.sameEntries_mutate l rfl)

/-! ### One pass -/

/-- What a pass in turn `n` of a run leaves, as it goes on, stops or raises. -/
def AfterPass (env : Env a) (gated : String → Bool) (n : ℕ) :
    Except RunError Prog.Ctl → RunState a → Prop
  | .ok .next, s => Tidy env gated s.live ∧ s.status ≠ .paused
  | .ok .stop, s => Tidy env gated s.live ∨
      (s.live.Inv (AgentSession.Waits gated) ∧ s.status = .paused ∧ s.runTurnIndex = n)
  | .error _, s => Tidy env gated s.live

/-- After the end of a turn the session is tidy, or it waits for a human. -/
theorem EndTurn.afterPass {k : ℕ} {final : Bool} {s s' : RunState a}
    {o : Except RunError Prog.Ctl} (h : EndTurn env k final s o s') (h_tidy : Tidy env gated s.live)
    (h_running : s.status ≠ .paused) : AfterPass env gated s.runTurnIndex o s' := by
  cases h with
  | stopped => exact .inl h_tidy
  | injected => exact ⟨h_tidy, h_running⟩
  -- the pause asks for what it waits for
  | human => exact .inr ⟨h_tidy.askHuman, rfl, rfl⟩
  | timedOut => exact h_tidy
  -- a final answer ends the run
  | onward =>
    cases final with
    | true => exact .inl h_tidy
    | false => exact ⟨h_tidy, h_running⟩

/-- Storing a turn that waits for nothing, with the curation after it. -/
theorem Tidy.storeTurn {s : RunState a} (h : Tidy env gated s.live) {turn : TurnRecord}
    (h_turn : turn.waiting gated = []) (k : ℕ) : Tidy env gated (storedTurn env k turn s).live :=
  (h.persistTurn h_turn).maybeCurate k

section Handlers

variable {calls : List ToolCallRequest} {outs : List (ℕ × Except RunError Handled)}
  {obs : List Obs} {s t : RunState a} {k n : ℕ} {handled : List Handled}

/-- The interactions handlers left are for the results that paused. -/
theorem HandlingEffect.pending_ids (h : HandlingEffect env calls s outs obs t)
    (h_handled : HandledBy env k calls outs handled n) (h_alone : PausesAlone env calls) :
    (obs.filterMap Obs.pending?).map PendingInteraction.ids =
      ((handled.filter Handled.paused).map Handled.record).map ToolCallRecord.ids := by
  rw [h.logged.pausedRecords, h.pausedRecords_eq h_handled h_alone]

/-- The status after handlers, from a status that is not paused. -/
theorem HandlingEffect.paused_iff (h : HandlingEffect env calls s outs obs t)
    (h_running : s.status ≠ .paused) :
    t.status = .paused ↔ obs.filterMap Obs.pending? ≠ [] := by
  rw [h.status]
  unfold statusAfter
  cases obs.filterMap Obs.pending? with
  | nil => simpa using h_running
  | cons p ps => simp

/-- **A turn whose handlers paused** waits for the call that did. -/
theorem Tidy.pausedTurn (h : Tidy env gated s.live)
    (h_gated : ∀ name, env.registry.gated name = gated name)
    (h_effect : HandlingEffect env calls s outs obs t)
    (h_handled : HandledBy env k calls outs handled n) (h_alone : PausesAlone env calls)
    (h_running : s.status ≠ .paused) (h_paused : t.status = .paused) (turn : TurnRecord)
    (h_records : turn.toolCalls = handled.map Handled.record) :
    (maybeSave env.context (persistTurnWithState env turn t).live).Inv
      (AgentSession.Waits gated) := by
  have h_results := h_handled.results h_effect.logged
  -- a paused turn has one call that waits
  have h_some := (h_effect.paused_iff h_running).mp h_paused
  have h_ids := h_effect.pending_ids h_handled h_alone
  have h_waiting := h_results.waiting h_gated h_effect.logged
  rw [← h_records] at h_waiting
  -- it has at most one, and not none
  rcases h_results.paused_le_one with h_none | ⟨r, h_one⟩
  · rw [h_none] at h_ids
    exact absurd (List.map_eq_nil_iff.mp h_ids) h_some
  · rw [h_one] at h_ids h_waiting
    obtain ⟨p, h_pending, h_p⟩ := List.map_eq_singleton_iff.mp h_ids
    refine h.pause h_effect h_pending h_waiting h_p ?_
    rw [h_records]
    exact h_results.tcIds_nodup h_effect.logged

/-- A turn whose handlers did not pause waits for nothing. -/
theorem Tidy.handledTurn (h : Tidy env gated s.live)
    (h_gated : ∀ name, env.registry.gated name = gated name)
    (h_effect : HandlingEffect env calls s outs obs t)
    (h_handled : HandledBy env k calls outs handled n) (h_alone : PausesAlone env calls)
    (h_running : s.status ≠ .paused) (h_paused : t.status ≠ .paused) (turn : TurnRecord)
    (h_records : turn.toolCalls = handled.map Handled.record) (k' : ℕ) :
    Tidy env gated (storedTurn env k' turn t).live := by
  have h_results := h_handled.results h_effect.logged
  -- without a pause nothing is pending
  have h_none : obs.filterMap Obs.pending? = [] := by
    by_contra h_some
    exact h_paused ((h_effect.paused_iff h_running).mpr h_some)
  -- so no record waits
  have h_ids := h_effect.pending_ids h_handled h_alone
  have h_waiting := h_results.waiting h_gated h_effect.logged
  rw [h_none] at h_ids
  rw [← h_records, List.map_eq_nil_iff.mp h_ids.symm] at h_waiting
  exact (h.quiet h_effect h_none).storeTurn h_waiting k'

end Handlers

/-- **A pass of a run that waits for nothing** waits for at most one call afterwards, and
then it paused. -/
theorem TurnStep.afterPass {stream : Bool} {s s' : RunState a} {o : Except RunError Prog.Ctl}
    (h : TurnStep env stream s o s') (h_gated : ∀ name, env.registry.gated name = gated name)
    (h_alone : ∀ raw, callResponse env stream s.calls = .ok raw →
      PausesAlone env (acceptedResponse env s.calls raw).toolCalls)
    (h_tidy : Tidy env gated s.live) (h_running : s.status ≠ .paused) :
    AfterPass env gated s.runTurnIndex o s' := by
  -- up to the handlers nothing happens that the dialogue sees
  have h_accept : ∀ {sent r t u}, Replied env stream s sent r t → Accepted env r t u →
      Tidy env gated u.live ∧ u.status ≠ .paused ∧ u.runTurnIndex = s.runTurnIndex ∧
        PausesAlone env r.toolCalls := by
    intro sent r t u h_reply h_accepted
    have h_t := h_reply.tidy h_tidy
    obtain ⟨raw, h_raw, h_r⟩ := h_reply.response
    have h_calls : PausesAlone env r.toolCalls := h_r ▸ h_alone raw h_raw
    have h_status : t.status = s.status := by rw [h_reply.rest]
    have h_index : t.runTurnIndex = s.runTurnIndex := by rw [h_reply.rest]
    cases h_accepted with
    | unasked => exact ⟨h_t, h_status ▸ h_running, h_index, h_calls⟩
    | valid => exact ⟨h_t, h_status ▸ h_running, h_index, h_calls⟩
  cases h with
  | cancelled => exact h_tidy
  | callFailed h_open => exact h_open.tidy h_tidy
  | @retried sent r t h_reply =>
    have h_status : t.status = s.status := by rw [h_reply.rest]
    exact ⟨h_reply.tidy h_tidy, h_status ▸ h_running⟩
  | rejected h_reply => exact h_reply.tidy h_tidy
  | @answered sent r t u h_reply h_accepted h_calls _ savings _ _ h_end =>
    obtain ⟨h_u, h_status, h_index, -⟩ := h_accept h_reply h_accepted
    have h_stored : Tidy env gated (storedTurn env s.calls
        (answerRecord r savings (answering r u)) (answering r u)).live :=
      Tidy.storeTurn h_u rfl s.calls
    exact h_index ▸ h_end.afterPass h_stored h_status
  | @toolsRaised sent r t u v h_reply h_accepted _ outs obs h_effect h_raised e =>
    obtain ⟨h_u, -, -, h_calls⟩ := h_accept h_reply h_accepted
    exact h_u.quiet h_effect (h_effect.quiet_of_raised h_raised h_calls)
  | @paused sent r t u v h_reply h_accepted _ outs obs h_effect handled n h_handled h_paused c
      savings w h_w =>
    subst h_w
    obtain ⟨h_u, h_status, h_index, h_calls⟩ := h_accept h_reply h_accepted
    have h_v : v.runTurnIndex = u.runTurnIndex := by rw [h_effect.rest]
    have h_waits := h_u.pausedTurn h_gated h_effect h_handled h_calls h_status h_paused
      (toolRecord env r c savings n handled v) rfl
    exact .inr ⟨h_waits, h_paused, h_v.trans h_index⟩
  | @handled sent r t u v h_reply h_accepted _ outs obs h_effect handled n h_handled h_paused c
      savings _ _ h_end =>
    obtain ⟨h_u, h_status, h_index, h_calls⟩ := h_accept h_reply h_accepted
    have h_v : v.runTurnIndex = u.runTurnIndex := by rw [h_effect.rest]
    have h_stored := h_u.handledTurn h_gated h_effect h_handled h_calls h_status h_paused
      (toolRecord env r c savings n handled v) rfl s.calls
    exact (h_v.trans h_index) ▸ h_end.afterPass h_stored h_paused

/-! ### A whole run -/

/-- In every pass of the run, a call that waits in the parallel branch is the only one of its
response that is not answered at once. -/
def RunPausesAlone (env : Env a) (stream : Bool) (args : RunArgs) (st : Store a) : Prop :=
  ∀ s, TurnOf env stream args st s → ∀ raw, callResponse env stream s.calls = .ok raw →
    PausesAlone env (acceptedResponse env s.calls raw).toolCalls

section Run

variable {stream : Bool} {args : RunArgs} {st : Store a}

/-- The loop ends with nothing to wait for, or it paused. -/
theorem runLoop_tidy (h_gated : ∀ name, env.registry.gated name = gated name)
    (h_alone : RunPausesAlone env stream args st)
    (h_start : Tidy env gated (startRun env stream args st).live) :
    let s := runLoop env stream (turnLimit env args) (startRun env stream args st)
    Tidy env gated s.live ∨ (s.live.Inv (AgentSession.Waits gated) ∧ s.status = .paused) := by
  have h_pass : ∀ s s' o, HeadOf env stream (turnLimit env args) (startRun env stream args st) s →
      Tidy env gated s.live ∧ s.status ≠ .paused → s.runTurnIndex < turnLimit env args →
      TurnStep env stream s o s' → AfterPass env gated s.runTurnIndex o s' :=
    fun s s' o h_head h_s h_lt h_step =>
      h_step.afterPass h_gated (h_alone s ⟨h_head, h_lt⟩) h_s.1 h_s.2
  have h_cases := runLoop_cases env stream (turnLimit env args)
    (I := fun s => Tidy env gated s.live ∧ s.status ≠ .paused)
    (Q := fun s => Tidy env gated s.live ∨ (s.live.Inv (AgentSession.Waits gated) ∧
      s.status = .paused ∧ s.runTurnIndex < turnLimit env args))
    (E := fun _ s => Tidy env gated s.live) (startRun env stream args st)
    (fun s s' h_head h_s h_lt h_step => h_pass s s' _ h_head h_s h_lt h_step)
    (fun s s' h_head h_s h_lt h_step =>
      (h_pass s s' _ h_head h_s h_lt h_step).imp_right fun ⟨h_waits, h_paused, h_index⟩ =>
        ⟨h_waits, h_paused, h_index.trans_lt h_lt⟩)
    (fun s e s' h_head h_s h_lt h_step => h_pass s s' _ h_head h_s h_lt h_step)
    ⟨h_start, nofun⟩ (startRun_retries env stream args st)
  rcases h_cases with ⟨s, ⟨h_tidy, -⟩, -, -, h_eq⟩ | ⟨s, h_q, h_eq⟩ | ⟨e, s, h_tidy, h_eq⟩
  · rw [h_eq]
    exact .inl h_tidy
  · rw [h_eq]
    rcases h_q with h_tidy | ⟨h_waits, h_paused, h_lt⟩
    · left
      split_ifs <;> exact h_tidy
    · -- a pause does not count as a turn, so the limit is not reached
      rw [if_neg (by omega)]
      exact .inr ⟨h_waits, h_paused⟩
  · left
    rw [h_eq, raised_live]
    exact h_tidy

/-- What follows the loop. -/
theorem waits_finishRun {s : RunState a} (h : s.live.Inv (AgentSession.Waits gated)) :
    (finishRun env s).live.Inv (AgentSession.Waits gated) := by
  have h_end := inv_curateAtEnd h env
  have h_state : ((Nexus.curateAtEnd env s).live.mutate
      (.withState (jsonSafeState (Nexus.curateAtEnd env s).state))).Inv
        (AgentSession.Waits gated) :=
    h_end.mutate rfl (h_end.session.of_dialogue rfl)
  exact inv_maybeSave h_state env.context

@[simp] theorem status_finishRun (env : Env a) (s : RunState a) :
    (finishRun env s).status = s.status := by
  unfold finishRun curateAtEnd
  split_ifs <;> rfl

/-- **A run from a session that waits for nothing** leaves one that waits for what its last
turn deferred, and for nothing if it did not pause. -/
theorem execRun_waits (h_gated : ∀ name, env.registry.gated name = gated name)
    (h_alone : RunPausesAlone env stream args st)
    (h_start : Tidy env gated (startRun env stream args st).live) :
    let s := execRun env stream args st
    s.live.Inv (AgentSession.Waits gated) ∧
      (s.status ≠ .paused → s.session.pendingInteractions = []) := by
  -- at the end of the loop the session is tidy, or paused and waiting
  have h_loop := runLoop_tidy h_gated h_alone h_start
  generalize h_u : runLoop env stream (turnLimit env args) (startRun env stream args st) = u at h_loop
  have h_live : (execRun env stream args st).live = (finishRun env u).live := by
    rw [execRun_live, h_u]
  have h_status : (execRun env stream args st).status = u.status := by
    rw [← h_u]
    unfold execRun
    split_ifs <;> exact status_finishRun _ _
  dsimp only
  rw [RunState.session, h_live, h_status]
  rcases h_loop with h_tidy | ⟨h_waits, h_paused⟩
  · -- tidy: curated and saved
    refine ⟨waits_finishRun h_tidy.waits, fun _ => ?_⟩
    show (finishRun env u).live.session.pendingInteractions = []
    unfold finishRun
    rw [maybeSave_session]
    exact h_tidy.curateAtEnd.session.pending
  · -- paused: only saved
    exact ⟨waits_finishRun h_waits, fun h_not => absurd h_paused h_not⟩

end Run

/-! ### Opening a session -/

/-- The session a run gets is what the store has for it. -/
theorem synced_getOrCreateSession (env : Env a) (args : RunArgs) (st : Store a) :
    (getOrCreateSession env args st).Synced := by
  unfold Live.Synced
  rw [Live.find?_contents_self]
  rcases getOrCreateSession_cases env args st with ⟨s, h_find, -, h_eq⟩ | ⟨-, h_eq⟩ <;> rw [h_eq]
  · show (if a.aliased then some s else st.find? s.sessionId) = some s
    rw [Store.find?_sessionId h_find, h_find, ite_self]
  · show (if a.aliased then some _ else Store.find? (st.saveSession _) _) = some _
    rw [Store.find?_saveSession_self, ite_self]

section Open

variable {stream : Bool} {args : RunArgs} {st : Store a}

/-- **Opening a session** with a message, or one that waits for nothing. A run that reads its
session back, but does not save it, needs one that waits for nothing. -/
theorem tidy_startRun (h_waits : (getOrCreateSession env args st).session.Waits gated)
    (h_message : args.userMessage ≠ "" ∨
      (getOrCreateSession env args st).session.pendingInteractions = [])
    (h_follows : persists a env.context = true ∨ env.curator.active = false ∨
      (getOrCreateSession env args st).session.pendingInteractions = []) :
    Tidy env gated (startRun env stream args st).live := by
  generalize h_got : getOrCreateSession env args st = l at h_waits h_message h_follows
  have h_owned : Owned env.context l.session := by
    rw [← h_got]
    exact owned_of_matches (matches_getOrCreateSession env args st)
  have h_synced : l.Synced := by
    rw [← h_got]
    exact synced_getOrCreateSession env args st
  have h_entry : ∀ e ∈ l.contents.find? l.session.sessionId, e = l.session :=
    fun e h_e => (Option.some.inj (h_synced.symm.trans h_e)).symm
  -- the working session is settled once it is entered
  have h_settled : (enteredSession env args l).session.Settled gated := by
    unfold enteredSession
    dsimp only
    split_ifs with h_close
    · exact AgentSession.Waits.close (h_waits.of_dialogue rfl)
    · have h_none : l.session.pendingInteractions = [] := by
        rcases h_message with h_message | h_none
        · by_contra h_some
          exact h_close ⟨h_message, h_some⟩
        · exact h_none
      exact (h_waits.settled h_none).of_dialogue rfl
  have h_core := (sameCore_enteredSession env args l).session
  have h_owned' : Owned env.context (enteredSession env args l).session :=
    coreInv_owned _ _ _ h_core h_owned
  have h_saved : Tidy env gated (maybeSave env.context (enteredSession env args l)) := by
    cases h_persists : persists a env.context with
    | true =>
      refine .of_synced ?_ ?_ (synced_maybeSave h_persists _) <;> rw [maybeSave_session]
      · exact h_owned'
      · exact h_settled
    | false =>
      -- the entry is the session as it was
      have h_copies := copies_of_not_persists h_persists
      rw [maybeSave_of_not_persists h_persists]
      have h_find : ∀ e ∈ (enteredSession env args l).contents.find?
          (enteredSession env args l).session.sessionId, e = l.session := by
        have h_store : (enteredSession env args l).contents = l.contents := by
          have h_same : (enteredSession env args l).store = l.store := by
            unfold enteredSession
            dsimp only
            split_ifs <;> rfl
          simp [Live.contents, h_copies, h_same]
        rw [h_store, AgentSession.sessionId_of_core h_core]
        exact h_entry
      exact
        { owned := h_owned'
          session := h_settled
          owner := fun e h_e => by
            rw [h_find e h_e, AgentSession.toScope_of_core h_core]
          stored := fun e h_e => h_find e h_e ▸ h_waits
          follows := fun h_read e h_e => by
            rw [h_find e h_e]
            refine h_waits.settled ?_
            rcases h_follows with h_yes | h_idle | h_none
            · rw [h_persists] at h_yes
              cases h_yes
            · rw [h_persists, h_idle] at h_read
              simp at h_read
            · exact h_none }
  obtain ⟨state, h_open⟩ := openSession_eq env args st
  rw [h_got] at h_open
  show Tidy env gated (openSession env args st).1
  rw [h_open]
  dsimp only
  split_ifs
  · exact h_saved.withState state
  · exact (h_saved.withState state).saved

end Open

/-! ### Any sequence of runs and resumes -/

/-- A run with a message, or a resume with a result for everything that is waited for, of the
session `sid`. The agent defers the tools `gated`. -/
inductive Exchange (gated : String → Bool) (sid : String) (st : Store a) : RunState a → Prop
  | run {env : Env a} {stream : Bool} {args : RunArgs} (h_sid : runSessionId env args = sid)
      (h_message : args.userMessage ≠ "") (h_gated : ∀ name, env.registry.gated name = gated name)
      (h_alone : RunPausesAlone env stream args st)
      (h_follows : persists a env.context = true ∨ env.curator.active = false ∨
        Stored sid (fun e => e.pendingInteractions = []) st) :
    Exchange gated sid st (execRun env stream args st)
  | resume {env : Env a} {stream : Bool} {results : List ResumeItem} {st' : Store a}
      (h_sid : runSessionId env (resumeArgs sid) = sid)
      (h_store : resumeStore env sid results st = .ok st')
      (h_gated : ∀ name, env.registry.gated name = gated name)
      (h_alone : RunPausesAlone env stream (resumeArgs sid) st')
      (h_persists : persists a env.context = true)
      (h_answers : Stored sid (fun e => ∀ p ∈ e.pendingInteractions, p ≠ hitlRequest →
        resumeContent results p ≠ "") st) :
    Exchange gated sid st (execRun env stream (resumeArgs sid) st')

/-- Any number of runs and resumes, with steps that leave the entry of the session alone. -/
inductive Exchanges (gated : String → Bool) (sid : String) : Store a → Store a → Prop
  | none (st : Store a) : Exchanges gated sid st st
  | ran {st st' : Store a} {s : RunState a} (h : Exchanges gated sid st st')
      (h_last : Exchange gated sid st' s) : Exchanges gated sid st (storeAfter s)
  | other {st st' st'' : Store a} (h : Exchanges gated sid st st')
      (h_same : st''.find? sid = st'.find? sid) : Exchanges gated sid st st''

/-- A new session waits for nothing. -/
theorem settled_createdSession (env : Env a) (args : RunArgs) (gated : String → Bool) :
    (createdSession env args).Settled gated :=
  ⟨rfl, nofun⟩

/-- **One run or resume.** -/
theorem Exchange.waits {sid : String} {st : Store a} {s : RunState a}
    (h : Exchange gated sid st s) (h_stored : Stored sid (AgentSession.Waits gated) st) :
    s.live.Inv (AgentSession.Waits gated) ∧
      (s.status ≠ .paused → s.session.pendingInteractions = []) ∧
      Stored sid (AgentSession.Waits gated) (storeAfter s) := by
  cases h with
  | @run env stream args h_sid h_message h_gated h_alone h_follows =>
    have h_created := settled_createdSession env args gated
    have h_got := (inv_getOrCreateSession (fun e h_e _ => h_stored e (h_sid ▸ h_e))
      h_created.waits).session
    -- a run that cannot save starts without open interactions
    have h_none : persists a env.context = true ∨ env.curator.active = false ∨
        (getOrCreateSession env args st).session.pendingInteractions = [] :=
      h_follows.imp_right fun h_rest => h_rest.imp_right fun h_none =>
        (inv_getOrCreateSession (P := fun e => e.pendingInteractions = [])
          (fun e h_e _ => h_none e (h_sid ▸ h_e)) h_created.pending).session
    obtain ⟨h_waits, h_ended⟩ := execRun_waits h_gated h_alone
      (tidy_startRun h_got (.inl h_message) h_none)
    exact ⟨h_waits, h_ended, stored_execRun h_sid h_waits⟩
  | @resume env stream results st' h_sid h_store h_gated h_alone h_persists h_answers =>
    -- resuming clears the interactions before the run starts
    have h_settled : Stored sid (AgentSession.Settled gated) st' := by
      obtain ⟨e, h_find, -, h_find'⟩ := find?_resumeStore h_store
      intro e' h_e'
      obtain rfl := Option.some.inj (h_find'.symm.trans h_e')
      rw [if_pos (show (a.aliased || env.context.shouldPersist) = true from h_persists)]
      exact (h_stored e h_find).resume (h_answers e h_find)
    have h_got := (inv_getOrCreateSession (fun e h_e _ => h_settled e (h_sid ▸ h_e))
      (settled_createdSession env (resumeArgs sid) gated)).session
    obtain ⟨h_waits, h_ended⟩ := execRun_waits h_gated h_alone
      (tidy_startRun h_got.waits (.inr h_got.pending) (.inl h_persists))
    exact ⟨h_waits, h_ended, stored_execRun h_sid h_waits⟩

/-- An exchange leaves the stored session waiting as it should. -/
theorem Exchanges.waits {sid : String} {st st' : Store a} (h : Exchanges gated sid st st')
    (h_start : Stored sid (AgentSession.Waits gated) st) :
    Stored sid (AgentSession.Waits gated) st' := by
  induction h with
  | none => exact h_start
  | ran _ h_last ih => exact (h_last.waits ih).2.2
  | other _ h_same ih => exact fun e h_e => ih e (h_same ▸ h_e)

/-- **The pending interactions of a session are what its last turn waits for**, after every
run and resume of any sequence in which a call that waits is never handled in parallel with
another call that waits or raises, resumes answer everything, and nothing that waits is read
back by a run that does not save. -/
theorem pendings_match {sid : String} {st st' : Store a} {s : RunState a}
    (h_new : st.find? sid = none) (h : Exchanges gated sid st st')
    (h_last : Exchange gated sid st' s) :
    s.session.PendingsMatch gated ∧
      Stored sid (AgentSession.PendingsMatch gated) (storeAfter s) ∧
      (s.status ≠ .paused → s.session.pendingInteractions = []) := by
  have h_stored := h.waits (stored_of_none h_new (AgentSession.Waits gated))
  obtain ⟨h_waits, h_ended, h_after⟩ := h_last.waits h_stored
  exact ⟨h_waits.session.toPendingsMatch, fun e h_e => (h_after e h_e).toPendingsMatch, h_ended⟩

/-- An agent that looks an order up and asks its user, in one response. -/
def askEnv (responses : List LLMResponse) : Env .memory where
  config := { parallelToolCalls := true }
  registry := [("shop.order", {}), ("shop.request_user_input", {})]
  proxy := .scripted responses

/-- A call that is answered at once. -/
def lookupCall : ToolCallRequest := ⟨"c0", "shop.order", []⟩

/-- A question to the user. -/
def askCall (id : String) : ToolCallRequest := ⟨id, "shop.request_user_input", []⟩

/-- The message of the user. -/
def askArgs : RunArgs := { userMessage := "Where is my parcel?", sessionId := some "s1" }

/-- The run that asks, in parallel with the lookup. -/
def askRun : RunState .memory :=
  execRun (askEnv [{ toolCalls := [lookupCall, askCall "c1"] }]) false askArgs (.empty _)

/-- The answer of the user. -/
def askAnswer : List ResumeItem := [{ callId := some "c1", content := "Number 17." }]

/-- The user answers the question, and nothing is waited for. -/
theorem pendings_match_answered :
    ∃ st', resumeStore (askEnv [{ content := some "Tomorrow." }]) "s1" askAnswer
        (storeAfter askRun) = .ok st' ∧
      let s := execRun (askEnv [{ content := some "Tomorrow." }]) false (resumeArgs "s1") st'
      let gated := (askEnv []).registry.gated
      s.session.PendingsMatch gated ∧
        Stored "s1" (AgentSession.PendingsMatch gated) (storeAfter s) ∧
        (s.status ≠ .paused → s.session.pendingInteractions = []) := by
  -- the run that asks: it makes two calls, and the second one waits for the caller
  have h_asked : Exchange (askEnv []).registry.gated "s1" (.empty .memory) askRun := by
    refine .run rfl (by decide) (fun _ => rfl) (fun s _ raw h_raw => ?_) (.inl rfl)
    cases h_calls : s.calls with
    | zero =>
      rw [h_calls] at h_raw
      obtain rfl := Except.ok.inj h_raw
      intro _ i req h_i h_waits j req' h_j h_ne
      have h_accepted : (acceptedResponse (askEnv [{ toolCalls := [lookupCall, askCall "c1"] }]) 0
          { toolCalls := [lookupCall, askCall "c1"] }).toolCalls = [lookupCall, askCall "c1"] := by
        decide +kernel
      rw [h_accepted] at h_i h_j
      match i, j with
      | 0, _ =>
        obtain rfl := Option.some.inj h_i
        have h_answered : callFate (askEnv [{ toolCalls := [lookupCall, askCall "c1"] }]) lookupCall ≠
            .waits := by decide +kernel
        exact absurd h_waits h_answered
      | 1, 0 =>
        obtain rfl := Option.some.inj h_j
        exact ⟨some "shop.order", by decide +kernel⟩
      | 1, 1 => exact absurd rfl h_ne
      | 1, _ + 2 => cases h_j
      | _ + 2, _ => cases h_i
    | succ k =>
      rw [h_calls] at h_raw
      cases h_raw
  -- what it leaves open
  have h_pending : ((storeAfter askRun).find? "s1").map AgentSession.pendingInteractions =
      some [{ tcId := "TC2", callId := "c1", toolName := "shop.request_user_input", kind := .elicitation }] := by
    decide +kernel
  cases h_store : resumeStore (askEnv [{ content := some "Tomorrow." }]) "s1" askAnswer
      (storeAfter askRun) with
  | error e =>
    have h_ok : (resumeStore (askEnv [{ content := some "Tomorrow." }]) "s1" askAnswer
      (storeAfter askRun)).isOk = true := by decide +kernel
    rw [h_store] at h_ok
    cases h_ok
  | ok st' =>
    have h_new : (Store.empty .memory).find? "s1" = none := rfl
    -- the run that resumes makes no call at all
    refine ⟨st', rfl, pendings_match h_new (.ran (.none _) h_asked)
      (.resume rfl h_store (fun _ => rfl) (fun s _ raw h_raw => ?_) rfl fun e h_e => ?_)⟩
    · cases h_calls : s.calls with
      | zero =>
        rw [h_calls] at h_raw
        obtain rfl := Except.ok.inj h_raw
        have h_single : useParallel (askEnv [{ content := some "Tomorrow." }])
            (acceptedResponse (askEnv [{ content := some "Tomorrow." }]) 0
              { content := some "Tomorrow." }).toolCalls = false := by decide +kernel
        intro h_par
        rw [h_single] at h_par
        cases h_par
      | succ k =>
        rw [h_calls] at h_raw
        cases h_raw
    · rw [h_e] at h_pending
      rw [Option.some.inj h_pending]
      decide

/-- **Two questions in one parallel response**: the session waits for both, its last turn has a
record of the first only. -/
theorem pendings_unmatched :
    let env := askEnv [{ toolCalls := [askCall "c1", askCall "c2"] }]
    let s := execRun env false askArgs (.empty .memory)
    s.status = .paused ∧ ¬s.session.PendingsMatch env.registry.gated ∧
      s.session.pendingInteractions.map PendingInteraction.ids = [("TC1", "c1"), ("TC2", "c2")] ∧
      (s.session.waiting env.registry.gated).map ToolCallRecord.ids = [("TC1", "c1")] := by
  decide +kernel

end Nexus
