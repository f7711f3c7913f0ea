import NexusAgent.Runner.Input
import NexusAgent.Runner.Persistence

/-!
# What the next model call sees of a run

The loop works on one session object, but a curation after a turn replaces it by what the
store has under its id. A run that does not persist its turns adds them to its own object
only, so behind an adapter that hands out copies the reloaded session is the one from before
the run.

* `KeepsTurns`: the session a call is built from ends with the turns of the run so far.
* `NextTurn`: what a pass that goes on does to the turns of the session.
* `turns_recalled_iff`: every call of a run sees the run's turns exactly when the stored
  entry follows the session, or no turn with a call after it is curated.
* `turns_forgotten`: a scheduled run with a curating agent.
-/

open Lib

namespace Nexus

variable {a : StoreAdapter}

/-! ### The turns of a run -/

/-- The turns a run appended, oldest first. -/
def turnsOf (trace : List Obs) : List TurnRecord := trace.filterMap Obs.turn?

theorem turnsOf_append (xs ys : List Obs) : turnsOf (xs ++ ys) = turnsOf xs ++ turnsOf ys :=
  List.filterMap_append

/-- Observations of another kind are not counted. -/
theorem turnsOf_quiet (xs : List Obs) {ys : List Obs}
    (h : ∀ turn, Obs.turnAppended turn ∉ ys) : turnsOf (xs ++ ys) = turnsOf xs := by
  have h_none : turnsOf ys = [] := by
    refine List.filterMap_eq_nil_iff.mpr fun o ho => ?_
    cases o <;> first | exact absurd ho (h _) | rfl
  rw [turnsOf_append, h_none, List.append_nil]

/-- The session the context of the pass from `s` is built from. -/
def contextSession (env : Env a) (s : RunState a) : AgentSession :=
  (prepareTurn env s.calls { s with calls := s.calls + 1 }).2.session

/-- The session of the pass from `s` has the turns it had when the run opened it and then
those of the run, in order. The summaries of records are left aside. -/
def KeepsTurns (env : Env a) (stream : Bool) (args : RunArgs) (st : Store a) (s : RunState a) :
    Prop :=
  (contextSession env s).turns.map TurnRecord.bare =
    ((startRun env stream args st).session.turns ++ turnsOf s.trace).map TurnRecord.bare

/-- Whether a curation follows the turn of call `k`. -/
def curates (env : Env a) (k : ℕ) : Bool := env.curator.active && env.curator.afterTurn k

/-- A turn is stored in the pass from `s`, and the pass from `s'` comes after it. -/
structure Followed (env : Env a) (stream : Bool) (args : RunArgs) (st : Store a)
    (s s' : RunState a) : Prop where
  first : TurnOf env stream args st s
  pass : Prog.Pass (loopCond (turnLimit env args)) (turn env stream) s s'
  next : TurnOf env stream args st s'
  stored : s'.runTurnIndex = s.runTurnIndex + 1

/-! ### One pass -/

section Pass

variable {env : Env a} {stream : Bool} {s s' t u : RunState a} {r : LLMResponse}
  {sent : List Message}

/-- Without a summarizer nothing is folded. -/
theorem Folded.off (h_off : env.config.contextSummary.summarizeOn = none) {k : ℕ} {l l' : Live a}
    (h : Folded env k l l') : l' = l := by
  cases h with
  | kept => rfl
  | folded h_on =>
    rw [h_off] at h_on
    cases h_on

/-- Without summaries the context is that of the session's stem. -/
theorem stem_contextSession (h_off : env.config.contextSummary.summarizeOn = none)
    (s : RunState a) : (contextSession env s).stem = s.session.stem := by
  obtain ⟨-, l, h_similar, h_folded⟩ := built_prepareTurn env s.calls { s with calls := s.calls + 1 }
  have h_live := h_folded.off h_off
  show (prepareTurn env s.calls { s with calls := s.calls + 1 }).2.live.session.stem = _
  rw [h_live]
  exact h_similar.sameStem.session

/-- The turns a call sees are those at the head of its pass. -/
theorem keepsTurns_iff (h_off : env.config.contextSummary.summarizeOn = none) {args : RunArgs}
    {st : Store a} : KeepsTurns env stream args st s ↔
      s.session.turns.map TurnRecord.bare =
        ((startRun env stream args st).session.turns ++ turnsOf s.trace).map TurnRecord.bare := by
  unfold KeepsTurns
  rw [AgentSession.turns_of_stem (stem_contextSession h_off s)]

/-- Opening a turn stores no turn. -/
theorem Opened.turns (h : Opened env s sent t) : turnsOf t.trace = turnsOf s.trace := by
  obtain ⟨builds, session, messages, h_trace, h_builds, -⟩ := h.trace
  rw [h_trace, List.append_assoc]
  refine turnsOf_quiet _ fun turn h_mem => ?_
  rcases List.mem_append.mp h_mem with h_build | h_call
  · obtain ⟨degraded, dropped, h_eq⟩ := h_builds _ h_build
    cases h_eq
  · simp at h_call

/-- Nor does a model call, which leaves the session's stem. -/
theorem Replied.recall (h_off : env.config.contextSummary.summarizeOn = none)
    (h : Replied env stream s sent r t) :
    s.live.SameStem t.live ∧ turnsOf t.trace = turnsOf s.trace ∧
      t.runTurnIndex = s.runTurnIndex := by
  have h_index : t.runTurnIndex = s.runTurnIndex := by rw [h.rest]
  obtain ⟨u, events, h_open, rfl⟩ := h.opened
  obtain ⟨l, l', h_similar, h_folded, h_similar'⟩ := h_open.live
  obtain rfl := h_folded.off h_off
  exact ⟨h_similar.sameStem.trans h_similar'.sameStem, h_open.turns, h_index⟩

theorem Accepted.recall (h : Accepted env r t u) :
    u.live = t.live ∧ turnsOf u.trace = turnsOf t.trace ∧ u.runTurnIndex = t.runTurnIndex := by
  cases h <;> exact ⟨rfl, rfl, rfl⟩

/-- Handling calls stores no turn. -/
theorem HandlingEffect.recall {calls : List ToolCallRequest}
    {outs : List (ℕ × Except RunError Handled)} {obs : List Obs}
    (h : HandlingEffect env calls s outs obs t) :
    turnsOf t.trace = turnsOf s.trace ∧ t.runTurnIndex = s.runTurnIndex := by
  refine ⟨?_, by rw [h.rest]⟩
  rw [h.trace]
  exact turnsOf_quiet _ fun turn h_mem => h.logged.observed _ h_mem

/-- What a pass that goes on does to the turns: it asks again and stores none, or it stores
one and perhaps curates. -/
inductive NextTurn (env : Env a) (s s' : RunState a) : Prop
  | again (h_live : s.live.SameStem s'.live) (h_turns : turnsOf s'.trace = turnsOf s.trace)
      (h_index : s'.runTurnIndex = s.runTurnIndex)
  | stored (turn : TurnRecord) (u : RunState a) (h_live : s.live.SameStem u.live)
      (h_live' : s'.live = (storedTurn env s.calls turn u).live)
      (h_turns : turnsOf s'.trace = turnsOf s.trace ++ [turn])
      (h_index : s'.runTurnIndex = s.runTurnIndex + 1)

/-- A turn that goes on leaves the session as it was stored. -/
theorem EndTurn.recall {k : ℕ} {final : Bool} (h : EndTurn env k final s (.ok .next) s') :
    s'.live = s.live ∧ turnsOf s'.trace = turnsOf s.trace ∧
      s'.runTurnIndex = s.runTurnIndex + 1 := by
  generalize ho : (Except.ok Prog.Ctl.next : Except RunError Prog.Ctl) = o at h
  cases h with
  | stopped => cases ho
  | injected => exact ⟨rfl, turnsOf_quiet _ (by simp), rfl⟩
  | human => cases ho
  | timedOut => cases ho
  | onward => exact ⟨rfl, rfl, rfl⟩

theorem turnsOf_storedTurn (env : Env a) (k : ℕ) (turn : TurnRecord) (s : RunState a) :
    turnsOf (storedTurn env k turn s).trace = turnsOf s.trace ++ [turn] := by
  rw [storedTurn_trace, turnsOf_append]
  rfl

/-- A turn that goes on tries again or stores a turn. -/
theorem TurnStep.next (h_off : env.config.contextSummary.summarizeOn = none)
    (h : TurnStep env stream s (.ok .next) s') : NextTurn env s s' := by
  generalize ho : (Except.ok Prog.Ctl.next : Except RunError Prog.Ctl) = o at h
  cases h with
  | cancelled => cases ho
  | callFailed => cases ho
  | @retried sent r t h_reply e =>
    -- a retry stores nothing
    obtain ⟨h_live, h_turns, h_index⟩ := h_reply.recall h_off
    exact .again h_live ((turnsOf_quiet t.trace (by simp)).trans h_turns) h_index
  | rejected => cases ho
  | @answered sent r t u h_reply h_accepted _ _ savings _ _ h_end =>
    subst ho
    -- a final text, or calls that were handled: one turn is stored, the next has its index
    obtain ⟨h_live, h_turns, h_index⟩ := h_reply.recall h_off
    obtain ⟨h_live', h_turns', h_index'⟩ := h_accepted.recall
    obtain ⟨h_end_live, h_end_turns, h_end_index⟩ := h_end.recall
    refine .stored _ (answering r u) ?_ h_end_live ?_ ?_
    · show s.live.SameStem u.live
      rw [h_live']
      exact h_live
    · rw [h_end_turns, turnsOf_storedTurn]
      exact congrArg (· ++ _) (h_turns'.trans h_turns)
    · exact h_end_index.trans (congrArg (· + 1) (h_index'.trans h_index))
  | toolsRaised => cases ho
  | paused => cases ho
  | @handled sent r t u v h_reply h_accepted _ outs obs h_effect handled n _ _ c savings _ _ h_end =>
    subst ho
    obtain ⟨h_live, h_turns, h_index⟩ := h_reply.recall h_off
    obtain ⟨h_live', h_turns', h_index'⟩ := h_accepted.recall
    obtain ⟨h_turns'', h_index''⟩ := h_effect.recall
    obtain ⟨h_end_live, h_end_turns, h_end_index⟩ := h_end.recall
    refine .stored _ v ?_ h_end_live ?_ ?_
    · rw [← h_live'] at h_live
      exact h_live.trans h_effect.stem
    · rw [h_end_turns, turnsOf_storedTurn, h_turns'', h_turns', h_turns]
    · exact h_end_index.trans (congrArg (· + 1) (h_index''.trans (h_index'.trans h_index)))

end Pass

/-- A pass that goes on. -/
theorem pass_of_next {env : Env a} {stream : Bool} {s : RunState a} (limit : ℕ)
    (h_cond : loopCond limit s = true) (h_next : (turn env stream s).1 = .ok .next) :
    Prog.Pass (loopCond limit) (turn env stream) s (turn env stream s).2 :=
  ⟨h_cond, by rw [← h_next]⟩

/-! ### The session and its entry -/

/-- A session with the owner of an owned session. -/
theorem Owned.of_toScope {ctx : RunContext} {s e : AgentSession} (h : Owned ctx s)
    (h_scope : e.toScope = s.toScope) :
    (ctx.sessionScope (some s)).matchesSession e = true ∧ Owned ctx e := by
  obtain ⟨h_tenant, h_company, h_user⟩ := SessionScope.mk.inj h_scope
  unfold Owned at h ⊢
  simpa [RunContext.sessionScope, SessionScope.matchesSession, h_tenant, h_company, h_user] using h

section Turns

variable {env : Env a} {T : List TurnRecord} {l l' : Live a}

/-- The turns of the working session are `T`. -/
structure Recalls (env : Env a) (T : List TurnRecord) (l : Live a) : Prop where
  owned : Owned env.context l.session
  turns : l.session.turns.map TurnRecord.bare = T.map TurnRecord.bare

theorem Recalls.sameStem (h : Recalls env T l) (h_stem : l.SameStem l') : Recalls env T l' where
  owned := coreInv_owned _ _ _ (AgentSession.core_of_stem h_stem.session) h.owned
  turns := (AgentSession.turns_of_stem h_stem.session).trans h.turns

/-- A turn stored by a run whose entry follows the session, or that does not curate it. -/
theorem Recalls.storedTurn {u : RunState a} (h : Recalls env T u.live) {k : ℕ} (turn : TurnRecord)
    (h_safe : persists a env.context = true ∨ curates env k = false) :
    Recalls env (T ++ [turn]) (storedTurn env k turn u).live := by
  -- the stored turn is in the session in hand
  have h_session : (Nexus.storedTurn env k turn u).live.session =
      u.live.session.withTurn turn (jsonSafeState u.state) := by
    -- synced with the store, or not curated
    rcases h_safe with h_persists | h_idle
    · exact (storedTurn_synced h_persists h.owned k).1
    · have h_skip : (Nexus.storedTurn env k turn u).live = (persistTurnWithState env turn u).live := by
        unfold Nexus.storedTurn maybeCurateAfterTurn
        exact if_neg (by simpa [curates] using h_idle)
      rw [h_skip]
      exact persistTurnWithState_session turn h.owned
  refine ⟨?_, ?_⟩
  · rw [h_session]
    exact h.owned
  · rw [h_session, AgentSession.withTurn_turns, List.map_append, List.map_append, h.turns]

/-- The entry of the working session has `n` turns and the same owner. -/
structure Lags (env : Env a) (n : ℕ) (l : Live a) : Prop where
  owned : Owned env.context l.session
  entry : ∃ e, l.contents.find? l.session.sessionId = some e ∧ e.turns.length = n ∧
    e.toScope = l.session.toScope

/-- A stem that agrees lags as much. -/
theorem Lags.sameStem {n : ℕ} (h : Lags env n l) (h_stem : l.SameStem l') : Lags env n l' where
  owned := coreInv_owned _ _ _ (AgentSession.core_of_stem h_stem.session) h.owned
  entry := by
    obtain ⟨e, h_find, h_length, h_scope⟩ := h.entry
    -- the entry has the turns that it had
    have h_entry := h_stem.contents l.session.sessionId
    rw [h_find, Option.map_some] at h_entry
    obtain ⟨e', h_find', h_stem'⟩ := Option.map_eq_some_iff.mp h_entry
    refine ⟨e', ?_, ?_, ?_⟩
    · rw [AgentSession.sessionId_of_stem h_stem.session]
      exact h_find'
    · have h_turns := congrArg List.length (AgentSession.turns_of_stem h_stem')
      rw [List.length_map, List.length_map] at h_turns
      exact h_turns.trans h_length
    · rw [AgentSession.toScope_of_stem h_stem', h_scope,
        AgentSession.toScope_of_stem h_stem.session]

/-- Without persistence the entry stays behind, and a curation goes back to it. -/
theorem Lags.storedTurn {n k : ℕ} {u : RunState a} (h_persists : persists a env.context = false)
    (h : Lags env n u.live) (turn : TurnRecord) :
    Lags env n (storedTurn env k turn u).live ∧
      (curates env k = true → (Nexus.storedTurn env k turn u).live.session.turns.length = n) := by
  obtain ⟨e, h_find, h_length, h_scope⟩ := h.entry
  have h_session := persistTurnWithState_session turn h.owned
  have h_entry := persistTurnWithState_entry turn h.owned
  rw [h_persists, if_neg Bool.false_ne_true, h_find] at h_entry
  generalize h_p : (persistTurnWithState env turn u).live = p at h_session h_entry
  have h_id : p.session.sessionId = u.live.session.sessionId := by
    rw [h_session]
    rfl
  have h_scope' : e.toScope = p.session.toScope := by
    rw [h_session]
    exact h_scope
  have h_owned : Owned env.context p.session := by
    rw [h_session]
    exact h.owned
  have h_find' : p.contents.find? p.session.sessionId = some e := by rw [h_id, h_entry]
  have h_reread := reread_maybeCurate env k p
  have h_live : (Nexus.storedTurn env k turn u).live = maybeCurateAfterTurn env k p := by
    rw [← h_p]
    rfl
  rw [h_live]
  -- the working session is still the run's own, or is the entry
  have h_which : (maybeCurateAfterTurn env k p).session = p.session ∨
      (maybeCurateAfterTurn env k p).session = e := by
    rcases h_reread.session with h_same | h_old
    · exact .inl h_same
    · exact .inr (Option.some.inj (h_old.symm.trans h_find'))
  refine ⟨⟨?_, e, ?_, h_length, ?_⟩, fun h_curates => ?_⟩
  · rcases h_which with h_eq | h_eq <;> rw [h_eq]
    · exact h_owned
    · exact (h_owned.of_toScope h_scope').2
  · rw [h_reread.sessionId, h_reread.entry, h_find']
  · rcases h_which with h_eq | h_eq <;> rw [h_eq]
    exact h_scope'
  · have h_load : (curate env k p).contents.loadSession p.session.sessionId
        (env.context.sessionScope (some p.session)) = some e := by
      refine Store.loadSession_eq_some.mpr ⟨?_, (h_owned.of_toScope h_scope').1⟩
      exact (reread_curate env k p).entry.trans h_find'
    have h_back : (maybeCurateAfterTurn env k p).session = e := by
      unfold maybeCurateAfterTurn
      rw [if_pos (show (env.curator.active && env.curator.afterTurn k) = true from h_curates)]
      show ((curate env k p).contents.loadSession p.session.sessionId
        (env.context.sessionScope (some p.session))).getD p.session = e
      rw [h_load]
      rfl
    rw [h_back, h_length]

end Turns

/-! ### Along a run -/

section Run

variable {env : Env a} {stream : Bool} {args : RunArgs} {st : Store a}

/-- Opening a session keeps who owns it and how many turns it has. -/
theorem owned_startRun (env : Env a) (stream : Bool) (args : RunArgs) (st : Store a) :
    Owned env.context (startRun env stream args st).session :=
  coreInv_owned _ _ _ (core_openSession env args st)
    (owned_of_matches (matches_getOrCreateSession env args st))

/-- **Every call sees the turns so far** while nothing is read back that lags behind. -/
theorem recalls_head (h_off : env.config.contextSummary.summarizeOn = none)
    (h_safe : persists a env.context = true ∨
      ∀ s s', Followed env stream args st s s' → curates env s.calls = false)
    {s : RunState a} (h : TurnOf env stream args st s) :
    Recalls env ((startRun env stream args st).session.turns ++ turnsOf s.trace) s.live := by
  obtain ⟨h_head, h_lt⟩ := h
  induction h_head with
  | refl => exact ⟨owned_startRun env stream args st, by rw [startRun, turnsOf]; simp [Obs.turn?]⟩
  | @tail s s' h_head h_pass ih =>
    have h_lt' : s.runTurnIndex < turnLimit env args := by simpa [loopCond] using h_pass.1
    have h_recalls := ih h_lt'
    have h_step := Prog.wp_ok (x := turn env stream) (wp_turn env stream s) h_pass.2
    -- a retry stores nothing, any other turn one turn
    cases h_step.next h_off with
    | again h_live h_turns =>
      rw [h_turns]
      exact h_recalls.sameStem h_live
    | stored turn u h_live h_live' h_turns h_index =>
      have h_turn_safe : persists a env.context = true ∨ curates env s.calls = false :=
        h_safe.imp_right fun h_idle =>
          h_idle s s' ⟨⟨h_head, h_lt'⟩, h_pass, ⟨h_head.tail h_pass, h_lt⟩, h_index⟩
      rw [h_live', h_turns, ← List.append_assoc]
      exact (h_recalls.sameStem h_live).storedTurn turn h_turn_safe

theorem AgentSession.length_turns_of_core {s s' : AgentSession} (h : s'.core = s.core) :
    s'.turns.length = s.turns.length := by
  have := congrArg (fun s => s.turns.length) h
  simpa [core, bare] using this

/-- Behind an adapter that hands out copies, the entry does not see the working session. -/
theorem Lags.mutate {n : ℕ} {l : Live a} (h : Lags env n l) (h_copies : a.aliased = false)
    {f : AgentSession → AgentSession} (hf : (f l.session).core = l.session.core) :
    Lags env n (l.mutate f) where
  owned := coreInv_owned _ _ _ hf h.owned
  entry := by
    obtain ⟨e, h_find, h_length, h_scope⟩ := h.entry
    have h_store : ∀ l : Live a, l.contents = l.store := fun l => by simp [Live.contents, h_copies]
    refine ⟨e, ?_, h_length, h_scope.trans (AgentSession.toScope_of_core hf).symm⟩
    show (l.mutate f).contents.find? (f l.session).sessionId = some e
    rw [h_store, AgentSession.sessionId_of_core hf, ← h_find, h_store]
    rfl

theorem copies_of_not_persists (h_persists : persists a env.context = false) :
    a.aliased = false := by
  simp only [persists, Bool.or_eq_false_iff] at h_persists
  exact h_persists.1

/-- The entry of the session a run gets. -/
theorem lags_getOrCreateSession (env : Env a) (args : RunArgs) (st : Store a) :
    Lags env (getOrCreateSession env args st).session.turns.length
      (getOrCreateSession env args st) where
  owned := owned_of_matches (matches_getOrCreateSession env args st)
  entry := by
    rcases getOrCreateSession_cases env args st with ⟨s, h_find, -, h_eq⟩ | ⟨-, h_eq⟩ <;> rw [h_eq]
    · refine ⟨s, ?_, rfl, rfl⟩
      rw [Live.find?_contents_self, Store.find?_sessionId h_find, h_find, ite_self]
    · refine ⟨_, ?_, rfl, rfl⟩
      rw [Live.find?_contents_self, Store.find?_saveSession_self, ite_self]

/-- The entry of the session a run opens. -/
theorem lags_startRun (h_persists : persists a env.context = false) :
    Lags env (startRun env stream args st).session.turns.length (startRun env stream args st).live := by
  have h_copies := copies_of_not_persists h_persists
  have h_length : (startRun env stream args st).session.turns.length =
      (getOrCreateSession env args st).session.turns.length :=
    AgentSession.length_turns_of_core (core_openSession env args st)
  have h_get := lags_getOrCreateSession env args st
  obtain ⟨state, h_open⟩ := openSession_eq env args st
  -- entering a session changes none of its turns
  have h_entered : Lags env (getOrCreateSession env args st).session.turns.length
      (enteredSession env args (getOrCreateSession env args st)) := by
    have h_flag := h_get.mutate h_copies
      (f := fun s => { s with rcsEnabled := env.config.builder.rcsEnabled }) rfl
    unfold enteredSession
    dsimp only
    split_ifs
    · exact h_flag.mutate h_copies (core_closePendingInteractions _)
    · exact h_flag
  rw [h_length]
  show Lags env _ (openSession env args st).1
  rw [h_open]
  simp only [maybeSave_of_not_persists h_persists, ite_self]
  exact h_entered.mutate h_copies rfl

/-- Without saves the store lags behind at each turn of the loop. -/
theorem lags_head (h_off : env.config.contextSummary.summarizeOn = none)
    (h_persists : persists a env.context = false) {s : RunState a}
    (h : HeadOf env stream (turnLimit env args) (startRun env stream args st) s) :
    Lags env (startRun env stream args st).session.turns.length s.live := by
  induction h with
  | refl => exact lags_startRun h_persists
  | @tail s s' _ h_pass ih =>
    have h_step := Prog.wp_ok (x := turn env stream) (wp_turn env stream s) h_pass.2
    cases h_step.next h_off with
    | again h_live => exact ih.sameStem h_live
    | stored turn u h_live h_live' =>
      rw [h_live']
      exact ((ih.sameStem h_live).storedTurn h_persists turn).1

/-- **The turns of a run are recalled** by every call exactly when the stored entry follows
the session, or no curation comes between a turn and the next call. -/
theorem turns_recalled_iff (h_off : env.config.contextSummary.summarizeOn = none) :
    (∀ s, TurnOf env stream args st s → KeepsTurns env stream args st s) ↔
      persists a env.context = true ∨
        ∀ s s', Followed env stream args st s s' → curates env s.calls = false := by
  constructor
  · intro h_keeps
    by_contra h_not
    rw [not_or] at h_not
    obtain ⟨h_persists, h_not⟩ := h_not
    rw [Bool.not_eq_true] at h_persists
    refine h_not fun s s' h_followed => ?_
    by_contra h_curates
    rw [Bool.not_eq_false] at h_curates
    have h_step := Prog.wp_ok (x := turn env stream) (wp_turn env stream s) h_followed.pass.2
    have h_index := h_followed.stored
    have h_all := (keepsTurns_iff h_off).mp (h_keeps s' h_followed.next)
    cases h_step.next h_off with
    | again _ _ h_same => omega
    | stored turn u h_live h_live' h_turns =>
      have h_lags := lags_head h_off h_persists h_followed.first.1
      -- the session is back at its old length, and at least one turn was stored
      have h_length := ((h_lags.sameStem h_live).storedTurn h_persists turn).2 h_curates
      rw [← h_live'] at h_length
      have h_count := congrArg List.length h_all
      rw [List.length_map, List.length_map, List.length_append, h_length, h_turns,
        List.length_append, List.length_singleton] at h_count
      omega
  · intro h_safe s h_turn
    exact (keepsTurns_iff h_off).mpr (recalls_head h_off h_safe h_turn).turns

end Run

/-- An agent that reads a note, answers, and curates after every turn, behind a store that
hands out copies. -/
def notesEnv (context : RunContext) : Env (.redis "") where
  context := context
  registry := [("notes.read", {})]
  curator := { active := true, afterTurn := fun _ => true }
  proxy := .scripted [{ toolCalls := [⟨"c1", "notes.read", []⟩] }, { content := some "Done." }]

/-- The task of the agent. -/
def notesArgs : RunArgs := { userMessage := "What is on my list?" }

/-- A run that persists its turns recalls them, curated or not. -/
theorem turns_recalled_persisted :
    persists (.redis "") (notesEnv {}).context = true ∧
      ∀ s, TurnOf (notesEnv {}) false notesArgs (.empty _) s →
        KeepsTurns (notesEnv {}) false notesArgs (.empty _) s :=
  ⟨rfl, (turns_recalled_iff rfl).mpr (.inl rfl)⟩

/-- The scheduled run before its first pass. -/
def notesStart : RunState (.redis "") :=
  startRun (notesEnv { isCron := true }) false notesArgs (.empty _)

/-- **The second call of a scheduled run is sent a session without the run's first turn.** -/
theorem turns_forgotten :
    ¬∀ s, TurnOf (notesEnv { isCron := true }) false notesArgs (.empty _) s →
      KeepsTurns (notesEnv { isCron := true }) false notesArgs (.empty _) s := by
  intro h
  have h_next : (turn (notesEnv { isCron := true }) false notesStart).1 = .ok .next := by
    decide +kernel
  have h_pass := pass_of_next 10 (by decide +kernel) h_next
  have h_keeps := h _ ⟨.single h_pass, by decide +kernel⟩
  have h_length := congrArg List.length h_keeps
  revert h_length
  decide +kernel

end Nexus
