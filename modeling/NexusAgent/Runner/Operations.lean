import NexusAgent.Runner.Interleaving
import NexusAgent.Runner.Recall

/-!
# A run as a sequence of storage operations

The runs of `NexusAgent.Runner.StorageOps` are those of the loop: what `execRun` leaves in a
redis store under its session id is what some sequence of the storage operations leaves there,
and the turns it appends are the turns of the loop.

* `Mirrors`: the run of the loop and the sequence of operations at the same point.
* `Operates`: there is a sequence of operations up to here; one lemma for each of the loop's
  parts, `TurnStep.operates` for a pass.
* `execRun_operations`: the whole run.
-/

open Lib

namespace Nexus

variable {p : String} {env : Env (.redis p)} {sid : String}
  {s₀ : SharedRuns Unit (Store (.redis p))} {T : List TurnRecord} {l l' : Live (.redis p)}

/-- A single run on a redis store, one operation at a time. -/
def soloStep (env : Env (.redis p)) (sid : String) (s : SharedRuns Unit (Store (.redis p)))
    (op : StorageOp) : Option (SharedRuns Unit (Store (.redis p))) :=
  SharedRuns.step (CopyingAdapter.redis p) env.context sid s ((), op)

/-- The run of the loop with working session and store `l` and turns `T`, and the operations
at `s`, in a phase `ph`: the store has the same entry, and the working session is the copy of
the run but for what the run does to it before it writes it. -/
structure Mirrors (ph : AgentSession → Phase) (sid : String) (T : List TurnRecord) (l : Live (.redis p))
    (s : SharedRuns Unit (Store (.redis p))) : Prop where
  sessionId : l.session.sessionId = sid
  entry : s.store.find? sid = l.store.find? sid
  owned : ∃ e, l.store.find? sid = some e ∧ e.toScope = l.session.toScope
  copy : ∃ c, (s.runs ()).phase = ph c ∧ c.Edited l.session
  persisted : s.persisted = T

/-- The operations of the run lead from `s₀` to where the loop is. -/
def Operates (env : Env (.redis p)) (sid : String) (s₀ : SharedRuns Unit (Store (.redis p)))
    (T : List TurnRecord) (l : Live (.redis p)) : Prop :=
  ∃ ops s, runSteps (soloStep env sid) s₀ ops = some s ∧ Mirrors .loop sid T l s

/-- Some more operations. -/
theorem Operates.then {T' : List TurnRecord} (h : Operates env sid s₀ T l)
    (h_more : ∀ s, Mirrors .loop sid T l s →
      ∃ ops s', runSteps (soloStep env sid) s ops = some s' ∧ Mirrors .loop sid T' l' s') :
    Operates env sid s₀ T' l' := by
  obtain ⟨ops, s, h_ops, h_s⟩ := h
  obtain ⟨ops', s', h_ops', h_s'⟩ := h_more s h_s
  exact ⟨ops ++ ops', s', runSteps_append_eq_some.mpr ⟨s, h_ops, h_ops'⟩, h_s'⟩

/-! ### Editing a copy -/

theorem AgentSession.Edited.refl (s : AgentSession) : s.Edited s := ⟨rfl, rfl, rfl⟩

/-- Edits after edits are edits. -/
theorem AgentSession.Edited.trans {s s' s'' : AgentSession} (h : s.Edited s')
    (h' : s'.Edited s'') : s.Edited s'' where
  sessionId := h'.sessionId.trans h.sessionId
  toScope := h'.toScope.trans h.toScope
  turns := h'.turns.trans h.turns

/-- What keeps the core is an edit. -/
theorem AgentSession.edited_of_core {s s' : AgentSession} (h : s'.core = s.core) : s.Edited s' where
  sessionId := sessionId_of_core h
  toScope := toScope_of_core h
  turns := by
    simpa [core, bare, Function.comp_def] using congrArg AgentSession.turns h

/-- The same edit, without the turns that were folded. -/
theorem AgentSession.Edited.withoutTurns {s s' : AgentSession} (h : s.Edited s')
    (folded : List ℕ) : (s.withoutTurns folded).Edited (s'.withoutTurns folded) where
  sessionId := h.sessionId
  toScope := h.toScope
  turns := by
    have h_filter : ∀ x : AgentSession, (x.withoutTurns folded).turns.map TurnRecord.shell =
        (x.turns.map TurnRecord.shell).filter fun t => t.turnIndex ∉ folded := by
      intro x
      rw [List.filter_map]
      rfl
    rw [h_filter, h_filter, h.turns]

/-- The working session is edited. -/
theorem Mirrors.edit {ph : AgentSession → Phase} {s : SharedRuns Unit (Store (.redis p))}
    (h_s : Mirrors ph sid T l s) (h_session : l.session.Edited l'.session)
    (h_store : l'.store = l.store) : Mirrors ph sid T l' s := by
  obtain ⟨e, h_e, h_scope⟩ := h_s.owned
  obtain ⟨c, h_c, h_edited⟩ := h_s.copy
  exact
    { sessionId := h_session.sessionId.trans h_s.sessionId
      entry := h_store ▸ h_s.entry
      owned := ⟨e, h_store ▸ h_e, h_scope.trans h_session.toScope.symm⟩
      copy := ⟨c, h_c, h_edited.trans h_session⟩
      persisted := h_s.persisted }

theorem Operates.edit (h : Operates env sid s₀ T l) {f : AgentSession → AgentSession}
    (h_f : l.session.Edited (f l.session)) : Operates env sid s₀ T (l.mutate f) :=
  h.then fun s h_s => ⟨[], s, rfl, h_s.edit h_f rfl⟩

/-! ### The operations of the loop -/

/-- After a save of the working session. -/
theorem Mirrors.save {s : SharedRuns Unit (Store (.redis p))} (h_id : l.session.sessionId = sid)
    (h_persisted : s.persisted = T)
    (h_phase : (s.runs ()).phase = .loop l.session)
    (h_store : ∃ st : Store (.redis p), s.store = st.saveSession l.session) :
    Mirrors .loop sid T l.saveSession s := by
  obtain ⟨st, h_st⟩ := h_store
  -- what was saved is found
  have h_entry : (l.store.saveSession l.session).find? sid = some l.session :=
    Store.find?_saveSession_of_id _ h_id
  exact
    { sessionId := h_id
      entry := by
        rw [h_st, Store.find?_saveSession_of_id _ h_id]
        exact h_entry.symm
      owned := ⟨l.session, h_entry, rfl⟩
      copy := ⟨l.session, h_phase, .refl _⟩
      persisted := h_persisted }

/-- The save that opens the loop, or one within it. -/
theorem Mirrors.saved (env : Env (.redis p)) {ph : AgentSession → Phase} {s : SharedRuns Unit (Store (.redis p))}
    (h_ph : ph = .opened ∨ ph = .loop) (h_s : Mirrors ph sid T l s) :
    ∃ s', soloStep env sid s (.save l.session) = some s' ∧ Mirrors .loop sid T l.saveSession s' := by
  obtain ⟨c, h_c, h_edited⟩ := h_s.copy
  -- the copy was edited in the fields of the run only
  have h_step : soloStep env sid s (.save l.session) = some
      { store := s.store.saveSession l.session
        runs := Function.update s.runs () { s.runs () with phase := .loop l.session }
        persisted := s.persisted ++ [] } := by
    rcases h_ph with rfl | rfl <;>
    · simp only [soloStep, SharedRuns.step, StorageOp.step, h_c, if_pos h_edited]
      rfl
  exact ⟨_, h_step, .save h_s.sessionId (by simpa using h_s.persisted) (by simp) ⟨_, rfl⟩⟩

theorem Operates.save (h : Operates env sid s₀ T l) : Operates env sid s₀ T l.saveSession := by
  refine h.then fun s h_s => ?_
  obtain ⟨s', h_step, h_s'⟩ := h_s.saved env (.inr rfl)
  exact ⟨[.save l.session], s', by rw [runSteps_cons, h_step]; rfl, h_s'⟩

/-- A save is an operation on the session. -/
theorem Operates.maybeSave (h : Operates env sid s₀ T l)
    (h_persist : env.context.shouldPersist = true) :
    Operates env sid s₀ T (maybeSave env.context l) := by
  unfold Nexus.maybeSave
  rw [if_pos h_persist]
  exact h.save

/-- Handling calls and compacting: the summaries that reach the store do so by one
`update_tc_summary`. -/
theorem Operates.sameStem (h : Operates env sid s₀ T l) (h_stem : l.SameStem l') :
    Operates env sid s₀ T l' := by
  refine h.then fun s h_s => ?_
  obtain ⟨e, h_e, h_scope⟩ := h_s.owned
  obtain ⟨c, h_c, h_edited⟩ := h_s.copy
  have h_entry : (l'.store.find? sid).map AgentSession.stem = some e.stem := by
    have h_contents := h_stem.contents sid
    exact h_contents.trans (congrArg (Option.map AgentSession.stem) h_e)
  obtain ⟨e', h_e', h_stem'⟩ := Option.map_eq_some_iff.mp h_entry
  have h_session := AgentSession.edited_of_core (AgentSession.core_of_stem h_stem.session)
  have h_scope' : e.toScope = c.toScope := h_scope.trans h_edited.toScope
  -- the entry is read and written back with its new summaries
  have h_load : (CopyingAdapter.redis p).loadSession s.store sid c.toScope = some e :=
    CopyingAdapter.loadSession_eq_some.mpr
      ⟨h_s.entry.trans h_e, h_scope' ▸ e.matches_toScope⟩
  let held : Party := { s.runs () with phase := .summarizing c e, seenHeld := s.persisted.length }
  let s₁ : SharedRuns Unit (Store (.redis p)) :=
    { store := s.store, runs := Function.update s.runs () held, persisted := s.persisted ++ [] }
  have h_read : soloStep env sid s .readSummary = some s₁ := by
    simp only [soloStep, SharedRuns.step, StorageOp.step, h_c, h_load]
    rfl
  have h_write : soloStep env sid s₁ (.writeSummary e') = some
      { store := s.store.saveSession e'
        runs := Function.update s₁.runs () { held with phase := .loop c }
        persisted := s₁.persisted ++ [] } := by
    have h_held : s₁.runs () = held := by simp [s₁]
    simp only [soloStep, SharedRuns.step, StorageOp.step, h_held, held, if_pos h_stem']
    rfl
  refine ⟨[.readSummary, .writeSummary e'], _, by
    rw [runSteps_cons, h_read, Option.bind_some, runSteps_cons, h_write]
    rfl, ?_⟩
  exact
    { sessionId := h_session.sessionId.trans h_s.sessionId
      entry := by
        rw [h_e']
        exact Store.find?_saveSession_of_id _ (Store.find?_sessionId h_e')
      owned := ⟨e', h_e', (AgentSession.toScope_of_stem h_stem').trans
        (h_scope.trans h_session.toScope.symm)⟩
      copy := ⟨c, by simp, h_edited.trans h_session⟩
      persisted := by simpa [s₁] using h_s.persisted }

/-- A context summary. -/
theorem Operates.folded (h : Operates env sid s₀ T l) {k : ℕ} (h_folded : Folded env k l l') :
    Operates env sid s₀ T l' := by
  cases h_folded with
  | kept => exact h
  | folded h_on h_some newPart =>
    -- the fold is one operation of the storage
    refine h.then fun s h_s => ?_
    obtain ⟨c, h_c, h_edited⟩ := h_s.copy
    let fold := turnsToFold env.config.contextSummary l.session
    let x := foldSession env.config.contextSummary fold newPart l.session
    -- of the copy less the folded turns
    have h_x : (c.withoutTurns (fold.map TurnRecord.turnIndex)).Edited x :=
      (h_edited.withoutTurns _).trans ⟨rfl, rfl, rfl⟩
    have h_step : soloStep env sid s (.fold (fold.map TurnRecord.turnIndex) x) = some
        { store := s.store.saveSession x
          runs := Function.update s.runs () { s.runs () with phase := .loop x }
          persisted := s.persisted ++ [] } := by
      simp only [soloStep, SharedRuns.step, StorageOp.step, h_c, if_pos h_x]
      rfl
    refine ⟨[.fold (fold.map TurnRecord.turnIndex) x], _, by rw [runSteps_cons, h_step]; rfl, ?_⟩
    exact .save (l := l.mutate (foldSession env.config.contextSummary fold newPart))
      h_s.sessionId (by simpa using h_s.persisted) (by simp; rfl) ⟨_, rfl⟩

/-- Loading the session again. -/
theorem Mirrors.reloaded (env : Env (.redis p)) {ph : AgentSession → Phase} {s : SharedRuns Unit (Store (.redis p))}
    (h_ph : ph = .appended ∨ ph = .loop) (h_s : Mirrors ph sid T l s) :
    ∃ s', soloStep env sid s .reload = some s' ∧
      Mirrors .loop sid T (l.reload (env.context.sessionScope (some l.session))) s' := by
  obtain ⟨c, h_c, h_edited⟩ := h_s.copy
  obtain ⟨e, h_e, h_scope⟩ := h_s.owned
  have h_scopes := env.context.sessionScope_congr h_edited.toScope
  -- both load the same session, the scopes being those of one user
  have h_load : (CopyingAdapter.redis p).loadSession s.store sid
        (env.context.sessionScope (some c)) =
      l.store.loadSession sid (env.context.sessionScope (some l.session)) := by
    rw [CopyingAdapter.redis_loadSession, h_scopes]
    unfold Store.loadSession
    rw [h_s.entry]
  have h_session : (l.reload (env.context.sessionScope (some l.session))).session =
      (l.store.loadSession sid (env.context.sessionScope (some l.session))).getD l.session := by
    rw [← h_s.sessionId]
    rfl
  -- without an entry the run goes on with the copy it has, else with the loaded one
  cases h_found : l.store.loadSession sid (env.context.sessionScope (some l.session)) with
  | none =>
    have h_step : soloStep env sid s .reload = some
        { store := s.store
          runs := Function.update s.runs () { s.runs () with phase := .loop c }
          persisted := s.persisted ++ [] } := by
      rcases h_ph with rfl | rfl <;>
      · simp only [soloStep, SharedRuns.step, StorageOp.step, h_c, h_load, h_found]
        rfl
    rw [h_found] at h_session
    exact ⟨_, h_step,
      { sessionId := (congrArg _ h_session).trans h_s.sessionId
        entry := h_s.entry
        owned := ⟨e, h_e, h_scope.trans (congrArg AgentSession.toScope h_session).symm⟩
        copy := ⟨c, by simp, by rw [h_session]; exact h_edited⟩
        persisted := by simpa using h_s.persisted }⟩
  | some x =>
    have h_step : soloStep env sid s .reload = some
        { store := s.store
          runs := Function.update s.runs ()
            { s.runs () with phase := .loop x, seen := s.persisted.length }
          persisted := s.persisted ++ [] } := by
      rcases h_ph with rfl | rfl <;>
      · simp only [soloStep, SharedRuns.step, StorageOp.step, h_c, h_load, h_found]
        rfl
    rw [h_found] at h_session
    have h_find := (Store.loadSession_eq_some.mp h_found).1
    exact ⟨_, h_step,
      { sessionId := (congrArg _ h_session).trans (Store.find?_sessionId h_find)
        entry := h_s.entry
        owned := ⟨x, h_find, (congrArg AgentSession.toScope h_session).symm⟩
        copy := ⟨x, by simp, by rw [h_session]; exact .refl x⟩
        persisted := by simpa using h_s.persisted }⟩

/-- Loading again is an operation on the session. -/
theorem Operates.reload (h : Operates env sid s₀ T l) :
    Operates env sid s₀ T (l.reload (env.context.sessionScope (some l.session))) := by
  refine h.then fun s h_s => ?_
  obtain ⟨s', h_step, h_s'⟩ := h_s.reloaded env (.inr rfl)
  exact ⟨[.reload], s', by rw [runSteps_cons, h_step]; rfl, h_s'⟩

/-- Saving the session, appending a turn, loading the session again. -/
theorem Operates.append (h : Operates env sid s₀ T l) (turn : TurnRecord) :
    let scope := env.context.sessionScope (some l.session)
    Operates env sid s₀ (T ++ [turn]) ((l.saveSession.appendTurn turn scope).reload scope) := by
  intro scope
  refine h.then fun s h_s => ?_
  obtain ⟨c, h_c, h_edited⟩ := h_s.copy
  let synced : Party := { s.runs () with phase := .synced l.session turn }
  let s₁ : SharedRuns Unit (Store (.redis p)) :=
    { store := s.store.saveSession l.session
      runs := Function.update s.runs () synced
      persisted := s.persisted ++ [] }
  let s₂ : SharedRuns Unit (Store (.redis p)) :=
    { store := s₁.store.appendTurn sid turn scope
      runs := Function.update s₁.runs () { synced with phase := .appended l.session }
      persisted := s₁.persisted ++ [turn] }
  have h_sync : soloStep env sid s (.sync l.session turn) = some s₁ := by
    simp only [soloStep, SharedRuns.step, StorageOp.step, h_c, if_pos h_edited]
    rfl
  have h_append : soloStep env sid s₁ .append = some s₂ := by
    have h_synced : s₁.runs () = synced := by simp [s₁]
    simp only [soloStep, SharedRuns.step, StorageOp.step, h_synced, synced]
    rfl
  -- the entry with the turn, in either store
  have h_find : ∀ st : Store (.redis p), ((st.saveSession l.session).appendTurn sid turn scope).find?
      sid = some (if scope.matchesSession l.session then l.session.addTurn turn else l.session) := by
    intro st
    have h_saved := Store.find?_saveSession_of_id st h_s.sessionId
    have h_append := (CopyingAdapter.redis p).find?_appendTurn (st.saveSession l.session) sid turn scope
    exact h_append.trans (congrArg _ h_saved)
  have h_sid : (l.saveSession.appendTurn turn scope).store =
      (l.store.saveSession l.session).appendTurn sid turn scope := by
    rw [← h_s.sessionId]
    rfl
  have h_s₂ : Mirrors .appended sid (T ++ [turn]) (l.saveSession.appendTurn turn scope) s₂ :=
    { sessionId := h_s.sessionId
      entry := by
        rw [h_sid]
        exact (h_find s.store).trans (h_find l.store).symm
      owned := by
        refine ⟨_, by rw [h_sid]; exact h_find l.store, ?_⟩
        split <;> rfl
      copy := ⟨l.session, by simp [s₂], .refl _⟩
      persisted := by simp [s₁, s₂, h_s.persisted] }
  obtain ⟨s', h_reload, h_s'⟩ := h_s₂.reloaded env (.inl rfl)
  refine ⟨[.sync l.session turn, .append, .reload], s', ?_, h_s'⟩
  rw [runSteps_cons, h_sync, Option.bind_some, runSteps_cons, h_append, Option.bind_some,
    runSteps_cons, h_reload]
  rfl

/-! ### A pass of the loop -/

section Pass

variable (h_persist : env.context.shouldPersist = true)

include h_persist

/-- A persisted turn is appended, between two saves of the state. -/
theorem Operates.persistTurn {s : RunState (.redis p)} (h : Operates env sid s₀ T s.live)
    (turn : TurnRecord) :
    Operates env sid s₀ (T ++ [turn]) (persistTurnWithState env turn s).live := by
  -- the state goes into the session before the turn is appended
  have h_state := h.edit (f := .withState (jsonSafeState s.state)) ⟨rfl, rfl, rfl⟩
  have h_append := h_state.append turn
  have h_again := h_append.edit (f := .withState (jsonSafeState s.state)) ⟨rfl, rfl, rfl⟩
  -- and again after the session is loaded anew
  have h_live : (persistTurnWithState env turn s).live =
      (((s.live.mutate (.withState (jsonSafeState s.state))).saveSession.appendTurn turn
        (env.context.sessionScope (some (s.live.session.withState (jsonSafeState s.state))))).reload
        (env.context.sessionScope (some (s.live.session.withState (jsonSafeState s.state))))).mutate
        (.withState (jsonSafeState s.state)) := by
    unfold persistTurnWithState Nexus.persistTurn Nexus.maybeSave
    simp only [h_persist, if_true]
    rfl
  rw [h_live]
  exact h_again

omit h_persist in
/-- A curation leaves the entry of the session alone. -/
theorem Operates.curate (h : Operates env sid s₀ T l) (k : ℕ) :
    Operates env sid s₀ T (curate env k l) := by
  refine h.then fun s h_s => ⟨[], s, rfl, ?_⟩
  -- the curator writes another session
  have h_frame : (Nexus.curate env k l).store.find? sid = l.store.find? sid :=
    env.curator.frame k l.session l.contents sid (h_s.sessionId ▸ curatorId_ne _)
  obtain ⟨e, h_e, h_scope⟩ := h_s.owned
  exact
    { sessionId := h_s.sessionId
      entry := h_s.entry.trans h_frame.symm
      owned := ⟨e, h_frame.trans h_e, h_scope⟩
      copy := h_s.copy
      persisted := h_s.persisted }

omit h_persist in
/-- So is what the curator does after a turn. -/
theorem Operates.maybeCurate (h : Operates env sid s₀ T l) (k : ℕ) :
    Operates env sid s₀ T (maybeCurateAfterTurn env k l) := by
  unfold maybeCurateAfterTurn
  split_ifs
  · exact (h.curate k).reload
  · exact h

theorem Operates.storedTurn {s : RunState (.redis p)} (h : Operates env sid s₀ T s.live) (k : ℕ)
    (turn : TurnRecord) :
    Operates env sid s₀ (T ++ [turn]) (storedTurn env k turn s).live :=
  (h.persistTurn h_persist turn).maybeCurate k

/-- The end of a turn is a save at most. -/
theorem EndTurn.operates {k : ℕ} {final : Bool} {s s' : RunState (.redis p)}
    {o : Except RunError Prog.Ctl} (h_end : EndTurn env k final s o s')
    (h : Operates env sid s₀ T s.live) :
    Operates env sid s₀ T s'.live ∧ turnsOf s'.trace = turnsOf s.trace := by
  cases h_end with
  | stopped => exact ⟨h, rfl⟩
  | injected => exact ⟨h, turnsOf_quiet _ (by simp)⟩
  -- a pause adds the request for a human
  | human =>
    have h_pending := h.edit (f := .addPending hitlRequest) ⟨rfl, rfl, rfl⟩
    exact ⟨h_pending.maybeSave h_persist, rfl⟩
  | timedOut => exact ⟨h, rfl⟩
  | onward => exact ⟨h, rfl⟩

omit h_persist in
/-- So is opening a turn. -/
theorem Opened.operates {s t : RunState (.redis p)} {sent : List Message}
    (h_open : Opened env s sent t) (h : Operates env sid s₀ T s.live) :
    Operates env sid s₀ T t.live := by
  obtain ⟨l, l', h_similar, h_folded, h_similar'⟩ := h_open.live
  exact ((h.sameStem h_similar.sameStem).folded h_folded).sameStem h_similar'.sameStem

omit h_persist in
/-- A model call is not an operation. -/
theorem Replied.operates {stream : Bool} {s t : RunState (.redis p)} {sent : List Message}
    {r : LLMResponse} (h_reply : Replied env stream s sent r t)
    (h : Operates env sid s₀ (turnsOf s.trace) s.live) :
    Operates env sid s₀ (turnsOf t.trace) t.live := by
  obtain ⟨u, events, h_open, rfl⟩ := h_reply.opened
  show Operates env sid s₀ (turnsOf u.trace) u.live
  rw [h_open.turns]
  exact h_open.operates h

omit h_persist in
/-- Accepting a response is one. -/
theorem Accepted.operates {r : LLMResponse} {s t : RunState (.redis p)}
    (h_accepted : Accepted env r s t) (h : Operates env sid s₀ (turnsOf s.trace) s.live) :
    Operates env sid s₀ (turnsOf t.trace) t.live := by
  obtain ⟨h_live, h_turns, -⟩ := h_accepted.recall
  rw [h_live, h_turns]
  exact h

omit h_persist in
/-- And so is handling its calls. -/
theorem HandlingEffect.operates {calls : List ToolCallRequest}
    {outs : List (ℕ × Except RunError Handled)} {obs : List Obs} {s t : RunState (.redis p)}
    (h_effect : HandlingEffect env calls s outs obs t)
    (h : Operates env sid s₀ (turnsOf s.trace) s.live) :
    Operates env sid s₀ (turnsOf t.trace) t.live := by
  rw [h_effect.recall.1]
  exact h.sameStem h_effect.stem

/-- **A pass of the loop** is a sequence of storage operations, which appends the turn of the
pass, if there is one. -/
theorem TurnStep.operates {stream : Bool} {s s' : RunState (.redis p)}
    {o : Except RunError Prog.Ctl} (h_step : TurnStep env stream s o s')
    (h : Operates env sid s₀ (turnsOf s.trace) s.live) :
    Operates env sid s₀ (turnsOf s'.trace) s'.live := by
  cases h_step with
  | cancelled => exact h
  | @callFailed sent t e h_open events =>
    -- a call that failed has done no more than open the turn
    show Operates env sid s₀ (turnsOf t.trace) t.live
    rw [h_open.turns]
    exact h_open.operates h
  | @retried sent r t h_reply e =>
    have h_quiet : turnsOf (askingAgain e t).trace = turnsOf t.trace :=
      turnsOf_quiet t.trace (by simp)
    rw [h_quiet]
    exact h_reply.operates h
  | rejected h_reply => exact h_reply.operates h
  | @answered sent r t u h_reply h_accepted _ _ savings _ _ h_end =>
    -- the turn is stored by one append, and ended by a reload
    have h_u := h_accepted.operates (h_reply.operates h)
    obtain ⟨h_live, h_turns⟩ := h_end.operates h_persist
      (Operates.storedTurn h_persist (s := answering r u) h_u s.calls
        (answerRecord r savings (answering r u)))
    rw [h_turns, turnsOf_storedTurn]
    exact h_live
  | toolsRaised h_reply h_accepted _ h_effect =>
    exact h_effect.operates (h_accepted.operates (h_reply.operates h))
  | @paused sent r t u v h_reply h_accepted _ outs obs h_effect handled n _ _ c savings w h_w events =>
    subst h_w
    have h_v := h_effect.operates (h_accepted.operates (h_reply.operates h))
    -- a pause stores the turn and saves the session, with no reload
    have h_stored := h_v.persistTurn h_persist (toolRecord env r c savings n handled v)
    have h_turns : turnsOf (persistTurnWithState env (toolRecord env r c savings n handled v) v).trace =
        turnsOf v.trace ++ [toolRecord env r c savings n handled v] := turnsOf_append _ _
    show Operates env sid s₀ (turnsOf (persistTurnWithState env _ v).trace) _
    rw [h_turns]
    exact h_stored.maybeSave h_persist
  | @handled sent r t u v h_reply h_accepted _ outs obs h_effect handled n _ _ c savings _ _ h_end =>
    have h_v := h_effect.operates (h_accepted.operates (h_reply.operates h))
    obtain ⟨h_live, h_turns⟩ := h_end.operates h_persist
      (h_v.storedTurn h_persist s.calls (toolRecord env r c savings n handled v))
    rw [h_turns, turnsOf_storedTurn]
    exact h_live

end Pass

/-! ### A run -/

/-- What the operations find before the run. -/
def soloStart (st : Store (.redis p)) : SharedRuns Unit (Store (.redis p)) := .start Unit st

/-- Loading or creating the session. -/
theorem mirrors_getOrCreateSession {args : RunArgs} (st : Store (.redis p))
    (h_sid : truthy (pyOr args.sessionId env.context.sessionId) = some sid) :
    ∃ ops s, runSteps (soloStep env sid) (soloStart st) ops = some s ∧
      Mirrors .opened sid [] (getOrCreateSession env args st) s := by
  have h_id : runSessionId env args = sid := by
    unfold runSessionId
    rw [h_sid]
    rfl
  have h_scope : (CopyingAdapter.redis p).loadSession st sid (env.context.sessionScope none) =
      st.loadSession sid (env.context.sessionScope none) := CopyingAdapter.redis_loadSession ..
  rcases getOrCreateSession_cases env args st with ⟨x, h_find, h_match, h_eq⟩ | ⟨h_none, h_eq⟩ <;>
    rw [h_eq]
  · rw [h_id] at h_find
    -- a session is there: one load opens it
    have h_load := h_scope.trans (Store.loadSession_eq_some.mpr ⟨h_find, h_match⟩)
    have h_step : soloStep env sid (soloStart st) .load = some
        { store := st
          runs := Function.update (fun _ => {}) () { phase := .opened x }
          persisted := [] } := by
      simp only [soloStep, soloStart, SharedRuns.step, SharedRuns.start, StorageOp.step, h_load]
      rfl
    refine ⟨[.load], _, by rw [runSteps_cons, h_step]; rfl, ?_⟩
    exact
      { sessionId := Store.find?_sessionId h_find
        entry := rfl
        owned := ⟨x, h_find, rfl⟩
        copy := ⟨x, by simp, .refl x⟩
        persisted := rfl }
  · have h_load : (CopyingAdapter.redis p).loadSession st sid (env.context.sessionScope none) =
        none := by
      rcases h_none with h_none | h_none
      · rw [h_sid] at h_none
        cases h_none
      · rw [h_id] at h_none
        exact h_scope.trans h_none
    -- none is there, or none of this scope: a load that finds nothing, and a creation
    have h_new : createdSession env args =
        newSession env.config.name sid (env.context.sessionScope none) := by
      unfold createdSession newSession
      rw [h_id]
    let s₁ : SharedRuns Unit (Store (.redis p)) :=
      { store := st, runs := Function.update (fun _ => {}) () { phase := .create }, persisted := [] }
    have h_step : soloStep env sid (soloStart st) .load = some s₁ := by
      simp only [soloStep, soloStart, SharedRuns.step, SharedRuns.start, StorageOp.step, h_load]
      rfl
    have h_create : soloStep env sid s₁ (.create env.config.name) = some
        { store := st.saveSession (createdSession env args)
          runs := Function.update s₁.runs () { phase := .opened (createdSession env args) }
          persisted := [] } := by
      rw [h_new]
      rfl
    refine ⟨[.load, .create env.config.name], _, by
      rw [runSteps_cons, h_step, Option.bind_some, runSteps_cons, h_create]
      rfl, ?_⟩
    have h_entry : (st.saveSession (createdSession env args)).find? sid =
        some (createdSession env args) := Store.find?_saveSession_of_id _ h_id
    exact
      { sessionId := h_id
        entry := rfl
        owned := ⟨_, h_entry, rfl⟩
        copy := ⟨createdSession env args, by simp, .refl _⟩
        persisted := rfl }

/-- Entering a session writes nothing. -/
theorem enteredSession_store {a : StoreAdapter} (env : Env a) (args : RunArgs) (l : Live a) :
    (enteredSession env args l).store = l.store := by
  unfold enteredSession
  dsimp only
  split_ifs <;> rfl

/-- Opening the session. -/
theorem operates_openSession (h_persist : env.context.shouldPersist = true) {args : RunArgs}
    (st : Store (.redis p))
    (h_sid : truthy (pyOr args.sessionId env.context.sessionId) = some sid) :
    Operates env sid (soloStart st) [] (openSession env args st).1 := by
  -- the session is loaded or created
  obtain ⟨ops, s, h_ops, h_s⟩ := mirrors_getOrCreateSession st h_sid
  obtain ⟨state, h_eq⟩ := openSession_eq env args st
  -- entering the run edits it
  have h_entered : Mirrors .opened sid []
      (enteredSession env args (getOrCreateSession env args st)) s :=
    h_s.edit (AgentSession.edited_of_core (sameCore_enteredSession env args _).session)
      (enteredSession_store env args _)
  obtain ⟨s', h_save, h_s'⟩ := h_entered.saved env (.inl rfl)
  -- the entered session is saved
  have h_saved : Operates env sid (soloStart st) []
      (enteredSession env args (getOrCreateSession env args st)).saveSession :=
    ⟨ops ++ [.save _], s', runSteps_concat.mpr ⟨s, h_ops, h_save⟩, h_s'⟩
  -- and the state as well
  have h_state := h_saved.edit (f := .withState state) ⟨rfl, rfl, rfl⟩
  rw [h_eq]
  unfold maybeSave
  simp only [h_persist, if_true]
  split_ifs
  · exact h_state
  · exact h_state.save

/-- The last save. -/
theorem Mirrors.finished (env : Env (.redis p)) {s : SharedRuns Unit (Store (.redis p))} (h_s : Mirrors .loop sid T l s) :
    ∃ s', soloStep env sid s (.finish l.session) = some s' ∧ s'.Over ∧
      s'.store.find? sid = l.saveSession.store.find? sid ∧ s'.persisted = T := by
  -- the copy is edited, and saved as the run ends
  obtain ⟨c, h_c, h_edited⟩ := h_s.copy
  have h_step : soloStep env sid s (.finish l.session) = some
      { store := s.store.saveSession l.session
        runs := Function.update s.runs () { s.runs () with phase := .ended }
        persisted := s.persisted ++ [] } := by
    simp only [soloStep, SharedRuns.step, StorageOp.step, h_c, if_pos h_edited]
    rfl
  refine ⟨_, h_step, fun _ => by simp, ?_, by simpa using h_s.persisted⟩
  -- so both stores have it
  have h_find : ∀ st : Store (.redis p), (st.saveSession l.session).find? sid = some l.session :=
    fun st => Store.find?_saveSession_of_id st h_s.sessionId
  exact (h_find s.store).trans (h_find l.store).symm

/-- **A run is a sequence of storage operations**: one that leads a run from its first load to
its end, leaves the entry of the session as the run does, and appends the turns of the loop. -/
theorem execRun_operations (h_persist : env.context.shouldPersist = true) (stream : Bool)
    {args : RunArgs} (st : Store (.redis p))
    (h_sid : truthy (pyOr args.sessionId env.context.sessionId) = some sid) :
    ∃ ops s, runSteps (soloStep env sid) (soloStart st) ops = some s ∧ s.Over ∧
      s.store.find? sid = (storeAfter (execRun env stream args st)).find? sid ∧
      s.persisted = turnsOf (execRun env stream args st).trace := by
  let u := runLoop env stream (turnLimit env args) (startRun env stream args st)
  have h_loop : Operates env sid (soloStart st) (turnsOf u.trace) u.live :=
    runLoop_invariant env stream (turnLimit env args)
      (J := fun s => Operates env sid (soloStart st) (turnsOf s.trace) s.live)
      (fun _ _ _ _ hJ _ h_step => h_step.operates h_persist hJ) (fun _ _ _ _ hJ => hJ)
      (operates_openSession h_persist st h_sid) (startRun_retries env stream args st)
  -- the curation at the end reloads, or does nothing
  have h_curated : Operates env sid (soloStart st) (turnsOf u.trace) (curateAtEnd env u).live := by
    unfold curateAtEnd
    split_ifs
    · exact (h_loop.reload).curate _
    · exact h_loop.reload
    · exact h_loop
  have h_trace : (execRun env stream args st).trace = u.trace := by
    have h_end : (curateAtEnd env u).trace = u.trace := by
      unfold curateAtEnd
      split_ifs <;> rfl
    unfold execRun
    dsimp only
    split_ifs <;> exact h_end
  have h_store : storeAfter (execRun env stream args st) =
      ((curateAtEnd env u).live.mutate (.withState (jsonSafeState (curateAtEnd env u).state))).saveSession.store := by
    show (execRun env stream args st).live.store = _
    rw [execRun_live]
    show (maybeSave env.context _).store = _
    unfold maybeSave
    rw [if_pos h_persist]
  -- last comes the state, written by the final save
  obtain ⟨ops, s, h_ops, h_s⟩ := h_curated.edit
    (f := .withState (jsonSafeState (curateAtEnd env u).state)) ⟨rfl, rfl, rfl⟩
  obtain ⟨s', h_finish, h_over, h_entry, h_persisted⟩ := h_s.finished env
  refine ⟨ops ++ [.finish _], s', runSteps_concat.mpr ⟨s, h_ops, h_finish⟩, h_over, ?_, ?_⟩
  · rw [h_store, h_entry]
  · rw [h_trace, h_persisted]

end Nexus
