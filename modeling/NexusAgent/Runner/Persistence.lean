import NexusAgent.Runner.SessionSteps

/-!
# What a run stores

Under the scope of its own run a session is never filtered out (`Owned`), so a stored turn
always arrives: `persistTurnWithState_session` and `persistTurnWithState_entry` say exactly
what the working session and its stored entry are afterwards. A curation hands the working
session back as it was or replaces it by its entry (`Live.Reread`).
-/

open Lib

namespace Nexus

variable {a : StoreAdapter}

/-! ### Ownership -/

/-- The session is one the scope of its own run admits. -/
def Owned (ctx : RunContext) (s : AgentSession) : Prop :=
  (ctx.sessionScope (some s)).matchesSession s = true

/-- The owner belongs to the core. -/
theorem coreInv_owned (ctx : RunContext) : Live.CoreInv (Owned ctx) := by
  intro s s' h h_owned
  obtain ⟨h_tenant, h_company, h_user⟩ := SessionScope.mk.inj (AgentSession.toScope_of_core h)
  simpa [Owned, RunContext.sessionScope, SessionScope.matchesSession, h_tenant, h_company, h_user]
    using h_owned

/-- One dimension of a scope: what the run's own identity admits, it still admits when the
session's identity fills its gaps. -/
theorem scopeAdmits_pyOr {field stored : Option String}
    (h : scopeAdmits (pyOr field none) stored = true) :
    scopeAdmits (pyOr field stored) stored = true := by
  unfold pyOr at h ⊢
  cases field with
  | none => simp [scopeAdmits]
  | some x =>
    by_cases hx : x = ""
    · simp [scopeAdmits, hx]
    · simpa [hx] using h

/-- A session the bare scope of a run admits is owned. -/
theorem owned_of_matches {ctx : RunContext} {s : AgentSession}
    (h : (ctx.sessionScope none).matchesSession s = true) : Owned ctx s := by
  simp only [SessionScope.matchesSession, RunContext.sessionScope, Option.bind_none,
    Bool.and_eq_true] at h
  obtain ⟨⟨h_tenant, h_company⟩, h_user⟩ := h
  simp only [Owned, SessionScope.matchesSession, RunContext.sessionScope, Option.bind_some,
    Bool.and_eq_true]
  exact ⟨⟨scopeAdmits_pyOr h_tenant, scopeAdmits_pyOr h_company⟩, scopeAdmits_pyOr h_user⟩

/-- The session a run creates has the identity of its scope. -/
theorem matches_createdSession (env : Env a) (args : RunArgs) :
    (env.context.sessionScope none).matchesSession (createdSession env args) = true := by
  simp [SessionScope.matchesSession, createdSession, scopeAdmits]

/-- The session a run gets is one its scope admits. -/
theorem matches_getOrCreateSession (env : Env a) (args : RunArgs) (st : Store a) :
    (env.context.sessionScope none).matchesSession (getOrCreateSession env args st).session = true := by
  rcases getOrCreateSession_cases env args st with ⟨s, -, h_match, h_eq⟩ | ⟨-, h_eq⟩ <;> rw [h_eq]
  · exact h_match
  · exact matches_createdSession env args

/-! ### Storing a turn -/

/-- Whether the stored entry of a session follows the working session: the store shares it,
or the run saves it. -/
def persists (a : StoreAdapter) (ctx : RunContext) : Bool := a.aliased || ctx.shouldPersist

/-- The session with a turn and the state bag of the run. -/
def AgentSession.withTurn (turn : TurnRecord) (state : StateBag) (s : AgentSession) : AgentSession :=
  (s.withState state).addTurn turn

@[simp] theorem AgentSession.withTurn_turns (turn : TurnRecord) (state : StateBag)
    (s : AgentSession) : (s.withTurn turn state).turns = s.turns ++ [turn] := rfl

@[simp] theorem AgentSession.withTurn_pendingInteractions (turn : TurnRecord) (state : StateBag)
    (s : AgentSession) : (s.withTurn turn state).pendingInteractions = s.pendingInteractions := rfl

section PersistTurn

variable {env : Env a} (turn : TurnRecord) {s : RunState a}

/-- Appending a turn to the saved entry of an owned session and loading it again. -/
theorem appendTurn_reload_saved {l : Live a} {scope : SessionScope}
    (h_match : scope.matchesSession l.session = true) (turn : TurnRecord) :
    ((l.saveSession.appendTurn turn scope).reload scope).session = l.session.addTurn turn ∧
      ((l.saveSession.appendTurn turn scope).reload scope).store.find? l.session.sessionId =
        some (l.session.addTurn turn) := by
  -- the saved session is found
  have h_load : l.saveSession.contents.loadSession l.session.sessionId scope = some l.session :=
    Store.loadSession_eq_some.mpr ⟨Live.find?_saveSession_contents l, h_match⟩
  have h_find : (l.saveSession.appendTurn turn scope).store.find? l.session.sessionId =
      some (l.session.addTurn turn) := by
    have h_self := Store.find?_appendTurn_self l.saveSession.contents l.session.sessionId turn scope
    rwa [h_load] at h_self
  refine ⟨?_, h_find⟩
  -- and admits the scope with the turn as well
  have h_match' : scope.matchesSession (l.session.addTurn turn) = true := h_match
  have h_again := Store.loadSession_eq_some.mpr ⟨h_find, h_match'⟩
  change ((l.saveSession.appendTurn turn scope).store.loadSession l.session.sessionId scope).getD
    l.session = _
  rw [h_again]
  rfl

/-- **The working session after a turn was stored.** -/
theorem persistTurnWithState_session (h_owned : Owned env.context s.live.session) :
    (persistTurnWithState env turn s).live.session = s.live.session.withTurn turn (jsonSafeState s.state) := by
  unfold persistTurnWithState persistTurn maybeSave
  split_ifs with h_persist
  · have h_eq := (appendTurn_reload_saved
      (l := s.live.mutate (.withState (jsonSafeState s.state))) h_owned turn).1
    exact congrArg (AgentSession.withState (jsonSafeState s.state)) h_eq
  · rfl

/-- **The stored entry after a turn was stored.** -/
theorem persistTurnWithState_entry (h_owned : Owned env.context s.live.session) :
    (persistTurnWithState env turn s).live.contents.find? s.live.session.sessionId =
      if persists a env.context then some (s.live.session.withTurn turn (jsonSafeState s.state))
      else s.live.contents.find? s.live.session.sessionId := by
  -- the stored session is the one in hand, or what was saved
  have h_session := persistTurnWithState_session turn h_owned
  have h_self := Live.find?_contents_self (persistTurnWithState env turn s).live
  have h_id : (persistTurnWithState env turn s).live.session.sessionId =
      s.live.session.sessionId := by
    rw [h_session]
    rfl
  rw [h_id] at h_self
  rw [h_self]
  unfold persists
  -- the same object: it has the turn
  cases h_alias : a.aliased with
  | true => exact congrArg some h_session
  | false =>
    simp only [Bool.false_eq_true, if_false, Bool.false_or]
    unfold persistTurnWithState persistTurn maybeSave
    -- the turn was appended to the saved session
    split_ifs with h_persist
    · exact (appendTurn_reload_saved
        (l := s.live.mutate (.withState (jsonSafeState s.state))) h_owned turn).2
    · simp [RunState.observe, Live.contents, h_alias]

end PersistTurn

/-! ### Reading the session again -/

namespace Live

/-- The working session is what the store contains for it. -/
def Synced (l : Live a) : Prop := l.contents.find? l.session.sessionId = some l.session

/-- The working session stays as it is or is replaced by its entry, which stays. -/
structure Reread (l l' : Live a) : Prop where
  session : l'.session = l.session ∨ l.contents.find? l.session.sessionId = some l'.session
  entry : l'.contents.find? l.session.sessionId = l.contents.find? l.session.sessionId

@[refl] theorem Reread.refl (l : Live a) : Reread l l := ⟨.inl rfl, rfl⟩

/-- Reading anew keeps the id. -/
theorem Reread.sessionId {l l' : Live a} (h : Reread l l') :
    l'.session.sessionId = l.session.sessionId := by
  rcases h.session with h_eq | h_entry
  · rw [h_eq]
  · exact Store.find?_sessionId h_entry

/-- Reading anew twice is reading anew. -/
theorem Reread.trans {l l' l'' : Live a} (h : Reread l l') (h' : Reread l' l'') : Reread l l'' where
  session := by
    rcases h'.session with h_eq | h_entry
    · rw [h_eq]
      exact h.session
    · rw [h.sessionId, h.entry] at h_entry
      exact .inr h_entry
  entry := by
    have h_entry := h'.entry
    rw [h.sessionId] at h_entry
    exact h_entry.trans h.entry

/-- Nothing changes for a session that is what the store contains. -/
theorem Reread.synced {l l' : Live a} (h : Reread l l') (h_synced : l.Synced) :
    l'.session = l.session ∧ l'.Synced := by
  have h_session : l'.session = l.session := by
    rcases h.session with h_eq | h_entry
    · exact h_eq
    · exact (Option.some.inj (h_synced.symm.trans h_entry)).symm
  refine ⟨h_session, ?_⟩
  unfold Synced
  rw [h_session]
  exact h.entry.trans h_synced

theorem synced_saveSession (l : Live a) : l.saveSession.Synced := find?_saveSession_contents l

theorem synced_of_aliased (h : a.aliased = true) (l : Live a) : l.Synced := by
  unfold Synced
  rw [find?_contents_self, if_pos h]

/-- Writing the contents down and loading the session from them. -/
theorem reread_reload (l : Live a) (scope : SessionScope) :
    Reread l (({ l with store := l.contents } : Live a).reload scope) := by
  have h_session : (({ l with store := l.contents } : Live a).reload scope).session = l.session ∨
      l.contents.find? l.session.sessionId =
        some (({ l with store := l.contents } : Live a).reload scope).session := by
    unfold reload
    cases h_load : l.contents.loadSession l.session.sessionId scope with
    | none => exact .inl rfl
    | some s => exact .inr (Store.loadSession_eq_some.mp h_load).1
  refine ⟨h_session, ?_⟩
  by_cases h_alias : a.aliased = true
  · -- under a shared store the entry is the working session
    have h_eq : (({ l with store := l.contents } : Live a).reload scope).session = l.session := by
      rcases h_session with h | h
      · exact h
      · rw [find?_contents_self, if_pos h_alias] at h
        exact (Option.some.inj h).symm
    have h_synced := synced_of_aliased h_alias
      (({ l with store := l.contents } : Live a).reload scope)
    unfold Synced at h_synced
    rw [h_eq] at h_synced
    rw [h_synced, find?_contents_self, if_pos h_alias]
  · unfold contents
    rw [if_neg h_alias, if_neg h_alias]
    rfl

end Live

/-- A curation of the store. -/
theorem reread_curate (env : Env a) (k : ℕ) (l : Live a) : l.Reread (curate env k l) where
  session := .inl rfl
  entry := by
    have h_self := Live.find?_contents_self (curate env k l)
    rw [Live.find?_contents_self l]
    refine h_self.trans ?_
    -- on an aliased store the session is the entry itself
    by_cases h_alias : a.aliased = true
    · rw [if_pos h_alias, if_pos h_alias]
      rfl
    · -- otherwise the curator leaves the entry
      rw [if_neg h_alias, if_neg h_alias]
      refine (env.curator.frame k l.session l.contents _ (curatorId_ne _)).trans ?_
      rw [Live.find?_contents_self, if_neg h_alias]

/-- After a turn the curator at most reads the session anew. -/
theorem reread_maybeCurate (env : Env a) (k : ℕ) (l : Live a) :
    l.Reread (maybeCurateAfterTurn env k l) := by
  unfold maybeCurateAfterTurn
  split_ifs
  · exact (reread_curate env k l).trans (Live.reread_reload _ _)
  · exact .refl l

/-- And so it does at the end. -/
theorem reread_curateAtEnd (env : Env a) (s : RunState a) :
    s.live.Reread (curateAtEnd env s).live := by
  unfold curateAtEnd
  split_ifs
  · exact (Live.reread_reload _ _).trans (reread_curate env _ _)
  · exact Live.reread_reload _ _
  · exact .refl _

/-! ### Storing a turn, with what follows -/

/-- A stored turn brings the entry in step, if the entry follows the working session. -/
theorem persistTurnWithState_synced {env : Env a} (turn : TurnRecord) {s : RunState a}
    (h_persists : persists a env.context = true) (h_owned : Owned env.context s.live.session) :
    (persistTurnWithState env turn s).live.Synced := by
  have h_entry := persistTurnWithState_entry turn h_owned
  rw [if_pos h_persists] at h_entry
  unfold Live.Synced
  rw [persistTurnWithState_session turn h_owned]
  exact h_entry

/-- Storing a turn under a run whose entry follows the working session: the turn is at the
end of both. -/
theorem storedTurn_synced {env : Env a} {turn : TurnRecord} {s : RunState a}
    (h_persists : persists a env.context = true) (h_owned : Owned env.context s.live.session) (k : ℕ) :
    (storedTurn env k turn s).live.session = s.live.session.withTurn turn (jsonSafeState s.state) ∧
      (storedTurn env k turn s).live.Synced := by
  obtain ⟨h_eq, h_synced⟩ :=
    (reread_maybeCurate env k _).synced (persistTurnWithState_synced turn h_persists h_owned)
  exact ⟨h_eq.trans (persistTurnWithState_session turn h_owned), h_synced⟩

/-- A save leaves the session and, when the entry follows it, synchronizes the two. -/
theorem maybeSave_session (ctx : RunContext) (l : Live a) : (maybeSave ctx l).session = l.session := by
  unfold maybeSave
  split_ifs <;> rfl

/-- A persisting save leaves the store in step. -/
theorem synced_maybeSave {ctx : RunContext} (h_persists : persists a ctx = true) (l : Live a) :
    (maybeSave ctx l).Synced := by
  unfold maybeSave
  split_ifs with h
  · exact l.synced_saveSession
  · exact l.synced_of_aliased (by simpa [persists, h] using h_persists)

/-- Opening a session changes nothing of its core. -/
theorem core_openSession (env : Env a) (args : RunArgs) (st : Store a) :
    (openSession env args st).1.session.core = (getOrCreateSession env args st).session.core := by
  obtain ⟨state, h_eq⟩ := openSession_eq env args st
  have h_enter := (sameCore_enteredSession env args (getOrCreateSession env args st)).session
  rw [h_eq]
  dsimp only
  split_ifs
  · rw [Live.mutate_session, maybeSave_session]
    exact h_enter
  · rw [maybeSave_session, Live.mutate_session, maybeSave_session]
    exact h_enter

/-- A save under a run whose entry does not follow the session does nothing. -/
theorem maybeSave_of_not_persists {ctx : RunContext} (h_persists : persists a ctx = false)
    (l : Live a) : maybeSave ctx l = l := by
  have h : ctx.shouldPersist = false := by
    simp only [persists, Bool.or_eq_false_iff] at h_persists
    exact h_persists.2
  simp [maybeSave, h]

end Nexus
