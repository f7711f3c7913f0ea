import NexusAgent.Session.Models

/-!
# Scopes, run contexts and the session store

`SessionScope` is `nexus/session/scope.py`, `RunContext` the identity and the
persistence flags of `nexus/tools/context.py`, and `StoreAdapter` the in-memory and
the redis adapter behind `nexus/session/manager.py`.

Both adapters keep one entry a session id: the in-memory one a dictionary from ids to
session objects, the redis one a JSON blob under `{prefix}session:{session_id}`. They
differ in what a load hands out. Redis decodes a fresh copy; the in-memory adapter
hands out the stored object itself, so a run and the store share it (`aliased`).
Capacity and time-to-live eviction, the redis listing index and the wall clock are not
part of the model.
-/

open Lib

namespace Nexus

/-- Who owns a session. `none` is "do not filter on this dimension". -/
structure SessionScope where
  tenantId : Option String := none
  companyId : Option String := none
  userId : Option String := none
  deriving DecidableEq, Repr

/-- One dimension of `matches_session`. -/
def scopeAdmits (field stored : Option String) : Bool := field.isNone || stored = field

/-- `SessionScope.matches_session`. -/
def SessionScope.matchesSession (scope : SessionScope) (s : AgentSession) : Bool :=
  scopeAdmits scope.tenantId s.tenantId && scopeAdmits scope.companyId s.companyId &&
    scopeAdmits scope.userId s.userId

/-- `a or b` on optional strings: `None` and `""` are both false. -/
def pyOr (a b : Option String) : Option String :=
  match a with
  | some s => if s = "" then b else some s
  | none => b

/-- The identity and the flags of a run's context. `state` is the durable bag the tools
write to. -/
structure RunContext where
  tenantId : Option String := none
  companyId : Option String := none
  userId : Option String := none
  sessionId : Option String := none
  isCron : Bool := false
  isSubagent : Bool := false
  persistable : Bool := true
  state : StateBag := []
  deriving DecidableEq, Repr

/-- `RunContext.should_persist`. -/
def RunContext.shouldPersist (ctx : RunContext) : Bool :=
  ctx.persistable && !(ctx.isCron || ctx.isSubagent)

/-- `RunContext.to_scope`. -/
def RunContext.toScope (ctx : RunContext) : SessionScope :=
  ⟨ctx.tenantId, ctx.companyId, ctx.userId⟩

/-- `AgentRunner._session_scope`: the context's identity, else the session's. -/
def RunContext.sessionScope (ctx : RunContext) (session : Option AgentSession) : SessionScope where
  tenantId := pyOr ctx.tenantId (session.bind AgentSession.tenantId)
  companyId := pyOr ctx.companyId (session.bind AgentSession.companyId)
  userId := pyOr ctx.userId (session.bind AgentSession.userId)

/-- `AgentSession.to_scope`. -/
def AgentSession.toScope (s : AgentSession) : SessionScope := ⟨s.tenantId, s.companyId, s.userId⟩

/-- A session matches its own scope. -/
theorem AgentSession.matches_toScope (s : AgentSession) : s.toScope.matchesSession s = true := by
  unfold SessionScope.matchesSession scopeAdmits AgentSession.toScope
  simp

/-- A scope sees no more of a session than whose it is. -/
theorem SessionScope.matchesSession_congr (scope : SessionScope) {s s' : AgentSession}
    (h : s'.toScope = s.toScope) : scope.matchesSession s' = scope.matchesSession s := by
  obtain ⟨h_tenant, h_company, h_user⟩ := SessionScope.mk.inj h
  simp only [matchesSession, h_tenant, h_company, h_user]

/-! ### Stores -/

/-- A session store adapter. -/
inductive StoreAdapter
  | memory
  | redis (keyPrefix : String)
  deriving DecidableEq, Repr

/-- The key a session id is stored under. -/
def StoreAdapter.key : StoreAdapter → String → String
  | .memory, sid => sid
  | .redis keyPrefix, sid => keyPrefix ++ "session:" ++ sid

/-- Whether a load hands out the stored object itself. -/
def StoreAdapter.aliased : StoreAdapter → Bool
  | .memory => true
  | .redis _ => false

/-- Distinct session ids have distinct keys. -/
theorem StoreAdapter.key_injective (a : StoreAdapter) : Function.Injective a.key := by
  intro x y h
  cases a with
  | memory => exact h
  | redis keyPrefix => simpa [StoreAdapter.key] using h

/-- The content of a store of adapter `a`: every session is filed under its own key. -/
structure Store (a : StoreAdapter) where
  entries : Dict String AgentSession
  keyed : ∀ k s, Dict.get? entries k = some s → k = a.key s.sessionId

namespace Store

variable {a : StoreAdapter}

/-- The empty store. -/
def empty (a : StoreAdapter) : Store a := ⟨[], fun _ _ h => by simp at h⟩

/-- The session stored under an id, whatever its owner. -/
def find? (st : Store a) (sid : String) : Option AgentSession := Dict.get? st.entries (a.key sid)

/-- `save_session`: file the session under its own id, whoever owns the entry there. -/
def saveSession (st : Store a) (s : AgentSession) : Store a where
  entries := Dict.set st.entries (a.key s.sessionId) s
  keyed := by
    intro k s' h
    rw [Dict.get?_set] at h
    split at h
    · next hk =>
      obtain rfl := Option.some.inj h
      exact hk.symm
    · exact st.keyed k s' h

/-- `load_session`: the stored session if the scope admits it. -/
def loadSession (st : Store a) (sid : String) (scope : SessionScope) : Option AgentSession :=
  match st.find? sid with
  | none => none
  | some s => if scope.matchesSession s then some s else none

/-- `append_turn`. -/
def appendTurn (st : Store a) (sid : String) (turn : TurnRecord) (scope : SessionScope) :
    Store a :=
  match st.loadSession sid scope with
  | none => st
  | some s => st.saveSession (s.addTurn turn)

/-- `update_tc_summary`: the in-memory adapter returns after the first record with the
id, the redis adapter leaves only the inner loop and goes on with the next turn. -/
def updateTcSummary (st : Store a) (sid tcId summary : String) (byTurn : ℕ)
    (scope : SessionScope) : Store a :=
  match st.loadSession sid scope with
  | none => st
  | some s =>
    let f := ToolCallRecord.withSummary summary byTurn
    let p (tc : ToolCallRecord) : Bool := tc.tcId = tcId
    match a with
    | .memory => st.saveSession { s with turns := updateFirstTc p f s.turns }
    | .redis _ => st.saveSession { s with
        turns := s.turns.map fun t => { t with toolCalls := updateFirst p f t.toolCalls } }

/-- `SessionManager.create_session`: a fresh session, saved at once. -/
def createSession (st : Store a) (agentId sid : String) (scope : SessionScope) :
    AgentSession × Store a :=
  let s : AgentSession :=
    { sessionId := sid, agentId := agentId, tenantId := scope.tenantId,
      companyId := scope.companyId, userId := scope.userId }
  (s, st.saveSession s)

/-- `MemoryStorageAdapter.delete_session`. -/
def deleteSession (st : Store .memory) (sid : String) (scope : SessionScope) : Store .memory :=
  match st.find? sid with
  | none => st
  | some s =>
    if scope.matchesSession s then
      { entries := Dict.erase st.entries sid
        keyed := by
          intro k s' h
          rw [Dict.get?_erase] at h
          split at h
          · cases h
          · exact st.keyed k s' h }
    else st

/-! ### Reading a store after a write -/

theorem find?_sessionId {st : Store a} {sid : String} {s : AgentSession}
    (h : st.find? sid = some s) : s.sessionId = sid :=
  a.key_injective (st.keyed _ _ h).symm

@[simp] theorem find?_saveSession_self (st : Store a) (s : AgentSession) :
    (st.saveSession s).find? s.sessionId = some s := by
  simp [find?, saveSession]

theorem find?_saveSession_of_id (st : Store a) {s : AgentSession} {sid : String}
    (h : s.sessionId = sid) : (st.saveSession s).find? sid = some s :=
  h ▸ find?_saveSession_self st s

theorem find?_saveSession_ne (st : Store a) (s : AgentSession) {sid : String}
    (h : s.sessionId ≠ sid) : (st.saveSession s).find? sid = st.find? sid :=
  Dict.get?_set_ne _ _ fun hk => h (a.key_injective hk)

/-- A session is loaded if it is stored and in scope. -/
theorem loadSession_eq_some {st : Store a} {sid : String} {scope : SessionScope}
    {s : AgentSession} :
    st.loadSession sid scope = some s ↔
      st.find? sid = some s ∧ scope.matchesSession s = true := by
  unfold loadSession
  cases h : st.find? sid with
  -- nothing is stored under the id
  | none => simp
  -- the scope decides
  | some s' =>
    by_cases hm : scope.matchesSession s' = true
    · simp only [hm, if_true, Option.some.injEq]
      exact ⟨fun h => ⟨h, h ▸ hm⟩, fun h => h.1⟩
    · simp only [hm, Option.some.injEq]
      refine ⟨fun h => absurd h (by simp), fun h => absurd (h.1 ▸ h.2) hm⟩

/-- Appending a turn leaves the other sessions. -/
theorem find?_appendTurn_ne (st : Store a) {sid sid' : String} (turn : TurnRecord)
    (scope : SessionScope) (h : sid ≠ sid') :
    (st.appendTurn sid turn scope).find? sid' = st.find? sid' := by
  unfold appendTurn
  cases hl : st.loadSession sid scope with
  | none => rfl
  | some s =>
    have hid := find?_sessionId (loadSession_eq_some.mp hl).1
    exact find?_saveSession_ne _ _ (by simpa [hid] using h)

/-- The entry a turn was appended to. -/
theorem find?_appendTurn_self (st : Store a) (sid : String) (turn : TurnRecord)
    (scope : SessionScope) :
    (st.appendTurn sid turn scope).find? sid =
      match st.loadSession sid scope with
      | some s => some (s.addTurn turn)
      | none => st.find? sid := by
  unfold appendTurn
  -- the turn is appended to what can be loaded
  cases hl : st.loadSession sid scope with
  | none => rfl
  | some s =>
    have h_id : s.sessionId = sid := find?_sessionId (loadSession_eq_some.mp hl).1
    exact find?_saveSession_of_id st (s := s.addTurn turn) h_id

/-- A summary leaves the other sessions. -/
theorem find?_updateTcSummary_ne (st : Store a) {sid sid' : String} (tcId summary : String)
    (byTurn : ℕ) (scope : SessionScope) (h : sid ≠ sid') :
    (st.updateTcSummary sid tcId summary byTurn scope).find? sid' = st.find? sid' := by
  unfold updateTcSummary
  cases hl : st.loadSession sid scope with
  | none => rfl
  | some s =>
    have hid := find?_sessionId (loadSession_eq_some.mp hl).1
    cases a <;> exact find?_saveSession_ne _ _ (by simpa [hid] using h)

end Store
end Nexus
