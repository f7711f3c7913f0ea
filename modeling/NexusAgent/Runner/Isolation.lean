import NexusAgent.Runner.History

/-!
# Isolation of a run

Whose stored sessions a run may change. Loads are filtered by the scope of the run, while
a session that was not found is created, and every save is filed, under the id alone: a
stored session of somebody else under the id of the run is replaced.

* `RunIsolated`: the sessions that do not match the scope are still stored, unchanged.
* `runIsolated_iff`: a run is isolated exactly when the session stored under its id, if
  there is one, matches its scope.
* `run_not_isolated`: a run of one tenant that replaces the session of another.
-/

open Lib

namespace Nexus

variable {a : StoreAdapter}

/-- A scope that filters on every dimension. -/
structure SessionScope.Full (scope : SessionScope) : Prop where
  tenant : truthy scope.tenantId ≠ none
  company : truthy scope.companyId ≠ none
  user : truthy scope.userId ≠ none

/-- Every session that is stored and does not match the scope is still stored, unchanged. -/
def RunIsolated (scope : SessionScope) (st st' : Store a) : Prop :=
  ∀ sid s, st.find? sid = some s → scope.matchesSession s = false → st'.find? sid = some s

/-- The session stored under an id, if there is one, matches the scope. -/
def AdmitsStored (scope : SessionScope) (st : Store a) (sid : String) : Prop :=
  Stored sid (fun s => scope.matchesSession s = true) st

/-- A given field is used as it is. -/
theorem pyOr_none_of_truthy {field : Option String} (h : truthy field ≠ none) :
    pyOr field none = field := by
  unfold truthy at h
  unfold pyOr
  cases field with
  | none => rfl
  | some x =>
    by_cases hx : x = ""
    · simp [hx] at h
    · simp [hx]

/-- The scope a run loads its session under, when its context is fully specified. -/
theorem sessionScope_of_full {ctx : RunContext} (h : ctx.toScope.Full) :
    ctx.sessionScope none = ctx.toScope := by
  have h_tenant : pyOr ctx.tenantId none = ctx.tenantId := pyOr_none_of_truthy h.tenant
  have h_company : pyOr ctx.companyId none = ctx.companyId := pyOr_none_of_truthy h.company
  have h_user : pyOr ctx.userId none = ctx.userId := pyOr_none_of_truthy h.user
  simp only [RunContext.sessionScope, Option.bind_none, RunContext.toScope, h_tenant, h_company,
    h_user]

/-- The scope belongs to the core. -/
theorem coreInv_matches (scope : SessionScope) :
    Live.CoreInv fun s => scope.matchesSession s = true := by
  intro s s' h h_match
  obtain ⟨h_tenant, h_company, h_user⟩ := SessionScope.mk.inj (AgentSession.toScope_of_core h)
  simpa [SessionScope.matchesSession, h_tenant, h_company, h_user] using h_match

/-- The session a run leaves under its own id matches the scope it was loaded under. -/
theorem admitsStored_run (env : Env a) (stream : Bool) (args : RunArgs) (st : Store a) :
    AdmitsStored (env.context.sessionScope none) (storeAfter (execRun env stream args st))
      (runSessionId env args) := by
  have hP := (coreInv_matches (env.context.sessionScope none)).grow
  refine stored_execRun rfl (execRun_inv hP (fun _ _ _ h => h) ?_ ?_)
  · exact fun _ _ _ h_storing h =>
      h_storing.inv_persist hP hP (fun _ _ _ h => h) (fun _ h => h) (fun _ _ _ h => h) h
  · exact inv_openSession hP
      (inv_getOrCreateSession (fun _ _ h => h) (matches_createdSession env args))
      fun _ s _ => (coreInv_matches _).close s

/-- **Isolation of a run.** When the sessions a curating agent works on belong to the scope
of the run, the run leaves all sessions outside its scope alone exactly when the session
stored under its id, if there is one, belongs to that scope. -/
theorem runIsolated_iff (env : Env a) (stream : Bool) (args : RunArgs) (st : Store a)
    (h_full : env.context.toScope.Full) {E : Set String}
    (hE : CuratorWrites env (runSessionId env args) E)
    (h_curated : ∀ sid ∈ E, AdmitsStored env.context.toScope st sid) :
    RunIsolated env.context.toScope st (storeAfter (execRun env stream args st)) ↔
      AdmitsStored env.context.toScope st (runSessionId env args) := by
  have h_after := admitsStored_run env stream args st
  rw [sessionScope_of_full h_full] at h_after
  constructor
  · intro h_isolated s hs
    by_contra h_foreign
    rw [Bool.not_eq_true] at h_foreign
    -- the entry survived, and what survives under the id of the run matches
    have h_match := h_after s (h_isolated _ s hs h_foreign)
    simp only [h_foreign, Bool.false_eq_true] at h_match
  · intro h_own sid s hs h_foreign
    have h_sid : sid ≠ runSessionId env args := by
      rintro rfl
      exact absurd (h_own s hs) (by simp [h_foreign])
    have h_out : sid ∉ E := fun h_in => absurd (h_curated sid h_in s hs) (by simp [h_foreign])
    rw [find?_run_others env stream args st hE h_sid h_out, hs]

/-! ### A curating agent -/

/-- The curator that is an agent of its own: a curation is a run of that agent under the
derived id. Its own memory is off, so it curates nothing. -/
def Curator.ofAgent (child : ℕ → AgentSession → Env a) (digest : AgentSession → String)
    (h_child : ∀ k s, (child k s).curator = {}) (afterTurn : ℕ → Bool) (atEnd : Bool) :
    Curator a where
  active := true
  afterTurn := afterTurn
  atEnd := atEnd
  act k s st := storeAfter (execRun (child k s) false
    { userMessage := digest s, sessionId := some (curatorId s.sessionId) } st)
  frame := by
    intro k s st sid h_sid
    have h_id : runSessionId (child k s)
        { userMessage := digest s, sessionId := some (curatorId s.sessionId) } =
          curatorId s.sessionId := by
      have h_ne : curatorId s.sessionId ≠ "" := by
        intro h
        have := congrArg String.length h
        simp [curatorId] at this
      simp [runSessionId, pyOr, truthy, h_ne]
    refine find?_run_others (E := ∅) _ _ _ _ ?_ (by rwa [h_id]) (by simp)
    intro k' s' st' _ sid' _
    rw [h_child]

/-! ### A foreign session under the id of the run -/

/-- The runner of one user. -/
def tenantEnv (tenant : String) : Env .memory where
  context := { tenantId := some tenant, companyId := some "c", userId := some "u" }
  proxy := .scripted [{ content := some "Hello." }]

/-- The store after a run of the tenant on the session `s`. -/
def tenantRun (tenant : String) (st : Store .memory) : Store .memory :=
  storeAfter (execRun (tenantEnv tenant) false { userMessage := "hi", sessionId := some "s" } st)

/-- A tenant coming back to a session of its own leaves the others alone. -/
theorem runIsolated_own :
    RunIsolated (tenantEnv "a").context.toScope (tenantRun "a" (.empty .memory))
      (tenantRun "a" (tenantRun "a" (.empty .memory))) := by
  refine (runIsolated_iff (tenantEnv "a") false { userMessage := "hi", sessionId := some "s" } _
    ⟨by decide, by decide, by decide⟩ (E := ∅) (fun _ _ _ _ _ _ => rfl) (by simp)).mpr ?_
  -- the session that the first run left is the tenant's own
  have h_stored : ((tenantRun "a" (.empty .memory)).find? "s").all fun s =>
      (tenantEnv "a").context.toScope.matchesSession s := by decide +kernel
  intro s hs
  rw [show runSessionId (tenantEnv "a") { userMessage := "hi", sessionId := some "s" } = "s" by
    decide +kernel] at hs
  rw [hs] at h_stored
  exact h_stored

/-- A second tenant that uses the session id of the first replaces its session. -/
theorem run_not_isolated :
    ∃ st : Store .memory, (tenantEnv "b").context.toScope.Full ∧
      (tenantEnv "b").context.shouldPersist = true ∧
      ¬RunIsolated (tenantEnv "b").context.toScope st (tenantRun "b" st) := by
  refine ⟨tenantRun "a" (.empty .memory), ⟨by decide, by decide, by decide⟩, by decide, ?_⟩
  intro h
  -- before: a session of another tenant
  have h_before : ((tenantRun "a" (.empty .memory)).find? "s").map
      (fun s => (tenantEnv "b").context.toScope.matchesSession s) = some false := by decide +kernel
  -- after: the tenant's own
  have h_after : ((tenantRun "b" (tenantRun "a" (.empty .memory))).find? "s").map
      (fun s => (tenantEnv "b").context.toScope.matchesSession s) = some true := by decide +kernel
  obtain ⟨s, hs, h_foreign⟩ := Option.map_eq_some_iff.mp h_before
  rw [h "s" s hs h_foreign, Option.map_some, h_foreign] at h_after
  cases h_after

end Nexus
