import NexusAgent.Session.Dump
import NexusAgent.Storage.Paths

/-!
# The sqlite session adapter

`nexus/session/adapters/sqlite.py` with the tenant-scoped layout: one database for each
tenant and user, a row for each session id in it, and the index file.

A row is the session its `data` column decodes to, so it is its own dump. The `tenant_id` and
`user_id` columns, which a listing filters by, are those of the session: `save_session` writes
them from it and `append_turn` changes neither.
-/

open Lib

namespace Nexus

theorem noRows_json : ∀ (r : Path × String) (s : AgentSession),
    Dict.get? ([] : Dict (Path × String) AgentSession) r = some s → s.modelDump = some s := by simp

/-- The rows of the databases under the data root, and the index. -/
structure SqliteStore where
  rows : Dict (Path × String) AgentSession := []
  index : SessionIndex := []
  json : ∀ r s, rows.get? r = some s → s.modelDump = some s := by exact Nexus.noRows_json
  deriving DecidableEq

namespace SqliteStore

/-- The database and the row of a session, once its location is resolved. -/
def row (location : Location) (sessionId : String) : Path × String :=
  (sessionsDbPath location.1 location.2, sessionId)

/-- `_resolve_location` and `_resolve_db_path` for a session id and a scope. -/
def rowFor (st : SqliteStore) (sessionId : String) (scope : SessionScope) : Path × String :=
  row (resolveLocation st.index sessionId scope none) sessionId

/-- `load_session`. -/
def loadSession (st : SqliteStore) (sessionId : String) (scope : SessionScope) :
    Option AgentSession :=
  (st.rows.get? (st.rowFor sessionId scope)).filter scope.matchesSession

/-- Where `save_session` puts a session. -/
def locationOf (st : SqliteStore) (s : AgentSession) : Location :=
  resolveLocation st.index s.sessionId {} (some s)

/-- `save_session`: a dump that raises writes nothing. -/
def saveSession (st : SqliteStore) (s : AgentSession) : SqliteStore :=
  match h : s.modelDump with
  | some data =>
    { rows := st.rows.set (row (st.locationOf s) s.sessionId) data
      index := st.index.register s.sessionId (st.locationOf s)
      json := dumped_set st.json (AgentSession.modelDump_dumped h) }
  | none => st

/-- The `UPDATE` of `append_turn`, on the row its `SELECT` read. -/
def updateRow (st : SqliteStore) (key : Path × String) (s : AgentSession) : SqliteStore :=
  match h : s.modelDump with
  | some data =>
    if st.rows.has key then
      { st with
        rows := st.rows.set key data
        json := dumped_set st.json (AgentSession.modelDump_dumped h) }
    else st
  | none => st

/-- `append_turn`. -/
def appendTurn (st : SqliteStore) (sessionId : String) (turn : TurnRecord) (scope : SessionScope) :
    SqliteStore :=
  match st.loadSession sessionId scope with
  | some s => st.updateRow (st.rowFor sessionId scope) (s.addTurn turn)
  | none => st

/-- `delete_session`: the row goes, whoever owns the session in it. -/
def deleteSession (st : SqliteStore) (sessionId : String) (scope : SessionScope) : SqliteStore where
  rows := st.rows.erase (st.rowFor sessionId scope)
  index := st.index.unregister sessionId
  json := dumped_filter st.json fun r => r ≠ st.rowFor sessionId scope

/-- Whether a listing under a scope reads a database. -/
def listed (scope : SessionScope) (db : Path) : Bool :=
  match scope.tenantId, scope.userId with
  | some t, some u => db = sessionsDbPath (some t) (some u)
  | some t, none =>
    let dir := (Path.join [] (normalizeTenantId (some t))).join "users"
    dir.isPrefixOf db && db.length = dir.length + 2
  | none, _ => "_index" ∉ db

/-- What `list_sessions` and `list_sessions_by_prefix` collect before they sort and page. -/
def collect (st : SqliteStore) (scope : SessionScope) (keep : AgentSession → Bool) :
    List AgentSession :=
  ((st.rows.items.filter fun p => listed scope p.1.1).map Prod.snd).filter fun s =>
    keep s && scope.matchesSession s

/-! ### What a save writes -/

variable {st : SqliteStore} {s data : AgentSession}

/-- A save writes the dumped session to its row. -/
theorem saveSession_rows (h : s.modelDump = some data) :
    (st.saveSession s).rows = st.rows.set (row (st.locationOf s) s.sessionId) data := by
  unfold saveSession
  split
  · next data' h' =>
    obtain rfl := Option.some.inj (h'.symm.trans h)
    rfl
  · next h' => cases h'.symm.trans h

/-- A save registers the location. -/
theorem saveSession_index (h : s.modelDump = some data) :
    (st.saveSession s).index = st.index.register s.sessionId (st.locationOf s) := by
  unfold saveSession
  split
  · rfl
  · next h' => cases h'.symm.trans h

/-- A session that cannot be dumped is not saved. -/
theorem saveSession_of_raises (h : s.modelDump = none) : st.saveSession s = st := by
  unfold saveSession
  split
  · next h' => cases h'.symm.trans h
  · rfl

/-- An update of a row that is there. -/
theorem updateRow_rows {key : Path × String} (h : s.modelDump = some data)
    (h_there : st.rows.has key = true) : (st.updateRow key s).rows = st.rows.set key data := by
  unfold updateRow
  split
  · next data' h' =>
    obtain rfl := Option.some.inj (h'.symm.trans h)
    rw [if_pos h_there]
  · next h' => cases h'.symm.trans h

/-- Updating a row leaves the index. -/
theorem updateRow_index (key : Path × String) : (st.updateRow key s).index = st.index := by
  unfold updateRow
  split
  · split_ifs <;> rfl
  · rfl

end SqliteStore
end Nexus
