import NexusAgent.Session.Dump
import NexusAgent.Storage.Paths

/-!
# The file session adapter

`nexus/session/adapters/file.py` with the tenant-scoped layout: one `session.json` in a
directory of its own for each session, and the index file.

The order of `files` is the order in which a walk over the data root meets them. A file is the
session it decodes to, so it is its own dump. The lock files are not part of the store; taking
the lock makes the session's directory, so it is there when `delete_session` looks. An id that is
`session.json` itself, whose directory would be another session's file, is left out.
-/

open Lib

namespace Nexus

theorem noFiles_json : ∀ (p : Path) (s : AgentSession),
    Dict.get? ([] : Dict Path AgentSession) p = some s → s.modelDump = some s := by simp

/-- The session files under the data root, and the index. -/
structure FileStore where
  files : Dict Path AgentSession := []
  index : SessionIndex := []
  json : ∀ p s, files.get? p = some s → s.modelDump = some s := by exact Nexus.noFiles_json
  deriving DecidableEq

namespace FileStore

/-- The path of a session, once its location is resolved. -/
def path (location : Location) (sessionId : String) : Path :=
  sessionFile location.1 location.2 sessionId

/-- `_resolve_location` and `_get_path` for a session id and a scope. -/
def pathFor (st : FileStore) (sessionId : String) (scope : SessionScope) : Path :=
  path (resolveLocation st.index sessionId scope none) sessionId

/-- `_scan_for_session`: the first file whose session has the id. -/
def scanForSession (st : FileStore) (sessionId : String) : Option (Path × AgentSession) :=
  st.files.items.find? fun p => p.2.sessionId = sessionId

/-- Whether a scope names neither a tenant nor a user, so that `load_session` may scan. -/
def mayScan (scope : SessionScope) : Bool := scope.tenantId.isNone && scope.userId.isNone

/-- The file `load_session` reads, before it looks at the scope. -/
def stored (st : FileStore) (sessionId : String) (scope : SessionScope) :
    Option (Path × AgentSession) :=
  let p := st.pathFor sessionId scope
  match st.files.get? p with
  | some s => some (p, s)
  | none => if mayScan scope then st.scanForSession sessionId else none

/-- `load_session`. -/
def loadSession (st : FileStore) (sessionId : String) (scope : SessionScope) :
    Option AgentSession :=
  ((st.stored sessionId scope).map Prod.snd).filter scope.matchesSession

/-- What `load_session` does to the store: a session found by the scan is registered under
its own tenant and user. -/
def afterLoad (st : FileStore) (sessionId : String) (scope : SessionScope) : FileStore :=
  match st.files.get? (st.pathFor sessionId scope), st.stored sessionId scope with
  | none, some (_, s) => { st with index := st.index.register sessionId (s.tenantId, s.userId) }
  | _, _ => st

/-- Where `save_session` puts a session. -/
def locationOf (st : FileStore) (s : AgentSession) : Location :=
  resolveLocation st.index s.sessionId {} (some s)

/-- `save_session`: a dump that raises writes nothing. -/
def saveSession (st : FileStore) (s : AgentSession) : FileStore :=
  match h : s.modelDump with
  | some data =>
    { files := st.files.set (path (st.locationOf s) s.sessionId) data
      index := st.index.register s.sessionId (st.locationOf s)
      json := dumped_set st.json (AgentSession.modelDump_dumped h) }
  | none => st

/-- `append_turn`: a load and a save. -/
def appendTurn (st : FileStore) (sessionId : String) (turn : TurnRecord) (scope : SessionScope) :
    FileStore :=
  match st.loadSession sessionId scope with
  | some s => (st.afterLoad sessionId scope).saveSession (s.addTurn turn)
  | none => st.afterLoad sessionId scope

/-- `shutil.rmtree`: everything in a directory goes. -/
def removeTree (dir : Path) (files : Dict Path AgentSession) : Dict Path AgentSession :=
  files.filter fun p => !dir.isPrefixOf p.1

/-- `delete_session`: the parent directory of the session's path goes, whatever is in it. -/
def deleteSession (st : FileStore) (sessionId : String) (scope : SessionScope) : FileStore where
  files := removeTree (st.pathFor sessionId scope).dropLast st.files
  index := st.index.unregister sessionId
  json := dumped_filter st.json fun p => !(st.pathFor sessionId scope).dropLast.isPrefixOf p

/-- `_iter_session_files`: whether a listing under a scope reads a path. -/
def listed (scope : SessionScope) (p : Path) : Bool :=
  match scope.tenantId, scope.userId with
  | some t, some u =>
    let dir := tenantUserDir (some t) (some u)
    dir.isPrefixOf p && p.length = dir.length + 2
  | some t, none =>
    let dir := (Path.join [] (normalizeTenantId (some t))).join "users"
    dir.isPrefixOf p && p.length = dir.length + 3
  | none, _ => "_index" ∉ p

/-- What `list_sessions` and `list_sessions_by_prefix` collect before they sort and page:
`keep` is the test on the agent, or on the id. -/
def collect (st : FileStore) (scope : SessionScope) (keep : AgentSession → Bool) :
    List AgentSession :=
  ((st.files.items.filter fun p => listed scope p.1).map Prod.snd).filter fun s =>
    keep s && scope.matchesSession s

/-! ### What a save writes -/

variable {st : FileStore} {s data : AgentSession}

/-- A save writes the dumped session to its file. -/
theorem saveSession_files (h : s.modelDump = some data) :
    (st.saveSession s).files = st.files.set (path (st.locationOf s) s.sessionId) data := by
  unfold saveSession
  split
  · next data' h' =>
    obtain rfl := Option.some.inj (h'.symm.trans h)
    rfl
  · next h' => cases h'.symm.trans h

/-- A save registers the location. -/
theorem saveSession_index (h : s.modelDump = some data) :
    (st.saveSession s).index = st.index.register s.sessionId (st.locationOf s) := by
  unfold saveSession
  split
  · rfl
  · next h' => cases h'.symm.trans h

/-- A session that cannot be dumped is not saved. -/
theorem saveSession_of_raises (h : s.modelDump = none) : st.saveSession s = st := by
  unfold saveSession
  split
  · next h' => cases h'.symm.trans h
  · rfl

end FileStore
end Nexus
