import NexusAgent.Session.Dump
import NexusAgent.Storage.Paths

/-!
# The redis session adapter

`nexus/session/adapters/redis.py`: a JSON blob for each session id, and for each tenant and
user a sorted set of session ids, which the listings read. A sorted set is a dictionary from
its members to their scores; the score of a session is the time it was made, which
`createdAt` stands for. A blob is the session it decodes to. Time to live and the connection are
left out.
-/

open Lib

namespace Nexus

theorem noBlobs_json : ∀ (k : String) (s : AgentSession),
    Dict.get? ([] : Dict String AgentSession) k = some s → s.modelDump = some s := by simp

/-- The blobs and the sorted sets, by their keys. -/
structure RedisStore where
  blobs : Dict String AgentSession := []
  indexes : Dict String (Dict String ℕ) := []
  json : ∀ k s, blobs.get? k = some s → s.modelDump = some s := by exact Nexus.noBlobs_json
  deriving DecidableEq

namespace RedisStore

variable (keyPrefix : String)

/-- `_session_key`. -/
def sessionKey (sessionId : String) : String := keyPrefix ++ "session:" ++ sessionId

/-- `_index_key`. -/
def indexKey (tenantId userId : Option String) : String :=
  keyPrefix ++ "idx:" ++ normalizeTenantId tenantId ++ ":" ++ normalizeUserId userId

/-- The sorted set of a session's tenant and user. -/
def indexKeyOf (s : AgentSession) : String := indexKey keyPrefix s.tenantId s.userId

/-- A sorted set; a key that is not there is an empty one. -/
def members (st : RedisStore) (key : String) : Dict String ℕ := (st.indexes.get? key).getD []

/-- `load_session`. -/
def loadSession (st : RedisStore) (sessionId : String) (scope : SessionScope) :
    Option AgentSession :=
  (st.blobs.get? (sessionKey keyPrefix sessionId)).filter scope.matchesSession

/-- `save_session`: `set`, then `zadd`. A dump that raises writes nothing. -/
def saveSession (createdAt : AgentSession → ℕ) (st : RedisStore) (s : AgentSession) :
    RedisStore :=
  match h : s.modelDump with
  | some data =>
    { blobs := st.blobs.set (sessionKey keyPrefix s.sessionId) data
      indexes :=
        let key := indexKeyOf keyPrefix s
        st.indexes.set key ((st.members key).set s.sessionId (createdAt s))
      json := dumped_set st.json (AgentSession.modelDump_dumped h) }
  | none => st

/-- `append_turn`: a load and a save. -/
def appendTurn (createdAt : AgentSession → ℕ) (st : RedisStore) (sessionId : String)
    (turn : TurnRecord) (scope : SessionScope) : RedisStore :=
  match st.loadSession keyPrefix sessionId scope with
  | some s => st.saveSession keyPrefix createdAt (s.addTurn turn)
  | none => st

/-- `delete_session`: the blob goes in any case, the listing entry (`zrem`) only when the
load found a session the scope admits. -/
def deleteSession (st : RedisStore) (sessionId : String) (scope : SessionScope) : RedisStore where
  blobs := st.blobs.erase (sessionKey keyPrefix sessionId)
  indexes :=
    match st.loadSession keyPrefix sessionId scope with
    | some s =>
      let key := indexKeyOf keyPrefix s
      st.indexes.set key ((st.members key).erase sessionId)
    | none => st.indexes
  json := dumped_filter st.json fun k => k ≠ sessionKey keyPrefix sessionId

/-- What `list_sessions` and `list_sessions_by_prefix` collect before they sort and page:
the members of the sorted set when the scope names a tenant and a user, else all blobs. -/
def collect (st : RedisStore) (scope : SessionScope) (keep : AgentSession → Bool) :
    List AgentSession :=
  match scope.tenantId, scope.userId with
  | some t, some u =>
    ((st.members (indexKey keyPrefix (some t) (some u))).items.filterMap fun p =>
      st.loadSession keyPrefix p.1 scope).filter keep
  | _, _ => (st.blobs.items.map Prod.snd).filter fun s => keep s && scope.matchesSession s

/-! ### What a save writes -/

variable {keyPrefix} {createdAt : AgentSession → ℕ} {st : RedisStore} {s data : AgentSession}

/-- A save writes the dumped session to its blob. -/
theorem saveSession_blobs (h : s.modelDump = some data) :
    (st.saveSession keyPrefix createdAt s).blobs =
      st.blobs.set (sessionKey keyPrefix s.sessionId) data := by
  unfold saveSession
  split
  · next data' h' =>
    obtain rfl := Option.some.inj (h'.symm.trans h)
    rfl
  · next h' => cases h'.symm.trans h

/-- A save puts the id into the index of its owner. -/
theorem saveSession_indexes (h : s.modelDump = some data) :
    (st.saveSession keyPrefix createdAt s).indexes =
      let key := indexKeyOf keyPrefix s
      st.indexes.set key ((st.members key).set s.sessionId (createdAt s)) := by
  unfold saveSession
  split
  · rfl
  · next h' => cases h'.symm.trans h

end RedisStore
end Nexus
