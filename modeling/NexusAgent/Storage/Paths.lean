import NexusAgent.Lib.PyStr
import NexusAgent.Session.Store

/-!
# Storage paths and the session index

`nexus/storage/paths.py`: where the tenant-scoped adapters keep a session, and the index
from a session id to the tenant and the user it was last saved for.

A path is the list of its components below the data root. Joining a component that is empty
or a single dot changes nothing, as in `pathlib`.
-/

open Lib

namespace Nexus

/-! ### Segments -/

/-- The characters no segment may have. -/
def unsafeChar (c : Char) : Bool := c = '/' || c = '\\' || c = ':' || c = '\x00'

/-- `_UNSAFE_SEGMENT_RE.sub("_", s)`: an unsafe character or a pair of dots gives way to an
underscore, from the left. -/
def replaceUnsafe : List Char → List Char
  | [] => []
  | '.' :: '.' :: cs => '_' :: replaceUnsafe cs
  | c :: cs => (if unsafeChar c then '_' else c) :: replaceUnsafe cs

/-- `sanitize_segment`. -/
def sanitizeSegment (value : Option String) (fallback : String) : String :=
  match value with
  | none => fallback
  | some s =>
    if PyStr.isBlank s then fallback
    else
      let cleaned := String.ofList (replaceUnsafe (PyStr.strip s).toList)
      if cleaned = "" then fallback else cleaned

/-- `normalize_tenant_id`. -/
def normalizeTenantId (tenantId : Option String) : String := sanitizeSegment tenantId "_default"

/-- `normalize_user_id`. -/
def normalizeUserId (userId : Option String) : String := sanitizeSegment userId "_default"

/-! ### Paths -/

/-- The components of a path below the data root. -/
abbrev Path : Type := List String

/-- `path / segment`. -/
def Path.join (p : Path) (segment : String) : Path :=
  if segment = "" ∨ segment = "." then p else p ++ [segment]

/-- `tenant_user_dir`. -/
def tenantUserDir (tenantId userId : Option String) : Path :=
  ((Path.join [] (normalizeTenantId tenantId)).join "users").join (normalizeUserId userId)

/-- `session_dir`: the fallback for a blank session id is the id itself. -/
def sessionDir (tenantId userId : Option String) (sessionId : String) : Path :=
  (tenantUserDir tenantId userId).join (sanitizeSegment (some sessionId) sessionId)

/-- `session_file`. -/
def sessionFile (tenantId userId : Option String) (sessionId : String) : Path :=
  (sessionDir tenantId userId sessionId).join "session.json"

/-- `sessions_db_path`. -/
def sessionsDbPath (tenantId userId : Option String) : Path :=
  (tenantUserDir tenantId userId).join "sessions.db"

/-! ### The session index -/

/-- A tenant id and a user id, each optional. -/
abbrev Location : Type := Option String × Option String

/-- The content of the index file. -/
abbrev SessionIndex : Type := Dict String Location

/-- `register_session`. -/
def SessionIndex.register (index : SessionIndex) (sessionId : String) (location : Location) :
    SessionIndex :=
  Dict.set index sessionId location

/-- `unregister_session`. -/
def SessionIndex.unregister (index : SessionIndex) (sessionId : String) : SessionIndex :=
  Dict.erase index sessionId

/-- `lookup_session`. -/
def SessionIndex.lookup (index : SessionIndex) (sessionId : String) : Option Location :=
  Dict.get? index sessionId

/-- `_resolve_location` of the tenant-scoped adapters: the scope's ids, else the session's;
when one of the two is missing, the index entry, if there is one. -/
def resolveLocation (index : SessionIndex) (sessionId : String) (scope : SessionScope)
    (session : Option AgentSession) : Location :=
  let tid := pyOr scope.tenantId (session.bind AgentSession.tenantId)
  let uid := pyOr scope.userId (session.bind AgentSession.userId)
  if tid.isSome && uid.isSome then (tid, uid) else (index.lookup sessionId).getD (tid, uid)

end Nexus
