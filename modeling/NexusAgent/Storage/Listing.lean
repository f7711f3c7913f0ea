import NexusAgent.Lib.OrderBy
import NexusAgent.Lib.Pages
import NexusAgent.Session.Aggregate
import NexusAgent.Storage.FileAdapter
import NexusAgent.Storage.RedisAdapter
import NexusAgent.Storage.SqliteAdapter

/-!
# Listings

`list_sessions` and `list_sessions_by_prefix` of the four adapters, over sessions with times.

Of a store only what a listing reads is kept: the sessions in the order in which the store
meets them, with their files, rows, blobs and index entries. How the database orders rows that
compare equal is a parameter (`OrderBy`), and so is the pattern matching of `SCAN`. The ids to
exclude, which an adapter takes out at the end, are left out.
-/

open Lib

namespace Nexus

/-! ### Filters and orders -/

/-- `if agent_id and session.agent_id != agent_id`, the other way round. -/
def agentAdmits (agentId : Option String) (s : TimedSession) : Bool :=
  match pyOr agentId none with
  | none => true
  | some agent => s.agentId = agent

/-- `sort(key=lambda s: s.created_at)`. -/
def sortByCreated (sessions : List TimedSession) : List TimedSession :=
  sessions.insertionSort fun s s' => s.createdAt ≤ s'.createdAt

/-- `sort(key=lambda s: s.updated_at, reverse=True)`, which keeps the order of equal ones. -/
def sortByUpdated (sessions : List TimedSession) : List TimedSession :=
  sessions.insertionSort fun s s' => s'.updatedAt ≤ s.updatedAt

/-! ### Files -/

/-- `tenant_scoped` of the file adapter. -/
inductive Layout
  | flat
  | scoped
  deriving DecidableEq, Repr

/-- `_iter_session_files`: whether a listing under a scope reads a path. -/
def Layout.listed (layout : Layout) (scope : SessionScope) (p : Path) : Bool :=
  match layout with
  | .flat => p.length = 1 && p.all (PyStr.endsWith · ".json")
  | .scoped => FileStore.listed scope p

/-- The sessions of the files that a listing reads. -/
def readFiles (layout : Layout) (files : List (Path × TimedSession)) (scope : SessionScope) :
    List TimedSession :=
  (files.filter fun p => layout.listed scope p.1).map Prod.snd

/-! ### Rows -/

/-- A row: the session its `data` decodes to, and the `created_at` column, which a save that
meets a row of the id leaves as it is. The other columns are those of the session. -/
structure SqliteRow where
  createdColumn : ℤ
  session : TimedSession
  deriving DecidableEq, Repr

/-- The rows of a database; the session id is their primary key. -/
structure SqliteTable where
  rows : List SqliteRow
  primaryKey : (rows.map fun r => r.session.sessionId).Nodup

/-- `LIKE`: a percent sign stands for any text, an underscore for any character, and letters
compare without regard to case (ASCII only). -/
def sqlLike : List Char → List Char → Bool
  | [], text => text.isEmpty
  | c :: pattern, text =>
    if c = '%' then text.tails.any (sqlLike pattern)
    else
      match text with
      | [] => false
      | d :: rest => (c = '_' || c.toLower = d.toLower) && sqlLike pattern rest

/-- A condition on a column, which is there when the value is truthy. -/
def sqlFilter (value column : Option String) : Bool :=
  match pyOr value none with
  | none => true
  | some x => column = some x

/-- The `WHERE` clause of `_list_from_db`. -/
def queryAdmits (agentId : Option String) (scope : SessionScope) (pre : String) (r : SqliteRow) :
    Bool :=
  sqlFilter agentId (some r.session.agentId) && sqlFilter scope.tenantId r.session.tenantId &&
    sqlFilter scope.userId r.session.userId &&
    (pre = "" || sqlLike (pre ++ "%").toList r.session.sessionId.toList)

/-- What the `ORDER BY` of `_list_from_db` goes by: `created_at`, or `updated_at` downward. -/
def rowKey (pre : String) (r : SqliteRow) : ℤ :=
  if pre = "" then -r.session.updatedAt else r.createdColumn

/-- The rows a query of `_list_from_db` selects. -/
def SqliteTable.query (table : SqliteTable) (agentId : Option String) (scope : SessionScope)
    (pre : String) : List SqliteRow :=
  table.rows.filter (queryAdmits agentId scope pre)

/-- `_list_from_db`. -/
def SqliteTable.listFromDb (o : OrderBy SqliteRow) (table : SqliteTable) (agentId : Option String)
    (scope : SessionScope) (limit offset : ℕ) (pre : String) : List TimedSession :=
  ((page limit offset (o.orderBy (rowKey pre) (table.query agentId scope pre))).map
    SqliteRow.session).filter scope.admits

/-- The databases a listing under a scope reads. -/
def listedDbs (dbs : List (Path × SqliteTable)) (scope : SessionScope) : List SqliteTable :=
  (dbs.filter fun db => SqliteStore.listed scope db.1).map Prod.snd

/-- The loop of `list_sessions` over the databases: it stops when there are enough results. -/
def collectBatches (enough : ℕ) (results : List TimedSession) :
    List (List TimedSession) → List TimedSession
  | [] => results
  | batch :: batches =>
    if enough ≤ (results ++ batch).length then results ++ batch
    else collectBatches enough (results ++ batch) batches

/-! ### Blobs -/

/-- The blobs by session id, and the sorted sets with their scores. `save_session` writes both,
so that a session is always in the index of its tenant and user. -/
structure RedisSessions where
  keyPrefix : String
  blobs : List TimedSession
  indexes : Dict String (Dict String ℤ)
  distinct : (blobs.map TimedSession.sessionId).Nodup
  keys_nodup : ∀ key members, Dict.get? indexes key = some members →
    (members.map Prod.fst).Nodup
  indexed : ∀ s ∈ blobs, ∃ members,
    Dict.get? indexes (RedisStore.indexKey keyPrefix s.tenantId s.userId) = some members ∧
      s.sessionId ∈ members.map Prod.fst

namespace RedisSessions

/-- `zrange(key, 0, -1)`: by score, and by text where scores are equal. -/
def zrange (st : RedisSessions) (key : String) : List String :=
  (((Dict.get? st.indexes key).getD []).insertionSort fun p q =>
    p.2 < q.2 ∨ p.2 = q.2 ∧ p.1 ≤ q.1).map Prod.fst

/-- `zrevrange(key, start, stop)`, for `stop` from -1 on, which is the last one. -/
def zrevrange (st : RedisSessions) (key : String) (start : ℕ) (stop : ℤ) : List String :=
  let ids := (st.zrange key).reverse
  if stop = -1 then ids.drop start else (ids.take (stop + 1).toNat).drop start

/-- The key of a session. -/
def key (st : RedisSessions) (s : TimedSession) : String :=
  RedisStore.sessionKey st.keyPrefix s.sessionId

/-- `key.split(":")[-1]`. -/
def lastPiece (key : String) : String := ((PyStr.split ':' key).getLast?).getD key

/-- `load_session`. -/
def load (st : RedisSessions) (scope : SessionScope) (sessionId : String) : Option TimedSession :=
  loadTimed st.blobs scope sessionId

/-- `_scan_list`, or the index, when the scope names a tenant and a user. -/
def listSessions (st : RedisSessions) (agentId : Option String) (scope : SessionScope)
    (limit offset : ℕ) : List TimedSession :=
  match scope.tenantId, scope.userId with
  | some t, some u =>
    ((st.zrevrange (RedisStore.indexKey st.keyPrefix (some t) (some u)) offset
      (offset + limit - 1)).filterMap (st.load scope)).filter (agentAdmits agentId)
  | _, _ =>
    page limit offset (sortByUpdated
      (st.blobs.filter fun s => agentAdmits agentId s && scope.admits s))

/-- The session ids that `list_sessions_by_prefix` loads. -/
def prefixIds (glob : String → String → Bool) (st : RedisSessions) (scope : SessionScope)
    (pre : String) : List String :=
  match scope.tenantId, scope.userId with
  | some t, some u =>
    (st.zrange (RedisStore.indexKey st.keyPrefix (some t) (some u))).filter
      (PyStr.startsWith · pre)
  | _, _ =>
    ((st.blobs.map st.key).filter (glob (st.keyPrefix ++ "session:" ++ pre ++ "*"))).map lastPiece

/-- `list_sessions_by_prefix`. -/
def listSessionsByPrefix (glob : String → String → Bool) (st : RedisSessions)
    (scope : SessionScope) (pre : String) : List TimedSession :=
  sortByCreated ((st.prefixIds glob scope pre).filterMap (st.load scope))

end RedisSessions

/-! ### Adapters -/

/-- What a session adapter holds. -/
inductive SessionStore
  | memory (sessions : List TimedSession)
  | file (layout : Layout) (files : List (Path × TimedSession))
  | sqliteFlat (table : SqliteTable)
  | sqliteScoped (dbs : List (Path × SqliteTable))
  | redis (st : RedisSessions)

/-- The sessions of a table. -/
def SqliteTable.sessions (table : SqliteTable) : List TimedSession :=
  table.rows.map SqliteRow.session

namespace SessionStore

/-- All sessions of a store. -/
def contents : SessionStore → List TimedSession
  | .memory sessions => sessions
  | .file _ files => files.map Prod.snd
  | .sqliteFlat table => table.sessions
  | .sqliteScoped dbs => dbs.flatMap fun db => db.2.sessions
  | .redis st => st.blobs

/-- `list_sessions`. -/
def listSessions (o : OrderBy SqliteRow) (agentId : Option String) (scope : SessionScope)
    (limit offset : ℕ) : SessionStore → List TimedSession
  | .memory sessions =>
    page limit offset (sortByUpdated
      (sessions.filter fun s => agentAdmits agentId s && scope.admits s))
  | .file layout files =>
    page limit offset (sortByUpdated
      ((readFiles layout files scope).filter fun s => agentAdmits agentId s && scope.admits s))
  | .sqliteFlat table => table.listFromDb o agentId scope limit offset ""
  | .sqliteScoped dbs =>
    page limit offset (sortByUpdated (collectBatches (offset + limit) []
      ((listedDbs dbs scope).map fun table =>
        table.listFromDb o agentId scope (limit + offset) 0 "")))
  | .redis st => st.listSessions agentId scope limit offset

/-- The `limit` of a listing by prefix. -/
def prefixLimit : ℕ := 10000

/-- `list_sessions_by_prefix`. -/
def listSessionsByPrefix (glob : String → String → Bool) (o : OrderBy SqliteRow)
    (scope : SessionScope) (pre : String) : SessionStore → List TimedSession
  | .memory sessions => Nexus.listSessionsByPrefix sessions scope pre
  | .file layout files =>
    sortByCreated ((readFiles layout files scope).filter fun s =>
      PyStr.startsWith s.sessionId pre && scope.admits s)
  | .sqliteFlat table => table.listFromDb o none scope prefixLimit 0 pre
  | .sqliteScoped dbs =>
    sortByCreated ((listedDbs dbs scope).flatMap fun table =>
      table.listFromDb o none scope prefixLimit 0 pre)
  | .redis st => st.listSessionsByPrefix glob scope pre

end SessionStore

/-! ### Sorting -/

theorem sortByCreated_perm (sessions : List TimedSession) :
    (sortByCreated sessions).Perm sessions :=
  List.perm_insertionSort _ _

theorem sortByCreated_perm_iff {sessions sessions' : List TimedSession} :
    (sortByCreated sessions).Perm sessions' ↔ sessions.Perm sessions' :=
  ⟨(sortByCreated_perm sessions).symm.trans, (sortByCreated_perm sessions).trans⟩

theorem sortByUpdated_perm (sessions : List TimedSession) :
    (sortByUpdated sessions).Perm sessions :=
  List.perm_insertionSort _ _

/-- Sorted by creation, the oldest first. -/
theorem pairwise_sortByCreated (sessions : List TimedSession) :
    (sortByCreated sessions).Pairwise fun s s' => s.createdAt ≤ s'.createdAt := by
  have : Std.Total fun s s' : TimedSession => s.createdAt ≤ s'.createdAt :=
    ⟨fun s s' => le_total s.createdAt s'.createdAt⟩
  have : IsTrans TimedSession fun s s' => s.createdAt ≤ s'.createdAt :=
    ⟨fun _ _ _ h h' => le_trans h h'⟩
  exact List.pairwise_insertionSort _ _

/-- Sorted by the last update, the latest first. -/
theorem pairwise_sortByUpdated (sessions : List TimedSession) :
    (sortByUpdated sessions).Pairwise fun s s' => s'.updatedAt ≤ s.updatedAt := by
  have : Std.Total fun s s' : TimedSession => s'.updatedAt ≤ s.updatedAt :=
    ⟨fun s s' => le_total s'.updatedAt s.updatedAt⟩
  have : IsTrans TimedSession fun s s' => s'.updatedAt ≤ s.updatedAt :=
    ⟨fun _ _ _ h h' => le_trans h' h⟩
  exact List.pairwise_insertionSort _ _

/-! ### Queries -/

/-- A filter column lets through what the scope's dimension does. -/
theorem sqlFilter_of_scopeAdmits {value column : Option String}
    (h : scopeAdmits value column = true) : sqlFilter value column = true := by
  unfold sqlFilter
  cases value with
  | none => rfl
  | some x =>
    have h_column : column = some x := by simpa [scopeAdmits] using h
    by_cases h_x : x = "" <;> simp [pyOr, h_x, h_column]

/-- The filter on the agent is the same in a query. -/
theorem sqlFilter_agent (agentId : Option String) (s : TimedSession) :
    sqlFilter agentId (some s.agentId) = agentAdmits agentId s := by
  unfold sqlFilter agentAdmits
  cases pyOr agentId none with
  | none => rfl
  | some agent => simp

/-- A text with the prefix is like the prefix. -/
theorem sqlLike_of_prefix {pre text : List Char} (h : pre <+: text) :
    sqlLike (pre ++ ['%']) text = true := by
  -- by induction on the prefix
  induction pre generalizing text with
  | nil =>
    simp [sqlLike]
  | cons c pre ih =>
    obtain ⟨rest, rfl⟩ := h
    have h_rest : sqlLike (pre ++ ['%']) (pre ++ rest) = true := ih (List.prefix_append _ _)
    -- a percent sign may match the character itself and nothing before it
    by_cases h_c : c = '%'
    · have h_mem : pre ++ rest ∈ (c :: (pre ++ rest)).tails := by
        rw [List.tails_cons]
        exact List.mem_cons_of_mem _ ((List.mem_tails _ _).mpr (List.suffix_refl _))
      rw [List.cons_append, List.cons_append, sqlLike, if_pos h_c, List.any_eq_true]
      exact ⟨_, h_mem, h_rest⟩
    · -- any other character matches itself
      rw [List.cons_append, List.cons_append, sqlLike, if_neg h_c]
      simp [h_rest]

/-- What a listing by prefix has to return is among the rows of the query. -/
theorem queryAdmits_of_selected {scope : SessionScope} {pre : String} {r : SqliteRow}
    (h_starts : PyStr.startsWith r.session.sessionId pre = true)
    (h_scope : scope.admits r.session = true) : queryAdmits none scope pre r = true := by
  -- the scope's columns and the prefix, each in turn
  unfold SessionScope.admits at h_scope
  rw [Bool.and_eq_true, Bool.and_eq_true] at h_scope
  obtain ⟨⟨h_tenant, -⟩, h_user⟩ := h_scope
  -- the prefix followed by anything matches the id
  have h_like : sqlLike (pre ++ "%").toList r.session.sessionId.toList = true := by
    rw [String.toList_append]
    exact sqlLike_of_prefix (List.isPrefixOf_iff_prefix.mp h_starts)
  unfold queryAdmits
  rw [sqlFilter_of_scopeAdmits h_tenant, sqlFilter_of_scopeAdmits h_user, h_like]
  simp [sqlFilter, pyOr]

/-- The sessions of a table that pass a test are among the rows of a query that lets them
through, in any order. -/
theorem SqliteTable.query_perm (o : OrderBy SqliteRow) (table : SqliteTable)
    {agentId : Option String} {scope : SessionScope} {pre : String} {test : TimedSession → Bool}
    (h : ∀ r, test r.session = true → queryAdmits agentId scope pre r = true) :
    (((o.orderBy (rowKey pre) (table.query agentId scope pre)).filter fun r =>
      test r.session).map SqliteRow.session).Perm (table.sessions.filter test) := by
  -- what passes the test is in the query's result already
  have h_query : (table.query agentId scope pre).filter (fun r => test r.session) =
      table.rows.filter fun r => test r.session := by
    unfold query
    rw [List.filter_filter]
    refine List.filter_congr fun r _ => ?_
    by_cases h_test : test r.session = true
    · rw [h_test, h r h_test, Bool.and_self]
    · rw [Bool.not_eq_true] at h_test
      rw [h_test, Bool.false_and]
  unfold sessions
  rw [List.filter_map]
  refine List.Perm.map _ ?_
  rw [Function.comp_def, ← h_query]
  exact (o.perm _ _).filter _

/-- What the databases of a listing give together. -/
theorem listedDbs_flatMap (dbs : List (Path × SqliteTable)) (scope : SessionScope)
    (f : SqliteTable → List TimedSession) :
    (listedDbs dbs scope).flatMap f =
      dbs.flatMap fun db => if SqliteStore.listed scope db.1 = true then f db.2 else [] := by
  unfold listedDbs
  induction dbs with
  | nil => rfl
  | cons db dbs ih =>
    rw [List.flatMap_cons, ← ih, List.filter_cons]
    split <;> simp

/-- The rows of a table are distinct, and so are those of a query. -/
theorem SqliteTable.rows_nodup (table : SqliteTable) : table.rows.Nodup :=
  List.Nodup.of_map _ table.primaryKey

theorem SqliteTable.query_nodup (table : SqliteTable) (agentId : Option String)
    (scope : SessionScope) (pre : String) : (table.query agentId scope pre).Nodup :=
  table.rows_nodup.filter _

/-! ### Loads and sorted sets -/

namespace RedisSessions

variable {scope : SessionScope}

/-- What a load finds under an id. -/
theorem load_eq_some_iff {st : RedisSessions} {sessionId : String} {s : TimedSession} :
    st.load scope sessionId = some s ↔
      sessionId = s.sessionId ∧ s ∈ st.blobs ∧ scope.admits s = true := by
  unfold load loadTimed
  rw [Option.filter_eq_some_iff]
  -- the blob found first is of this id
  constructor
  · rintro ⟨h_find, h_scope⟩
    have h_id := List.find?_some h_find
    rw [decide_eq_true_eq] at h_id
    exact ⟨h_id.symm, List.mem_of_find?_eq_some h_find, h_scope⟩
  · -- ids are distinct, so it is this session
    rintro ⟨rfl, h_mem, h_scope⟩
    refine ⟨?_, h_scope⟩
    obtain ⟨s', h_find⟩ := Option.isSome_iff_exists.mp
      (List.find?_isSome (p := fun x => decide (x.sessionId = s.sessionId)) |>.mpr
        ⟨s, h_mem, by simp⟩)
    have h_id := List.find?_some h_find
    rw [decide_eq_true_eq] at h_id
    have h_eq := List.inj_on_of_nodup_map st.distinct (List.mem_of_find?_eq_some h_find) h_mem h_id
    rw [h_find, h_eq]

/-- The members of a sorted set come once each. -/
theorem zrange_perm (st : RedisSessions) (key : String) :
    (st.zrange key).Perm (((Dict.get? st.indexes key).getD []).map Prod.fst) :=
  (List.perm_insertionSort _ _).map _

/-- A range repeats no id. -/
theorem zrange_nodup (st : RedisSessions) (key : String) : (st.zrange key).Nodup := by
  rw [(st.zrange_perm key).nodup_iff]
  cases h : Dict.get? st.indexes key with
  | none => exact List.nodup_nil
  | some members => exact st.keys_nodup key members h

/-- A session that a scope with tenant and user admits is in the sorted set of the two. -/
theorem mem_zrange {st : RedisSessions} {t u : String} (h_t : scope.tenantId = some t)
    (h_u : scope.userId = some u) {s : TimedSession} (hs : s ∈ st.blobs)
    (h_scope : scope.admits s = true) :
    s.sessionId ∈ st.zrange (RedisStore.indexKey st.keyPrefix (some t) (some u)) := by
  -- the scope's ids are those of the session
  unfold SessionScope.admits at h_scope
  rw [Bool.and_eq_true, Bool.and_eq_true, h_t, h_u] at h_scope
  have h_tenant : s.tenantId = some t := by simpa [scopeAdmits] using h_scope.1.1
  have h_user : s.userId = some u := by simpa [scopeAdmits] using h_scope.2
  -- whose index has the session's id
  obtain ⟨members, h_get, h_mem⟩ := st.indexed s hs
  rw [h_tenant, h_user] at h_get
  rw [(st.zrange_perm _).mem_iff, h_get]
  exact h_mem

end RedisSessions

end Nexus
