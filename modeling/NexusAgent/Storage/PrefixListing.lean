import NexusAgent.Lib.Perm
import NexusAgent.Storage.Listing

/-!
# Listings by prefix

The contract of `nexus/session/adapters/base.py`: a listing by prefix returns every session of
the scope whose id starts with the prefix, by the time it was made.

The in-memory adapter keeps it, and so does the file adapter as long as the files lie where it
looks. The other two ask a server first. `LIKE` takes the underscore of a group prefix for any
character, and a query ends after ten thousand rows; `SCAN` finds keys by a pattern, and the id
is what follows the last colon.

* `SqliteTable.Reached`: what the first rows of a query have to be.
* `RedisSessions.ScannedOnce`: what the keys a scan finds have to be.
* `prefixListing_iff`: for every store, exactly when its listings keep the contract.
-/

open Lib

namespace Nexus

/-! ### The contract -/

/-- What a listing by prefix has to return. -/
def isSelected (scope : SessionScope) (pre : String) (s : TimedSession) : Bool :=
  PyStr.startsWith s.sessionId pre && scope.admits s

/-- The sessions of a store that a listing by prefix has to return. -/
def SessionStore.selected (scope : SessionScope) (pre : String) (st : SessionStore) :
    List TimedSession :=
  st.contents.filter (isSelected scope pre)

/-- A listing by prefix as the base class has it: exactly the selected sessions, in the order
of the times they were made, and the list that an in-memory adapter with the same sessions
returns. -/
structure PrefixListed (glob : String → String → Bool) (scope : SessionScope) (pre : String)
    (st : SessionStore) : Prop where
  exact : ∀ o, (st.listSessionsByPrefix glob o scope pre).Perm (st.selected scope pre)
  ordered : ∀ o, (st.listSessionsByPrefix glob o scope pre).Pairwise fun s s' =>
    s.createdAt ≤ s'.createdAt
  same : ∀ o sessions, sessions.Perm st.contents →
    (SessionStore.memory sessions).listSessionsByPrefix glob o scope pre =
      st.listSessionsByPrefix glob o scope pre

/-! ### The condition -/

/-- The rows of the scope that the query returns are those with the prefix: of the others that
`LIKE` lets through, enough rows come earlier, and few enough of those with the prefix. -/
def SqliteTable.Reached (scope : SessionScope) (pre : String) (table : SqliteTable) : Prop :=
  ∀ r ∈ table.query none scope pre, scope.admits r.session = true →
    if PyStr.startsWith r.session.sessionId pre = true then
      (OrderBy.notAfter (rowKey pre) (table.query none scope pre) r).length <
        SessionStore.prefixLimit
    else
      SessionStore.prefixLimit ≤
        (OrderBy.before (rowKey pre) (table.query none scope pre) r).length

/-- What the query goes by agrees with the times the selected sessions were made. -/
def SqliteTable.InOrder (scope : SessionScope) (pre : String) (table : SqliteTable) : Prop :=
  ∀ r ∈ table.rows, ∀ r' ∈ table.rows, isSelected scope pre r.session = true →
    isSelected scope pre r'.session = true → rowKey pre r ≤ rowKey pre r' →
    r.session.createdAt ≤ r'.session.createdAt

/-- Of the keys that match the pattern, one ends in the id of each session of the scope with
the prefix, and none in that of another session of the scope. -/
def RedisSessions.ScannedOnce (glob : String → String → Bool) (scope : SessionScope)
    (pre : String) (st : RedisSessions) : Prop :=
  ∀ s ∈ st.blobs, scope.admits s = true →
    (st.blobs.countP fun b =>
      glob (st.keyPrefix ++ "session:" ++ pre ++ "*") (st.key b) &&
        decide (RedisSessions.lastPiece (st.key b) = s.sessionId)) =
      if PyStr.startsWith s.sessionId pre = true then 1 else 0

/-- When a listing by prefix returns the selected sessions in order. -/
def SessionStore.ListsPrefix (glob : String → String → Bool) (scope : SessionScope)
    (pre : String) : SessionStore → Prop
  | .memory _ => True
  | .file layout files =>
    ∀ p ∈ files, isSelected scope pre p.2 = true → layout.listed scope p.1 = true
  | .sqliteFlat table => table.Reached scope pre ∧ table.InOrder scope pre
  | .sqliteScoped dbs =>
    ∀ db ∈ dbs,
      if SqliteStore.listed scope db.1 = true then db.2.Reached scope pre
      else ∀ s ∈ db.2.sessions, isSelected scope pre s = false
  | .redis st =>
    scope.tenantId.isSome = true ∧ scope.userId.isSome = true ∨ st.ScannedOnce glob scope pre

/-- No two of the selected sessions were made at the same time. -/
def SessionStore.TimesDiffer (scope : SessionScope) (pre : String) (st : SessionStore) : Prop :=
  ∀ s ∈ st.selected scope pre, ∀ s' ∈ st.selected scope pre, s.createdAt = s'.createdAt → s = s'

/-! ### One database -/

namespace SqliteTable

variable {scope : SessionScope} {pre : String}

/-- The rows that the query of a listing returns. -/
def firstRows (o : OrderBy SqliteRow) (scope : SessionScope) (pre : String)
    (table : SqliteTable) : List SqliteRow :=
  (o.orderBy (rowKey pre) (table.query none scope pre)).take SessionStore.prefixLimit

/-- A listing takes the first rows, and then those in scope. -/
theorem listFromDb_eq (o : OrderBy SqliteRow) (table : SqliteTable) :
    table.listFromDb o none scope SessionStore.prefixLimit 0 pre =
      ((table.firstRows o scope pre).filter fun r => scope.admits r.session).map
        SqliteRow.session := by
  unfold listFromDb firstRows page
  rw [List.drop_zero, List.filter_map]
  rfl

/-- Rows of one table are the same when their sessions are. -/
theorem row_inj {table : SqliteTable} {r r' : SqliteRow} (h : r ∈ table.rows)
    (h' : r' ∈ table.rows) (h_eq : r.session = r'.session) : r = r' :=
  List.inj_on_of_nodup_map table.primaryKey h h' (congrArg TimedSession.sessionId h_eq)

theorem mem_query {table : SqliteTable} {r : SqliteRow} :
    r ∈ table.query none scope pre ↔ r ∈ table.rows ∧ queryAdmits none scope pre r = true :=
  List.mem_filter

/-- The selected sessions of a table are among the rows of the query, in any order. -/
theorem selected_perm (o : OrderBy SqliteRow) (table : SqliteTable) :
    (((o.orderBy (rowKey pre) (table.query none scope pre)).filter fun r =>
      isSelected scope pre r.session).map SqliteRow.session).Perm
      (table.sessions.filter (isSelected scope pre)) := by
  refine table.query_perm o fun r h => ?_
  rw [isSelected, Bool.and_eq_true] at h
  exact queryAdmits_of_selected h.1 h.2

/-- Of the rows of the scope, the query returns those with the prefix. -/
def Takes (o : OrderBy SqliteRow) (scope : SessionScope) (pre : String)
    (table : SqliteTable) : Prop :=
  ∀ r ∈ table.query none scope pre, scope.admits r.session = true →
    (r ∈ table.firstRows o scope pre ↔ PyStr.startsWith r.session.sessionId pre = true)

/-- In every order of equal rows. -/
theorem forall_takes_iff (table : SqliteTable) :
    (∀ o, table.Takes o scope pre) ↔ table.Reached scope pre := by
  have h_nodup := table.query_nodup none scope pre
  constructor
  · -- a row is taken in every order only if it is within the limit
    intro h r hr h_scope
    by_cases h_prefix : PyStr.startsWith r.session.sessionId pre = true
    · rw [if_pos h_prefix, ← OrderBy.forall_mem_take_iff h_nodup hr]
      exact fun o => (h o r hr h_scope).mpr h_prefix
    · rw [if_neg h_prefix, ← OrderBy.forall_not_mem_take_iff h_nodup hr]
      exact fun o h_mem => h_prefix ((h o r hr h_scope).mp h_mem)
  · -- and within the limit it is always taken
    intro h o r hr h_scope
    have h_r := h r hr h_scope
    by_cases h_prefix : PyStr.startsWith r.session.sessionId pre = true
    · rw [if_pos h_prefix, ← OrderBy.forall_mem_take_iff h_nodup hr] at h_r
      exact ⟨fun _ => h_prefix, fun _ => h_r o⟩
    · rw [if_neg h_prefix, ← OrderBy.forall_not_mem_take_iff h_nodup hr] at h_r
      exact ⟨fun h_mem => absurd h_mem (h_r o), fun h_yes => absurd h_yes h_prefix⟩

/-- Then a listing is the selected rows, in the order of the query. -/
theorem listFromDb_of_takes {o : OrderBy SqliteRow} {table : SqliteTable}
    (h : table.Takes o scope pre) :
    table.listFromDb o none scope SessionStore.prefixLimit 0 pre =
      ((o.orderBy (rowKey pre) (table.query none scope pre)).filter fun r =>
        isSelected scope pre r.session).map SqliteRow.session := by
  set rows := o.orderBy (rowKey pre) (table.query none scope pre) with h_rows
  have h_nodup : rows.Nodup := o.nodup_orderBy (table.query_nodup none scope pre)
  have h_mem : ∀ r ∈ rows, r ∈ table.query none scope pre := fun r hr => (o.mem_orderBy _).mp hr
  rw [listFromDb_eq]
  congr 1
  -- the rows after the limit are not selected
  have h_split := List.take_append_drop SessionStore.prefixLimit rows
  conv_rhs => rw [← h_split, List.filter_append]
  have h_drop : (rows.drop SessionStore.prefixLimit).filter
      (fun r => isSelected scope pre r.session) = [] := by
    refine List.filter_eq_nil_iff.mpr fun r hr h_selected => ?_
    rw [isSelected, Bool.and_eq_true] at h_selected
    have h_take := (h r (h_mem r (List.mem_of_mem_drop hr)) h_selected.2).mpr h_selected.1
    rw [← h_split, List.nodup_append] at h_nodup
    exact h_nodup.2.2 r h_take r hr rfl
  rw [h_drop, List.append_nil]
  refine List.filter_congr fun r hr => ?_
  by_cases h_scope : scope.admits r.session = true
  · have h_prefix := (h r (h_mem r (List.mem_of_mem_take hr)) h_scope).mp hr
    rw [isSelected, h_scope, h_prefix, Bool.and_self]
  · rw [Bool.not_eq_true] at h_scope
    rw [isSelected, h_scope, Bool.and_false]

/-- **What a table gives is exactly the selected sessions** when the query returns those rows
of the scope that have the prefix. -/
theorem listFromDb_perm_iff (o : OrderBy SqliteRow) (table : SqliteTable) :
    (table.listFromDb o none scope SessionStore.prefixLimit 0 pre).Perm
        (table.sessions.filter (isSelected scope pre)) ↔
      table.Takes o scope pre := by
  constructor
  · intro h r hr h_scope
    have h_row := (mem_query.mp hr).1
    constructor
    · intro h_take
      have h_listed : r.session ∈ table.sessions.filter (isSelected scope pre) := by
        rw [← h.mem_iff, listFromDb_eq]
        exact List.mem_map_of_mem (List.mem_filter.mpr ⟨h_take, h_scope⟩)
      have h_selected := (List.mem_filter.mp h_listed).2
      rw [isSelected, Bool.and_eq_true] at h_selected
      exact h_selected.1
    · intro h_prefix
      have h_listed : r.session ∈ table.listFromDb o none scope SessionStore.prefixLimit 0 pre := by
        refine h.mem_iff.mpr (List.mem_filter.mpr ⟨List.mem_map_of_mem h_row, ?_⟩)
        rw [isSelected, h_prefix, h_scope, Bool.and_self]
      rw [listFromDb_eq] at h_listed
      obtain ⟨r', h_r', h_eq⟩ := List.mem_map.mp h_listed
      have h_take := (List.mem_filter.mp h_r').1
      have h_query := (o.mem_orderBy _).mp (List.mem_of_mem_take h_take)
      -- the row listed with this session is the row itself
      rw [← row_inj (mem_query.mp h_query).1 h_row h_eq]
      exact h_take
  · intro h
    rw [listFromDb_of_takes h]
    exact selected_perm o table

/-- What a table gives with the prefix is a part of the selected sessions. -/
theorem listFromDb_subperm (o : OrderBy SqliteRow) (table : SqliteTable) :
    ((table.listFromDb o none scope SessionStore.prefixLimit 0 pre).filter fun s =>
      PyStr.startsWith s.sessionId pre).Subperm
        (table.sessions.filter (isSelected scope pre)) := by
  refine List.Subperm.trans ?_ (selected_perm o table).subperm
  rw [listFromDb_eq, List.filter_map, List.filter_filter]
  exact (((List.take_sublist _ _).filter _).map _).subperm

end SqliteTable

/-! ### Several databases -/

/-- **Several databases give exactly the selected sessions** when each that is read does, and
no other holds one. -/
theorem listedDbs_perm_iff (o : OrderBy SqliteRow) (scope : SessionScope) (pre : String)
    (dbs : List (Path × SqliteTable)) :
    (((listedDbs dbs scope).flatMap fun table =>
        table.listFromDb o none scope SessionStore.prefixLimit 0 pre).Perm
      ((SessionStore.sqliteScoped dbs).selected scope pre)) ↔
      ∀ db ∈ dbs,
        if SqliteStore.listed scope db.1 = true then db.2.Takes o scope pre
        else ∀ s ∈ db.2.sessions, isSelected scope pre s = false := by
  set given : Path × SqliteTable → List TimedSession := fun db =>
    if SqliteStore.listed scope db.1 = true then
      db.2.listFromDb o none scope SessionStore.prefixLimit 0 pre
    else [] with h_given
  set wanted : Path × SqliteTable → List TimedSession := fun db =>
    db.2.sessions.filter (isSelected scope pre) with h_wanted
  have h_selected : (SessionStore.sqliteScoped dbs).selected scope pre = dbs.flatMap wanted :=
    List.filter_flatMap
  have h_db : ∀ db : Path × SqliteTable, (given db).Perm (wanted db) ↔
      if SqliteStore.listed scope db.1 = true then db.2.Takes o scope pre
      else ∀ s ∈ db.2.sessions, isSelected scope pre s = false := by
    intro db
    rw [h_given, h_wanted]
    by_cases h_listed : SqliteStore.listed scope db.1 = true
    · simp only [h_listed, if_true]
      exact db.2.listFromDb_perm_iff o
    · simp [h_listed, List.nil_perm, List.filter_eq_nil_iff]
  rw [listedDbs_flatMap, h_selected]
  constructor
  · intro h db h_mem
    -- whatever is returned has the prefix, so that nothing makes up for a missing session
    have h_starts : ∀ db ∈ dbs, ∀ s ∈ given db, PyStr.startsWith s.sessionId pre = true := by
      intro db h_mem s hs
      obtain ⟨db', -, hs'⟩ := List.mem_flatMap.mp (h.mem_iff.mp (List.mem_flatMap.mpr ⟨db, h_mem, hs⟩))
      have h_both := (List.mem_filter.mp hs').2
      rw [isSelected, Bool.and_eq_true] at h_both
      exact h_both.1
    have h_part : ∀ db ∈ dbs, (given db).Subperm (wanted db) := by
      intro db h_mem
      have h_all := List.filter_eq_self.mpr (h_starts db h_mem)
      by_cases h_listed : SqliteStore.listed scope db.1 = true
      · simp only [h_given, h_wanted, h_listed, if_true] at h_all ⊢
        rw [← h_all]
        exact db.2.listFromDb_subperm o
      · simp only [h_given, if_neg h_listed]
        exact List.nil_subperm
    exact (h_db db).mp ((perm_flatMap_iff h_part).mp h db h_mem)
  · intro h
    exact List.Perm.flatMap_left _ fun db h_mem => (h_db db).mpr (h db h_mem)

/-! ### Blobs -/

namespace RedisSessions

variable {scope : SessionScope} {pre : String}

/-- **Loading a list of ids gives exactly the selected sessions** when it has the id of each
once, and that of no other session of the scope. -/
theorem load_perm_iff (st : RedisSessions) (ids : List String) :
    (ids.filterMap (st.load scope)).Perm (st.blobs.filter (isSelected scope pre)) ↔
      ∀ s ∈ st.blobs, scope.admits s = true →
        ids.count s.sessionId = if PyStr.startsWith s.sessionId pre = true then 1 else 0 := by
  have h_nodup : st.blobs.Nodup := List.Nodup.of_map _ st.distinct
  -- both lists are counted: a session is loaded as often as its id is listed
  have h_load : ∀ s, (ids.filterMap (st.load scope)).count s =
      if s ∈ st.blobs ∧ scope.admits s = true then ids.count s.sessionId else 0 := by
    intro s
    rw [List.count_filterMap]
    by_cases h : s ∈ st.blobs ∧ scope.admits s = true
    · rw [if_pos h, List.count]
      refine List.countP_congr fun sessionId _ => ?_
      rw [beq_iff_eq, beq_iff_eq, load_eq_some_iff]
      exact and_iff_left h
    · rw [if_neg h, List.countP_eq_zero]
      intro sessionId _
      rw [beq_iff_eq, load_eq_some_iff]
      exact fun h_found => h h_found.2
  -- and is wanted once, if the scope admits it and its id has the prefix
  have h_wanted : ∀ s, (st.blobs.filter (isSelected scope pre)).count s =
      if s ∈ st.blobs ∧ scope.admits s = true then
        if PyStr.startsWith s.sessionId pre = true then 1 else 0
      else 0 := by
    intro s
    have h_mem : s ∈ st.blobs.filter (isSelected scope pre) ↔
        (s ∈ st.blobs ∧ scope.admits s = true) ∧ PyStr.startsWith s.sessionId pre = true := by
      rw [List.mem_filter, isSelected, Bool.and_eq_true]
      tauto
    rw [(h_nodup.filter _).count]
    by_cases h : s ∈ st.blobs ∧ scope.admits s = true
    · rw [if_pos h]
      exact if_congr (h_mem.trans (and_iff_right h)) rfl rfl
    · rw [if_neg h, if_neg fun h_both => h (h_mem.mp h_both).1]
  rw [List.perm_iff_count]
  constructor
  · intro h s h_mem h_scope
    have h_s := h s
    rw [h_load, h_wanted, if_pos ⟨h_mem, h_scope⟩, if_pos ⟨h_mem, h_scope⟩] at h_s
    exact h_s
  · intro h s
    rw [h_load, h_wanted]
    by_cases h_s : s ∈ st.blobs ∧ scope.admits s = true
    · rw [if_pos h_s, if_pos h_s]
      exact h s h_s.1 h_s.2
    · rw [if_neg h_s, if_neg h_s]

/-- **A listing of the blobs**, by the index or by a scan. -/
theorem prefixIds_perm_iff (glob : String → String → Bool) (st : RedisSessions) :
    ((st.prefixIds glob scope pre).filterMap (st.load scope)).Perm
        (st.blobs.filter (isSelected scope pre)) ↔
      scope.tenantId.isSome = true ∧ scope.userId.isSome = true ∨
        st.ScannedOnce glob scope pre := by
  rw [load_perm_iff]
  -- with both ids given the sorted set of the owner answers, and is always exact
  have h_index : ∀ t u, scope.tenantId = some t → scope.userId = some u →
      ∀ s ∈ st.blobs, scope.admits s = true → (st.prefixIds glob scope pre).count s.sessionId =
        if PyStr.startsWith s.sessionId pre = true then 1 else 0 := by
    intro t u h_t h_u s hs h_scope
    have h_ids : st.prefixIds glob scope pre =
        (st.zrange (RedisStore.indexKey st.keyPrefix (some t) (some u))).filter
          (PyStr.startsWith · pre) := by
      simp only [prefixIds, h_t, h_u]
    rw [h_ids, ((st.zrange_nodup _).filter _).count]
    exact if_congr (List.mem_filter.trans (and_iff_right (mem_zrange h_t h_u hs h_scope))) rfl rfl
  -- otherwise SCAN does, which counts the keys that the pattern matches
  have h_scan : ¬(scope.tenantId.isSome = true ∧ scope.userId.isSome = true) →
      ∀ sessionId, (st.prefixIds glob scope pre).count sessionId =
        st.blobs.countP fun b =>
          glob (st.keyPrefix ++ "session:" ++ pre ++ "*") (st.key b) &&
            decide (lastPiece (st.key b) = sessionId) := by
    intro h_not sessionId
    have h_ids : st.prefixIds glob scope pre = ((st.blobs.map st.key).filter
        (glob (st.keyPrefix ++ "session:" ++ pre ++ "*"))).map lastPiece := by
      unfold prefixIds
      cases h_t : scope.tenantId with
      | none => rfl
      | some t =>
        cases h_u : scope.userId with
        | none => rfl
        | some u => exact absurd ⟨by rw [h_t]; rfl, by rw [h_u]; rfl⟩ h_not
    rw [h_ids, List.count, List.countP_map, List.countP_filter, List.countP_map]
    refine List.countP_congr fun b _ => ?_
    simp [Function.comp_apply, and_comm]
  by_cases h_both : scope.tenantId.isSome = true ∧ scope.userId.isSome = true
  · obtain ⟨t, h_t⟩ := Option.isSome_iff_exists.mp h_both.1
    obtain ⟨u, h_u⟩ := Option.isSome_iff_exists.mp h_both.2
    exact iff_of_true (h_index t u h_t h_u) (Or.inl h_both)
  · rw [or_iff_right h_both]
    refine forall₃_congr fun s _ _ => ?_
    rw [h_scan h_both]

end RedisSessions

/-! ### Listings that keep the contract -/

namespace SessionStore

variable {scope : SessionScope} {pre : String}

/-- A listing has to return the selected sessions of a store however these are held. -/
theorem selected_memory_perm {sessions : List TimedSession} {st : SessionStore}
    (h : sessions.Perm st.contents) :
    ((memory sessions).selected scope pre).Perm (st.selected scope pre) :=
  h.filter _

/-- The in-memory adapter sorts what it selects. -/
theorem listSessionsByPrefix_memory (glob : String → String → Bool) (o : OrderBy SqliteRow)
    (sessions : List TimedSession) :
    (memory sessions).listSessionsByPrefix glob o scope pre =
      sortByCreated ((memory sessions).selected scope pre) := rfl

/-- **Files give exactly the selected sessions** when those of all these are read. -/
theorem readFiles_perm_iff (layout : Layout) (files : List (Path × TimedSession)) :
    ((readFiles layout files scope).filter (isSelected scope pre)).Perm
        ((file layout files).selected scope pre) ↔
      ∀ p ∈ files, isSelected scope pre p.2 = true → layout.listed scope p.1 = true := by
  -- the files read are those listed
  have h_read : (readFiles layout files scope).filter (isSelected scope pre) =
      (files.filter fun p => layout.listed scope p.1 && isSelected scope pre p.2).map Prod.snd := by
    rw [readFiles, List.filter_map, List.filter_filter]
    refine congrArg _ (List.filter_congr fun p _ => ?_)
    rw [Function.comp_apply, Bool.and_comm]
  -- those selected are those of the prefix
  have h_selected : (file layout files).selected scope pre =
      (files.filter fun p => isSelected scope pre p.2).map Prod.snd := by
    rw [selected, contents, List.filter_map]
    rfl
  -- so they are the same if each one selected is listed
  rw [h_read, h_selected]
  exact map_filter_perm_iff

/-- One database: the rows of the query come in the order the sessions were made exactly when
its key agrees with these times. -/
theorem sqliteFlat_ordered_iff {table : SqliteTable} (h : table.Reached scope pre) :
    (∀ o, (table.listFromDb o none scope prefixLimit 0 pre).Pairwise fun s s' =>
        s.createdAt ≤ s'.createdAt) ↔
      table.InOrder scope pre := by
  have h_takes := table.forall_takes_iff.mpr h
  have h_query : ∀ r ∈ table.rows, isSelected scope pre r.session = true →
      r ∈ table.query none scope pre := by
    intro r hr h_selected
    rw [isSelected, Bool.and_eq_true] at h_selected
    exact SqliteTable.mem_query.mpr ⟨hr, queryAdmits_of_selected h_selected.1 h_selected.2⟩
  constructor
  · intro h_all r hr r' hr' h_sel h_sel' h_le
    by_cases h_eq : r = r'
    · rw [h_eq]
    · -- some database returns `r` first
      obtain ⟨o, h_before⟩ := OrderBy.exists_before (h_query r hr h_sel) (h_query r' hr' h_sel')
        h_eq h_le
      have h_filter := h_before.filter fun r => isSelected scope pre r.session
      have h_pair : [r, r'].filter (fun r => isSelected scope pre r.session) = [r, r'] := by
        simp [h_sel, h_sel']
      have h_list := h_all o
      rw [SqliteTable.listFromDb_of_takes (h_takes o)] at h_list
      rw [h_pair] at h_filter
      exact (List.pairwise_cons.mp (h_list.sublist (h_filter.map SqliteRow.session))).1 _
        List.mem_cons_self
  · intro h_order o
    rw [SqliteTable.listFromDb_of_takes (h_takes o), List.pairwise_map, List.pairwise_filter]
    refine (o.ordered (rowKey pre) _).imp_of_mem fun hr hr' h_le h_sel h_sel' => ?_
    have h_row := (SqliteTable.mem_query.mp ((o.mem_orderBy _).mp hr)).1
    have h_row' := (SqliteTable.mem_query.mp ((o.mem_orderBy _).mp hr')).1
    exact h_order _ h_row _ h_row' h_sel h_sel' h_le

/-- **Exactly when a store returns the selected sessions in order.** -/
theorem listsPrefix_iff (glob : String → String → Bool) (st : SessionStore) :
    (∀ o, (st.listSessionsByPrefix glob o scope pre).Perm (st.selected scope pre)) ∧
        (∀ o, (st.listSessionsByPrefix glob o scope pre).Pairwise fun s s' =>
          s.createdAt ≤ s'.createdAt) ↔
      st.ListsPrefix glob scope pre := by
  cases st with
  | memory sessions =>
    exact iff_of_true ⟨fun _ => sortByCreated_perm _, fun _ => pairwise_sortByCreated _⟩ trivial
  -- created_at is sorted by the adapter itself, so only the selection is left
  | file layout files =>
    refine (and_iff_left fun _ => pairwise_sortByCreated _).trans ?_
    have h_list : ∀ o, ((file layout files).listSessionsByPrefix glob o scope pre).Perm
        ((file layout files).selected scope pre) ↔ _ :=
      fun _ => sortByCreated_perm_iff.trans (readFiles_perm_iff layout files)
    rw [forall_congr' h_list]
    exact forall_const _
  -- here LIMIT comes before the sort: order and selection both rest on the SQL text
  | sqliteFlat table =>
    have h_perm : (∀ o, ((sqliteFlat table).listSessionsByPrefix glob o scope pre).Perm
        ((sqliteFlat table).selected scope pre)) ↔ table.Reached scope pre :=
      (forall_congr' fun o => table.listFromDb_perm_iff o).trans table.forall_takes_iff
    rw [h_perm]
    exact and_congr_right fun h => sqliteFlat_ordered_iff h
  | sqliteScoped dbs =>
    refine (and_iff_left fun _ => pairwise_sortByCreated _).trans ?_
    have h_list : ∀ o, ((sqliteScoped dbs).listSessionsByPrefix glob o scope pre).Perm
        ((sqliteScoped dbs).selected scope pre) ↔ _ :=
      fun o => sortByCreated_perm_iff.trans (listedDbs_perm_iff o scope pre dbs)
    rw [forall_congr' h_list, forall_comm]
    refine forall_congr' fun db => ?_
    rw [forall_comm]
    refine forall_congr' fun _ => ?_
    by_cases h_listed : SqliteStore.listed scope db.1 = true
    · simp only [h_listed, if_true]
      exact db.2.forall_takes_iff
    · simp only [h_listed]
      exact forall_const _
  | redis st =>
    refine (and_iff_left fun _ => pairwise_sortByCreated _).trans ?_
    have h_list : ∀ o, ((redis st).listSessionsByPrefix glob o scope pre).Perm
        ((redis st).selected scope pre) ↔ _ :=
      fun _ => sortByCreated_perm_iff.trans (st.prefixIds_perm_iff glob)
    rw [forall_congr' h_list]
    exact forall_const _

/-- **Listings in order are the in-memory adapter's**, however it holds the sessions, exactly
when the selected sessions were made at different times. -/
theorem same_iff {glob : String → String → Bool} {st : SessionStore}
    (h_perm : ∀ o, (st.listSessionsByPrefix glob o scope pre).Perm (st.selected scope pre))
    (h_ordered : ∀ o, (st.listSessionsByPrefix glob o scope pre).Pairwise fun s s' =>
      s.createdAt ≤ s'.createdAt) :
    (∀ o sessions, sessions.Perm st.contents →
        (memory sessions).listSessionsByPrefix glob o scope pre =
          st.listSessionsByPrefix glob o scope pre) ↔
      st.TimesDiffer scope pre := by
  constructor
  · intro h s hs s' hs' h_time
    by_contra h_ne
    -- the in-memory adapter may hold either of the two first
    obtain ⟨h_s, h_sel⟩ := List.mem_filter.mp hs
    obtain ⟨h_s', h_sel'⟩ := List.mem_filter.mp hs'
    set rest := (st.contents.erase s).erase s' with h_rest
    have h_contents : (s :: s' :: rest).Perm st.contents := by
      have h_mem : s' ∈ st.contents.erase s := (List.mem_erase_of_ne (Ne.symm h_ne)).mpr h_s'
      exact ((List.perm_cons_erase h_mem).symm.cons s).trans (List.perm_cons_erase h_s).symm
    have h_swap := (List.Perm.swap s s' rest).trans h_contents
    have h_eq := (h (OrderBy.behind fun _ => False) _ h_contents).trans
      (h (OrderBy.behind fun _ => False) _ h_swap).symm
    rw [listSessionsByPrefix_memory, listSessionsByPrefix_memory] at h_eq
    have h_two : ∀ x y : TimedSession, isSelected scope pre x = true →
        isSelected scope pre y = true → (memory (x :: y :: rest)).selected scope pre =
          x :: y :: (memory rest).selected scope pre := by
      intro x y h_x h_y
      simp [selected, contents, h_x, h_y]
    rw [h_two s s' h_sel h_sel', h_two s' s h_sel' h_sel] at h_eq
    exact h_ne (orderedInsert_swap TimedSession.createdAt h_time _ h_eq)
  · intro h o sessions h_sessions
    have h_memory : (sortByCreated ((memory sessions).selected scope pre)).Perm
        (st.selected scope pre) :=
      (sortByCreated_perm _).trans (selected_memory_perm h_sessions)
    rw [listSessionsByPrefix_memory]
    refine List.Perm.eq_of_pairwise ?_ (pairwise_sortByCreated _) (h_ordered o)
      (h_memory.trans (h_perm o).symm)
    intro s s' hs hs' h_le h_ge
    exact h s (h_memory.mem_iff.mp hs) s' ((h_perm o).mem_iff.mp hs') (le_antisymm h_le h_ge)

end SessionStore

/-- **Exactly when the listings by prefix of a store keep the contract**, for every store of
each adapter, every scope and prefix. -/
theorem prefixListing_iff (glob : String → String → Bool) (scope : SessionScope) (pre : String)
    (st : SessionStore) :
    PrefixListed glob scope pre st ↔
      st.ListsPrefix glob scope pre ∧ st.TimesDiffer scope pre := by
  constructor
  · intro h
    exact ⟨(st.listsPrefix_iff glob).mp ⟨h.exact, h.ordered⟩,
      (SessionStore.same_iff h.exact h.ordered).mp h.same⟩
  · rintro ⟨h_lists, h_times⟩
    obtain ⟨h_exact, h_ordered⟩ := (st.listsPrefix_iff glob).mpr h_lists
    exact ⟨h_exact, h_ordered, (SessionStore.same_iff h_exact h_ordered).mpr h_times⟩

/-- Two stores that hold the same sessions and keep the contract return the same list. -/
theorem listSessionsByPrefix_agree {glob : String → String → Bool} {scope : SessionScope}
    {pre : String} {st st' : SessionStore} (h : PrefixListed glob scope pre st)
    (h' : PrefixListed glob scope pre st') (h_same : st.contents.Perm st'.contents)
    (o : OrderBy SqliteRow) :
    st.listSessionsByPrefix glob o scope pre = st'.listSessionsByPrefix glob o scope pre :=
  (h.same o st.contents (List.Perm.refl _)).symm.trans (h'.same o st.contents h_same)

/-- A member of a chat, and a chat with a letter where the prefix has its underscore. -/
def chatRows : List SqliteRow :=
  [⟨1, { sessionId := "chat_a", createdAt := 1 }⟩, ⟨2, { sessionId := "chatXb", createdAt := 2 }⟩]

theorem chatRows_ids_nodup : (chatRows.map fun r => r.session.sessionId).Nodup := by decide

/-- The database of the two. -/
def twoChats : SqliteTable := ⟨chatRows, chatRows_ids_nodup⟩

/-- The underscore of the group prefix stands for any character. -/
theorem group_prefix_matches_others :
    ¬PrefixListed (fun _ _ => true) {} "chat_" (.sqliteFlat twoChats) := by
  rw [prefixListing_iff]
  rintro ⟨⟨h_reached, -⟩, -⟩
  have h_query : ∀ r ∈ twoChats.rows, r ∈ twoChats.query none {} "chat_" := by decide +kernel
  have h := h_reached ⟨2, { sessionId := "chatXb", createdAt := 2 }⟩
    (h_query _ (by decide +kernel)) (by decide +kernel)
  rw [if_neg (by decide +kernel)] at h
  exact absurd h (by decide +kernel)

end Nexus
