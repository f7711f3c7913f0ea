import NexusAgent.Lib.Perm
import NexusAgent.Storage.Listing

/-!
# Pages of a listing

`list_sessions` returns a page of the sessions of a scope, the one updated last first.

The in-memory and the file adapter, and redis when it scans, filter and sort before they cut out
the page. The other listings cut first. Redis takes a slice of the index, which goes by the time
a session was made, and filters it; a single sqlite database applies `LIMIT` before the company
is looked at; and with a database for each user the databases are read only until there are
enough rows, which need not be the latest.

* `PagedFrom least`: for limits from `least` on, the pages are slices of one list.
* `SessionStore.Pages`: the condition.
* `sessions_paged_iff`: the pages are slices of the right list exactly when it holds.
-/

open Lib

namespace Nexus

/-! ### The contract -/

/-- What a listing has to return. -/
def isMatching (agentId : Option String) (scope : SessionScope) (s : TimedSession) : Bool :=
  agentAdmits agentId s && scope.admits s

/-- The sessions of a store that a listing has to return. -/
def SessionStore.matching (agentId : Option String) (scope : SessionScope) (st : SessionStore) :
    List TimedSession :=
  st.contents.filter (isMatching agentId scope)

/-- For limits from `least` on, every page is the slice of one list: of all sessions that match,
the one updated last first. -/
def PagedFrom (least : ℕ) (o : OrderBy SqliteRow) (agentId : Option String) (scope : SessionScope)
    (st : SessionStore) : Prop :=
  ∃ sessions : List TimedSession, sessions.Perm (st.matching agentId scope) ∧
    (sessions.Pairwise fun s s' => s'.updatedAt ≤ s.updatedAt) ∧
    ∀ limit offset, least ≤ limit →
      st.listSessions o agentId scope limit offset = page limit offset sessions

/-! ### The condition -/

/-- The rows of a listing's query, in the order of the database. -/
def SqliteTable.ordered (o : OrderBy SqliteRow) (agentId : Option String) (scope : SessionScope)
    (table : SqliteTable) : List SqliteRow :=
  o.orderBy (rowKey "") (table.query agentId scope "")

/-- The session of a row that the scope admits. -/
def admitted (scope : SessionScope) (r : SqliteRow) : Option TimedSession :=
  if scope.admits r.session = true then some r.session else none

/-- What a listing by the index finds under an id. -/
def RedisSessions.lookUp (agentId : Option String) (scope : SessionScope) (st : RedisSessions)
    (sessionId : String) : Option TimedSession :=
  (st.load scope sessionId).filter (agentAdmits agentId)

/-- The index of a tenant and a user, newest first. -/
def RedisSessions.newest (st : RedisSessions) (tenantId userId : String) : List String :=
  (st.zrange (RedisStore.indexKey st.keyPrefix (some tenantId) (some userId))).reverse

/-- A row that the scope admits: which of the databases read it is in, and how many rows of the
query come before it there. -/
structure Placed where
  table : ℕ
  position : ℕ
  session : TimedSession
  deriving DecidableEq, Repr

/-- The admitted rows of a table, from a position on. -/
def placedRows (scope : SessionScope) (table : ℕ) : ℕ → List SqliteRow → List Placed
  | _, [] => []
  | position, r :: rows =>
    ((admitted scope r).map (Placed.mk table position)).toList ++
      placedRows scope table (position + 1) rows

/-- The admitted rows of the databases, from a number on. -/
def placedFrom (o : OrderBy SqliteRow) (agentId : Option String) (scope : SessionScope) :
    ℕ → List SqliteTable → List Placed
  | _, [] => []
  | number, table :: tables =>
    placedRows scope number 0 (table.ordered o agentId scope) ++
      placedFrom o agentId scope (number + 1) tables

/-- Rows in the order of a listing. -/
def latestFirst (placed : List Placed) : List Placed :=
  placed.insertionSort fun x y => y.session.updatedAt ≤ x.session.updatedAt

/-- A row is read when `needed` results are: it is among the first rows of its database, and
those of the databases before are not enough. -/
def Placed.reached (x : Placed) (placed : List Placed) (needed : ℕ) : Bool :=
  x.position < needed &&
    placed.countP (fun y => y.table < x.table && y.position < needed) < needed

/-- However many results are needed, the latest ones are read. -/
def LatestReached (placed : List Placed) : Prop :=
  ∀ needed, ∀ x ∈ (latestFirst placed).take needed, x.reached placed needed = true

/-- When the pages of a listing are slices of the right list. -/
def SessionStore.Pages (o : OrderBy SqliteRow) (agentId : Option String) (scope : SessionScope) :
    SessionStore → Prop
  | .memory _ => True
  | .file layout files =>
    ∀ p ∈ files, isMatching agentId scope p.2 = true → layout.listed scope p.1 = true
  | .sqliteFlat table => FoundFirst (admitted scope) (table.ordered o agentId scope)
  | .sqliteScoped dbs =>
    (∀ db ∈ dbs, SqliteStore.listed scope db.1 = false →
      ∀ s ∈ db.2.sessions, isMatching agentId scope s = false) ∧
      LatestReached (placedFrom o agentId scope 0 (listedDbs dbs scope))
  | .redis st =>
    ∀ t u, scope.tenantId = some t → scope.userId = some u →
      FoundFirst (st.lookUp agentId scope) (st.newest t u) ∧
        ((st.newest t u).filterMap (st.lookUp agentId scope)).Pairwise fun s s' =>
          s'.updatedAt ≤ s.updatedAt

/-- Whether a listing takes a slice of a sorted set. -/
def SessionStore.ByIndex (scope : SessionScope) : SessionStore → Prop
  | .redis _ => scope.tenantId.isSome = true ∧ scope.userId.isSome = true
  | _ => False

/-! ### Lists with the same pages -/

/-- Lists with the same pages are the same. -/
theorem eq_of_pages (least : ℕ) {xs ys : List TimedSession}
    (h : ∀ limit offset, least ≤ limit → page limit offset xs = page limit offset ys) : xs = ys := by
  have h_all := h (least + xs.length + ys.length) 0 (by omega)
  rw [page, page, List.drop_zero, List.drop_zero, List.take_of_length_le (by omega),
    List.take_of_length_le (by omega)] at h_all
  exact h_all

section

variable {o : OrderBy SqliteRow} {agentId : Option String} {scope : SessionScope}

/-- **Listings that sort before they cut** have the right pages when they read the sessions that
match. -/
theorem pagedFrom_of_sorted (st : SessionStore) (least : ℕ) (sessions : List TimedSession)
    (h : ∀ limit offset, st.listSessions o agentId scope limit offset =
      page limit offset (sortByUpdated sessions)) :
    PagedFrom least o agentId scope st ↔ sessions.Perm (st.matching agentId scope) := by
  -- the pages determine the list
  constructor
  · rintro ⟨sessions', h_perm, -, h_pages⟩
    have h_eq : sortByUpdated sessions = sessions' := by
      refine eq_of_pages least fun limit offset h_limit => ?_
      rw [← h, h_pages limit offset h_limit]
    rw [← h_eq] at h_perm
    exact (sortByUpdated_perm sessions).symm.trans h_perm
  · -- the sorted sessions are such a list
    intro h_perm
    exact ⟨sortByUpdated sessions, (sortByUpdated_perm sessions).trans h_perm,
      pairwise_sortByUpdated sessions, fun limit offset _ => h limit offset⟩

/-- **Listings that cut before they filter** have the right pages when what they keep comes
first, and in order. -/
theorem pagedFrom_of_lookup (st : SessionStore) {α : Type} {f : α → Option TimedSession} {xs : List α}
    (h : ∀ limit offset, 1 ≤ limit → st.listSessions o agentId scope limit offset =
      (page limit offset xs).filterMap f)
    (h_perm : (xs.filterMap f).Perm (st.matching agentId scope)) :
    PagedFrom 1 o agentId scope st ↔
      FoundFirst f xs ∧ (xs.filterMap f).Pairwise fun s s' => s'.updatedAt ≤ s.updatedAt := by
  -- a page skips what is not found, so it must come last
  constructor
  · rintro ⟨sessions, -, h_sorted, h_pages⟩
    have h_found : FoundFirst f xs ∧ xs.filterMap f = sessions := by
      refine pages_filterMap_iff.mp fun limit offset h_limit => ?_
      rw [← h limit offset h_limit, h_pages limit offset h_limit]
    exact ⟨h_found.1, h_found.2.symm ▸ h_sorted⟩
  · -- then each page is one of the list of those found
    rintro ⟨h_first, h_sorted⟩
    refine ⟨xs.filterMap f, h_perm, h_sorted, fun limit offset h_limit => ?_⟩
    rw [h limit offset h_limit]
    exact filterMap_page h_first limit offset

end

/-! ### One database -/

section

variable {agentId : Option String} {scope : SessionScope}

/-- A session that matches passes the query of a listing. -/
theorem queryAdmits_of_matching {r : SqliteRow} (h : isMatching agentId scope r.session = true) :
    queryAdmits agentId scope "" r = true := by
  rw [isMatching, Bool.and_eq_true, SessionScope.admits, Bool.and_eq_true, Bool.and_eq_true] at h
  obtain ⟨h_agent, ⟨h_tenant, -⟩, h_user⟩ := h
  unfold queryAdmits
  rw [sqlFilter_agent, h_agent, sqlFilter_of_scopeAdmits h_tenant, sqlFilter_of_scopeAdmits h_user]
  rfl

/-- The rows admitted are those in scope. -/
theorem filterMap_admitted (rows : List SqliteRow) :
    rows.filterMap (admitted scope) =
      (rows.filter fun r => scope.admits r.session).map SqliteRow.session := by
  induction rows with
  | nil => rfl
  | cons r rows ih =>
    by_cases h : scope.admits r.session = true
    · rw [List.filterMap_cons_some (b := r.session) (by rw [admitted, if_pos h]), ih,
        List.filter_cons, if_pos h, List.map_cons]
    · rw [List.filterMap_cons_none (by rw [admitted, if_neg h]), ih, List.filter_cons, if_neg h]

/-- A page of one database: a slice of the rows, of which the admitted ones are kept. -/
theorem SqliteTable.listFromDb_page (o : OrderBy SqliteRow) (table : SqliteTable)
    (limit offset : ℕ) :
    table.listFromDb o agentId scope limit offset "" =
      (page limit offset (table.ordered o agentId scope)).filterMap (admitted scope) := by
  rw [filterMap_admitted, listFromDb, List.filter_map]
  rfl

/-- The admitted rows of a query are the sessions of the table that match. -/
theorem SqliteTable.admitted_perm (o : OrderBy SqliteRow) (table : SqliteTable) :
    ((table.ordered o agentId scope).filterMap (admitted scope)).Perm
      (table.sessions.filter (isMatching agentId scope)) := by
  refine List.Perm.trans ?_ (table.query_perm o fun r h => queryAdmits_of_matching h)
  rw [filterMap_admitted, ordered]
  refine List.Perm.map _ (List.Perm.of_eq (List.filter_congr fun r hr => ?_))
  -- the query has asked for the agent
  have h_query := (List.mem_filter.mp ((o.mem_orderBy _).mp hr)).2
  unfold queryAdmits at h_query
  rw [Bool.and_eq_true, Bool.and_eq_true, Bool.and_eq_true, sqlFilter_agent] at h_query
  rw [isMatching, h_query.1.1.1, Bool.true_and]

/-- The rows of a query come with the one updated last first. -/
theorem SqliteTable.pairwise_ordered (o : OrderBy SqliteRow) (table : SqliteTable) :
    (table.ordered o agentId scope).Pairwise fun r r' =>
      r'.session.updatedAt ≤ r.session.updatedAt := by
  refine (o.ordered _ _).imp fun {r r'} h => ?_
  simpa [rowKey] using h

/-- The session admitted is that of its row. -/
theorem admitted_eq_some {r : SqliteRow} {s : TimedSession} (h : admitted scope r = some s) :
    r.session = s := by
  unfold admitted at h
  split_ifs at h
  exact Option.some.inj h

/-- The rows admitted are in the order of the query. -/
theorem SqliteTable.pairwise_admitted (o : OrderBy SqliteRow) (table : SqliteTable) :
    ((table.ordered o agentId scope).filterMap (admitted scope)).Pairwise fun s s' =>
      s'.updatedAt ≤ s.updatedAt := by
  refine List.pairwise_filterMap.mpr ((table.pairwise_ordered o).imp fun h s hs s' hs' => ?_)
  rw [← admitted_eq_some hs, ← admitted_eq_some hs']
  exact h

/-! ### A database for each user -/

/-- The sessions of the rows among the first of a table. -/
theorem placedRows_filter (table position needed : ℕ) (rows : List SqliteRow) :
    ((placedRows scope table position rows).filter fun x => x.position < needed).map
        Placed.session =
      (rows.take (needed - position)).filterMap (admitted scope) := by
  -- by induction on the rows, the position counting up
  induction rows generalizing position with
  | nil => simp [placedRows]
  | cons r rows ih =>
    rw [placedRows, List.filter_append, List.map_append, ih]
    -- this row is among those needed
    by_cases h : position < needed
    · obtain ⟨k, hk⟩ := Nat.exists_eq_succ_of_ne_zero (Nat.sub_ne_zero_of_lt h)
      have h_k : needed - (position + 1) = k := by omega
      rw [hk, h_k, List.take_succ_cons]
      cases h_r : admitted scope r with
      | none => simp [h_r]
      | some s => simp [h_r, h]
    · -- or it is beyond them, as are all that follow
      have h_k : needed - (position + 1) = 0 := by omega
      rw [h_k, Nat.sub_eq_zero_of_le (not_lt.mp h)]
      cases h_r : admitted scope r with
      | none => simp
      | some s => simp [h]

/-- The sessions placed are the rows admitted. -/
theorem placedRows_map (table position : ℕ) (rows : List SqliteRow) :
    (placedRows scope table position rows).map Placed.session =
      rows.filterMap (admitted scope) := by
  induction rows generalizing position with
  | nil => rfl
  | cons r rows ih =>
    rw [placedRows, List.map_append, ih]
    cases h_r : admitted scope r <;> simp [h_r]

/-- Each is in its table. -/
theorem table_of_mem_placedRows {table position : ℕ} {rows : List SqliteRow} {x : Placed}
    (h : x ∈ placedRows scope table position rows) : x.table = table := by
  induction rows generalizing position with
  | nil => simp [placedRows] at h
  | cons r rows ih =>
    rw [placedRows, List.mem_append] at h
    rcases h with h | h
    · obtain ⟨s, -, rfl⟩ := Option.map_eq_some_iff.mp (Option.mem_toList.mp h)
      rfl
    · exact ih h

/-- Tables are numbered upwards. -/
theorem le_table_of_mem_placedFrom {o : OrderBy SqliteRow} {number : ℕ}
    {tables : List SqliteTable} {x : Placed} (h : x ∈ placedFrom o agentId scope number tables) :
    number ≤ x.table := by
  induction tables generalizing number with
  | nil => simp [placedFrom] at h
  | cons table tables ih =>
    rw [placedFrom, List.mem_append] at h
    rcases h with h | h
    · exact (table_of_mem_placedRows h).ge
    · exact (Nat.le_succ number).trans (ih h)

/-- **What the loop over the databases collects**: the rows that are reached. -/
theorem collectBatches_eq (o : OrderBy SqliteRow) (needed number : ℕ) (tables : List SqliteTable)
    {results : List TimedSession} (h : results.length < needed) :
    collectBatches needed results
        (tables.map fun table => table.listFromDb o agentId scope needed 0 "") =
      results ++ ((placedFrom o agentId scope number tables).filter fun x =>
        x.position < needed && results.length +
          (placedFrom o agentId scope number tables).countP
            (fun y => y.table < x.table && y.position < needed) < needed).map Placed.session := by
  induction tables generalizing number results with
  | nil => simp [collectBatches, placedFrom]
  | cons table tables ih =>
    set batch := table.listFromDb o agentId scope needed 0 "" with h_batch
    set here := placedRows scope number 0 (table.ordered o agentId scope) with h_here
    set there := placedFrom o agentId scope (number + 1) tables with h_there
    have h_first : (here.filter fun x => x.position < needed).map Placed.session = batch := by
      rw [h_here, placedRows_filter, h_batch, SqliteTable.listFromDb_page, page, List.drop_zero,
        Nat.sub_zero]
    have h_len : here.countP (fun x => x.position < needed) = batch.length := by
      rw [← h_first, List.length_map, List.countP_eq_length_filter]
    -- nothing comes before the rows of this table, and all of its batch before the others
    have h_before_here : ∀ x ∈ here, (here ++ there).countP
        (fun y => y.table < x.table && y.position < needed) = 0 := by
      intro x hx
      rw [List.countP_eq_zero]
      intro y hy
      have h_x : x.table = number := table_of_mem_placedRows hx
      have h_y : number ≤ y.table := by
        rcases List.mem_append.mp hy with hy | hy
        · exact (table_of_mem_placedRows hy).ge
        · exact (Nat.le_succ number).trans (le_table_of_mem_placedFrom hy)
      have h_not : ¬y.table < x.table := by omega
      simp [h_not]
    have h_before_there : ∀ x ∈ there, (here ++ there).countP
        (fun y => y.table < x.table && y.position < needed) =
          batch.length + there.countP fun y => y.table < x.table && y.position < needed := by
      intro x hx
      rw [List.countP_append, ← h_len]
      congr 1
      refine List.countP_congr fun y hy => ?_
      have h_x : number + 1 ≤ x.table := le_table_of_mem_placedFrom hx
      have h_y : y.table = number := table_of_mem_placedRows hy
      have h_lt : y.table < x.table := by omega
      simp [h_lt]
    have h_here_filter : here.filter (fun x => x.position < needed && results.length +
        (here ++ there).countP (fun y => y.table < x.table && y.position < needed) < needed) =
          here.filter fun x => x.position < needed := by
      refine List.filter_congr fun x hx => ?_
      rw [h_before_here x hx, Nat.add_zero, decide_eq_true h, Bool.and_true]
    have h_there_filter : there.filter (fun x => x.position < needed && results.length +
        (here ++ there).countP (fun y => y.table < x.table && y.position < needed) < needed) =
          there.filter fun x => x.position < needed && (results ++ batch).length +
            there.countP (fun y => y.table < x.table && y.position < needed) < needed := by
      refine List.filter_congr fun x hx => ?_
      rw [h_before_there x hx, List.length_append, Nat.add_assoc]
    rw [placedFrom, List.filter_append, List.map_append, h_here_filter, h_there_filter, h_first,
      List.map_cons, collectBatches]
    by_cases h_enough : needed ≤ (results ++ batch).length
    · have h_none : there.filter (fun x => x.position < needed && (results ++ batch).length +
          there.countP (fun y => y.table < x.table && y.position < needed) < needed) = [] := by
        refine List.filter_eq_nil_iff.mpr fun x _ => ?_
        have h_not : ¬((results ++ batch).length +
            there.countP (fun y => y.table < x.table && y.position < needed) < needed) := by omega
        simp only [h_not, decide_false, Bool.and_false]
        exact Bool.false_ne_true
      rw [if_pos h_enough, h_none, List.map_nil, List.append_nil]
    · rw [if_neg h_enough, ih (number + 1) (not_le.mp h_enough), List.append_assoc]

/-- All admitted rows are the sessions of the tables that match. -/
theorem placedFrom_perm (o : OrderBy SqliteRow) (number : ℕ) (tables : List SqliteTable) :
    ((placedFrom o agentId scope number tables).map Placed.session).Perm
      (tables.flatMap fun table => table.sessions.filter (isMatching agentId scope)) := by
  induction tables generalizing number with
  | nil => exact List.Perm.refl _
  | cons table tables ih =>
    rw [placedFrom, List.map_append, placedRows_map, List.flatMap_cons]
    exact (table.admitted_perm o).append (ih (number + 1))

theorem total_latest : Std.Total fun x y : Placed => y.session.updatedAt ≤ x.session.updatedAt :=
  ⟨fun x y => le_total y.session.updatedAt x.session.updatedAt⟩

theorem trans_latest : IsTrans Placed fun x y => y.session.updatedAt ≤ x.session.updatedAt :=
  ⟨fun _ _ _ h h' => le_trans h' h⟩

theorem latestFirst_perm (placed : List Placed) : (latestFirst placed).Perm placed :=
  List.perm_insertionSort _ _

/-- Sorting sessions is sorting their rows. -/
theorem sortByUpdated_map (placed : List Placed) :
    sortByUpdated (placed.map Placed.session) = (latestFirst placed).map Placed.session :=
  (List.map_insertionSort _ _ Placed.session placed fun _ _ _ _ => Iff.rfl).symm

/-- The rows that are reached when enough results are needed are all of them. -/
theorem exists_all_reached (placed : List Placed) :
    ∃ least, ∀ needed, least ≤ needed → ∀ x ∈ placed, x.reached placed needed = true := by
  -- no position is beyond the last one
  obtain ⟨last, h_last⟩ : ∃ last, ∀ x ∈ placed, x.position ≤ last := by
    induction placed with
    | nil => exact ⟨0, fun x hx => absurd hx List.not_mem_nil⟩
    | cons y placed ih =>
      obtain ⟨last, h_last⟩ := ih
      refine ⟨max y.position last, List.forall_mem_cons.mpr ⟨le_max_left _ _, fun x hx => ?_⟩⟩
      exact (h_last x hx).trans (le_max_right _ _)
  -- and no count is above the number of rows
  refine ⟨last + placed.length + 1, fun needed h x hx => ?_⟩
  have h_position := h_last x hx
  have h_count := placed.countP_le_length (p := fun y => y.table < x.table && y.position < needed)
  rw [Placed.reached, Bool.and_eq_true, decide_eq_true_eq, decide_eq_true_eq]
  exact ⟨by omega, by omega⟩

/-- A listing of several databases is a page of the rows that are reached. -/
theorem listSessions_scoped (o : OrderBy SqliteRow) (dbs : List (Path × SqliteTable))
    (limit offset : ℕ) :
    (SessionStore.sqliteScoped dbs).listSessions o agentId scope limit offset =
      page limit offset (((latestFirst (placedFrom o agentId scope 0 (listedDbs dbs scope))).filter
        fun x => x.reached (placedFrom o agentId scope 0 (listedDbs dbs scope))
          (offset + limit)).map Placed.session) := by
  set placed := placedFrom o agentId scope 0 (listedDbs dbs scope) with h_placed
  have := total_latest
  have := trans_latest
  rw [latestFirst, ← insertionSort_filter]
  show page limit offset (sortByUpdated (collectBatches (offset + limit) [] _)) = _
  by_cases h_zero : offset + limit = 0
  · -- no result is needed, and the page is empty
    obtain ⟨rfl, rfl⟩ := Nat.add_eq_zero_iff.mp h_zero
    rw [page_zero, page_zero]
  · rw [Nat.add_comm limit offset,
      collectBatches_eq o (offset + limit) 0 _ (by simpa using Nat.pos_of_ne_zero h_zero),
      List.nil_append, sortByUpdated_map]
    simp only [List.length_nil, Nat.zero_add]
    rfl

/-- **A listing of several databases has the right pages** when the latest rows are reached. -/
theorem pagedFrom_scoped {o : OrderBy SqliteRow} {dbs : List (Path × SqliteTable)}
    (h : (SessionStore.sqliteScoped dbs).Pages o agentId scope) (least : ℕ) :
    PagedFrom least o agentId scope (.sqliteScoped dbs) := by
  obtain ⟨h_unread, h_latest⟩ := h
  set placed := placedFrom o agentId scope 0 (listedDbs dbs scope) with h_placed
  -- a database that is not read has no session of the scope
  have h_matching : (SessionStore.sqliteScoped dbs).matching agentId scope =
      (listedDbs dbs scope).flatMap fun table => table.sessions.filter (isMatching agentId scope) := by
    rw [listedDbs_flatMap, SessionStore.matching, SessionStore.contents, List.filter_flatMap]
    refine List.flatMap_congr fun db h_db => ?_
    by_cases h_listed : SqliteStore.listed scope db.1 = true
    · rw [if_pos h_listed]
    · rw [Bool.not_eq_true] at h_listed
      rw [if_neg (by rw [h_listed]; exact Bool.false_ne_true), List.filter_eq_nil_iff]
      intro s hs
      rw [h_unread db h_db h_listed s hs]
      exact Bool.false_ne_true
  refine ⟨(latestFirst placed).map Placed.session, ?_, ?_, fun limit offset _ => ?_⟩
  · rw [h_matching]
    exact ((latestFirst_perm placed).map _).trans (placedFrom_perm o 0 _)
  · rw [← sortByUpdated_map]
    exact pairwise_sortByUpdated _
  · -- what every database leaves out is later than the page
    have h_first := take_filter_of_forall (h_latest (offset + limit))
    rw [listSessions_scoped, page_eq_drop_take, page_eq_drop_take, ← List.map_take, ← List.map_take,
      h_first]

/-- **Only then**, when no session is stored twice. -/
theorem pages_scoped {o : OrderBy SqliteRow} {dbs : List (Path × SqliteTable)}
    (h_once : (SessionStore.sqliteScoped dbs).contents.Nodup)
    (h : PagedFrom 1 o agentId scope (.sqliteScoped dbs)) :
    (SessionStore.sqliteScoped dbs).Pages o agentId scope := by
  obtain ⟨sessions, h_perm, -, h_pages⟩ := h
  set placed := placedFrom o agentId scope 0 (listedDbs dbs scope) with h_placed
  -- with enough results needed, everything is read
  have h_all : sessions = (latestFirst placed).map Placed.session := by
    obtain ⟨least, h_least⟩ := exists_all_reached placed
    have h_page := h_pages (least + sessions.length + placed.length + 1) 0 (by omega)
    have h_filter : (latestFirst placed).filter (fun x => x.reached placed
        (0 + (least + sessions.length + placed.length + 1))) = latestFirst placed := by
      refine List.filter_eq_self.mpr fun x hx => ?_
      exact h_least _ (by omega) x ((latestFirst_perm placed).mem_iff.mp hx)
    have h_len := (latestFirst_perm placed).length_eq
    rw [listSessions_scoped, ← h_placed, h_filter, page, page, List.drop_zero, List.drop_zero,
      List.take_of_length_le (by rw [List.length_map]; omega),
      List.take_of_length_le (by omega)] at h_page
    exact h_page.symm
  have h_nodup : ((latestFirst placed).map Placed.session).Nodup := by
    rw [← h_all, h_perm.nodup_iff]
    exact h_once.filter _
  constructor
  · intro db h_db h_listed s hs
    have h_parts : ∀ db ∈ dbs,
        (if SqliteStore.listed scope db.1 = true then
          db.2.sessions.filter (isMatching agentId scope) else []).Subperm
          (db.2.sessions.filter (isMatching agentId scope)) := by
      intro db _
      split_ifs
      · exact List.Subperm.refl _
      · exact List.nil_subperm
    have h_flat : (dbs.flatMap fun db => if SqliteStore.listed scope db.1 = true then
        db.2.sessions.filter (isMatching agentId scope) else []).Perm
          (dbs.flatMap fun db => db.2.sessions.filter (isMatching agentId scope)) := by
      rw [← List.filter_flatMap, ← listedDbs_flatMap dbs scope fun table =>
        table.sessions.filter (isMatching agentId scope)]
      refine ((placedFrom_perm o 0 _).symm.trans ?_).trans h_perm
      rw [h_all]
      exact ((latestFirst_perm placed).map _).symm
    have h_db_perm := (perm_flatMap_iff h_parts).mp h_flat db h_db
    rw [if_neg (by rw [h_listed]; exact Bool.false_ne_true)] at h_db_perm
    have h_none := List.filter_eq_nil_iff.mp h_db_perm.symm.eq_nil s hs
    rwa [Bool.not_eq_true] at h_none
  · intro needed x hx
    -- the page of the first results holds the session of the row, and of no other one
    have h_pos : 1 ≤ needed := by
      by_contra h_zero
      rw [Nat.lt_one_iff.mp (not_le.mp h_zero), List.take_zero] at hx
      exact absurd hx List.not_mem_nil
    have h_page := h_pages needed 0 h_pos
    rw [listSessions_scoped, ← h_placed, Nat.zero_add, h_all, page, page, List.drop_zero,
      List.drop_zero, ← List.map_take, ← List.map_take] at h_page
    have h_mem := List.mem_map_of_mem (f := Placed.session) hx
    rw [← h_page] at h_mem
    obtain ⟨y, h_y, h_eq⟩ := List.mem_map.mp h_mem
    obtain ⟨h_y_mem, h_reached⟩ := List.mem_filter.mp (List.mem_of_mem_take h_y)
    rwa [List.inj_on_of_nodup_map h_nodup h_y_mem (List.mem_of_mem_take hx) h_eq] at h_reached

/-! ### The index -/

namespace RedisSessions

/-- What a listing by the index finds under an id. -/
theorem lookUp_eq_some_iff {st : RedisSessions} {sessionId : String} {s : TimedSession} :
    st.lookUp agentId scope sessionId = some s ↔
      sessionId = s.sessionId ∧ s ∈ st.blobs ∧ isMatching agentId scope s = true := by
  rw [lookUp, Option.filter_eq_some_iff, load_eq_some_iff, isMatching, Bool.and_eq_true]
  tauto

theorem newest_perm (st : RedisSessions) (t u : String) :
    (st.newest t u).Perm (st.zrange (RedisStore.indexKey st.keyPrefix (some t) (some u))) :=
  List.reverse_perm _

/-- Every session that matches is found by the index, once. -/
theorem lookUp_perm (st : RedisSessions) (agentId : Option String) {t u : String} (h_t : scope.tenantId = some t)
    (h_u : scope.userId = some u) :
    ((st.newest t u).filterMap (st.lookUp agentId scope)).Perm
      (st.blobs.filter (isMatching agentId scope)) := by
  -- neither the blobs nor the ids in an index repeat
  have h_blobs : st.blobs.Nodup := List.Nodup.of_map _ st.distinct
  have h_ids : (st.newest t u).Nodup := (st.newest_perm t u).nodup_iff.mpr (st.zrange_nodup _)
  have h_found : ((st.newest t u).filterMap (st.lookUp agentId scope)).Nodup := by
    refine h_ids.filterMap fun a b s hs hs' => ?_
    rw [(lookUp_eq_some_iff.mp hs).1, (lookUp_eq_some_iff.mp hs').1]
  -- so it is enough that both have the same members
  refine (List.perm_ext_iff_of_nodup h_found (h_blobs.filter _)).mpr fun s => ?_
  rw [List.mem_filterMap, List.mem_filter]
  constructor
  · rintro ⟨sessionId, -, hs⟩
    exact (lookUp_eq_some_iff.mp hs).2
  · -- the session's id is in the index of its scope
    rintro ⟨h_mem, h_match⟩
    have h_scope := h_match
    rw [isMatching, Bool.and_eq_true] at h_scope
    refine ⟨s.sessionId, ?_, lookUp_eq_some_iff.mpr ⟨rfl, h_mem, h_match⟩⟩
    rw [(st.newest_perm t u).mem_iff]
    exact mem_zrange h_t h_u h_mem h_scope.2

/-- A listing by the index: a slice of it, except that the empty page from the start is all. -/
theorem listSessions_index (st : RedisSessions) (agentId : Option String) {t u : String} (h_t : scope.tenantId = some t)
    (h_u : scope.userId = some u) (limit offset : ℕ) :
    st.listSessions agentId scope limit offset =
      (if offset + limit = 0 then st.newest t u else page limit offset (st.newest t u)).filterMap
        (st.lookUp agentId scope) := by
  -- the range read is the page, or everything
  have h_range : st.zrevrange (RedisStore.indexKey st.keyPrefix (some t) (some u)) offset
      (offset + limit - 1) =
        if offset + limit = 0 then st.newest t u else page limit offset (st.newest t u) := by
    unfold zrevrange
    by_cases h : offset + limit = 0
    · obtain ⟨rfl, rfl⟩ := Nat.add_eq_zero_iff.mp h
      rfl
    · have h_stop : ((offset : ℤ) + limit - 1) ≠ -1 := by omega
      have h_nat : ((offset : ℤ) + limit - 1 + 1).toNat = offset + limit := by omega
      rw [if_neg h, if_neg h_stop, h_nat, page_eq_drop_take]
      rfl
  -- each id is looked up, and then the agent is compared
  have h_list : st.listSessions agentId scope limit offset =
      ((st.zrevrange (RedisStore.indexKey st.keyPrefix (some t) (some u)) offset
        (offset + limit - 1)).filterMap (st.load scope)).filter (agentAdmits agentId) := by
    simp only [listSessions, h_t, h_u]
  rw [h_list, h_range, List.filter_filterMap]
  rfl

/-- A listing by a scan. -/
theorem listSessions_scan {st : RedisSessions}
    (h : ¬(scope.tenantId.isSome = true ∧ scope.userId.isSome = true)) (limit offset : ℕ) :
    st.listSessions agentId scope limit offset =
      page limit offset (sortByUpdated (st.blobs.filter (isMatching agentId scope))) := by
  unfold listSessions
  cases h_t : scope.tenantId with
  | none => rfl
  | some t =>
    cases h_u : scope.userId with
    | none => rfl
    | some u => exact absurd ⟨by rw [h_t]; rfl, by rw [h_u]; rfl⟩ h

end RedisSessions

/-! ### All adapters -/

namespace SessionStore

/-- A file listing has the right pages when the files that match are read. -/
theorem pagedFrom_file (least : ℕ) (o : OrderBy SqliteRow) (layout : Layout)
    (files : List (Path × TimedSession)) :
    PagedFrom least o agentId scope (.file layout files) ↔
      (file layout files).Pages o agentId scope := by
  -- the files read are those listed
  have h_read : (readFiles layout files scope).filter (isMatching agentId scope) =
      (files.filter fun p => layout.listed scope p.1 && isMatching agentId scope p.2).map
        Prod.snd := by
    rw [readFiles, List.filter_map, List.filter_filter]
    refine congrArg _ (List.filter_congr fun p _ => ?_)
    rw [Function.comp_apply, Bool.and_comm]
  -- the files that match are those of the scope
  have h_matching : (file layout files).matching agentId scope =
      (files.filter fun p => isMatching agentId scope p.2).map Prod.snd := by
    rw [matching, contents, List.filter_map]
    rfl
  -- the sorted listing is paged well if these are the same
  rw [pagedFrom_of_sorted (.file layout files) least ((readFiles layout files scope).filter
    (isMatching agentId scope)) fun _ _ => rfl, h_read, h_matching]
  exact map_filter_perm_iff

/-- One database has the right pages when the rows it drops come last. -/
theorem pagedFrom_flat (o : OrderBy SqliteRow) (table : SqliteTable) :
    PagedFrom 1 o agentId scope (.sqliteFlat table) ↔
      (sqliteFlat table).Pages o agentId scope := by
  refine (pagedFrom_of_lookup (.sqliteFlat table)
    (fun limit offset _ => table.listFromDb_page o limit offset) (table.admitted_perm o)).trans ?_
  exact and_iff_left (table.pairwise_admitted o)

/-- Redis has the right pages when it scans, or what matches comes first in the index. -/
theorem pagedFrom_redis (o : OrderBy SqliteRow) (st : RedisSessions) :
    PagedFrom 1 o agentId scope (.redis st) ↔ (redis st).Pages o agentId scope := by
  by_cases h : scope.tenantId.isSome = true ∧ scope.userId.isSome = true
  · obtain ⟨t, h_t⟩ := Option.isSome_iff_exists.mp h.1
    obtain ⟨u, h_u⟩ := Option.isSome_iff_exists.mp h.2
    have h_list : ∀ limit offset, 1 ≤ limit →
        (redis st).listSessions o agentId scope limit offset =
          (page limit offset (st.newest t u)).filterMap (st.lookUp agentId scope) := by
      intro limit offset h_limit
      refine (st.listSessions_index agentId h_t h_u limit offset).trans ?_
      rw [if_neg (by omega)]
    rw [pagedFrom_of_lookup (.redis st) h_list (st.lookUp_perm agentId h_t h_u)]
    constructor
    · intro h_both t' u' h_t' h_u'
      rw [h_t] at h_t'
      rw [h_u] at h_u'
      obtain rfl := Option.some.inj h_t'
      obtain rfl := Option.some.inj h_u'
      exact h_both
    · exact fun h_all => h_all t u h_t h_u
  · -- without an owner the keys are scanned and sorted, which is always right
    refine (pagedFrom_of_sorted (.redis st) 1 _ fun limit offset =>
      RedisSessions.listSessions_scan h limit offset).trans ?_
    refine iff_of_true (List.Perm.refl _) fun t u h_t h_u => ?_
    exact absurd ⟨by rw [h_t]; rfl, by rw [h_u]; rfl⟩ h

/-- Pages without a limit of zero. -/
theorem pagedFrom_one_of_pages {o : OrderBy SqliteRow} {st : SessionStore}
    (h : st.Pages o agentId scope) : PagedFrom 1 o agentId scope st := by
  cases st with
  | memory sessions => exact (pagedFrom_of_sorted _ 1 _ fun _ _ => rfl).mpr (List.Perm.refl _)
  | file layout files => exact (pagedFrom_file 1 o layout files).mpr h
  | sqliteFlat table => exact (pagedFrom_flat o table).mpr h
  | sqliteScoped dbs => exact pagedFrom_scoped h 1
  | redis st => exact (pagedFrom_redis o st).mpr h

/-- A list that pages well pages well from the limit one on. -/
theorem pages_of_pagedFrom_one {o : OrderBy SqliteRow} {st : SessionStore}
    (h_once : st.contents.Nodup) (h : PagedFrom 1 o agentId scope st) :
    st.Pages o agentId scope := by
  cases st with
  | memory sessions => exact trivial
  | file layout files => exact (pagedFrom_file 1 o layout files).mp h
  | sqliteFlat table => exact (pagedFrom_flat o table).mp h
  | sqliteScoped dbs => exact pages_scoped h_once h
  | redis st => exact (pagedFrom_redis o st).mp h

/-- An empty page, but for the index, where the one from the start is everything. -/
theorem listSessions_zero (o : OrderBy SqliteRow) (agentId : Option String)
    (scope : SessionScope) (st : SessionStore) (offset : ℕ) :
    st.listSessions o agentId scope 0 offset = [] ∨
      st.ByIndex scope ∧ offset = 0 ∧
        (st.listSessions o agentId scope 0 offset).Perm (st.matching agentId scope) := by
  cases st with
  | memory sessions => exact Or.inl (page_zero _ _)
  | file layout files => exact Or.inl (page_zero _ _)
  | sqliteFlat table =>
    left
    refine (table.listFromDb_page o 0 offset).trans ?_
    rw [page_zero]
    rfl
  | sqliteScoped dbs => exact Or.inl (page_zero _ _)
  | redis st =>
    by_cases h : scope.tenantId.isSome = true ∧ scope.userId.isSome = true
    · obtain ⟨t, h_t⟩ := Option.isSome_iff_exists.mp h.1
      obtain ⟨u, h_u⟩ := Option.isSome_iff_exists.mp h.2
      -- only the index takes an end of -1, which stands for all of it
      have h_list := st.listSessions_index agentId h_t h_u 0 offset
      by_cases h_zero : offset = 0
      · rw [if_pos (by omega)] at h_list
        refine Or.inr ⟨h, h_zero, ?_⟩
        show (st.listSessions agentId scope 0 offset).Perm _
        rw [h_list]
        exact st.lookUp_perm agentId h_t h_u
      · rw [if_neg (by omega), page_zero] at h_list
        exact Or.inl h_list
    · exact Or.inl ((RedisSessions.listSessions_scan h 0 offset).trans (page_zero _ _))

/-- A limit of zero is served right unless a listing by the index finds something. -/
theorem pagedFrom_zero_iff {o : OrderBy SqliteRow} {st : SessionStore} :
    PagedFrom 0 o agentId scope st ↔ PagedFrom 1 o agentId scope st ∧
      (st.ByIndex scope → st.matching agentId scope = []) := by
  constructor
  · rintro ⟨sessions, h_perm, h_sorted, h_pages⟩
    refine ⟨⟨sessions, h_perm, h_sorted, fun limit offset _ =>
      h_pages limit offset (Nat.zero_le _)⟩, fun h_index => ?_⟩
    cases st with
    -- the page of no sessions would be the whole index
    | redis st =>
      obtain ⟨t, h_t⟩ := Option.isSome_iff_exists.mp h_index.1
      obtain ⟨u, h_u⟩ := Option.isSome_iff_exists.mp h_index.2
      have h_list := (st.listSessions_index agentId h_t h_u 0 0).symm.trans
        ((h_pages 0 0 le_rfl).trans (page_zero _ _))
      rw [if_pos rfl] at h_list
      have h_found := st.lookUp_perm agentId h_t h_u
      rw [h_list] at h_found
      exact h_found.symm.eq_nil
    | _ => exact absurd h_index id
  · rintro ⟨⟨sessions, h_perm, h_sorted, h_pages⟩, h_empty⟩
    refine ⟨sessions, h_perm, h_sorted, fun limit offset _ => ?_⟩
    by_cases h_limit : limit = 0
    · rw [h_limit, page_zero]
      rcases st.listSessions_zero o agentId scope offset with h | h
      · exact h
      · have h_nil := h.2.2
        rw [h_empty h.1] at h_nil
        exact h_nil.eq_nil
    · exact h_pages limit offset (Nat.one_le_iff_ne_zero.mpr h_limit)

end SessionStore

end

/-- **Exactly when the pages of a listing are slices of the right list**, for every store of each
adapter, agent filter and scope: for limits from one on, and for all limits. The condition is
enough in any store, and necessary where no session is stored twice. -/
theorem sessions_paged_iff (o : OrderBy SqliteRow) (agentId : Option String)
    (scope : SessionScope) (st : SessionStore) :
    (st.Pages o agentId scope → PagedFrom 1 o agentId scope st) ∧
      (st.contents.Nodup → PagedFrom 1 o agentId scope st → st.Pages o agentId scope) ∧
      (PagedFrom 0 o agentId scope st ↔ PagedFrom 1 o agentId scope st ∧
        (st.ByIndex scope → st.matching agentId scope = [])) :=
  ⟨SessionStore.pagedFrom_one_of_pages, SessionStore.pages_of_pagedFrom_one,
    SessionStore.pagedFrom_zero_iff⟩

/-! ### Two users of a tenant -/

/-- The session of one user, in the order of the updates. -/
def annRows : List SqliteRow :=
  [⟨1, { sessionId := "x", tenantId := some "acme", userId := some "ann", updatedAt := 1 }⟩]

/-- The session of the other, updated later. -/
def bobRows : List SqliteRow :=
  [⟨2, { sessionId := "y", tenantId := some "acme", userId := some "bob", updatedAt := 2 }⟩]

theorem annRows_ids_nodup : (annRows.map fun r => r.session.sessionId).Nodup := by decide

theorem bobRows_ids_nodup : (bobRows.map fun r => r.session.sessionId).Nodup := by decide

/-- A database for each. -/
def twoUsers : SessionStore :=
  .sqliteScoped [(sessionsDbPath (some "acme") (some "ann"), ⟨annRows, annRows_ids_nodup⟩),
    (sessionsDbPath (some "acme") (some "bob"), ⟨bobRows, bobRows_ids_nodup⟩)]

/-- The first page of one session is the older one: the loop stops at the first database. -/
theorem page_stops_early :
    ¬PagedFrom 0 OrderBy.stable none { tenantId := some "acme" } twoUsers ∧
      ¬PagedFrom 1 OrderBy.stable none { tenantId := some "acme" } twoUsers := by
  -- the first page of one differs from the first session of a page of two
  have h_one : ¬PagedFrom 1 OrderBy.stable none { tenantId := some "acme" } twoUsers := by
    rintro ⟨sessions, -, -, h_pages⟩
    have h_two := h_pages 2 0 (by decide)
    have h_first := h_pages 1 0 (by decide)
    have h_head : (page 1 0 sessions).head? = (page 2 0 sessions).head? := by
      cases sessions <;> rfl
    rw [← h_first, ← h_two] at h_head
    exact absurd h_head (by decide +kernel)
  exact ⟨fun h => h_one (SessionStore.pagedFrom_zero_iff.mp h).1, h_one⟩

end Nexus
