import NexusAgent.Lib.ReadModifyWrite
import NexusAgent.Storage.Placement
import NexusAgent.Storage.RedisAdapter

/-!
# Concurrent calls of `append_turn`

Each of the file, redis and sqlite adapters appends a turn in two steps with a suspension
point between them: it reads the session, and it writes the session with the turn. The calls
of `append_turn` on one session are thus the clients of a `Cell`.

* `FileStore.appendCell`, `RedisStore.appendCell`, `SqliteStore.appendCell`: the two steps,
  and that each cell behaves like a variable.
* `append_turns_iff`: exactly when no turn is lost.
* `append_turn_lost`: two calls that both read before they write.
-/

open Lib

namespace Nexus

/-- What the `i`-th call makes of the session it read. -/
def appendNth (turns : List TurnRecord) (i : ℕ) (s : AgentSession) : AgentSession :=
  match turns[i]? with
  | some turn => s.addTurn turn
  | none => s

theorem appendNth_sessionId (turns : List TurnRecord) (i : ℕ) (s : AgentSession) :
    (appendNth turns i s).sessionId = s.sessionId := by
  unfold appendNth
  cases turns[i]? <;> rfl

/-- A session that was read is dumped with the turn as it is. -/
theorem modelDump_appendNth (turns : List TurnRecord) (i : ℕ) {s : AgentSession}
    (h : s.modelDump = some s) : (appendNth turns i s).modelDump = some (appendNth turns i s) := by
  unfold appendNth
  cases turns[i]? with
  | none => exact h
  | some turn => exact AgentSession.modelDump_addTurn turn h

/-- The owner of a session stays when a turn is appended. -/
theorem matchesSession_appendNth (scope : SessionScope) (turns : List TurnRecord) (i : ℕ)
    (s : AgentSession) :
    scope.matchesSession (appendNth turns i s) = scope.matchesSession s := by
  unfold appendNth
  cases turns[i]? <;> rfl

/-- The turns after calls in some order. -/
theorem foldl_appendNth_turns (turns : List TurnRecord) (order : List ℕ) (s : AgentSession) :
    (order.foldl (fun s i => appendNth turns i s) s).turns =
      s.turns ++ order.filterMap fun i => turns[i]? := by
  induction order generalizing s with
  | nil => simp
  | cons i order ih =>
    rw [List.foldl_cons, ih, List.filterMap_cons]
    unfold appendNth
    cases turns[i]? with
    | none => rfl
    | some turn => simp

/-- Appending adds one turn. -/
theorem appendNth_turns_length (turns : List TurnRecord) {i : ℕ} (h : i < turns.length)
    (s : AgentSession) : (appendNth turns i s).turns.length = s.turns.length + 1 := by
  unfold appendNth
  rw [List.getElem?_eq_getElem h]
  simp

/-- All positions, read in order. -/
theorem filterMap_getElem?_range {α : Type} (l : List α) :
    ((List.range l.length).filterMap fun i => l[i]?) = l := by
  induction l with
  | nil => rfl
  | cons x l ih =>
    rw [List.length_cons, List.range_succ_eq_map, List.filterMap_cons]
    simp only [List.getElem?_cons_zero, List.filterMap_map, List.cons.injEq, true_and]
    exact ih

/-! ### The adapters as cells -/

namespace FileStore

/-- The two steps of `append_turn`. -/
def appendCell (sessionId : String) (scope : SessionScope) (turns : List TurnRecord) :
    Cell FileStore AgentSession where
  read st := st.loadSession sessionId scope
  afterRead st := st.afterLoad sessionId scope
  write st s := st.saveSession s
  update := appendNth turns

/-- A call that nothing comes between is its two steps. -/
theorem appendTurn_eq_steps {sessionId : String} {scope : SessionScope} {st : FileStore}
    {s : AgentSession} (turn : TurnRecord) (h : st.loadSession sessionId scope = some s) :
    let c := appendCell sessionId scope [turn]
    st.appendTurn sessionId turn scope = c.write (c.afterRead st) (c.update 0 s) := by
  unfold appendTurn
  rw [h]
  rfl

/-- The session is the one stored under the id: in the file its location resolves to, or in
the place of its own tenant and user, where the scan finds it. -/
structure Holds (sessionId : String) (scope : SessionScope) (st : FileStore) (s : AgentSession) :
    Prop where
  id : s.sessionId = sessionId
  admitted : scope.matchesSession s = true
  there : st.files.get? (st.pathFor sessionId scope) = some s ∨
    st.files.get? (st.pathFor sessionId scope) = none ∧ mayScan scope = true ∧
      st.scanForSession sessionId = some (path (s.tenantId, s.userId) sessionId, s)

/-- A held session is loaded. -/
theorem Holds.load {sessionId : String} {scope : SessionScope} {st : FileStore} {s : AgentSession}
    (h : Holds sessionId scope st s) : st.loadSession sessionId scope = some s := by
  rcases h.there with h_file | ⟨h_none, h_may, h_scan⟩
  · exact loadSession_of_file h_file h.admitted
  · unfold loadSession stored
    simp [h_none, h_may, h_scan, Option.filter, h.admitted]

theorem Holds.modelDump {sessionId : String} {scope : SessionScope} {st : FileStore}
    {s : AgentSession} (h : Holds sessionId scope st s) : s.modelDump = some s :=
  modelDump_of_load h.load

/-- A load leaves the session where later loads find it. -/
theorem Holds.afterLoad {sessionId : String} {scope : SessionScope} {st : FileStore}
    {s : AgentSession} (h : Holds sessionId scope st s) :
    Holds sessionId scope (st.afterLoad sessionId scope) s := by
  refine ⟨h.id, h.admitted, .inl ?_⟩
  rcases h.there with h_file | ⟨h_none, h_may, h_scan⟩
  · have h_same : st.afterLoad sessionId scope = st := by
      unfold FileStore.afterLoad
      simp [h_file]
    rw [h_same]
    exact h_file
  · -- the scan has registered the place where the file is
    have h_after : st.afterLoad sessionId scope =
        { st with index := st.index.register sessionId (s.tenantId, s.userId) } := by
      unfold FileStore.afterLoad stored
      simp [h_none, h_may, h_scan]
    have h_path : (st.afterLoad sessionId scope).pathFor sessionId scope =
        path (s.tenantId, s.userId) sessionId := by
      rw [h_after]
      unfold mayScan at h_may
      rw [Bool.and_eq_true, Option.isNone_iff_eq_none, Option.isNone_iff_eq_none] at h_may
      have h_lookup : (st.index.register sessionId (s.tenantId, s.userId)).lookup sessionId =
          some (s.tenantId, s.userId) := Dict.get?_set_self _ _ _
      unfold pathFor resolveLocation
      simp [h_may, pyOr, h_lookup]
    have h_mem : (path (s.tenantId, s.userId) sessionId, s) ∈ st.files.items :=
      List.mem_of_find?_eq_some h_scan
    rw [h_path, h_after]
    exact Dict.mem_items.mp h_mem

/-- The append of the file store keeps its session in place. -/
theorem appendCell_lawful (sessionId : String) (scope : SessionScope) (turns : List TurnRecord) :
    (appendCell sessionId scope turns).Lawful (Holds sessionId scope) where
  read_eq h := h.load
  afterRead h := h.afterLoad
  write := by
    intro st st' v w i _ h_v
    -- appending changes neither the id nor the scope
    have h_id : (appendNth turns i v).sessionId = sessionId := by
      rw [appendNth_sessionId]
      exact h_v.id
    have h_match : scope.matchesSession (appendNth turns i v) = true := by
      rw [matchesSession_appendNth]
      exact h_v.admitted
    refine ⟨h_id, h_match, .inl ?_⟩
    -- so the file is written where it was read
    have h_get := st.get?_pathFor_saveSession (modelDump_appendNth turns i h_v.modelDump) h_match
    rw [h_id] at h_get
    exact h_get

end FileStore

namespace RedisStore

/-- The two steps of `append_turn`. -/
def appendCell (keyPrefix : String) (createdAt : AgentSession → ℕ) (sessionId : String)
    (scope : SessionScope) (turns : List TurnRecord) : Cell RedisStore AgentSession where
  read st := st.loadSession keyPrefix sessionId scope
  afterRead st := st
  write st s := st.saveSession keyPrefix createdAt s
  update := appendNth turns

/-- A call that nothing comes between is its two steps. -/
theorem appendTurn_eq_steps {keyPrefix sessionId : String} {createdAt : AgentSession → ℕ}
    {scope : SessionScope} {st : RedisStore} {s : AgentSession} (turn : TurnRecord)
    (h : st.loadSession keyPrefix sessionId scope = some s) :
    let c := appendCell keyPrefix createdAt sessionId scope [turn]
    st.appendTurn keyPrefix createdAt sessionId turn scope =
      c.write (c.afterRead st) (c.update 0 s) := by
  unfold appendTurn
  rw [h]
  rfl

/-- The session is the blob under the id. -/
structure Holds (keyPrefix sessionId : String) (scope : SessionScope) (st : RedisStore)
    (s : AgentSession) : Prop where
  id : s.sessionId = sessionId
  admitted : scope.matchesSession s = true
  there : st.blobs.get? (sessionKey keyPrefix sessionId) = some s

/-- The append of the redis store keeps its session in place. -/
theorem appendCell_lawful (keyPrefix : String) (createdAt : AgentSession → ℕ) (sessionId : String)
    (scope : SessionScope) (turns : List TurnRecord) :
    (appendCell keyPrefix createdAt sessionId scope turns).Lawful
      (Holds keyPrefix sessionId scope) where
  read_eq := by
    intro st s h
    show (st.blobs.get? (sessionKey keyPrefix sessionId)).filter scope.matchesSession = some s
    -- the blob is read, and in scope
    rw [h.there]
    simp [Option.filter, h.admitted]
  afterRead h := h
  write := by
    intro st st' v w i _ h_v
    have h_id : (appendNth turns i v).sessionId = sessionId := by
      rw [appendNth_sessionId]
      exact h_v.id
    -- the blob is written under the key it was read from
    refine ⟨h_id, ?_, ?_⟩
    · show scope.matchesSession (appendNth turns i v) = true
      rw [matchesSession_appendNth]
      exact h_v.admitted
    · -- what was loaded is dumped as it is
      have h_dump : v.modelDump = some v := st'.json _ _ h_v.there
      show (st.saveSession keyPrefix createdAt (appendNth turns i v)).blobs.get?
        (sessionKey keyPrefix sessionId) = some (appendNth turns i v)
      rw [saveSession_blobs (modelDump_appendNth turns i h_dump), h_id]
      exact Dict.get?_set_self _ _ _

end RedisStore

namespace SqliteStore

/-- The two steps of `append_turn`: the `SELECT` of the row, and the `UPDATE` of that row with
its `commit`. -/
def appendCell (sessionId : String) (scope : SessionScope) (turns : List TurnRecord) :
    Cell SqliteStore ((Path × String) × AgentSession) where
  read st := (st.loadSession sessionId scope).map fun s => (st.rowFor sessionId scope, s)
  afterRead st := st
  write st v := st.updateRow v.1 v.2
  update i v := (v.1, appendNth turns i v.2)

/-- A call that nothing comes between is its two steps. -/
theorem appendTurn_eq_steps {sessionId : String} {scope : SessionScope} {st : SqliteStore}
    {s : AgentSession} (turn : TurnRecord) (h : st.loadSession sessionId scope = some s) :
    let c := appendCell sessionId scope [turn]
    st.appendTurn sessionId turn scope =
      c.write (c.afterRead st) (c.update 0 (st.rowFor sessionId scope, s)) := by
  unfold appendTurn
  rw [h]
  rfl

/-- The session is in the row `key`, the one its location resolves to. -/
structure Holds (sessionId : String) (scope : SessionScope) (key : Path × String)
    (st : SqliteStore) (v : (Path × String) × AgentSession) : Prop where
  row : v.1 = key
  resolved : st.rowFor sessionId scope = key
  admitted : scope.matchesSession v.2 = true
  there : st.rows.get? key = some v.2

/-- The same for a row. -/
theorem Holds.load {sessionId : String} {scope : SessionScope} {key : Path × String}
    {st : SqliteStore} {v : (Path × String) × AgentSession} (h : Holds sessionId scope key st v) :
    st.loadSession sessionId scope = some v.2 := by
  unfold loadSession
  rw [h.resolved, h.there]
  simp [Option.filter, h.admitted]

/-- The append of the sqlite store keeps its row in place. -/
theorem appendCell_lawful (sessionId : String) (scope : SessionScope) (turns : List TurnRecord)
    (key : Path × String) :
    (appendCell sessionId scope turns).Lawful (Holds sessionId scope key) where
  read_eq := by
    intro st v h
    show (st.loadSession sessionId scope).map (fun s => (st.rowFor sessionId scope, s)) = some v
    rw [h.load, h.resolved, ← h.row]
    rfl
  afterRead h := h
  write := by
    intro st st' v w i h_w h_v
    have h_dump : v.2.modelDump = some v.2 := st'.json _ _ h_v.there
    -- UPDATE changes a row that is there, and makes none
    have h_has : st.rows.has key = true := by
      unfold Dict.has
      rw [h_w.there]
      rfl
    refine ⟨h_v.row, ?_, ?_, ?_⟩
    · show (st.updateRow v.1 (appendNth turns i v.2)).rowFor sessionId scope = key
      unfold rowFor
      rw [updateRow_index]
      exact h_w.resolved
    · show scope.matchesSession (appendNth turns i v.2) = true
      rw [matchesSession_appendNth]
      exact h_v.admitted
    · show (st.updateRow v.1 (appendNth turns i v.2)).rows.get? key = _
      rw [h_v.row, updateRow_rows (modelDump_appendNth turns i h_dump) h_has]
      exact Dict.get?_set_self _ _ _

end SqliteStore

/-! ### No turn is lost -/

section Concurrent

variable {σ ν : Type}

/-- Calls of `append_turn`, one for each turn, that have all returned. -/
structure Concurrent (c : Cell σ ν) (st : σ) (turns : List TurnRecord) (accesses : List Access)
    (final : Sharing σ ν) : Prop where
  run : runSteps c.step (.start st turns.length) accesses = some final
  ended : final.Over

instance {σ ν : Type} [DecidableEq ν] (s : Sharing σ ν) : Decidable s.Over :=
  inferInstanceAs (Decidable (∀ _ ∈ _, _))

/-- No call's write came between the read and the write of another. -/
def Undisturbed (c : Cell σ ν) (st : σ) (turns : List TurnRecord) (accesses : List Access) : Prop :=
  EachStep c.step Sharing.Fresh (.start st turns.length) accesses

instance (c : Cell σ ν) (st : σ) (turns : List TurnRecord) (accesses : List Access) :
    Decidable (Undisturbed c st turns accesses) :=
  inferInstanceAs (Decidable (EachStep _ _ _ _))

/-- The stored session has the turns it had and all appended turns, each once. -/
def AllAppended (s₀ : AgentSession) (turns : List TurnRecord) (stored : Option AgentSession) :
    Prop :=
  ∃ s, stored = some s ∧ s.turns.Perm (s₀.turns ++ turns)

/-- A cell whose value is a session with the turns appended so far loses none of them exactly
when no call is disturbed. -/
theorem allAppended_iff {c : Cell σ ν} {Holds : σ → ν → Prop} (session : ν → AgentSession)
    (load : σ → Option AgentSession) (h_law : c.Lawful Holds) {turns : List TurnRecord}
    (h_update : ∀ i v, session (c.update i v) = appendNth turns i (session v))
    (h_load : ∀ st v, Holds st v → load st = some (session v)) {st : σ} {v₀ : ν}
    (h₀ : Holds st v₀) {accesses : List Access} {final : Sharing σ ν}
    (h : Concurrent c st turns accesses final) :
    AllAppended (session v₀) turns (load final.store) ↔ Undisturbed c st turns accesses := by
  have h_rank : ∀ i < turns.length, ∀ v,
      (session (c.update i v)).turns.length = (session v).turns.length + 1 := by
    intro i h_i v
    rw [h_update]
    exact appendNth_turns_length turns h_i _
  obtain ⟨w, h_w, h_all, h_lost⟩ :=
    Cell.kept_iff (fun v => (session v).turns.length) h_law h_rank h₀ h.run h.ended
  unfold AllAppended
  rw [h_load _ _ h_w]
  constructor
  · rintro ⟨s, h_s, h_perm⟩
    obtain rfl := Option.some.inj h_s
    by_contra h_not
    -- a disturbed call costs a turn
    have h_less := h_lost h_not
    have h_length := h_perm.length_eq
    rw [List.length_append] at h_length
    omega
  · intro h_fresh
    obtain ⟨order, h_order, rfl⟩ := h_all h_fresh
    have h_fold : ∀ (order : List ℕ) (v : ν),
        session (order.foldl (fun v i => c.update i v) v) =
          order.foldl (fun s i => appendNth turns i s) (session v) := by
      intro order
      induction order with
      | nil => exact fun v => rfl
      | cons i order ih =>
        intro v
        rw [List.foldl_cons, List.foldl_cons, ih, h_update]
    refine ⟨_, rfl, ?_⟩
    rw [h_fold, foldl_appendNth_turns]
    apply List.Perm.append_left
    calc (order.filterMap fun i => turns[i]?)
        |>.Perm ((List.range turns.length).filterMap fun i => turns[i]?) := h_order.filterMap _
      _ |>.Perm turns := .of_eq (filterMap_getElem?_range turns)

end Concurrent

/-- Calls on the file adapter. -/
theorem FileStore.allAppended_iff {sessionId : String} {scope : SessionScope}
    {turns : List TurnRecord} {accesses : List Access} {s₀ : AgentSession} {st : FileStore}
    {final : Sharing FileStore AgentSession} (h₀ : Holds sessionId scope st s₀)
    (h : Concurrent (appendCell sessionId scope turns) st turns accesses final) :
    AllAppended s₀ turns (final.store.loadSession sessionId scope) ↔
      Undisturbed (appendCell sessionId scope turns) st turns accesses := by
  have h_law := appendCell_lawful sessionId scope turns
  -- the general result for this cell
  apply Nexus.allAppended_iff (fun s => s) (fun st => FileStore.loadSession st sessionId scope) h_law
  · exact fun _ _ => rfl
  · exact fun _ _ h => h.load
  · exact h₀
  · exact h

/-- Calls on the redis adapter. -/
theorem RedisStore.allAppended_iff {keyPrefix sessionId : String} {createdAt : AgentSession → ℕ}
    {scope : SessionScope} {turns : List TurnRecord} {accesses : List Access} {s₀ : AgentSession}
    {st : RedisStore} {final : Sharing RedisStore AgentSession}
    (h₀ : Holds keyPrefix sessionId scope st s₀)
    (h : Concurrent (appendCell keyPrefix createdAt sessionId scope turns) st turns accesses final) :
    AllAppended s₀ turns (final.store.loadSession keyPrefix sessionId scope) ↔
      Undisturbed (appendCell keyPrefix createdAt sessionId scope turns) st turns accesses := by
  have h_law := appendCell_lawful keyPrefix createdAt sessionId scope turns
  -- the general result for this cell
  apply Nexus.allAppended_iff (fun s => s)
    (fun st => RedisStore.loadSession keyPrefix st sessionId scope) h_law
  · exact fun _ _ => rfl
  · exact fun _ _ h => h_law.read_eq h
  · exact h₀
  · exact h

/-- Calls on the sqlite adapter. -/
theorem SqliteStore.allAppended_iff {sessionId : String} {scope : SessionScope}
    {turns : List TurnRecord} {accesses : List Access} {s₀ : AgentSession} {st : SqliteStore}
    {final : Sharing SqliteStore ((Path × String) × AgentSession)}
    (h₀ : Holds sessionId scope (st.rowFor sessionId scope) st (st.rowFor sessionId scope, s₀))
    (h : Concurrent (appendCell sessionId scope turns) st turns accesses final) :
    AllAppended s₀ turns (final.store.loadSession sessionId scope) ↔
      Undisturbed (appendCell sessionId scope turns) st turns accesses := by
  have h_law := appendCell_lawful sessionId scope turns (st.rowFor sessionId scope)
  exact Nexus.allAppended_iff Prod.snd (fun st => SqliteStore.loadSession st sessionId scope) h_law
    (fun _ _ => rfl) (fun _ _ h => h.load) h₀ h

/-- **Exactly when concurrent calls of `append_turn` lose no turn**, for the file, the redis
and the sqlite adapter, any number of calls and every interleaving of their reads and writes. -/
theorem append_turns_iff (sessionId : String) (scope : SessionScope) (turns : List TurnRecord)
    (accesses : List Access) (s₀ : AgentSession) :
    (∀ st final, FileStore.Holds sessionId scope st s₀ →
      Concurrent (FileStore.appendCell sessionId scope turns) st turns accesses final →
        (AllAppended s₀ turns (final.store.loadSession sessionId scope) ↔
          Undisturbed (FileStore.appendCell sessionId scope turns) st turns accesses)) ∧
    (∀ keyPrefix createdAt st final, RedisStore.Holds keyPrefix sessionId scope st s₀ →
      Concurrent (RedisStore.appendCell keyPrefix createdAt sessionId scope turns) st turns accesses
          final →
        (AllAppended s₀ turns (final.store.loadSession keyPrefix sessionId scope) ↔
          Undisturbed (RedisStore.appendCell keyPrefix createdAt sessionId scope turns) st turns
            accesses)) ∧
    ∀ st final, SqliteStore.Holds sessionId scope (st.rowFor sessionId scope) st
        (st.rowFor sessionId scope, s₀) →
      Concurrent (SqliteStore.appendCell sessionId scope turns) st turns accesses final →
        (AllAppended s₀ turns (final.store.loadSession sessionId scope) ↔
          Undisturbed (SqliteStore.appendCell sessionId scope turns) st turns accesses) :=
  -- one store after the other
  ⟨fun _ _ h₀ h => FileStore.allAppended_iff h₀ h, fun _ _ _ _ h₀ h => RedisStore.allAppended_iff h₀ h,
    fun _ _ h₀ h => SqliteStore.allAppended_iff h₀ h⟩

/-- A stored session without a tenant, as a run without one makes it. -/
def plainSession : AgentSession := { sessionId := "x", agentId := "a" }

/-- Two turns. -/
def twoTurns : List TurnRecord := [{ turnIndex := 0 }, { turnIndex := 1 }]

/-- One call after the other. -/
def inTurn : List Access := [.read 0, .write 0, .read 1, .write 1]

/-- Two calls that both read before they write. -/
def crossed : List Access := [.read 0, .read 1, .write 0, .write 1]

/-- The file store with the plain session. -/
def plainFiles : FileStore := FileStore.saveSession {} plainSession

/-- The redis store with the plain session. -/
def plainBlobs : RedisStore := RedisStore.saveSession "nexus:" (fun _ => 0) {} plainSession

/-- The sqlite store with the plain session. -/
def plainRows : SqliteStore := SqliteStore.saveSession {} plainSession

theorem plainFiles_holds : FileStore.Holds "x" {} plainFiles plainSession :=
  ⟨rfl, rfl, .inl (by decide +kernel)⟩

theorem plainBlobs_holds : RedisStore.Holds "nexus:" "x" {} plainBlobs plainSession :=
  ⟨rfl, rfl, by decide +kernel⟩

theorem plainRows_holds : SqliteStore.Holds "x" {} (plainRows.rowFor "x" {}) plainRows
    (plainRows.rowFor "x" {}, plainSession) :=
  ⟨rfl, rfl, rfl, by decide +kernel⟩

/-- A run whose end was computed. -/
theorem concurrent_of_run {σ ν : Type} {c : Cell σ ν} {st : σ} {turns : List TurnRecord}
    {accesses : List Access}
    (h : ∃ final ∈ runSteps c.step (.start st turns.length) accesses, final.Over) :
    ∃ final, Concurrent c st turns accesses final := by
  obtain ⟨final, h_run, h_over⟩ := h
  exact ⟨final, h_run, h_over⟩

/-- One call after the other: all three stores keep both turns. -/
theorem append_turns_iff_inTurn :
    (∃ final, Concurrent (FileStore.appendCell "x" {} twoTurns) plainFiles twoTurns inTurn final ∧
      AllAppended plainSession twoTurns (final.store.loadSession "x" {})) ∧
    (∃ final, Concurrent (RedisStore.appendCell "nexus:" (fun _ => 0) "x" {} twoTurns) plainBlobs
        twoTurns inTurn final ∧
      AllAppended plainSession twoTurns (final.store.loadSession "nexus:" "x" {})) ∧
    ∃ final, Concurrent (SqliteStore.appendCell "x" {} twoTurns) plainRows twoTurns inTurn final ∧
      AllAppended plainSession twoTurns (final.store.loadSession "x" {}) := by
  obtain ⟨h_files, h_blobs, h_rows⟩ := append_turns_iff "x" {} twoTurns inTurn plainSession
  refine ⟨?_, ?_, ?_⟩
  · -- the files
    obtain ⟨final, h⟩ : ∃ final, Concurrent (FileStore.appendCell "x" {} twoTurns) plainFiles
        twoTurns inTurn final := concurrent_of_run (by decide +kernel)
    exact ⟨final, h, (h_files _ _ plainFiles_holds h).mpr (by decide +kernel)⟩
  · -- the blobs
    obtain ⟨final, h⟩ : ∃ final, Concurrent
        (RedisStore.appendCell "nexus:" (fun _ => 0) "x" {} twoTurns) plainBlobs twoTurns inTurn
          final := concurrent_of_run (by decide +kernel)
    exact ⟨final, h, (h_blobs _ _ _ _ plainBlobs_holds h).mpr (by decide +kernel)⟩
  · -- the rows
    obtain ⟨final, h⟩ : ∃ final, Concurrent (SqliteStore.appendCell "x" {} twoTurns) plainRows
        twoTurns inTurn final := concurrent_of_run (by decide +kernel)
    exact ⟨final, h, (h_rows _ _ plainRows_holds h).mpr (by decide +kernel)⟩

/-- **Two calls that both read before they write lose a turn**, on each of the adapters. -/
theorem append_turn_lost :
    (∃ final, Concurrent (FileStore.appendCell "x" {} twoTurns) plainFiles twoTurns crossed final ∧
      ¬ AllAppended plainSession twoTurns (final.store.loadSession "x" {})) ∧
    (∃ final, Concurrent (RedisStore.appendCell "nexus:" (fun _ => 0) "x" {} twoTurns) plainBlobs
        twoTurns crossed final ∧
      ¬ AllAppended plainSession twoTurns (final.store.loadSession "nexus:" "x" {})) ∧
    ∃ final, Concurrent (SqliteStore.appendCell "x" {} twoTurns) plainRows twoTurns crossed final ∧
      ¬ AllAppended plainSession twoTurns (final.store.loadSession "x" {}) := by
  -- the same crossing in all three: both load before either saves
  refine ⟨?_, ?_, ?_⟩
  · obtain ⟨final, h⟩ : ∃ final, Concurrent (FileStore.appendCell "x" {} twoTurns) plainFiles
        twoTurns crossed final := concurrent_of_run (by decide +kernel)
    refine ⟨final, h, fun h_all => ?_⟩
    have h_fresh := (FileStore.allAppended_iff plainFiles_holds h).mp h_all
    revert h_fresh
    decide +kernel
  · obtain ⟨final, h⟩ : ∃ final, Concurrent
        (RedisStore.appendCell "nexus:" (fun _ => 0) "x" {} twoTurns) plainBlobs twoTurns crossed
          final := concurrent_of_run (by decide +kernel)
    refine ⟨final, h, fun h_all => ?_⟩
    have h_fresh := (RedisStore.allAppended_iff plainBlobs_holds h).mp h_all
    revert h_fresh
    decide +kernel
  · obtain ⟨final, h⟩ : ∃ final, Concurrent (SqliteStore.appendCell "x" {} twoTurns) plainRows
        twoTurns crossed final := concurrent_of_run (by decide +kernel)
    refine ⟨final, h, fun h_all => ?_⟩
    have h_fresh := (SqliteStore.allAppended_iff plainRows_holds h).mp h_all
    revert h_fresh
    decide +kernel

end Nexus
