import NexusAgent.Lib.RowLocks
import NexusAgent.Session.Frame
import NexusAgent.Storage.Refinement

/-!
# The PostgreSQL adapter

`nexus/session/adapters/postgresql.py`. A session is a row, with the tenant and the user in columns
of their own. A save, a load and a delete are one statement each; an appended turn and a summary
are a transaction, which selects the row `FOR UPDATE` and then updates it. Statements see what is
committed when they begin; a row they have to wait for they take as it is once it is free, unless
it has been deleted. The order of the fields of a `jsonb` object, and texts with a NUL character,
which it refuses, are left out.

* `postgres_serializable`: whatever the interleaving of the calls, and whichever of them fail, the
  table is what the calls that have not failed make of it one after the other.
* `postgres_never_blocked`: every call that waits can go on to its end.
* `postgres_appends_kept`: no appended turn is lost.
-/

open Lib

namespace Nexus

/-! ### The adapter -/

/-- A row of the table, the columns that the calls on one session read. The `data` is the session
it decodes to, so it is its own dump. -/
structure SessionRow where
  tenantId : Option String
  userId : Option String
  data : AgentSession
  json : data.modelDump = some data

/-- The row of a session that has been dumped. -/
def AgentSession.dumpedRow (data : AgentSession) (json : data.modelDump = some data) :
    SessionRow where
  tenantId := data.tenantId
  userId := data.userId
  data := data
  json := json

/-- `_session_to_row`; `none`: the dump raises. -/
def AgentSession.toRow (s : AgentSession) : Option SessionRow :=
  match h : s.modelDump with
  | some data => some (data.dumpedRow (AgentSession.modelDump_dumped h))
  | none => none

/-- The row of a session that can be dumped. -/
theorem AgentSession.toRow_of_dump {s data : AgentSession} (h : s.modelDump = some data) :
    s.toRow = some (data.dumpedRow (modelDump_dumped h)) := by
  unfold toRow
  split
  · next data' h' =>
    obtain rfl := Option.some.inj (h'.symm.trans h)
    rfl
  · next h' => cases h'.symm.trans h

/-- A session that cannot be dumped has no row. -/
theorem AgentSession.toRow_of_raises {s : AgentSession} (h : s.modelDump = none) :
    s.toRow = none := by
  unfold toRow
  split
  · next h' => cases h'.symm.trans h
  · rfl

/-- The conditions on the columns: a scope that names nobody has none, and a column that is null
meets none. -/
def SessionRow.meets (row : SessionRow) (scope : SessionScope) : Bool :=
  scopeAdmits scope.tenantId row.tenantId && scopeAdmits scope.userId row.userId

/-- A call of the adapter. -/
inductive PostgresCall
  | saveSession (s : AgentSession)
  | loadSession (sessionId : String) (scope : SessionScope)
  | appendTurn (sessionId : String) (turn : TurnRecord) (scope : SessionScope)
  | updateTcSummary (sessionId tcId summary : String) (byTurn : ℕ) (scope : SessionScope)
  | deleteSession (sessionId : String) (scope : SessionScope)

/-- The row with what a mutator makes of its session; the row as it is, if the dump raises. -/
def SessionRow.mutate (mutator : AgentSession → AgentSession) (row : SessionRow) : SessionRow :=
  match h : (mutator row.data).modelDump with
  | some data => { row with data := data, json := AgentSession.modelDump_dumped h }
  | none => row

/-- `_load_mutate_save`: a session that the scope does not match stays as it is. -/
def loadMutateSave (sessionId : String) (mutator : AgentSession → AgentSession)
    (scope : SessionScope) : RowCall String SessionRow :=
  .revise sessionId fun row =>
    if scope.matchesSession row.data then row.mutate mutator else row

/-- The mutator of `update_tc_summary`. -/
def AgentSession.summarizeTc (tcId summary : String) (byTurn : ℕ) (s : AgentSession) :
    AgentSession :=
  { s with
    turns := updateFirstTc (fun tc => tc.tcId = tcId) (ToolCallRecord.withSummary summary byTurn)
      s.turns }

theorem AgentSession.modelDump_summarizeTc (tcId summary : String) (byTurn : ℕ)
    {s data : AgentSession} (h : s.modelDump = some data) :
    (s.summarizeTc tcId summary byTurn).modelDump = some (data.summarizeTc tcId summary byTurn) :=
  modelDump_comm (f := summarizeTc tcId summary byTurn) (fun _ => rfl) (fun _ _ => rfl) h

/-- What a call does with its row. -/
def PostgresCall.onRow : PostgresCall → RowCall String SessionRow
  | .saveSession s =>
    match s.toRow with
    | some row => .put s.sessionId row
    -- it raises before it comes to the table
    | none => .read s.sessionId
  | .loadSession sessionId _ => .read sessionId
  | .appendTurn sessionId turn scope => loadMutateSave sessionId (AgentSession.addTurn turn) scope
  | .updateTcSummary sessionId tcId summary byTurn scope =>
    loadMutateSave sessionId (AgentSession.summarizeTc tcId summary byTurn) scope
  | .deleteSession sessionId scope => .remove sessionId fun row => row.meets scope

/-- What `load_session` returns for the row that has the id, if any. -/
def loadedFrom (scope : SessionScope) (row : Option SessionRow) : Option AgentSession :=
  ((row.filter fun row => row.meets scope).map SessionRow.data).filter scope.matchesSession

/-! ### The calls on the table -/

/-- The calls on the table of sessions. A delete does not look at the company. -/
def PostgresCall.onTable (t : SessionTable) : PostgresCall → SessionTable
  | .saveSession s =>
    match s.modelDump with
    | some data => t.exec (.save data)
    | none => t
  | .loadSession sessionId scope => t.exec (.load sessionId scope)
  | .appendTurn sessionId turn scope => t.exec (.append sessionId turn scope)
  | .updateTcSummary sessionId tcId summary byTurn scope =>
    match t.visible sessionId scope with
    | some s => Function.update t sessionId (some (s.summarizeTc tcId summary byTurn))
    | none => t
  | .deleteSession sessionId scope => t.exec (.delete sessionId { scope with companyId := none })

/-- The table after some of the calls, one after the other. -/
def afterCalls (calls : ℕ → PostgresCall) (t : SessionTable) (order : List ℕ) : SessionTable :=
  order.foldl (fun t i => (calls i).onTable t) t

/-- The sessions of a table of rows. -/
def sessionsOf (rows : String → Option SessionRow) : SessionTable :=
  fun sessionId => (rows sessionId).map SessionRow.data

/-- The columns are those of the session. -/
def FaithfulRows (rows : String → Option SessionRow) : Prop :=
  ∀ sessionId row, rows sessionId = some row → row = row.data.dumpedRow row.json

variable {rows : String → Option SessionRow}

/-- The row of a session meets a scope that admits it, the company aside. -/
theorem meets_dumpedRow (scope : SessionScope) {s : AgentSession} (h : s.modelDump = some s) :
    (s.dumpedRow h).meets scope = { scope with companyId := none }.matchesSession s := by
  show _ = (scopeAdmits scope.tenantId s.tenantId && scopeAdmits none s.companyId &&
    scopeAdmits scope.userId s.userId)
  rw [show scopeAdmits none s.companyId = true from rfl, Bool.and_true]
  rfl

/-- A row that shows its session meets each scope that admits it. -/
theorem FaithfulRows.meets_of_matches (h : FaithfulRows rows) {sessionId : String}
    {row : SessionRow} (h_row : rows sessionId = some row) {scope : SessionScope}
    (h_match : scope.matchesSession row.data = true) : row.meets scope = true := by
  unfold SessionScope.matchesSession at h_match
  rw [Bool.and_eq_true, Bool.and_eq_true] at h_match
  rw [h sessionId row h_row]
  exact Bool.and_eq_true_iff.mpr ⟨h_match.1.1, h_match.2⟩

/-- The conditions of a load on the columns are part of the scope. -/
theorem loadedFrom_eq (h : FaithfulRows rows) (sessionId : String) (scope : SessionScope) :
    loadedFrom scope (rows sessionId) = (sessionsOf rows).visible sessionId scope := by
  unfold loadedFrom SessionTable.visible sessionsOf
  cases h_row : rows sessionId with
  | none => rfl
  | some row =>
    cases h_match : scope.matchesSession row.data with
    | true => simp [Option.filter_some, h.meets_of_matches h_row h_match, h_match]
    | false => cases h_meets : row.meets scope <;> simp [Option.filter_some, h_meets, h_match]

/-! ### A call on the rows is the call on the table -/

/-- A session that is stored again as it is. -/
theorem update_some {t : SessionTable} {sessionId : String} {s : AgentSession}
    (h : t sessionId = some s) : Function.update t sessionId (some s) = t := by
  rw [← h, Function.update_eq_self]

/-- One row of the table changes. -/
theorem sessionsOf_update (rows : String → Option SessionRow) (sessionId : String)
    (row : Option SessionRow) :
    sessionsOf (Function.update rows sessionId row) =
      Function.update (sessionsOf rows) sessionId (row.map SessionRow.data) := by
  funext id
  rcases eq_or_ne id sessionId with rfl | h_ne
  · simp [sessionsOf]
  · simp [sessionsOf, Function.update_of_ne h_ne]

/-- Writing a row that shows its session keeps the rows faithful. -/
theorem FaithfulRows.update (h : FaithfulRows rows) {sessionId : String} {row : Option SessionRow}
    (h_row : ∀ r, row = some r → r = r.data.dumpedRow r.json) :
    FaithfulRows (Function.update rows sessionId row) := by
  intro id r h_r
  rcases eq_or_ne id sessionId with rfl | h_ne
  · exact h_row r ((Function.update_self id row rows).symm.trans h_r)
  · rw [Function.update_of_ne h_ne] at h_r
    exact h id r h_r

section Mutation

variable (mutator : AgentSession → AgentSession)
  (h_scope : ∀ s, (mutator s).toScope = s.toScope)
  (h_dump : ∀ s : AgentSession, s.modelDump = some s → (mutator s).modelDump = some (mutator s))
  (sessionId : String) (scope : SessionScope)

include h_dump in
/-- The mutators leave the state bag alone, so that the dump of what they make does not raise. -/
theorem mutate_eq (row : SessionRow) : row.mutate mutator =
    { row with data := mutator row.data, json := h_dump row.data row.json } := by
  unfold SessionRow.mutate
  split
  · next data h =>
    obtain rfl := Option.some.inj (h.symm.trans (h_dump row.data row.json))
    rfl
  · next h => cases h.symm.trans (h_dump row.data row.json)

include h_scope h_dump in
/-- A mutation leaves the columns as they are. -/
theorem FaithfulRows.loadMutateSave (h : FaithfulRows rows) :
    FaithfulRows ((loadMutateSave sessionId mutator scope).exec rows) := by
  -- only a row that is there is written
  refine h.update fun r h_r => ?_
  obtain ⟨row, h_row, rfl⟩ := Option.map_eq_some_iff.mp h_r
  have h_columns := h sessionId row h_row
  split_ifs
  · -- admitted: the columns follow the changed session
    rw [mutate_eq mutator h_dump]
    obtain ⟨h_tenant, -, h_user⟩ := SessionScope.mk.inj (h_scope row.data)
    obtain ⟨h_t, h_u, -⟩ := SessionRow.mk.inj h_columns
    simp only [AgentSession.dumpedRow, SessionRow.mk.injEq, and_true]
    exact ⟨h_t.trans h_tenant.symm, h_u.trans h_user.symm⟩
  · -- not admitted: written back as it was
    exact h_columns

include h_dump in
/-- A mutation of a session that the scope sees. -/
theorem sessionsOf_loadMutateSave :
    sessionsOf ((loadMutateSave sessionId mutator scope).exec rows) =
      match (sessionsOf rows).visible sessionId scope with
      | some s => Function.update (sessionsOf rows) sessionId (some (mutator s))
      | none => sessionsOf rows := by
  show sessionsOf (Function.update rows sessionId _) = _
  rw [sessionsOf_update]
  -- both read the row of this id, and the scope decides
  unfold SessionTable.visible
  cases h_row : rows sessionId with
  | none =>
    have h_there : sessionsOf rows sessionId = none := by simp [sessionsOf, h_row]
    simp [h_there, Nexus.loadMutateSave, RowCall.apply, RowCall.key, h_row, update_none]
  | some row =>
    have h_there : sessionsOf rows sessionId = some row.data := by simp [sessionsOf, h_row]
    cases h_match : scope.matchesSession row.data with
    | true =>
      simp [h_there, Nexus.loadMutateSave, RowCall.apply, RowCall.key, h_row, h_match,
        Option.filter, mutate_eq mutator h_dump]
    | false =>
      simp [h_there, Nexus.loadMutateSave, RowCall.apply, RowCall.key, h_row, h_match,
        Option.filter, update_some h_there]

end Mutation

/-- Each call keeps the rows faithful. -/
theorem PostgresCall.faithful_exec (h : FaithfulRows rows) (c : PostgresCall) :
    FaithfulRows (c.onRow.exec rows) := by
  cases c with
  | saveSession s =>
    cases h_dump : s.modelDump with
    | none =>
      simp only [onRow, AgentSession.toRow_of_raises h_dump]
      rw [RowCall.exec_of_apply_eq rfl]
      exact h
    | some data =>
      simp only [onRow, AgentSession.toRow_of_dump h_dump]
      refine h.update fun r h_r => ?_
      obtain rfl := Option.some.inj h_r
      rfl
  | loadSession sessionId scope =>
    rw [RowCall.exec_of_apply_eq (c := PostgresCall.onRow _) rfl]
    exact h
  | appendTurn sessionId turn scope =>
    exact h.loadMutateSave (AgentSession.addTurn turn) (fun _ => rfl)
      (fun _ => AgentSession.modelDump_addTurn turn) sessionId scope
  | updateTcSummary sessionId tcId summary byTurn scope =>
    exact h.loadMutateSave (AgentSession.summarizeTc tcId summary byTurn) (fun _ => rfl)
      (fun _ => AgentSession.modelDump_summarizeTc tcId summary byTurn) sessionId scope
  -- a row that is left is one that was there
  | deleteSession sessionId scope =>
    refine h.update fun r h_r => ?_
    exact h sessionId r (Option.filter_eq_some_iff.mp h_r).1

/-- **A call on the rows is the call on the table.** -/
theorem PostgresCall.exec_eq (h : FaithfulRows rows) (c : PostgresCall) :
    sessionsOf (c.onRow.exec rows) = c.onTable (sessionsOf rows) := by
  cases c with
  | saveSession s =>
    cases h_dump : s.modelDump with
    -- model_dump raises before any statement is sent
    | none =>
      simp only [onRow, AgentSession.toRow_of_raises h_dump, onTable, h_dump]
      rw [RowCall.exec_of_apply_eq rfl]
    | some data =>
      simp only [onRow, AgentSession.toRow_of_dump h_dump, onTable, h_dump]
      have h_update := sessionsOf_update rows s.sessionId
        (some (data.dumpedRow (AgentSession.modelDump_dumped h_dump)))
      rwa [← AgentSession.sessionId_of_modelDump h_dump] at h_update ⊢
  | loadSession sessionId scope =>
    rw [RowCall.exec_of_apply_eq (c := PostgresCall.onRow _) rfl]
    rfl
  | appendTurn sessionId turn scope =>
    exact sessionsOf_loadMutateSave (AgentSession.addTurn turn)
      (fun _ => AgentSession.modelDump_addTurn turn) sessionId scope
  | updateTcSummary sessionId tcId summary byTurn scope =>
    exact sessionsOf_loadMutateSave (AgentSession.summarizeTc tcId summary byTurn)
      (fun _ => AgentSession.modelDump_summarizeTc tcId summary byTurn) sessionId scope
  -- the DELETE compares tenant and user only: the company of the scope is not in its WHERE
  | deleteSession sessionId scope =>
    show sessionsOf (Function.update rows sessionId
      ((rows sessionId).filter fun row => !row.meets scope)) = _
    rw [sessionsOf_update]
    show _ = (sessionsOf rows).exec (.delete sessionId { scope with companyId := none })
    unfold SessionTable.exec SessionTable.visible
    cases h_row : rows sessionId with
    | none =>
      have h_there : sessionsOf rows sessionId = none := by simp [sessionsOf, h_row]
      simp [h_there, update_none]
    | some row =>
      have h_there : sessionsOf rows sessionId = some row.data := by simp [sessionsOf, h_row]
      have h_meets : row.meets scope =
          { scope with companyId := none }.matchesSession row.data := by
        rw [h sessionId row h_row]
        exact meets_dumpedRow scope row.json
      cases h_match : { scope with companyId := none }.matchesSession row.data with
      | true => simp [h_there, h_meets, h_match, Option.filter]
      | false => simp [h_there, h_meets, h_match, Option.filter, update_some h_there]

section Runs

variable {calls : ℕ → PostgresCall} {s v : RowState String SessionRow} {as bs : List RowAction}

/-- What the calls do with their rows. -/
def onRows (calls : ℕ → PostgresCall) (i : ℕ) : RowCall String SessionRow := (calls i).onRow

/-- **Calls on the rows, one after the other, are the calls on the table.** -/
theorem execAll_eq (h : FaithfulRows rows) (calls : ℕ → PostgresCall) (order : List ℕ) :
    FaithfulRows (RowCall.execAll (onRows calls) rows order) ∧
      sessionsOf (RowCall.execAll (onRows calls) rows order) =
        afterCalls calls (sessionsOf rows) order := by
  induction order using List.reverseRecOn with
  | nil => exact ⟨h, rfl⟩
  | append_singleton order i ih =>
    rw [RowCall.execAll_concat]
    refine ⟨(calls i).faithful_exec ih.1, ?_⟩
    rw [afterCalls, List.foldl_append, onRows, (calls i).exec_eq ih.1, ih.2]
    rfl

/-! ### Any interleaving -/

/-- The sessions after a run are those of the committed calls. -/
theorem sessionsOf_run (h : FaithfulRows rows)
    (h_run : runSteps (RowState.step (onRows calls)) (.start rows) as = some s) :
    sessionsOf s.rows = afterCalls calls (sessionsOf rows) s.log := by
  rw [(RowState.Sound.start.of_run h_run).rows]
  exact (execAll_eq h calls s.log).2

/-- **The calls are serializable**: whatever their interleaving, and whichever of them fail, the
sessions are what the committed calls make of them one after the other, a load returns what its
scope sees at its place in that order, and the order is never revised. It is the order in which
they take effect: a call whose row a delete took away comes directly behind that delete. -/
theorem postgres_serializable (h : FaithfulRows rows)
    (h_run : runSteps (RowState.step (onRows calls)) (.start rows) as = some s) :
    s.log.Nodup ∧ (∀ i, i ∈ s.log ↔ ∃ seen, s.phase i = .committed seen) ∧
    sessionsOf s.rows = afterCalls calls (sessionsOf rows) s.log ∧
    (∀ before i after sessionId scope seen, s.log = before ++ i :: after →
      calls i = .loadSession sessionId scope → s.phase i = .committed seen →
      loadedFrom scope seen = (afterCalls calls (sessionsOf rows) before).visible sessionId scope) ∧
    ∀ bs v, runSteps (RowState.step (onRows calls)) s bs = some v → s.log <+: v.log := by
  -- the run keeps the rows in step with the log
  have h_sound := RowState.Sound.start.of_run h_run
  refine ⟨h_sound.nodup, h_sound.mem_log, sessionsOf_run h h_run, ?_,
    fun bs v h_later => RowState.log_prefix h_later⟩
  intro before i after sessionId scope seen h_log h_call h_seen
  -- what the calls before have left in the table
  obtain ⟨h_faithful, h_sessions⟩ := execAll_eq h calls before
  have h_key : (onRows calls i).key = sessionId := by rw [onRows, h_call]; rfl
  -- is what the call saw
  have h_saw := h_sound.saw before i after h_log
  rw [h_seen, h_key] at h_saw
  rw [CallPhase.committed.inj h_saw, loadedFrom_eq h_faithful, h_sessions]

end Runs

/-- A session without turns. -/
def deskSession : AgentSession := { sessionId := "s", agentId := "desk" }

def deskRows : String → Option SessionRow := fun sessionId =>
  if sessionId = "s" then some (deskSession.dumpedRow rfl) else none

/-- The rows of the example show their sessions. -/
theorem faithful_deskRows : FaithfulRows deskRows := by
  intro sessionId row h_row
  unfold deskRows at h_row
  split_ifs at h_row
  obtain rfl := Option.some.inj h_row
  rfl

/-- Two appends and loads. -/
def twoAppends : ℕ → PostgresCall
  | 0 => .appendTurn "s" { turnIndex := 1 } {}
  | 1 => .appendTurn "s" { turnIndex := 2 } {}
  | _ => .loadSession "s" {}

/-- The first append has locked the row when a load fails and another one reads. -/
def lockedFirst : List RowAction := [.go 0, .fail 2, .go 3, .go 0, .go 1, .go 1]

theorem exists_run_lockedFirst : ∃ s,
    runSteps (RowState.step (onRows twoAppends)) (.start deskRows) lockedFirst = some s ∧
    s.log = [3, 0, 1] :=
  ⟨_, rfl, rfl⟩

/-- Two appends to one session: the second waits for the first. -/
theorem postgres_serializable_twoAppends : ∃ s,
    runSteps (RowState.step (onRows twoAppends)) (.start deskRows) lockedFirst = some s ∧
    s.log = [3, 0, 1] ∧
    sessionsOf s.rows = afterCalls twoAppends (sessionsOf deskRows) [3, 0, 1] := by
  obtain ⟨s, h_s, h_log⟩ := exists_run_lockedFirst
  obtain ⟨-, -, h_sessions, -⟩ := postgres_serializable faithful_deskRows h_s
  rw [h_log] at h_sessions
  exact ⟨s, h_s, h_log, h_sessions⟩

section Runs

variable {rows : String → Option SessionRow} {calls : ℕ → PostgresCall}
  {s : RowState String SessionRow} {as : List RowAction}

/-- **No call waits for ever**: in every state that is reached, each call that is not over commits
after at most three steps, although no call fails. -/
theorem postgres_never_blocked {i : ℕ}
    (h_run : runSteps (RowState.step (onRows calls)) (.start rows) as = some s)
    (h_open : (s.phase i).isOver = false) :
    ∃ (turns : List ℕ) (v : RowState String SessionRow), turns.length ≤ 3 ∧
      runSteps (RowState.step (onRows calls)) s (turns.map .go) = some v ∧
      ∃ seen, v.phase i = .committed seen :=
  RowState.exists_commit (RowState.Sound.start.of_run h_run) h_open

end Runs

/-- The second append waits for the first. -/
theorem postgres_never_blocked_lockedFirst : ∃ s,
    runSteps (RowState.step (onRows twoAppends)) (.start deskRows) [.go 0] = some s ∧
    RowState.step (onRows twoAppends) s (.go 1) = none ∧
    ∃ (turns : List ℕ) (v : RowState String SessionRow), turns.length ≤ 3 ∧
      runSteps (RowState.step (onRows twoAppends)) s (turns.map .go) = some v ∧
      ∃ seen, v.phase 1 = .committed seen := by
  -- after the first lock the second append waits
  have h_first : ∃ s,
      runSteps (RowState.step (onRows twoAppends)) (.start deskRows) [.go 0] = some s ∧
      RowState.step (onRows twoAppends) s (.go 1) = none ∧ s.phase 1 = .waiting :=
    ⟨_, rfl, rfl, rfl⟩
  obtain ⟨s, h_s, h_blocked, h_waiting⟩ := h_first
  exact ⟨s, h_s, h_blocked, postgres_never_blocked h_s (by rw [h_waiting]; rfl)⟩

/-! ### What is appended -/

/-- The call stores or removes the session as a whole. -/
def PostgresCall.Overwrites (sessionId : String) : PostgresCall → Prop
  | .saveSession s => s.sessionId = sessionId
  | .deleteSession sessionId' _ => sessionId' = sessionId
  | _ => False

/-- The turn that the call appends to the session, if its scope matches. -/
def PostgresCall.appended (sessionId : String) (s : AgentSession) : PostgresCall → Option TurnRecord
  | .appendTurn sessionId' turn scope =>
    if sessionId' = sessionId ∧ scope.matchesSession s = true then some turn else none
  | _ => none

/-- The session has more turns, and other summaries at most. -/
structure AgentSession.HasTurns (s₀ : AgentSession) (turns : List TurnRecord) (s : AgentSession) :
    Prop where
  scope : s.toScope = s₀.toScope
  turns : s.turns.map TurnRecord.bare = (s₀.turns ++ turns).map TurnRecord.bare

theorem SessionTable.visible_eq {t : SessionTable} {sessionId : String} {s : AgentSession}
    (h : t sessionId = some s) (scope : SessionScope) :
    t.visible sessionId scope = if scope.matchesSession s = true then some s else none := by
  rw [SessionTable.visible, h, Option.filter_some]

/-- One call that does not overwrite the session. -/
theorem PostgresCall.onTable_hasTurns {t : SessionTable} {sessionId : String}
    {s₀ s : AgentSession} {turns : List TurnRecord} (h_s : t sessionId = some s)
    (h : s₀.HasTurns turns s) (c : PostgresCall) (h_keeps : ¬c.Overwrites sessionId) :
    ∃ s', c.onTable t sessionId = some s' ∧
      s₀.HasTurns (turns ++ (c.appended sessionId s₀).toList) s' := by
  -- what a call leaves when it appends nothing to this session
  have h_idle : s₀.HasTurns (turns ++ (none : Option TurnRecord).toList) s := by
    rw [Option.toList_none, List.append_nil]
    exact h
  cases c with
  | saveSession s' =>
    have h_ne : sessionId ≠ s'.sessionId := fun h_eq => h_keeps h_eq.symm
    refine ⟨s, ?_, h_idle⟩
    simp only [onTable]
    cases h_dump : s'.modelDump with
    | none => exact h_s
    | some data =>
      rw [← AgentSession.sessionId_of_modelDump h_dump] at h_ne
      exact (Function.update_of_ne h_ne _ _).trans h_s
  | loadSession sessionId' scope => exact ⟨s, h_s, h_idle⟩
  | appendTurn sessionId' turn scope =>
    simp only [onTable, SessionTable.exec, appended]
    rcases eq_or_ne sessionId' sessionId with rfl | h_ne
    · -- the scope check sees the session as it was at first: appends keep its ids
      rw [SessionTable.visible_eq h_s, SessionScope.matchesSession_congr scope h.scope]
      by_cases h_match : scope.matchesSession s₀ = true
      · rw [if_pos h_match, if_pos ⟨rfl, h_match⟩]
        refine ⟨s.addTurn turn, Function.update_self .., h.scope, ?_⟩
        rw [AgentSession.addTurn_turns, List.map_append, h.turns]
        simp
      · rw [if_neg h_match, if_neg fun h_both => h_match h_both.2]
        exact ⟨s, h_s, h_idle⟩
    · rw [if_neg fun h_both => h_ne h_both.1]
      refine ⟨s, ?_, h_idle⟩
      cases t.visible sessionId' scope with
      | none => exact h_s
      | some s' => exact (Function.update_of_ne h_ne.symm _ _).trans h_s
  | updateTcSummary sessionId' tcId summary byTurn scope =>
    simp only [onTable]
    rcases eq_or_ne sessionId' sessionId with rfl | h_ne
    · rw [SessionTable.visible_eq h_s]
      by_cases h_match : scope.matchesSession s = true
      · rw [if_pos h_match]
        refine ⟨s.summarizeTc tcId summary byTurn, Function.update_self .., h_idle.scope, ?_⟩
        -- a summary changes no field that `bare` keeps
        show (updateFirstTc (fun tc => decide (tc.tcId = tcId)) _ s.turns).map _ = _
        rw [bare_updateFirstTc (ToolCallRecord.bare_withSummary summary byTurn)]
        exact h_idle.turns
      · rw [if_neg h_match]
        exact ⟨s, h_s, h_idle⟩
    · refine ⟨s, ?_, h_idle⟩
      cases t.visible sessionId' scope with
      | none => exact h_s
      | some s' => exact (Function.update_of_ne h_ne.symm _ _).trans h_s
  | deleteSession sessionId' scope =>
    have h_ne : sessionId ≠ sessionId' := fun h_eq => h_keeps h_eq.symm
    refine ⟨s, ?_, h_idle⟩
    simp only [onTable, SessionTable.exec]
    cases t.visible sessionId' { scope with companyId := none } with
    | none => exact h_s
    | some s' => exact (Function.update_of_ne h_ne _ _).trans h_s

section Runs

variable {rows : String → Option SessionRow} {calls : ℕ → PostgresCall}
  {s : RowState String SessionRow} {as : List RowAction}

/-- The turns of a session are those it had, and those appended since. -/
theorem afterCalls_hasTurns {t : SessionTable} {sessionId : String} {s₀ : AgentSession}
    (h_s₀ : t sessionId = some s₀) (h_keeps : ∀ i, ¬(calls i).Overwrites sessionId)
    (order : List ℕ) :
    ∃ s', afterCalls calls t order sessionId = some s' ∧
      s₀.HasTurns (order.filterMap fun i => (calls i).appended sessionId s₀) s' := by
  -- by induction on the calls, the last one at the end
  induction order using List.reverseRecOn with
  | nil => exact ⟨s₀, h_s₀, rfl, by simp⟩
  | append_singleton order i ih =>
    -- the last call appends its turns after those there
    obtain ⟨s', h_s', h_turns⟩ := ih
    obtain ⟨s'', h_s'', h_more⟩ :=
      PostgresCall.onTable_hasTurns h_s' h_turns (calls i) (h_keeps i)
    refine ⟨s'', ?_, ?_⟩
    · rw [afterCalls, List.foldl_append]
      exact h_s''
    · have h_last : [i].filterMap (fun i => (calls i).appended sessionId s₀) =
          ((calls i).appended sessionId s₀).toList := by
        cases h_turn : (calls i).appended sessionId s₀ <;> simp [h_turn]
      rw [List.filterMap_append, h_last]
      exact h_more

/-- **No appended turn is lost**: a session that no call saves or deletes has, whatever the
interleaving of the calls and whichever of them fail, its turns and those of the committed appends
whose scope matches it, each once and in the order in which they committed. -/
theorem postgres_appends_kept (h : FaithfulRows rows)
    (h_run : runSteps (RowState.step (onRows calls)) (.start rows) as = some s)
    {sessionId : String} {s₀ : AgentSession} (h_s₀ : sessionsOf rows sessionId = some s₀)
    (h_keeps : ∀ i, ¬(calls i).Overwrites sessionId) :
    ∃ s', sessionsOf s.rows sessionId = some s' ∧
      s₀.HasTurns (s.log.filterMap fun i => (calls i).appended sessionId s₀) s' := by
  rw [sessionsOf_run h h_run]
  exact afterCalls_hasTurns h_s₀ h_keeps s.log

end Runs

/-- Two appends to one session: both turns are there. -/
theorem postgres_appends_kept_twoAppends : ∃ s s',
    runSteps (RowState.step (onRows twoAppends)) (.start deskRows) lockedFirst = some s ∧
    sessionsOf s.rows "s" = some s' ∧
    deskSession.HasTurns [{ turnIndex := 1 }, { turnIndex := 2 }] s' := by
  obtain ⟨s, h_s, h_log⟩ := exists_run_lockedFirst
  have h_keeps : ∀ i, ¬(twoAppends i).Overwrites "s" := by
    rintro (_ | _ | i) <;> exact id
  obtain ⟨s', h_s', h_turns⟩ := postgres_appends_kept faithful_deskRows h_s rfl h_keeps
  rw [h_log] at h_turns
  exact ⟨s, s', h_s, h_s', h_turns⟩

end Nexus
