import NexusAgent.Lib.SharedLog
import NexusAgent.Runner.Persistence

/-!
# Runs that share a session, one storage operation at a time

`AgentRunner._run_loop` seen from the session store: which storage operation follows which,
for any number of persistable runs on one session, whose operations interleave.

* `CopyingAdapter`: a session store whose loads return copies and whose `append_turn` is one
  operation.
* `Phase`: where a run stands between two of its operations, with the copy of the session it
  works on; `StorageOp`: the operations. What a run does to its copy in between is the
  argument of the next write.
* `StorageOp.step`, `SharedRuns.step`: one operation of one run.
* `SharedRuns.Spares`: an operation that does not write back a copy without a turn another
  run has appended.
-/

open Lib

namespace Nexus

/-! ### Session stores that hand out copies -/

/-- A session store, keyed by session id: a save replaces the entry, an append adds to it in
one step if the scope admits it. -/
structure CopyingAdapter (σ : Type) where
  find? : σ → String → Option AgentSession
  saveSession : σ → AgentSession → σ
  appendTurn : σ → String → TurnRecord → SessionScope → σ
  find?_sessionId : ∀ st sid s, find? st sid = some s → s.sessionId = sid
  find?_saveSession : ∀ st s, find? (saveSession st s) s.sessionId = some s
  find?_appendTurn : ∀ st sid turn scope, find? (appendTurn st sid turn scope) sid =
    (find? st sid).map fun s => if scope.matchesSession s then s.addTurn turn else s

namespace CopyingAdapter

variable {σ : Type} (A : CopyingAdapter σ)

/-- `load_session`. -/
def loadSession (st : σ) (sid : String) (scope : SessionScope) : Option AgentSession :=
  (A.find? st sid).filter scope.matchesSession

/-- The redis store is one. -/
def redis (keyPrefix : String) : CopyingAdapter (Store (.redis keyPrefix)) where
  find? := Store.find?
  saveSession := Store.saveSession
  appendTurn := Store.appendTurn
  find?_sessionId _ _ _ h := Store.find?_sessionId h
  find?_saveSession := Store.find?_saveSession_self
  find?_appendTurn st sid turn scope := by
    rw [Store.find?_appendTurn_self]
    unfold Store.loadSession
    cases h : st.find? sid with
    | none => rfl
    | some s => by_cases h_match : scope.matchesSession s = true <;> simp [h_match]

/-- Its loads are those of the store. -/
theorem redis_loadSession (keyPrefix : String) (st : Store (.redis keyPrefix)) (sid : String)
    (scope : SessionScope) :
    (redis keyPrefix).loadSession st sid scope = st.loadSession sid scope := by
  show (st.find? sid).filter _ = _
  unfold Store.loadSession
  cases st.find? sid with
  | none => rfl
  | some s => simp [Option.filter]

end CopyingAdapter

/-! ### The operations of a run -/

/-- Where a run stands between two storage operations, with its copy of the session. -/
inductive Phase
  /-- Before `_get_or_create_session`. -/
  | load
  /-- The session was not there. -/
  | create
  /-- Loaded or created; the save before the loop is next. -/
  | opened (session : AgentSession)
  | loop (session : AgentSession)
  /-- Inside an `update_tc_summary` that has loaded `held`. -/
  | summarizing (session held : AgentSession)
  /-- `_persist_turn_with_state` has saved the state bag. -/
  | synced (session : AgentSession) (turn : TurnRecord)
  /-- `_persist_turn` has appended the turn. -/
  | appended (session : AgentSession)
  | ended
  deriving DecidableEq, Repr

/-- A storage operation. A write carries the session that is written. -/
inductive StorageOp
  | load
  | create (agentId : String)
  /-- `_maybe_save_session`. -/
  | save (session : AgentSession)
  /-- The save of a context summary, which folds turns away. -/
  | fold (folded : List ℕ) (session : AgentSession)
  /-- The load of an `update_tc_summary`. -/
  | readSummary
  /-- The save of an `update_tc_summary`: what it loaded, with other summaries. -/
  | writeSummary (session : AgentSession)
  /-- The save of `_persist_turn_with_state`. -/
  | sync (session : AgentSession) (turn : TurnRecord)
  | append
  /-- The load of `_persist_turn`, or the one after a curation. -/
  | reload
  /-- The last save. -/
  | finish (session : AgentSession)
  deriving DecidableEq, Repr

/-- What a run may have made of its copy: the same session with the same turns, but for the
results and the summaries of their records. -/
structure AgentSession.Edited (s s' : AgentSession) : Prop where
  sessionId : s'.sessionId = s.sessionId
  toScope : s'.toScope = s.toScope
  turns : s'.turns.map TurnRecord.shell = s.turns.map TurnRecord.shell

instance (s s' : AgentSession) : Decidable (s.Edited s') :=
  decidable_of_iff (s'.sessionId = s.sessionId ∧ s'.toScope = s.toScope ∧
      s'.turns.map TurnRecord.shell = s.turns.map TurnRecord.shell)
    ⟨fun ⟨h_id, h_scope, h_turns⟩ => ⟨h_id, h_scope, h_turns⟩,
      fun h => ⟨h.sessionId, h.toScope, h.turns⟩⟩

/-- The session without the turns of the folded indices. -/
def AgentSession.withoutTurns (folded : List ℕ) (s : AgentSession) : AgentSession :=
  { s with turns := s.turns.filter fun t => t.turnIndex ∉ folded }

/-- The session `create_session` makes. -/
def newSession (agentId sid : String) (scope : SessionScope) : AgentSession :=
  { sessionId := sid, agentId := agentId, tenantId := scope.tenantId,
    companyId := scope.companyId, userId := scope.userId }

/-- A run: its phase, and the number of turns that had been appended when it loaded its copy,
and the one held for a summary. -/
structure Party where
  phase : Phase := .load
  seen : ℕ := 0
  seenHeld : ℕ := 0
  deriving DecidableEq, Repr

/-- One storage operation, if it is next: the store, the run, and the turn it appends. -/
def StorageOp.step {σ : Type} (A : CopyingAdapter σ) (ctx : RunContext) (sid : String) (n : ℕ)
    (st : σ) (r : Party) (op : StorageOp) : Option (σ × Party × List TurnRecord) :=
  match r.phase, op with
  | .load, .load =>
    match A.loadSession st sid (ctx.sessionScope none) with
    | some s => some (st, { r with phase := .opened s, seen := n }, [])
    | none => some (st, { r with phase := .create, seen := n }, [])
  | .create, .create agentId =>
    let s := newSession agentId sid (ctx.sessionScope none)
    some (A.saveSession st s, { r with phase := .opened s }, [])
  | .opened c, .save s | .loop c, .save s =>
    if c.Edited s then some (A.saveSession st s, { r with phase := .loop s }, []) else none
  | .loop c, .fold folded s =>
    if (c.withoutTurns folded).Edited s then
      some (A.saveSession st s, { r with phase := .loop s }, [])
    else none
  -- `update_tc_summary` loads the session itself and writes it back
  | .loop c, .readSummary =>
    match A.loadSession st sid c.toScope with
    | some s => some (st, { r with phase := .summarizing c s, seenHeld := n }, [])
    | none => some (st, r, [])
  | .summarizing c held, .writeSummary s =>
    if s.stem = held.stem then some (A.saveSession st s, { r with phase := .loop c }, [])
    else none
  | .loop c, .sync s turn =>
    if c.Edited s then some (A.saveSession st s, { r with phase := .synced s turn }, []) else none
  | .synced c turn, .append =>
    some (A.appendTurn st sid turn (ctx.sessionScope (some c)), { r with phase := .appended c },
      [turn])
  | .appended c, .reload | .loop c, .reload =>
    match A.loadSession st sid (ctx.sessionScope (some c)) with
    | some s => some (st, { r with phase := .loop s, seen := n }, [])
    -- a session that is gone is not read again: the copy goes on
    | none => some (st, { r with phase := .loop c }, [])
  | .loop c, .finish s =>
    if c.Edited s then some (A.saveSession st s, { r with phase := .ended }, []) else none
  | _, _ => none

/-! ### Runs side by side -/

/-- The store, the runs on the session, and the turns they have appended. -/
structure SharedRuns (ι σ : Type) where
  store : σ
  runs : ι → Party
  persisted : List TurnRecord := []

namespace SharedRuns

variable {ι σ : Type}

/-- Before the first operation of any run. -/
def start (ι : Type) (st : σ) : SharedRuns ι σ := { store := st, runs := fun _ => {} }

/-- One operation of run `i`. -/
def step [DecidableEq ι] (A : CopyingAdapter σ) (ctx : RunContext) (sid : String)
    (s : SharedRuns ι σ) (act : ι × StorageOp) : Option (SharedRuns ι σ) :=
  (act.2.step A ctx sid s.persisted.length s.store (s.runs act.1)).map fun (st, r, turns) =>
    { store := st
      runs := Function.update s.runs act.1 r
      persisted := s.persisted ++ turns }

/-- All runs have ended. -/
def Over (s : SharedRuns ι σ) : Prop := ∀ i, (s.runs i).phase = .ended

/-- No turn is erased: a session that is written as a whole was loaded after the last append,
and a fold takes away no turn that a run has appended. -/
def Spares (s : SharedRuns ι σ) (act : ι × StorageOp) : Prop :=
  match act.2 with
  | .create _ | .save _ | .sync _ _ | .finish _ => (s.runs act.1).seen = s.persisted.length
  | .fold folded _ => (s.runs act.1).seen = s.persisted.length ∧
      ∀ t ∈ s.persisted, t.turnIndex ∉ folded
  | .writeSummary _ => (s.runs act.1).seenHeld = s.persisted.length
  | .load | .readSummary | .append | .reload => True

instance (s : SharedRuns ι σ) (act : ι × StorageOp) : Decidable (s.Spares act) := by
  unfold Spares
  split <;> infer_instance

end SharedRuns

/-- The turns a load of the session finds. -/
def CopyingAdapter.turns {σ : Type} (A : CopyingAdapter σ) (ctx : RunContext) (sid : String)
    (st : σ) : List TurnRecord :=
  ((A.loadSession st sid (ctx.sessionScope none)).map AgentSession.turns).getD []

end Nexus
