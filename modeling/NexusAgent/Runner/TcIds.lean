import Mathlib.Data.List.Flatten
import NexusAgent.Runner.Approval
import NexusAgent.Runner.Results
import NexusAgent.Runner.Underway

/-!
# Record ids

Tool handlers number their records from a counter of the session. The turn that gets the
records and the counter are written at different moments, and a run may break off between
any two of them, or drop the records of handlers that raised. Numbers may be lost that way;
none is given twice, since a session is never stored with a counter behind its records.

* `NumbersUpTo n`: what the numbers of a session are like, for the counter `n`.
* `Storing.numbers`: the records of a turn are numbered from the counter on.
* `tcIds_unique`: the records of any session reached have distinct ids.
-/

open Lib

namespace Nexus

variable {a : StoreAdapter}

/-! ### Numbers and ids -/

/-- The number and the id of a record. -/
def ToolCallRecord.number (tc : ToolCallRecord) : ℕ × String := (tc.tcIndex, tc.tcId)

/-- The numbers and ids of the records of a session. -/
def AgentSession.numbering (s : AgentSession) : List (ℕ × String) :=
  s.records.map ToolCallRecord.number

/-- The numbers are distinct and at most `n`, and the ids are theirs. -/
structure NumbersUpTo (n : ℕ) (ids : List (ℕ × String)) : Prop where
  distinct : (ids.map Prod.snd).Nodup
  numbered : ∀ p ∈ ids, p.2 = tcIdOf p.1
  bounded : ∀ p ∈ ids, p.1 ≤ n

section NumbersUpTo

variable {n m : ℕ} {ids ids' : List (ℕ × String)}

theorem NumbersUpTo.nil (n : ℕ) : NumbersUpTo n [] := ⟨List.nodup_nil, by simp, by simp⟩

theorem NumbersUpTo.mono (h : NumbersUpTo n ids) (h_le : n ≤ m) : NumbersUpTo m ids where
  distinct := h.distinct
  numbered := h.numbered
  bounded p hp := (h.bounded p hp).trans h_le

/-- Records may be dropped. -/
theorem NumbersUpTo.sublist (h : NumbersUpTo n ids) (h_sub : ids'.Sublist ids) :
    NumbersUpTo n ids' where
  distinct := (h_sub.map Prod.snd).nodup h.distinct
  numbered p hp := h.numbered p (h_sub.subset hp)
  bounded p hp := h.bounded p (h_sub.subset hp)

/-- Records with higher numbers may be added. -/
theorem NumbersUpTo.append (h : NumbersUpTo n ids) (h' : NumbersUpTo m ids') (h_le : n ≤ m)
    (h_above : ∀ p ∈ ids', n < p.1) : NumbersUpTo m (ids ++ ids') where
  distinct := by
    rw [List.map_append, List.nodup_append']
    refine ⟨h.distinct, h'.distinct, ?_⟩
    intro id h_id h_id'
    obtain ⟨p, hp, rfl⟩ := List.mem_map.mp h_id
    obtain ⟨q, hq, h_eq⟩ := List.mem_map.mp h_id'
    -- equal ids have equal numbers
    rw [h.numbered p hp, h'.numbered q hq] at h_eq
    have h_number := tcIdOf_injective h_eq
    have h_p := h.bounded p hp
    have h_q := h_above q hq
    omega
  numbered := List.forall_mem_append.mpr ⟨h.numbered, h'.numbered⟩
  bounded := List.forall_mem_append.mpr ⟨(h.mono h_le).bounded, h'.bounded⟩

end NumbersUpTo

/-! ### Numbers of a session -/

/-- The numbers of the records are part of the core. -/
theorem AgentSession.numbering_of_core {s s' : AgentSession} (h : s'.core = s.core) :
    s'.numbering = s.numbering := by
  have h_core : ∀ s : AgentSession, s.core.numbering = s.numbering := by
    intro s
    simp only [numbering, ToolCallRecord.number, records, core, bare, TurnRecord.shell,
      TurnRecord.bare, ToolCallRecord.bare, List.map_flatMap, List.flatMap_map, List.map_map,
      Function.comp_def]
    rfl
  rw [← h_core s', h, h_core]

theorem AgentSession.numbering_addTurn (s : AgentSession) (turn : TurnRecord) :
    (s.addTurn turn).numbering =
      s.numbering ++ turn.toolCalls.map ToolCallRecord.number := by
  simp [numbering, records, addTurn]

/-- The records of a session are numbered up to its counter. -/
def WellNumbered (s : AgentSession) : Prop := NumbersUpTo s.tcCounter s.numbering

/-- The numbers belong to the core and the counter. -/
theorem WellNumbered.of_core {s s' : AgentSession} (h : WellNumbered s) (h_core : s'.core = s.core)
    (h_counter : s.tcCounter ≤ s'.tcCounter) : WellNumbered s' := by
  unfold WellNumbered
  rw [AgentSession.numbering_of_core h_core]
  exact h.mono h_counter

theorem growInv_wellNumbered : Live.GrowInv WellNumbered :=
  fun _ _ h_grown h => h.of_core h_grown.core h_grown.counter

theorem foldInv_wellNumbered (env : Env a) : FoldInv env WellNumbered := by
  intro s newPart _ h
  refine h.sublist ?_
  exact (List.filter_sublist.flatMap TurnRecord.toolCalls).map _

/-! ### The records of a turn -/

section Logged

variable {env : Env a} {calls : List ToolCallRequest} {n m : ℕ}
  {outs : List (ℕ × Except RunError Handled)} {obs : List Obs} {handled : List Handled}

/-- The records of a turn are numbered above the counter before its handlers, up to the one
after them. -/
theorem Results.numbers (h : Results calls outs handled) (h_logged : Logged env calls n outs obs m) :
    NumbersUpTo m ((handled.map Handled.record).map ToolCallRecord.number) ∧
      ∀ p ∈ (handled.map Handled.record).map ToolCallRecord.number, n < p.1 := by
  -- each record has a number above the old counter, and the id that belongs to it
  have h_each : ∀ p ∈ (handled.map Handled.record).map ToolCallRecord.number,
      n < p.1 ∧ p.1 ≤ m ∧ p.2 = tcIdOf p.1 := by
    intro p hp
    simp only [List.map_map, List.mem_map, Function.comp_apply] at hp
    obtain ⟨r, h_r, rfl⟩ := hp
    obtain ⟨i, h_i⟩ := List.mem_iff_getElem?.mp h_r
    obtain ⟨req, j, -, h_lt, h_le, h_as⟩ := h_logged.returned i r (h.returned i r h_i)
    obtain ⟨h_index, h_id, -⟩ := h_as.tcId
    show n < r.record.tcIndex ∧ r.record.tcIndex ≤ m ∧ r.record.tcId = tcIdOf r.record.tcIndex
    rw [h_index, h_id]
    exact ⟨h_lt, h_le, rfl⟩
  refine ⟨⟨?_, fun p hp => (h_each p hp).2.2, fun p hp => (h_each p hp).2.1⟩,
    fun p hp => (h_each p hp).1⟩
  rw [List.map_map]
  exact h.tcIds_nodup h_logged

end Logged

/-- What is in the records of a turn is numbered above the records before, up to the counter
the working session has. -/
theorem Storing.numbers {env : Env a} {stream : Bool} {s v : RunState a} {turn : TurnRecord}
    (h : Storing env stream s turn v) (h_inv : s.live.Inv WellNumbered) :
    WellNumbered (v.session.addTurn turn) := by
  have hP := growInv_wellNumbered
  show NumbersUpTo v.session.tcCounter (v.session.addTurn turn).numbering
  rw [AgentSession.numbering_addTurn]
  cases h with
  | @answer sent r t u h_reply h_accepted =>
    -- an answer adds no records
    have h_u : WellNumbered u.session := by
      have h_live := h_reply.inv hP (foldInv_wellNumbered env) h_inv
      rw [← h_accepted.live] at h_live
      exact h_live.session
    show NumbersUpTo u.session.tcCounter (u.session.numbering ++ [])
    rwa [List.append_nil]
  | @tools sent r t u v h_reply h_accepted outs obs h_effect handled n h_handled =>
    have h_u : WellNumbered u.session := by
      have h_live := h_reply.inv hP (foldInv_wellNumbered env) h_inv
      rw [← h_accepted.live] at h_live
      exact h_live.session
    -- the records of the turn have the next numbers
    obtain ⟨h_numbers, h_above⟩ := (h_handled.results h_effect.logged).numbers h_effect.logged
    rw [AgentSession.numbering_of_core h_effect.grows.session.core]
    -- which lie above all that are there
    exact h_u.append h_numbers h_effect.grows.session.counter h_above

/-! ### Runs and histories -/

/-- What holds of a session in the hands of a run: it is well numbered, and the run may
load it. -/
def NumberedFor (ctx : RunContext) (s : AgentSession) : Prop := WellNumbered s ∧ Owned ctx s

theorem growInv_numberedFor (ctx : RunContext) : Live.GrowInv (NumberedFor ctx) :=
  fun s s' h_grown h =>
    ⟨growInv_wellNumbered s s' h_grown h.1, (coreInv_owned ctx).grow s s' h_grown h.2⟩

theorem foldInv_numberedFor (env : Env a) : FoldInv env (NumberedFor env.context) :=
  fun s newPart h_some h => ⟨foldInv_wellNumbered env s newPart h_some h.1, h.2⟩

/-- **Storing a turn** writes the counter before it appends the turn. -/
theorem Storing.wellNumbered {env : Env a} {stream : Bool} {s v : RunState a} {turn : TurnRecord}
    (h : Storing env stream s turn v) (h_inv : s.live.Inv (NumberedFor env.context)) :
    (persistTurnWithState env turn v).live.Inv (NumberedFor env.context) := by
  -- the numbers of the session before the turn
  have h_v := h.inv (growInv_numberedFor env.context) (foldInv_numberedFor env) h_inv
  have h_owned : Owned env.context v.session := h_v.session.2
  -- and with the turn
  have h_new : NumberedFor env.context (v.session.withTurn turn (jsonSafeState v.state)) :=
    ⟨h.numbers (h_inv.mono fun _ h => h.1), h_owned⟩
  have h_session := persistTurnWithState_session turn h_owned
  refine ⟨h_session ▸ h_new, fun s' hs' => ?_⟩
  have h_id : (persistTurnWithState env turn v).live.session.sessionId = v.session.sessionId := by
    rw [h_session]
    rfl
  -- the store has the session with the turn, or is as it was
  rw [h_id, persistTurnWithState_entry turn h_owned] at hs'
  split_ifs at hs'
  · exact Option.some.inj hs' ▸ h_new
  · exact h_v.stored s' hs'

/-- Every session a runner can have is well numbered. -/
theorem Reachable.wellNumbered {sid : String} {s : AgentSession} (h : Reachable sid s) :
    WellNumbered s := by
  refine h.of_runs ?_ fun results s h_s => h_s.of_core (core_resumeSession results s) le_rfl
  intro a env stream args st l h_sid h_st h_run
  subst h_sid
  -- the session that the run works on is the one that was stored, or a new one
  have h_got : (getOrCreateSession env args st).Inv (NumberedFor env.context) :=
    inv_getOrCreateSession (fun s hs h_match => ⟨h_st s hs, owned_of_matches h_match⟩)
      ⟨.nil 0, owned_of_matches (matches_createdSession env args)⟩
  have h_inv := h_run.inv (growInv_numberedFor env.context) (foldInv_numberedFor env)
    (fun _ _ _ h_storing => h_storing.wellNumbered) h_got fun _ s _ h_s =>
      ⟨h_s.1.of_core (core_closePendingInteractions s) le_rfl,
        (coreInv_owned env.context).close s h_s.2⟩
  exact h_inv.mono fun _ h => h.1

/-- **The records of any session reached** have distinct ids, and none is numbered above the
session's counter. -/
theorem tcIds_unique {sid : String} {s : AgentSession} (h : Reachable sid s) :
    (s.records.map ToolCallRecord.tcId).Nodup ∧ ∀ tc ∈ s.records, tc.tcIndex ≤ s.tcCounter := by
  obtain ⟨h_distinct, -, h_bounded⟩ := h.wellNumbered
  rw [AgentSession.numbering, List.map_map] at h_distinct
  refine ⟨h_distinct, fun tc h_tc => ?_⟩
  exact h_bounded tc.number (List.mem_map_of_mem h_tc)

/-- An agent that makes two calls at once. -/
def twoCallsEnv : Env .memory where
  registry := [("desk.count", {})]
  proxy := .scripted
    [{ toolCalls := [⟨"c1", "desk.count", []⟩, ⟨"c2", "desk.count", []⟩] }, { content := some "Both." }]

/-- A run of the agent. -/
def twoCallsRun : RunState .memory :=
  execRun twoCallsEnv false { userMessage := "count twice", sessionId := some "s" } (.empty .memory)

/-- The two calls have different ids. -/
theorem tcIds_unique_twoCalls :
    (twoCallsRun.session.records.map ToolCallRecord.tcId).Nodup ∧
      ∀ tc ∈ twoCallsRun.session.records, tc.tcIndex ≤ twoCallsRun.session.tcCounter := by
  have h_start : (Store.empty .memory).find? "s" = none := rfl
  have h_reachable : Reachable "s" twoCallsRun.session :=
    .working h_start .refl (.run (by decide +kernel)) .finished
  exact tcIds_unique h_reachable

end Nexus
