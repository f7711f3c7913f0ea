import NexusAgent.Session.Store

/-!
# What a store writes of a session

`DefaultSessionCodec.dumps` of `nexus/session/codec.py`: a session is written as
`model_dump(mode="json")`. Only its state bag may hold what is no JSON: a tuple is written as a
list, and a host object makes the dump raise.

* `modelDump_eq_some_iff`: a session that is dumped differs in its state bag only.
* `modelDump_dumped`: a session that was read back is dumped as it is.
-/

open Lib

namespace Nexus

/-- `json.loads(json.dumps(value))`, of a value that is written. -/
def StateValue.readBack : StateValue → StateValue
  | .coerced _ image => .json image
  | value => value

/-- Whether the dump of a value raises. -/
def StateValue.isHostObject : StateValue → Bool
  | .hostObject _ => true
  | _ => false

/-- The session that is read back from `model_dump(mode="json")`; `none`: the dump raises. -/
def AgentSession.modelDump (s : AgentSession) : Option AgentSession :=
  if s.state.any fun p => p.2.isHostObject then none
  else some (s.withState (Dict.mapValues StateValue.readBack s.state))

theorem StateValue.readBack_readBack (v : StateValue) : v.readBack.readBack = v.readBack := by
  cases v <;> rfl

theorem StateValue.isHostObject_readBack (v : StateValue) :
    v.readBack.isHostObject = v.isHostObject := by
  cases v <;> rfl

namespace AgentSession

variable {s data : AgentSession}

/-- A session is dumped unless its state holds a host object, and each value is then read back. -/
theorem modelDump_eq_some_iff : s.modelDump = some data ↔
    (∀ p ∈ s.state, p.2.isHostObject = false) ∧
      data = s.withState (Dict.mapValues StateValue.readBack s.state) := by
  unfold modelDump
  split_ifs with h_any
  · -- a host object makes the dump fail
    obtain ⟨p, h_p, h_host⟩ := List.any_eq_true.mp h_any
    simp only [false_iff, not_and]
    intro h_all
    rw [h_all p h_p] at h_host
    cases h_host
  · simp only [List.any_eq_true, not_exists, not_and, Bool.not_eq_true] at h_any
    rw [Option.some.injEq, eq_comm, and_iff_right h_any]

/-- Only the state bag may come back in another form. -/
theorem eq_withState_of_modelDump (h : s.modelDump = some data) : data = s.withState data.state := by
  rw [(modelDump_eq_some_iff.mp h).2]
  rfl

theorem sessionId_of_modelDump (h : s.modelDump = some data) : data.sessionId = s.sessionId := by
  rw [eq_withState_of_modelDump h]
  rfl

theorem toScope_of_modelDump (h : s.modelDump = some data) : data.toScope = s.toScope := by
  rw [eq_withState_of_modelDump h]
  rfl

/-- A session that was read back is dumped as it is. -/
theorem modelDump_dumped (h : s.modelDump = some data) : data.modelDump = some data := by
  obtain ⟨h_json, rfl⟩ := modelDump_eq_some_iff.mp h
  refine modelDump_eq_some_iff.mpr ⟨fun p h_p => ?_, ?_⟩
  · obtain ⟨q, h_q, rfl⟩ := List.mem_map.mp h_p
    exact (StateValue.isHostObject_readBack q.2).trans (h_json q h_q)
  · unfold withState
    simp [Dict.mapValues, StateValue.readBack_readBack]

/-- A change that leaves the state bag alone commutes with the dump. -/
theorem modelDump_comm {f : AgentSession → AgentSession} (h_state : ∀ s, (f s).state = s.state)
    (h_with : ∀ (s : AgentSession) state, f (s.withState state) = (f s).withState state)
    (h : s.modelDump = some data) : (f s).modelDump = some (f data) := by
  obtain ⟨h_json, rfl⟩ := modelDump_eq_some_iff.mp h
  rw [modelDump_eq_some_iff, h_state, h_with]
  exact ⟨h_json, rfl⟩

theorem modelDump_addTurn (turn : TurnRecord) (h : s.modelDump = some data) :
    (s.addTurn turn).modelDump = some (data.addTurn turn) :=
  modelDump_comm (f := addTurn turn) (fun _ => rfl) (fun _ _ => rfl) h

end AgentSession

/-! ### Tables of dumped sessions -/

section Tables

variable {κ : Type} [DecidableEq κ] {d : Dict κ AgentSession}

/-- Storing what was dumped keeps every stored session as it is read back. -/
theorem dumped_set (h : ∀ k s, d.get? k = some s → s.modelDump = some s) {key : κ}
    {data : AgentSession} (h_data : data.modelDump = some data) :
    ∀ k s, (d.set key data).get? k = some s → s.modelDump = some s := by
  intro k s h_s
  rw [Dict.get?_set] at h_s
  split_ifs at h_s
  · obtain rfl := Option.some.inj h_s
    exact h_data
  · exact h k s h_s

/-- Filtering keeps what was dumped. -/
theorem dumped_filter (h : ∀ k s, d.get? k = some s → s.modelDump = some s) (keep : κ → Bool) :
    ∀ k s, Dict.get? (d.filter fun p => keep p.1) k = some s → s.modelDump = some s := by
  intro k s h_s
  rw [Dict.get?_filter] at h_s
  split_ifs at h_s
  exact h k s h_s

end Tables
end Nexus
