import NexusAgent.Storage.FileAdapter
import NexusAgent.Storage.RedisAdapter
import NexusAgent.Storage.SqliteAdapter

/-!
# Deleting a session under a scope

What `delete_session` owes its caller: the session that a load under the same id and scope
returns is gone, and when there is none, nothing has changed (`RespectsScope`, one for each
adapter). The in-memory adapter always does so. The others delete without a look at the
scope, and the file and sqlite adapters drop the index entry of the id in any case.

* `LosesOnly`: a table without one of its entries.
* `delete_respects_iff`: exactly when each adapter respects the scope.
* `delete_ignores_scope`: a delete under another user's scope.
-/

open Lib

namespace Nexus

/-! ### Tables that lose an entry -/

section Tables

variable {κ ν : Type} [DecidableEq κ]

/-- The table lost the entry at `place`, if one is named, and nothing else. -/
def LosesOnly (before after : Dict κ ν) (place : Option κ) : Prop :=
  after.items = before.items.filter fun p => some p.1 ≠ place

/-- Nothing is lost if nothing changes. -/
theorem losesOnly_none (d : Dict κ ν) : LosesOnly d d none := by
  show d.items = d.items.filter fun p => some p.1 ≠ none
  rw [List.filter_eq_self.mpr]
  intro p _
  simp

/-- Cutting a table down by a condition on its keys loses one entry exactly when the
condition fails for that one only. -/
theorem losesOnly_filter_iff (d : Dict κ ν) (f : κ → Bool) (place : Option κ) :
    LosesOnly d (d.filter fun p => f p.1) place ↔
      ∀ p ∈ d.items, f p.1 = false ↔ some p.1 = place := by
  unfold LosesOnly
  rw [Dict.items_filter]
  constructor
  · intro h p hp
    -- an item is in both cuts or in neither
    have h_both : p ∈ d.items.filter (fun p => f p.1) ↔
        p ∈ d.items.filter fun p => some p.1 ≠ place := by rw [h]
    simp only [List.mem_filter, hp, true_and, decide_eq_true_eq] at h_both
    rw [← Bool.not_eq_true, h_both]
    exact not_not
  · intro h
    apply List.filter_congr
    intro p hp
    have h_p := h p hp
    by_cases h_f : f p.1 = true
    · have h_ne : some p.1 ≠ place := fun h_eq => by simp [h_p.mpr h_eq] at h_f
      simp [h_f, h_ne]
    · have h_eq : some p.1 = place := h_p.mp (by simpa using h_f)
      simp [h_f, h_eq]

/-- Taking a key out loses one entry exactly when the key is the named one, or is not there
and none is named. -/
theorem losesOnly_erase_iff (d : Dict κ ν) {k : κ} {place : Option κ}
    (h_place : ∀ k' ∈ place, k' = k) :
    LosesOnly d (d.erase k) place ↔ ((d.get? k).isSome → place = some k) := by
  have h_filter := losesOnly_filter_iff d (fun j => decide (j ≠ k)) place
  unfold Dict.erase
  rw [h_filter]
  -- erasing a key loses what is stored under it
  constructor
  · intro h h_some
    obtain ⟨v, h_v⟩ := Option.isSome_iff_exists.mp h_some
    exact ((h (k, v) (Dict.mem_items.mpr h_v)).mp (by simp)).symm
  · -- nothing but that is lost
    rintro h ⟨j, v⟩ hp
    have h_v := Dict.mem_items.mp hp
    constructor
    · intro h_j
      have h_j : j = k := by simpa using h_j
      subst h_j
      exact (h (by rw [h_v]; rfl)).symm
    · intro h_eq
      have h_j := h_place j h_eq.symm
      simpa using h_j

end Tables

/-! ### The session index -/

/-- The index lost the entry of an id if that pointed to the place, and nothing else. -/
def SessionIndex.LosesOnly {P : Type} [DecidableEq P] (place : Location → String → P)
    (before after : SessionIndex) (sessionId : String) (lost : Option P) : Prop :=
  ∀ id, after.lookup id =
    (before.lookup id).filter fun loc => !(id = sessionId && some (place loc id) = lost)

/-- `unregister_session` is right about the place when the entry points there. -/
theorem SessionIndex.losesOnly_unregister_iff {P : Type} [DecidableEq P]
    {place : Location → String → P} {index : SessionIndex} {sessionId : String} {lost : Option P} :
    index.LosesOnly place (index.unregister sessionId) sessionId lost ↔
      ∀ loc, index.lookup sessionId = some loc → some (place loc sessionId) = lost := by
  unfold SessionIndex.LosesOnly SessionIndex.unregister SessionIndex.lookup
  -- the entry of this id is lost
  constructor
  · intro h loc h_loc
    have h_id := h sessionId
    rw [Dict.get?_erase, if_pos rfl, h_loc] at h_id
    simpa [Option.filter] using h_id
  · -- those of the other ids stay
    intro h id
    rw [Dict.get?_erase]
    by_cases h_id : id = sessionId
    · subst h_id
      rw [if_pos rfl]
      cases h_loc : Dict.get? index id with
      | none => rfl
      | some loc => simp [Option.filter, h loc h_loc]
    · rw [if_neg h_id]
      cases Dict.get? index id with
      | none => rfl
      | some loc => simp [Option.filter, h_id]

/-! ### The four adapters -/

/-- `MemoryStorageAdapter` loses the session that a load under the scope returns. -/
def Store.RespectsScope (st : Store .memory) (sid : String) (scope : SessionScope) : Prop :=
  Nexus.LosesOnly st.entries (st.deleteSession sid scope).entries
    ((st.loadSession sid scope).map fun _ => sid)

/-- The in-memory adapter deletes only what the scope admits. -/
theorem Store.respectsScope (st : Store .memory) (sid : String) (scope : SessionScope) :
    st.RespectsScope sid scope := by
  unfold RespectsScope deleteSession loadSession
  cases h_find : st.find? sid with
  | none => exact losesOnly_none _
  | some s =>
    by_cases h : scope.matchesSession s = true
    · simp only [h, if_true, Option.map_some]
      exact (losesOnly_erase_iff _ (by simp)).mpr fun _ => rfl
    · simp only [h]
      exact losesOnly_none _

/-- `RedisStorageAdapter` loses the blob of the session that a load under the scope returns,
and its entry in the sorted set of its tenant and user. -/
def RedisStore.RespectsScope (keyPrefix : String) (st : RedisStore) (sid : String)
    (scope : SessionScope) : Prop :=
  let after := st.deleteSession keyPrefix sid scope
  let lost := st.loadSession keyPrefix sid scope
  LosesOnly st.blobs after.blobs (lost.map fun _ => sessionKey keyPrefix sid) ∧
    ∀ key, LosesOnly (st.members key) (after.members key)
      ((lost.filter fun s => key = indexKeyOf keyPrefix s).map fun _ => sid)

/-- Exactly when a redis delete respects the scope: the stored session, if there is one, is
one the scope admits. -/
theorem RedisStore.respectsScope_iff (keyPrefix : String) (st : RedisStore) (sid : String)
    (scope : SessionScope) : st.RespectsScope keyPrefix sid scope ↔
      ∀ s, st.blobs.get? (sessionKey keyPrefix sid) = some s → scope.matchesSession s = true := by
  have h_place : ∀ k ∈ (st.loadSession keyPrefix sid scope).map fun _ => sessionKey keyPrefix sid,
      k = sessionKey keyPrefix sid := by simp
  have h_blobs := losesOnly_erase_iff st.blobs h_place
  have h_load : ∀ s, st.blobs.get? (sessionKey keyPrefix sid) = some s →
      (scope.matchesSession s = true ↔ (st.loadSession keyPrefix sid scope).isSome) := by
    intro s h_s
    unfold loadSession
    rw [h_s]
    by_cases h : scope.matchesSession s = true <;> simp [Option.filter, h]
  -- the sorted sets are right in any case
  have h_sets : ∀ key, LosesOnly (st.members key)
      ((st.deleteSession keyPrefix sid scope).members key)
      (((st.loadSession keyPrefix sid scope).filter fun s => key = indexKeyOf keyPrefix s).map
        fun _ => sid) := by
    intro key
    unfold deleteSession members
    cases h_lost : st.loadSession keyPrefix sid scope with
    | none => exact losesOnly_none _
    | some s =>
      simp only
      rw [Dict.get?_set]
      by_cases h_key : indexKeyOf keyPrefix s = key
      · subst h_key
        simp only [if_true, Option.getD_some, Option.filter, decide_true, Option.map_some]
        exact (losesOnly_erase_iff _ (by simp)).mpr fun _ => rfl
      · rw [if_neg h_key]
        simp only [Option.filter, Ne.symm h_key, decide_false, Bool.false_eq_true, if_false,
          Option.map_none]
        exact losesOnly_none _
  unfold RespectsScope
  simp only [h_sets, implies_true, and_true]
  rw [show (st.deleteSession keyPrefix sid scope).blobs =
    st.blobs.erase (sessionKey keyPrefix sid) from rfl, h_blobs]
  constructor
  · intro h s h_s
    rw [h_load s h_s]
    simpa using congrArg Option.isSome (h (by rw [h_s]; rfl))
  · intro h h_some
    obtain ⟨s, h_s⟩ := Option.isSome_iff_exists.mp h_some
    obtain ⟨s', h_s'⟩ := Option.isSome_iff_exists.mp ((h_load s h_s).mp (h s h_s))
    rw [h_s']
    rfl

/-- The row that `SQLiteStorageAdapter.load_session` returns the session of. -/
def SqliteStore.place (st : SqliteStore) (sid : String) (scope : SessionScope) :
    Option (Path × String) :=
  (st.loadSession sid scope).map fun _ => st.rowFor sid scope

/-- `SQLiteStorageAdapter` loses that row, and the index entry if it points there. -/
def SqliteStore.RespectsScope (st : SqliteStore) (sid : String) (scope : SessionScope) : Prop :=
  let after := st.deleteSession sid scope
  LosesOnly st.rows after.rows (st.place sid scope) ∧
    st.index.LosesOnly row after.index sid (st.place sid scope)

/-- Exactly when a sqlite delete respects the scope: the row it deletes, if there, is that of
a session the scope admits, and the index entry of the id, if there, points to such a row. -/
theorem SqliteStore.respectsScope_iff (st : SqliteStore) (sid : String) (scope : SessionScope) :
    st.RespectsScope sid scope ↔
      ((st.rows.get? (st.rowFor sid scope)).isSome → st.place sid scope = some (st.rowFor sid scope)) ∧
        ∀ loc, st.index.lookup sid = some loc → some (row loc sid) = st.place sid scope := by
  -- the place of the call is its row
  have h_place : ∀ k ∈ st.place sid scope, k = st.rowFor sid scope := by
    intro k h_k
    obtain ⟨s, -, rfl⟩ := Option.map_eq_some_iff.mp h_k
    rfl
  -- the row and the entry of the index, each in turn
  show LosesOnly st.rows (st.rows.erase (st.rowFor sid scope)) _ ∧
    st.index.LosesOnly row (st.index.unregister sid) sid _ ↔ _
  rw [losesOnly_erase_iff _ h_place]
  exact and_congr_right fun _ => SessionIndex.losesOnly_unregister_iff

/-- The file that `FileStorageAdapter.load_session` returns the session of. -/
def FileStore.place (st : FileStore) (sid : String) (scope : SessionScope) : Option Path :=
  ((st.stored sid scope).filter fun p => scope.matchesSession p.2).map Prod.fst

/-- `FileStorageAdapter` loses that file, and the index entry if it points there. -/
def FileStore.RespectsScope (st : FileStore) (sid : String) (scope : SessionScope) : Prop :=
  let after := st.deleteSession sid scope
  LosesOnly st.files after.files (st.place sid scope) ∧
    st.index.LosesOnly path after.index sid (st.place sid scope)

/-- Exactly when a file delete respects the scope: the session files in the directory it
removes are that of the session a load under the scope returns, and no other, and the index
entry of the id, if there, points to that file. -/
theorem FileStore.respectsScope_iff (st : FileStore) (sid : String) (scope : SessionScope) :
    st.RespectsScope sid scope ↔
      (∀ p ∈ st.files.items,
        (st.pathFor sid scope).dropLast <+: p.1 ↔ some p.1 = st.place sid scope) ∧
      ∀ loc, st.index.lookup sid = some loc → some (path loc sid) = st.place sid scope := by
  show LosesOnly st.files
      (st.files.filter fun p => !(st.pathFor sid scope).dropLast.isPrefixOf p.1) _ ∧
    st.index.LosesOnly path (st.index.unregister sid) sid _ ↔ _
  rw [losesOnly_filter_iff _ fun p => !(st.pathFor sid scope).dropLast.isPrefixOf p]
  simp only [Bool.not_eq_false', List.isPrefixOf_iff_prefix]
  exact and_congr_right fun _ => SessionIndex.losesOnly_unregister_iff

/-! ### Listings -/

/-- What a listing of a table selects, once the table lost an entry. -/
theorem LosesOnly.filter {κ ν : Type} [DecidableEq κ] {before after : Dict κ ν} {place : Option κ}
    (h : LosesOnly before after place) (select : κ × ν → Bool) :
    after.items.filter select =
      (before.items.filter select).filter fun p => some p.1 ≠ place := by
  rw [h, List.filter_filter, List.filter_filter]
  apply List.filter_congr
  intro p _
  exact Bool.and_comm _ _

/-- After a file delete that respects the scope, every listing is what it was without the
session that is gone. -/
theorem FileStore.collect_deleteSession {st : FileStore} {sid : String} {scope : SessionScope}
    (h : st.RespectsScope sid scope) (scope' : SessionScope) (keep : AgentSession → Bool) :
    (st.deleteSession sid scope).collect scope' keep =
      (((st.files.items.filter fun p => listed scope' p.1).filter fun p =>
        some p.1 ≠ st.place sid scope).map Prod.snd).filter fun s =>
          keep s && scope'.matchesSession s := by
  unfold collect
  rw [h.1.filter]

/-- The same for a sqlite delete. -/
theorem SqliteStore.collect_deleteSession {st : SqliteStore} {sid : String} {scope : SessionScope}
    (h : st.RespectsScope sid scope) (scope' : SessionScope) (keep : AgentSession → Bool) :
    (st.deleteSession sid scope).collect scope' keep =
      (((st.rows.items.filter fun p => listed scope' p.1.1).filter fun p =>
        some p.1 ≠ st.place sid scope).map Prod.snd).filter fun s =>
          keep s && scope'.matchesSession s := by
  unfold collect
  rw [h.1.filter]

/-! ### All adapters -/

/-- **Exactly when a delete respects its scope**, for the four adapters. -/
theorem delete_respects_iff (sid : String) (scope : SessionScope) :
    (∀ st : Store .memory, st.RespectsScope sid scope) ∧
    (∀ (keyPrefix : String) (st : RedisStore), st.RespectsScope keyPrefix sid scope ↔
      ∀ s, st.blobs.get? (RedisStore.sessionKey keyPrefix sid) = some s →
        scope.matchesSession s = true) ∧
    (∀ st : SqliteStore, st.RespectsScope sid scope ↔
      ((st.rows.get? (st.rowFor sid scope)).isSome →
        st.place sid scope = some (st.rowFor sid scope)) ∧
      ∀ loc, st.index.lookup sid = some loc →
        some (SqliteStore.row loc sid) = st.place sid scope) ∧
    ∀ st : FileStore, st.RespectsScope sid scope ↔
      (∀ p ∈ st.files.items,
        (st.pathFor sid scope).dropLast <+: p.1 ↔ some p.1 = st.place sid scope) ∧
      ∀ loc, st.index.lookup sid = some loc →
        some (FileStore.path loc sid) = st.place sid scope :=
  -- one adapter after the other
  ⟨fun st => st.respectsScope sid scope,
    fun keyPrefix st => st.respectsScope_iff keyPrefix sid scope,
    fun st => st.respectsScope_iff sid scope,
    fun st => st.respectsScope_iff sid scope⟩

/-- A session of one user of a tenant. -/
def annsSession : AgentSession :=
  { sessionId := "x", agentId := "a", tenantId := some "acme", userId := some "ann" }

/-- The scope of another user. -/
def bobsScope : SessionScope := { tenantId := some "acme", userId := some "bob" }

/-- **A delete under another user's scope** changes the store of three of the adapters. -/
theorem delete_ignores_scope :
    ¬ RedisStore.RespectsScope "nexus:" (RedisStore.saveSession "nexus:" (fun _ => 0) {} annsSession)
      "x" bobsScope ∧
    ¬ (SqliteStore.saveSession {} annsSession).RespectsScope "x" bobsScope ∧
    ¬ (FileStore.saveSession {} annsSession).RespectsScope "x" bobsScope := by
  refine ⟨fun h => ?_, fun h => ?_, fun h => ?_⟩
  · have h_match := (RedisStore.respectsScope_iff _ _ _ _).mp h annsSession (by decide +kernel)
    revert h_match
    decide
  · -- the index entry of ann's session goes
    have h_index := ((SqliteStore.respectsScope_iff _ _ _).mp h).2 (some "acme", some "ann")
      (by decide +kernel)
    revert h_index
    decide +kernel
  · have h_index := ((FileStore.respectsScope_iff _ _ _).mp h).2 (some "acme", some "ann")
      (by decide +kernel)
    revert h_index
    decide +kernel

end Nexus
