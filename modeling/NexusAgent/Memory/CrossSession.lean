import NexusAgent.Lib.Delimited
import NexusAgent.Session.Store

/-!
# The cross-session memory store

`nexus/memory/cross_session_store.py`: the facts about a user, kept under a tenant, a user and
a namespace. The store is flat: a record lies under the text that joins the three at colons,
a missing tenant written as an underscore.

* `MemoryOp.exec_eq` says once what an operation does: it reads the record under its key and
  writes one record back under that key. `filed` is the invariant behind it, that every record
  lies under the key of its own ids.
* `isolatedFrom_iff`: the operations on one triple neither see nor change the facts of
  another, over all sequences of operations, exactly when the two keys differ.
* `memory_isolated_iff` states on the ids when two owners are isolated in all namespaces.

Left out are the time stamps and the company id, which no store reads.
-/

open Lib

namespace Nexus

/-! ### Keys and records -/

/-- `tenant_id or "_"`. -/
def tenantPart (tenantId : Option String) : String := (pyOr tenantId none).getD "_"

/-- `make_cross_session_memory_key`. -/
def makeCrossSessionMemoryKey (tenantId : Option String) (userId ns : String) : String :=
  tenantPart tenantId ++ ":" ++ userId ++ ":" ++ ns

/-- `CrossSessionMemoryRecord`. -/
structure CrossSessionMemoryRecord where
  tenantId : Option String := none
  userId : String
  ns : String
  entityMemory : Dict String String := []
  deriving DecidableEq, Repr

/-- The key of a record's own ids. -/
def CrossSessionMemoryRecord.key (r : CrossSessionMemoryRecord) : String :=
  makeCrossSessionMemoryKey r.tenantId r.userId r.ns

/-- `_cap_entities`: the last `maxEntities` items; a slice from minus zero is the whole list. -/
def capEntities (entities : Dict String String) (maxEntities : ℕ) : Dict String String :=
  if entities.length ≤ maxEntities ∨ maxEntities = 0 then entities
  else entities.drop (entities.length - maxEntities)

/-! ### The in-memory store -/

/-- `InMemoryCrossSessionMemoryStore`: its records by key. -/
abbrev MemoryStore : Type := Dict String CrossSessionMemoryRecord

namespace MemoryStore

/-- `load`. -/
def load (store : MemoryStore) (tenantId : Option String) (userId ns : String) :
    Option CrossSessionMemoryRecord :=
  Dict.get? store (makeCrossSessionMemoryKey tenantId userId ns)

/-- `save`. -/
def save (store : MemoryStore) (r : CrossSessionMemoryRecord) : MemoryStore :=
  Dict.set store r.key r

/-- The record `merge_entities` saves: the facts are merged into the record found, or into a
new one. -/
def mergedRecord (found : Option CrossSessionMemoryRecord) (tenantId : Option String)
    (userId ns : String) (entities : Dict String String) (maxEntities : ℕ) :
    CrossSessionMemoryRecord :=
  let existing := found.getD { tenantId := tenantId, userId := userId, ns := ns }
  if entities = [] then existing
  else
    { existing with
      entityMemory := capEntities (Dict.update existing.entityMemory entities) maxEntities }

/-- `merge_entities`. -/
def mergeEntities (store : MemoryStore) (tenantId : Option String) (userId ns : String)
    (entities : Dict String String) (maxEntities : ℕ) : CrossSessionMemoryRecord × MemoryStore :=
  let r := mergedRecord (store.load tenantId userId ns) tenantId userId ns entities maxEntities
  (r, store.save r)

end MemoryStore

/-! ### Operations -/

/-- A tenant, a user and a namespace. -/
structure MemoryTriple where
  tenantId : Option String
  userId : String
  ns : String
  deriving DecidableEq, Repr

/-- The key of a triple. -/
def MemoryTriple.key (x : MemoryTriple) : String :=
  makeCrossSessionMemoryKey x.tenantId x.userId x.ns

/-- An operation of the store. -/
inductive MemoryOp
  | load (on : MemoryTriple)
  | save (r : CrossSessionMemoryRecord)
  | mergeEntities (on : MemoryTriple) (entities : Dict String String) (maxEntities : ℕ)

namespace MemoryOp

/-- The triple an operation is on. -/
def triple : MemoryOp → MemoryTriple
  | load on => on
  | save r => ⟨r.tenantId, r.userId, r.ns⟩
  | mergeEntities on _ _ => on

/-- An operation on the store: what it returns, and the store after it. -/
def exec (store : MemoryStore) : MemoryOp → Option CrossSessionMemoryRecord × MemoryStore
  | load on => (store.load on.tenantId on.userId on.ns, store)
  | save r => (none, store.save r)
  | mergeEntities on entities maxEntities =>
    let (r, store) := store.mergeEntities on.tenantId on.userId on.ns entities maxEntities
    (some r, store)

/-- The store after a sequence of operations. -/
def run (ops : List MemoryOp) : MemoryStore := ops.foldl (fun store op => (op.exec store).2) []

@[simp] theorem run_concat (ops : List MemoryOp) (op : MemoryOp) :
    run (ops ++ [op]) = (op.exec (run ops)).2 := by
  simp [run]

end MemoryOp

/-! ### What an operation does -/

/-- Every record lies under the key of its own ids. -/
def Filed (store : MemoryStore) : Prop := ∀ k r, Dict.get? store k = some r → r.key = k

namespace MemoryOp

/-- What an operation returns, by the record it finds. -/
def returns (found : Option CrossSessionMemoryRecord) : MemoryOp → Option CrossSessionMemoryRecord
  | load _ => found
  | save _ => none
  | mergeEntities on entities maxEntities =>
    some (MemoryStore.mergedRecord found on.tenantId on.userId on.ns entities maxEntities)

/-- The record an operation leaves under its key, by the record it finds. -/
def leaves (found : Option CrossSessionMemoryRecord) : MemoryOp → Option CrossSessionMemoryRecord
  | load _ => found
  | save r => some r
  | mergeEntities on entities maxEntities =>
    some (MemoryStore.mergedRecord found on.tenantId on.userId on.ns entities maxEntities)

/-- A merged record is filed under the key it was merged for. -/
theorem mergedRecord_key {found : Option CrossSessionMemoryRecord} {on : MemoryTriple}
    (h : ∀ r ∈ found, r.key = on.key) (entities : Dict String String) (maxEntities : ℕ) :
    (MemoryStore.mergedRecord found on.tenantId on.userId on.ns entities maxEntities).key =
      on.key := by
  -- a found record has the key, a new one is made with it
  have h_existing : (found.getD ⟨on.tenantId, on.userId, on.ns, []⟩).key = on.key := by
    cases found with
    | none => rfl
    | some r => exact h r rfl
  unfold MemoryStore.mergedRecord
  split_ifs
  · exact h_existing
  · exact h_existing

/-- **What an operation does**: it returns by the record under its key, and every other key
stays as it was. -/
theorem exec_eq {store : MemoryStore} (h : Filed store) (op : MemoryOp) :
    (op.exec store).1 = op.returns (Dict.get? store op.triple.key) ∧
      ∀ k, Dict.get? (op.exec store).2 k =
        if k = op.triple.key then op.leaves (Dict.get? store k) else Dict.get? store k := by
  cases op with
  | load on => exact ⟨rfl, fun k => by simp [exec, leaves]⟩
  | save r =>
    refine ⟨rfl, fun k => ?_⟩
    change Dict.get? (Dict.set store r.key r) k = if k = r.key then some r else Dict.get? store k
    rw [Dict.get?_set]
    simp only [eq_comm]
  | mergeEntities on entities maxEntities =>
    -- a merge writes under the key of its triple
    have h_key := mergedRecord_key (fun r h_r => h on.key r h_r) entities maxEntities
    refine ⟨rfl, fun k => ?_⟩
    change Dict.get? (Dict.set store (MemoryStore.mergedRecord (Dict.get? store on.key) on.tenantId
      on.userId on.ns entities maxEntities).key _) k = _
    rw [h_key, Dict.get?_set]
    change _ = if k = on.key then _ else _
    rcases eq_or_ne k on.key with rfl | h_k
    · rw [if_pos rfl, if_pos rfl]
      rfl
    · rw [if_neg h_k.symm, if_neg h_k]

/-- Every call leaves each record under its own key. -/
theorem filed_exec {store : MemoryStore} (h : Filed store) (op : MemoryOp) :
    Filed (op.exec store).2 := by
  intro k r h_r
  rw [(exec_eq h op).2 k] at h_r
  split_ifs at h_r with h_k
  · subst h_k
    cases op with
    | load on => exact h _ _ h_r
    | save r' =>
      obtain rfl := Option.some.inj h_r
      rfl
    | mergeEntities on entities maxEntities =>
      obtain rfl := Option.some.inj h_r
      exact mergedRecord_key (fun r h_r => h _ r h_r) entities maxEntities
  · exact h k r h_r

/-- The invariant of every reachable store. -/
theorem filed_run (ops : List MemoryOp) : Filed (run ops) := by
  induction ops using List.reverseRecOn with
  | nil => exact fun k r h => by cases h
  | append_singleton ops op ih =>
    rw [run_concat]
    exact filed_exec ih op

end MemoryOp

/-! ### Isolation -/

/-- The operations on `x` neither change nor see the facts of `y`: each leaves what is loaded
for `y` as it was, and returns what it would return had no operation on `y` taken place. -/
structure IsolatedFrom (x y : MemoryTriple) : Prop where
  keeps : ∀ (ops : List MemoryOp) (op : MemoryOp), op.triple = x →
    MemoryStore.load (op.exec (MemoryOp.run ops)).2 y.tenantId y.userId y.ns =
      (MemoryOp.run ops).load y.tenantId y.userId y.ns
  blind : ∀ (ops : List MemoryOp) (op : MemoryOp), op.triple = x →
    (op.exec (MemoryOp.run ops)).1 =
      (op.exec (MemoryOp.run (ops.filter fun o => o.triple ≠ y))).1

namespace MemoryOp

/-- What lies under a key that the operations on `y` do not reach. -/
theorem get?_run_filter {k : String} {y : MemoryTriple} (h : k ≠ y.key) (ops : List MemoryOp) :
    Dict.get? (run (ops.filter fun o => o.triple ≠ y)) k = Dict.get? (run ops) k := by
  induction ops using List.reverseRecOn with
  | nil => rfl
  | append_singleton ops op ih =>
    rw [List.filter_append, run_concat, (exec_eq (filed_run ops) op).2 k]
    by_cases h_op : op.triple = y
    · have h_none : [op].filter (fun o => o.triple ≠ y) = [] := by simp [h_op]
      rw [h_none, List.append_nil, ih, if_neg (by rw [h_op]; exact h)]
    · have h_one : [op].filter (fun o => o.triple ≠ y) = [op] := by simp [h_op]
      rw [h_one, run_concat, (exec_eq (filed_run _) op).2 k, ih]

end MemoryOp

/-- **Two triples are isolated from each other exactly when their keys differ.** -/
theorem isolatedFrom_iff {x y : MemoryTriple} : IsolatedFrom x y ↔ x.key ≠ y.key := by
  constructor
  · intro h h_key
    -- a fact saved for `y` is loaded for `x`
    let fact : CrossSessionMemoryRecord := ⟨y.tenantId, y.userId, y.ns, [("k", "v")]⟩
    have h_seen := h.blind [.save fact] (.load x) rfl
    have h_filter : [MemoryOp.save fact].filter (fun o => o.triple ≠ y) = [] := by
      simp [MemoryOp.triple, fact]
    rw [h_filter] at h_seen
    have h_load : (MemoryOp.exec (MemoryOp.run [.save fact]) (.load x)).1 = some fact := by
      rw [(MemoryOp.exec_eq (MemoryOp.filed_run _) _).1]
      change Dict.get? (Dict.set [] fact.key fact) x.key = some fact
      rw [h_key]
      exact Dict.get?_set_self _ _ _
    rw [h_load] at h_seen
    cases h_seen
  · intro h_key
    refine ⟨fun ops op h_op => ?_, fun ops op h_op => ?_⟩
    · have h_get := (MemoryOp.exec_eq (MemoryOp.filed_run ops) op).2 y.key
      rw [h_op, if_neg h_key.symm] at h_get
      exact h_get
    · rw [(MemoryOp.exec_eq (MemoryOp.filed_run ops) op).1,
        (MemoryOp.exec_eq (MemoryOp.filed_run _) op).1, h_op, MemoryOp.get?_run_filter h_key]

/-! ### Owners that are isolated -/

/-- The owner of a triple, as its keys spell it. -/
def spelledOwner (tenantId : Option String) (userId : String) : List String :=
  PyStr.split ':' (tenantPart tenantId) ++ PyStr.split ':' userId

theorem split_owner (tenantId : Option String) (userId : String) :
    PyStr.split ':' (tenantPart tenantId ++ ":" ++ userId) = spelledOwner tenantId userId :=
  PyStr.split_delimited ':' _ _

theorem split_key (x : MemoryTriple) :
    PyStr.split ':' x.key = spelledOwner x.tenantId x.userId ++ PyStr.split ':' x.ns := by
  rw [← split_owner]
  exact PyStr.split_delimited ':' _ _

/-- **Two owners are isolated from each other in all namespaces** exactly when they are one
owner, or neither begins the other as their keys spell them. -/
theorem memory_isolated_iff (tenantId tenantId' : Option String) (userId userId' : String) :
    (∀ ns ns', (⟨tenantId, userId, ns⟩ : MemoryTriple) ≠ ⟨tenantId', userId', ns'⟩ →
      IsolatedFrom ⟨tenantId, userId, ns⟩ ⟨tenantId', userId', ns'⟩) ↔
    (tenantId = tenantId' ∧ userId = userId') ∨
      ¬spelledOwner tenantId userId <+: spelledOwner tenantId' userId' ∧
        ¬spelledOwner tenantId' userId' <+: spelledOwner tenantId userId := by
  constructor
  · intro h
    by_contra h_not
    obtain ⟨h_owner, h_apart⟩ := not_or.mp h_not
    -- keys that collide are shared by two triples
    rw [← split_owner, ← split_owner, ← not_or, not_not] at h_apart
    obtain ⟨ns, ns', h_key⟩ := PyStr.collide_iff.mpr h_apart
    have h_ne : (⟨tenantId, userId, ns⟩ : MemoryTriple) ≠ ⟨tenantId', userId', ns'⟩ := fun h_eq =>
      h_owner ⟨congrArg MemoryTriple.tenantId h_eq, congrArg MemoryTriple.userId h_eq⟩
    exact isolatedFrom_iff.mp (h ns ns' h_ne) h_key
  · intro h_apart ns ns' h_ne
    refine isolatedFrom_iff.mpr fun h_key => ?_
    -- equal keys have equal pieces
    have h_pieces := congrArg (PyStr.split ':') h_key
    rw [split_key, split_key] at h_pieces
    -- of one owner: equal namespaces; of two: one would begin the other
    rcases h_apart with ⟨rfl, rfl⟩ | ⟨h_not, h_not'⟩
    · have h_ns : ns = ns' := PyStr.split_inj.mp (List.append_cancel_left h_pieces)
      exact h_ne (by rw [h_ns])
    · rcases List.prefix_or_prefix_of_prefix ⟨_, h_pieces⟩ ⟨_, rfl⟩ with h | h
      · exact h_not h
      · exact h_not' h

/-- The facts of a chat user, in the namespace of an agent. -/
def chatFacts : MemoryTriple := ⟨some "acme", "telegram:42", "assistant"⟩

/-- Another user of the tenant, in a namespace with a colon. -/
def serviceFacts : MemoryTriple := ⟨some "acme", "telegram", "42:assistant"⟩

/-- The two share a record. -/
theorem memory_shared :
    chatFacts ≠ serviceFacts ∧ chatFacts.key = serviceFacts.key ∧
      ¬IsolatedFrom chatFacts serviceFacts := by
  have h_ne : chatFacts ≠ serviceFacts := by decide
  have h_key : chatFacts.key = serviceFacts.key := by decide +kernel
  exact ⟨h_ne, h_key, fun h => isolatedFrom_iff.mp h h_key⟩

end Nexus
