import Mathlib
import NexusAgent.Lib.DataType
import NexusAgent.Scope.Keys

/-!
# The scoped cache

`ScopedCache` of `nexus/cache/scoped.py`: a value for each scope key, namespace and digest, with the
time of its `set`. An entry that a `get` finds too old is dropped.

To its users the cache is a history of its sets: a `get` returns the value that was set last for
the same user, namespace and digest, unless that is too old. Dropping entries cannot be seen as
long as the clock does not run back, and no user sees the values of another as long as their scopes
are apart.

* `CacheHistory`: the abstract cache.
* `cache_refines`: the cache refines it.
-/

open Lib

namespace Nexus

/-! ### The cache as written -/

/-- What a value is cached for. -/
structure CacheSlot (P : Type) where
  ctx : RunContext
  ns : String
  payload : P
  deriving DecidableEq

/-- `ScopedCache`. A value is `none` when it is Python's `None`. -/
structure ScopedCache (V : Type) where
  ttl : ℚ := 300
  store : Dict String (ℚ × Option V) := []
  deriving DecidableEq

section Code

variable {P V : Type} (digest : P → String) (round : ℚ → ℚ)

/-- `ScopedCache._key`, for the digest of a payload. -/
def CacheSlot.key (slot : CacheSlot P) : String :=
  scopeKey slot.ctx .user slot.ns ++ ":" ++ digest slot.payload

namespace ScopedCache

/-- `ScopedCache.get` at a time, with the rounding of the age. -/
def get (c : ScopedCache V) (slot : CacheSlot P) (now : ℚ) : Option V × ScopedCache V :=
  match c.store.get? (slot.key digest) with
  | none => (none, c)
  | some (ts, value) =>
    if round (now - ts) > c.ttl then
      (none, { c with store := c.store.erase (slot.key digest) })
    else (value, c)

/-- `ScopedCache.set` at a time. -/
def set (c : ScopedCache V) (slot : CacheSlot P) (value : Option V) (now : ℚ) : ScopedCache V :=
  { c with store := c.store.set (slot.key digest) (now, value) }

end ScopedCache
end Code

/-! ### The history -/

/-- An operation on a cache, with the time the clock shows. -/
inductive CacheOp (P V : Type)
  | get (slot : CacheSlot P) (now : ℚ)
  | set (slot : CacheSlot P) (value : Option V) (now : ℚ)
  deriving DecidableEq

/-- Who asks, and when. -/
def CacheOp.slot {P V : Type} : CacheOp P V → CacheSlot P
  | .get slot _ => slot
  | .set slot _ _ => slot

def CacheOp.now {P V : Type} : CacheOp P V → ℚ
  | .get _ now => now
  | .set _ _ now => now

section History

variable {P V : Type} (digest : P → String) (round : ℚ → ℚ) (ttl : ℚ)

/-- The same user, namespace and digest. -/
def CacheSlot.Same (slot slot' : CacheSlot P) : Prop :=
  Agree .user slot.ctx slot'.ctx ∧ slot.ns = slot'.ns ∧ digest slot.payload = digest slot'.payload

instance (slot slot' : CacheSlot P) : Decidable (slot.Same digest slot') :=
  inferInstanceAs (Decidable (_ ∧ _ ∧ _))

/-- The sets so far, the last one first, and the time of the last operation. -/
structure CacheHistory (P V : Type) where
  sets : List (CacheSlot P × ℚ × Option V) := []
  clock : ℚ

namespace CacheHistory

/-- The last set for a slot. -/
def last? (h : CacheHistory P V) (slot : CacheSlot P) : Option (ℚ × Option V) :=
  (h.sets.find? fun p => slot.Same digest p.1).map Prod.snd

/-- What a `get` returns: the last value, if it is not too old. -/
def lookup (h : CacheHistory P V) (slot : CacheSlot P) (now : ℚ) : Option V :=
  match h.last? digest slot with
  | none => none
  | some (ts, value) => if round (now - ts) > ttl then none else value

/-- The history after an operation. -/
def exec (h : CacheHistory P V) : CacheOp P V → CacheHistory P V
  | .get _ now => { h with clock := now }
  | .set slot value now => { sets := (slot, now, value) :: h.sets, clock := now }

/-- The history as a data type; what a `get` returns is settled for the times to come. -/
def dataType (opened : ℚ) : DataType (CacheOp P V) (CacheSlot P × ℚ) (Option V) where
  State := CacheHistory P V
  start := { clock := opened }
  exec := exec
  answers h q r := h.clock ≤ q.2 → r = h.lookup digest round ttl q.1 q.2

end CacheHistory

/-- `ScopedCache` as a data type. -/
def scopedCache : DataType (CacheOp P V) (CacheSlot P × ℚ) (Option V) where
  State := ScopedCache V
  start := { ttl := ttl }
  exec c
    | .get slot now => (c.get digest round slot now).2
    | .set slot value now => c.set digest slot value now
  answers c q r := r = (c.get digest round q.1 q.2).1

/-- The clock does not run back, and the users are among these. -/
def CachePermits (users : Set RunContext) (h : CacheHistory P V) (op : CacheOp P V) : Prop :=
  op.slot.ctx ∈ users ∧ h.clock ≤ op.now

/-! ### The refinement -/

variable {digest round ttl}

/-- A cache key splits into its scope and the digest. -/
theorem split_cacheKey (h_digest : ∀ p, ':' ∉ (digest p).toList) (slot : CacheSlot P) :
    PyStr.split ':' (slot.key digest) =
      PyStr.split ':' (scopeKey slot.ctx .user slot.ns) ++ [digest slot.payload] := by
  rw [← PyStr.split_eq_singleton (h_digest slot.payload)]
  exact PyStr.split_delimited ':' _ _

/-- **Keys of users that are apart** are shared by the same user, namespace and digest only. -/
theorem cacheKey_eq_iff (h_digest : ∀ p, ':' ∉ (digest p).toList) {slot slot' : CacheSlot P}
    (h_apart : Apart .user slot.ctx slot'.ctx) :
    slot.key digest = slot'.key digest ↔ slot.Same digest slot' := by
  constructor
  · intro h_key
    -- no digest has a colon, so the digest is the last piece and the scope key the rest
    have h_pieces := congrArg (PyStr.split ':') h_key
    rw [split_cacheKey h_digest, split_cacheKey h_digest] at h_pieces
    obtain ⟨h_scope, h_last⟩ := List.append_inj' h_pieces rfl
    obtain ⟨h_agree, h_ns⟩ := (scopeKey_separates_iff .user slot.ctx slot'.ctx).mpr h_apart
      slot.ns slot'.ns (PyStr.split_inj.mp h_scope)
    exact ⟨h_agree, h_ns, List.singleton_inj.mp h_last⟩
  · rintro ⟨h_agree, h_ns, h_payload⟩
    rw [CacheSlot.key, CacheSlot.key, scopeKey, scopeKey, h_agree.base, h_ns, h_payload]

/-- The store has the last set of every slot, unless that is too old for good. -/
structure CacheSim (digest : P → String) (round : ℚ → ℚ) (ttl : ℚ) (users : Set RunContext)
    (c : ScopedCache V) (h : CacheHistory P V) : Prop where
  ttl_eq : c.ttl = ttl
  entries : ∀ slot : CacheSlot P, slot.ctx ∈ users →
    c.store.get? (slot.key digest) = h.last? digest slot ∨
      c.store.get? (slot.key digest) = none ∧
        ∃ e, h.last? digest slot = some e ∧ ttl < round (h.clock - e.1)

variable {users : Set RunContext} {c : ScopedCache V} {h : CacheHistory P V}

/-- A hit, a miss and an expired entry are what the history of calls says. -/
theorem CacheSim.get_eq (h_round : Monotone round) (h_sim : CacheSim digest round ttl users c h)
    {slot : CacheSlot P} (h_user : slot.ctx ∈ users) {now : ℚ} (h_now : h.clock ≤ now) :
    (c.get digest round slot now).1 = h.lookup digest round ttl slot now := by
  unfold ScopedCache.get CacheHistory.lookup
  rw [h_sim.ttl_eq]
  rcases h_sim.entries slot h_user with h_eq | ⟨h_none, e, h_last, h_old⟩
  · rw [h_eq]
    cases h.last? digest slot with
    | none => rfl
    | some e =>
      simp only
      split_ifs <;> rfl
  · -- what was dropped is older now
    have h_age : ttl < round (now - e.1) := h_old.trans_le (h_round (by linarith))
    rw [h_none, h_last]
    exact (if_pos h_age).symm

/-- What is as old as that stays so. -/
theorem CacheSim.later (h_round : Monotone round) (h_sim : CacheSim digest round ttl users c h)
    {slot : CacheSlot P} (h_user : slot.ctx ∈ users) {now : ℚ} (h_now : h.clock ≤ now) :
    c.store.get? (slot.key digest) = h.last? digest slot ∨
      c.store.get? (slot.key digest) = none ∧
        ∃ e, h.last? digest slot = some e ∧ ttl < round (now - e.1) := by
  refine (h_sim.entries slot h_user).imp_right ?_
  rintro ⟨h_none, e, h_last, h_old⟩
  exact ⟨h_none, e, h_last, h_old.trans_le (h_round (by linarith))⟩

/-- A `set` through one user's key changes what that user's slot holds, and no other's. -/
theorem CacheSim.set (h_round : Monotone round) (h_digest : ∀ p, ':' ∉ (digest p).toList)
    (h_apart : ∀ u ∈ users, ∀ u' ∈ users, Apart .user u u')
    (h_sim : CacheSim digest round ttl users c h) {slot : CacheSlot P} (h_user : slot.ctx ∈ users)
    (value : Option V) {now : ℚ} (h_now : h.clock ≤ now) :
    CacheSim digest round ttl users (c.set digest slot value now)
      (h.exec (.set slot value now)) := by
  refine ⟨h_sim.ttl_eq, fun slot' h_user' => ?_⟩
  -- the users' keys are apart, so equal keys mean the same slot
  have h_key : slot'.key digest = slot.key digest ↔ slot'.Same digest slot :=
    cacheKey_eq_iff h_digest (h_apart _ h_user' _ h_user)
  rw [ScopedCache.set, Dict.get?_set]
  by_cases h_same : slot'.Same digest slot
  · left
    rw [if_pos (h_key.mpr h_same).symm, CacheHistory.last?, CacheHistory.exec,
      List.find?_cons_of_pos (by simpa using h_same)]
    rfl
  · -- the latest set of another slot is the one that was latest before
    have h_last : (h.exec (.set slot value now)).last? digest slot' = h.last? digest slot' := by
      rw [CacheHistory.last?, CacheHistory.exec, List.find?_cons_of_neg (by simpa using h_same)]
      rfl
    rw [if_neg fun h_eq => h_same (h_key.mp h_eq.symm), h_last]
    exact h_sim.later h_round h_user' h_now

/-- A `get` drops what is too old. -/
theorem CacheSim.get (h_round : Monotone round) (h_sim : CacheSim digest round ttl users c h)
    (slot : CacheSlot P) {now : ℚ} (h_now : h.clock ≤ now) :
    CacheSim digest round ttl users (c.get digest round slot now).2
      (h.exec (.get slot now)) := by
  have h_later : CacheSim digest round ttl users c (h.exec (.get slot now)) :=
    ⟨h_sim.ttl_eq, fun slot' h_user' => h_sim.later h_round h_user' h_now⟩
  -- only an expired entry is removed, and the history reads it as none already
  unfold ScopedCache.get
  split
  · exact h_later
  · next ts value h_there =>
    split_ifs with h_old
    · refine ⟨h_sim.ttl_eq, fun slot' h_user' => ?_⟩
      rw [Dict.get?_erase]
      by_cases h_key : slot'.key digest = slot.key digest
      · have h_last := h_sim.entries slot' h_user'
        rw [h_key, h_there] at h_last
        rw [if_pos h_key]
        rw [h_sim.ttl_eq] at h_old
        refine .inr ⟨rfl, (ts, value), ?_, h_old⟩
        exact (h_last.resolve_right fun h_none => nomatch h_none.1).symm
      · rw [if_neg h_key]
        exact h_later.entries slot' h_user'
    · exact h_later

/-- **The cache is its history**: for users whose scopes are apart and a clock that does not run
back, a `get` returns what was set last for the same user, namespace and digest, unless that is
older than the time to live, whatever was set, read and dropped before. -/
theorem cache_refines (h_round : Monotone round) (h_digest : ∀ p, ':' ∉ (digest p).toList)
    (h_apart : ∀ u ∈ users, ∀ u' ∈ users, Apart .user u u') (ttl opened : ℚ) :
    (scopedCache (V := V) digest round ttl).Refines
      (CacheHistory.dataType digest round ttl opened) (CachePermits users)
      (fun q => q.1.ctx ∈ users) := by
  refine DataType.Refines.of_simulation (CacheSim digest round ttl users) ?_ ?_ ?_
  · exact ⟨rfl, fun slot _ => .inl rfl⟩
  · -- each call keeps the cache in step with the history
    rintro c h (⟨slot, now⟩ | ⟨slot, value, now⟩) h_sim ⟨h_user, h_now⟩
    · exact h_sim.get h_round slot h_now
    · exact h_sim.set h_round h_digest h_apart h_user value h_now
  · -- and answers as the history does
    rintro c h ⟨slot, now⟩ r h_sim h_user h_r h_now
    exact h_r.trans (h_sim.get_eq h_round h_user h_now)

end History

/-- A user with an id that its key spells as one piece. -/
def cacheUser (name : String) : RunContext :=
  { tenantId := some "acme", companyId := some "co", userId := some name }

/-- The digest of the payload `None`. -/
def noneDigest : Unit → String := fun _ => "74234e98afe7498f"

/-- Ann's value is found within the time to live, after Bob has asked for his. -/
theorem cache_refines_twoUsers :
    (CacheHistory.dataType noneDigest id 300 0).answers
      ((CacheHistory.dataType noneDigest id 300 0).after
        [.set ⟨cacheUser "ann", "llm", ()⟩ (some true) 10, .get ⟨cacheUser "bob", "llm", ()⟩ 20])
      (⟨cacheUser "ann", "llm", ()⟩, 310) (some true) := by
  -- names without a colon spell keys that do not meet
  have h_plain : ∀ name ∈ ["ann", "bob"], PlainScope .user (cacheUser name) := by
    intro name h_name field h_field
    simp only [ScopeLevel.fields, List.mem_cons, List.not_mem_nil, or_false] at h_field h_name
    rcases h_field with rfl | rfl | rfl <;> rcases h_name with rfl | rfl <;>
      exact ⟨_, rfl, by decide +kernel, by decide, by decide, by decide⟩
  have h_digest : ':' ∉ "74234e98afe7498f".toList := by decide
  let users : Set RunContext := {cacheUser "ann", cacheUser "bob"}
  have h_apart : ∀ u ∈ users, ∀ u' ∈ users, Apart .user u u' := by
    rintro u (rfl | rfl) u' (rfl | rfl) <;>
      exact apart_of_plain (h_plain _ (by simp)) (h_plain _ (by simp))
  refine cache_refines (V := Bool) monotone_id (fun _ => h_digest) h_apart
    300 0 _ ?_ _ (Set.mem_insert _ _) _ ?_
  · refine ⟨⟨Set.mem_insert _ _, ?_⟩, ⟨Set.mem_insert_of_mem _ rfl, ?_⟩, trivial⟩
    · show (0 : ℚ) ≤ 10
      norm_num
    · show (10 : ℚ) ≤ 20
      norm_num
  · show some true = (ScopedCache.get noneDigest id
      (ScopedCache.get noneDigest id (ScopedCache.set noneDigest { ttl := 300 }
        ⟨cacheUser "ann", "llm", ()⟩ (some true) 10) ⟨cacheUser "bob", "llm", ()⟩ 20).2
      ⟨cacheUser "ann", "llm", ()⟩ 310).1
    decide +kernel

end Nexus
