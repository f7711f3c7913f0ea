import NexusAgent.Lib.Merge
import NexusAgent.Memory.CrossSession

/-!
# Merging facts at the cap

`merge_entities` merges the facts into the dictionary of the record and keeps its last items.
The items of a dictionary stand in the order in which their keys were first written, and
writing a fact again leaves it where it stands. So what goes at the cap are the facts that
were first written earliest, and one that has just been written again may be among them.

* `MergeKeeps`: what a merge is for.
* `merge_keeps_iff`: when it does that.
* `merge_loses`: a merge that loses a fact it was given.
-/

open Lib Lib.Dict

namespace Nexus

/-- The facts of the record found. -/
def MemoryStore.factsAt (store : MemoryStore) (on : MemoryTriple) : Dict String String :=
  ((store.load on.tenantId on.userId on.ns).map CrossSessionMemoryRecord.entityMemory).getD []

/-- The facts of the record a merge returns, and saves. -/
def MemoryStore.factsMerged (store : MemoryStore) (on : MemoryTriple)
    (entities : Dict String String) (maxEntities : ℕ) : Dict String String :=
  (store.mergeEntities on.tenantId on.userId on.ns entities maxEntities).1.entityMemory

/-- What merging `entities` into the facts `old` should leave, when the facts of `old` were
last written at the times `written`. -/
structure MergeKeeps (written : String → ℕ) (old entities new : Dict String String)
    (maxEntities : ℕ) : Prop where
  /-- Every fact given is there, with its new value. -/
  fresh : ∀ k v, get? entities k = some v → get? new k = some v
  /-- Every other fact was there before. -/
  kept : ∀ k v, get? entities k = none → get? new k = some v → get? old k = some v
  capped : new.length ≤ maxEntities
  /-- A fact goes only when the others fill the cap. -/
  required : ∀ k ∈ keys old, k ∉ keys entities → k ∉ keys new → new.length = maxEntities
  /-- No fact goes before one that was written earlier. -/
  oldest : ∀ k ∈ keys old, k ∉ keys entities → k ∉ keys new →
    ∀ k' ∈ keys old, k' ∉ keys entities → k' ∈ keys new → written k ≤ written k'

/-- How many facts are too many after a merge. -/
def excess (old entities : Dict String String) (maxEntities : ℕ) : ℕ :=
  old.length + (added old entities).length - maxEntities

/-- The facts that go: as many as are too many, in the order of the record. -/
def evicted (old entities : Dict String String) (maxEntities : ℕ) : Dict String String :=
  old.take (excess old entities maxEntities)

/-- The facts of the record that stay. -/
def retained (old entities : Dict String String) (maxEntities : ℕ) : Dict String String :=
  old.drop (excess old entities maxEntities)

/-- A merge of nothing finds no more facts than the cap allows; otherwise the facts that go are
none of those given, and none was written later than one that stays and is not given. -/
structure MergeSafe (written : String → ℕ) (old entities : Dict String String)
    (maxEntities : ℕ) : Prop where
  within : entities = [] → old.length ≤ maxEntities
  others : ∀ k ∈ keys (evicted old entities maxEntities), k ∉ keys entities
  ordered : ∀ k ∈ keys (evicted old entities maxEntities),
    ∀ k' ∈ keys (retained old entities maxEntities), k' ∉ keys entities → written k ≤ written k'

/-! ### The facts after a merge -/

section Merge

variable {written : String → ℕ} {old entities : Dict String String} {maxEntities : ℕ}

/-- Capping drops the oldest entities. -/
theorem capEntities_eq_drop (d : Dict String String) (h_cap : maxEntities ≠ 0) :
    capEntities d maxEntities = d.drop (d.length - maxEntities) := by
  unfold capEntities
  split_ifs with h
  · rw [Nat.sub_eq_zero_of_le (h.resolve_right h_cap), List.drop_zero]
  · rfl

/-- The record after a merge of something. -/
def mergedFacts (old entities : Dict String String) (maxEntities : ℕ) : Dict String String :=
  overwrite (retained old entities maxEntities) entities ++ added old entities

/-- No more than the old facts have to go. -/
theorem excess_le (h_size : entities.length ≤ maxEntities) :
    excess old entities maxEntities ≤ old.length := by
  have h_added : (added old entities).length ≤ entities.length := List.length_filter_le _ _
  unfold excess
  omega

/-- The facts after a merge, written out. -/
theorem factsMerged_eq (store : MemoryStore) (on : MemoryTriple)
    (h_old : (keys (store.factsAt on)).Nodup) (h_new : (keys entities).Nodup)
    (h_size : entities.length ≤ maxEntities) :
    store.factsMerged on entities maxEntities =
      if entities = [] then store.factsAt on
      else mergedFacts (store.factsAt on) entities maxEntities := by
  -- a missing record has no facts
  have h_existing : (((store.load on.tenantId on.userId on.ns).getD
      { tenantId := on.tenantId, userId := on.userId, ns := on.ns }).entityMemory) =
        store.factsAt on := by
    unfold MemoryStore.factsAt
    cases store.load on.tenantId on.userId on.ns <;> rfl
  unfold MemoryStore.factsMerged MemoryStore.mergeEntities MemoryStore.mergedRecord
  dsimp only
  by_cases h_none : entities = []
  · rw [if_pos h_none, if_pos h_none, h_existing]
  · -- some entities fit, so the cap is not zero
    have h_cap : maxEntities ≠ 0 := by
      have h_pos := List.length_pos_of_ne_nil h_none
      omega
    rw [if_neg h_none, if_neg h_none]
    dsimp only
    rw [h_existing, capEntities_eq_drop _ h_cap, length_update h_old h_new]
    exact drop_update h_old h_new (excess_le h_size)

/-- The keys merged are those retained and the new ones. -/
theorem mem_keys_mergedFacts {k : String} : k ∈ keys (mergedFacts old entities maxEntities) ↔
    k ∈ keys (retained old entities maxEntities) ∨ (k ∈ keys entities ∧ k ∉ keys old) := by
  have h_append : keys (mergedFacts old entities maxEntities) =
      keys (retained old entities maxEntities) ++ keys (added old entities) := by
    rw [mergedFacts, keys, List.map_append]
    exact congrArg (· ++ _) (keys_overwrite _ _)
  rw [h_append, List.mem_append, mem_keys_added]

/-- The facts of the record fall into those that go and those that stay. -/
theorem mem_keys_old {k : String} : k ∈ keys old ↔
    k ∈ keys (evicted old entities maxEntities) ∨ k ∈ keys (retained old entities maxEntities) := by
  have h_split : keys old =
      keys (evicted old entities maxEntities) ++ keys (retained old entities maxEntities) := by
    rw [evicted, retained, keys, keys, keys, ← List.map_append, List.take_append_drop]
  rw [h_split, List.mem_append]

/-- What was driven out is not kept. -/
theorem not_mem_retained (h_old : (keys old).Nodup) {k : String}
    (h : k ∈ keys (evicted old entities maxEntities)) :
    k ∉ keys (retained old entities maxEntities) := by
  have h_split : keys old =
      keys (evicted old entities maxEntities) ++ keys (retained old entities maxEntities) := by
    rw [evicted, retained, keys, keys, keys, ← List.map_append, List.take_append_drop]
  rw [h_split] at h_old
  exact fun h' => (List.nodup_append.mp h_old).2.2 k h k h' rfl

/-- What went are the facts that were there and are there no longer. -/
theorem mem_evicted_iff (h_old : (keys old).Nodup) {k : String} :
    k ∈ keys (evicted old entities maxEntities) ↔
      k ∈ keys old ∧ k ∉ keys (mergedFacts old entities maxEntities) := by
  rw [mem_keys_mergedFacts, not_or]
  constructor
  · intro h
    have h_k : k ∈ keys old := mem_keys_old.mpr (.inl h)
    exact ⟨h_k, not_mem_retained h_old h, fun h_added => h_added.2 h_k⟩
  · rintro ⟨h_k, h_gone, -⟩
    exact (mem_keys_old.mp h_k).resolve_right h_gone

/-- A merge fills the store up to the cap. -/
theorem length_mergedFacts (h_size : entities.length ≤ maxEntities) :
    (mergedFacts old entities maxEntities).length =
      min (old.length + (added old entities).length) maxEntities := by
  have h_excess : excess old entities maxEntities ≤ old.length := excess_le h_size
  unfold mergedFacts retained overwrite
  rw [List.length_append, List.length_map, List.length_drop]
  unfold excess at h_excess ⊢
  omega

theorem get?_mergedFacts (k : String) : get? (mergedFacts old entities maxEntities) k =
    ((get? (retained old entities maxEntities) k).map fun v => (get? entities k).getD v).or
      (if k ∈ keys old then none else get? entities k) := by
  rw [mergedFacts, get?_append, get?_overwrite, get?_added]

/-- **A fact given is there** unless it went. -/
theorem get?_mergedFacts_given (h_old : (keys old).Nodup) {k v : String}
    (h_given : get? entities k = some v) : get? (mergedFacts old entities maxEntities) k =
      if k ∈ keys (evicted old entities maxEntities) then none else some v := by
  rw [get?_mergedFacts, h_given]
  -- the key was there or is new, and was driven out or kept
  split_ifs with h_key h_gone h_gone
  · rw [get?_eq_none (not_mem_retained h_old h_gone)]
    rfl
  · obtain ⟨p, h_p, rfl⟩ := List.mem_map.mp ((mem_keys_old.mp h_key).resolve_left h_gone)
    obtain ⟨w, h_w⟩ := exists_get?_of_mem (show (p.1, p.2) ∈ _ from h_p)
    rw [h_w]
    rfl
  · exact (h_key (mem_keys_old.mpr (.inl h_gone))).elim
  · -- a new key: nothing of it is kept from before
    have h_none : k ∉ keys (retained old entities maxEntities) :=
      fun h => h_key (mem_keys_old.mpr (.inr h))
    rw [get?_eq_none h_none]
    rfl

/-- A fact that is not written keeps its value. -/
theorem get?_mergedFacts_other (h_old : (keys old).Nodup) {k v : String}
    (h_other : get? entities k = none) (h : get? (mergedFacts old entities maxEntities) k = some v) :
    get? old k = some v := by
  rw [get?_mergedFacts, h_other, ite_self, Option.or_none] at h
  obtain ⟨w, h_w, rfl⟩ := Option.map_eq_some_iff.mp h
  exact get?_of_mem h_old (List.mem_of_mem_drop (mem_of_get? h_w))

/-- A merge of something keeps what it should exactly when the right facts go. -/
theorem mergeKeeps_merged_iff (h_old : (keys old).Nodup) (h_size : entities.length ≤ maxEntities)
    (h_some : entities ≠ []) :
    MergeKeeps written old entities (mergedFacts old entities maxEntities) maxEntities ↔
      MergeSafe written old entities maxEntities := by
  have h_length : (mergedFacts old entities maxEntities).length =
      min (old.length + (added old entities).length) maxEntities := length_mergedFacts h_size
  have h_stays : ∀ {k}, k ∈ keys old → k ∉ keys entities →
      (k ∈ keys (mergedFacts old entities maxEntities) ↔
        k ∈ keys (retained old entities maxEntities)) := by
    intro k h_k h_not
    rw [mem_keys_mergedFacts, or_iff_left fun h => h_not h.1]
  constructor
  · intro h
    have h_others : ∀ k ∈ keys (evicted old entities maxEntities), k ∉ keys entities := by
      intro k h_gone h_given
      obtain ⟨p, h_p, rfl⟩ := List.mem_map.mp h_given
      obtain ⟨v, h_v⟩ := exists_get?_of_mem (show (p.1, p.2) ∈ _ from h_p)
      have h_fresh := h.fresh p.1 v h_v
      rw [get?_mergedFacts_given h_old h_v, if_pos h_gone] at h_fresh
      cases h_fresh
    refine ⟨fun h_none => (h_some h_none).elim, h_others, fun k h_gone k' h_stay h_not' => ?_⟩
    obtain ⟨h_k, h_missing⟩ := (mem_evicted_iff h_old).mp h_gone
    have h_k' : k' ∈ keys old := mem_keys_old.mpr (.inr h_stay)
    exact h.oldest k h_k (h_others k h_gone) h_missing k' h_k' h_not'
      ((h_stays h_k' h_not').mpr h_stay)
  · intro h
    refine ⟨fun k v h_v => ?_, fun k v => get?_mergedFacts_other h_old, ?_, fun k h_k _ h_missing => ?_,
      fun k h_k _ h_missing k' h_k' h_not' h_stay => ?_⟩
    · rw [get?_mergedFacts_given h_old h_v, if_neg]
      intro h_gone
      refine h.others k h_gone ?_
      by_contra h_not
      rw [get?_eq_none h_not] at h_v
      cases h_v
    · rw [h_length]
      exact min_le_right _ _
    · -- something went, so there was too much
      have h_gone := (mem_evicted_iff h_old).mpr ⟨h_k, h_missing⟩
      have h_excess : excess old entities maxEntities ≠ 0 := by
        intro h_zero
        simp [evicted, h_zero, keys] at h_gone
      rw [h_length]
      unfold excess at h_excess
      omega
    · exact h.ordered k ((mem_evicted_iff h_old).mpr ⟨h_k, h_missing⟩) k'
        ((h_stays h_k' h_not').mp h_stay) h_not'

/-- A merge of nothing changes nothing. -/
theorem mergeKeeps_nothing_iff :
    MergeKeeps written old [] old maxEntities ↔ MergeSafe written old [] maxEntities := by
  constructor
  · intro h
    -- nothing is added, so nothing is driven out
    have h_gone : keys (evicted old [] maxEntities) = [] := by
      have h_capped := h.capped
      simp [evicted, excess, added, keys, Nat.sub_eq_zero_of_le h_capped]
    exact ⟨fun _ => h.capped, fun k h_k => by simp [h_gone] at h_k,
      fun k h_k => by simp [h_gone] at h_k⟩
  · intro h
    refine ⟨fun k v h_v => ?_, fun k v _ h_v => h_v, h.within rfl,
      fun k h_k _ h_missing => (h_missing h_k).elim, fun k h_k _ h_missing => (h_missing h_k).elim⟩
    cases h_v

end Merge

/-- **A merge keeps what was just written**, and drops what was written longest ago, exactly when
it is safe: for any record, at whatever times its facts were written, and any facts that fit. -/
theorem merge_keeps_iff (store : MemoryStore) (on : MemoryTriple) (written : String → ℕ)
    (entities : Dict String String) (maxEntities : ℕ) (h_old : (keys (store.factsAt on)).Nodup)
    (h_new : (keys entities).Nodup) (h_size : entities.length ≤ maxEntities) :
    MergeKeeps written (store.factsAt on) entities (store.factsMerged on entities maxEntities)
        maxEntities ↔
      MergeSafe written (store.factsAt on) entities maxEntities := by
  rw [factsMerged_eq store on h_old h_new h_size]
  split_ifs with h_none
  · subst h_none
    exact mergeKeeps_nothing_iff
  · exact mergeKeeps_merged_iff h_old h_size h_none

/-- A user whose facts were written one by one. -/
def profile : MemoryTriple := ⟨some "t", "u", "bot"⟩

/-- The store then. -/
def profileStore (facts : Dict String String) : MemoryStore :=
  MemoryOp.run (facts.map fun p => .mergeEntities profile [p] 3)

/-- What was written first goes, and the new language is there. -/
theorem merge_keeps_profile :
    MergeKeeps (fun k => ["city", "lang", "name"].idxOf k)
      ((profileStore [("city", "Oslo"), ("lang", "de"), ("name", "Ida")]).factsAt profile)
      [("lang", "no"), ("job", "cook")]
      ((profileStore [("city", "Oslo"), ("lang", "de"), ("name", "Ida")]).factsMerged profile
        [("lang", "no"), ("job", "cook")] 3) 3 := by
  refine (merge_keeps_iff _ profile _ _ 3 (by decide +kernel) (by decide) (by decide)).mpr
    ⟨by decide, by decide +kernel, by decide +kernel⟩

/-- **The new language is lost** when the old one was written first. -/
theorem merge_loses : ¬∀ (store : MemoryStore) (on : MemoryTriple) (written : String → ℕ)
    (entities : Dict String String) (maxEntities : ℕ), (keys (store.factsAt on)).Nodup →
    (keys entities).Nodup → entities.length ≤ maxEntities →
    MergeKeeps written (store.factsAt on) entities (store.factsMerged on entities maxEntities)
      maxEntities := by
  intro h
  have h_keeps := h (profileStore [("lang", "de"), ("city", "Oslo"), ("name", "Ida")]) profile
    (fun k => ["lang", "city", "name"].idxOf k) [("lang", "no"), ("job", "cook")] 3
    (by decide +kernel) (by decide) (by decide)
  -- `lang` is given anew
  have h_lang := h_keeps.fresh "lang" "no" (by decide)
  -- but stands first, so it is driven out
  have h_gone : get? ((profileStore [("lang", "de"), ("city", "Oslo"), ("name", "Ida")]).factsMerged
    profile [("lang", "no"), ("job", "cook")] 3) "lang" = none := by decide +kernel
  rw [h_gone] at h_lang
  cases h_lang

end Nexus
