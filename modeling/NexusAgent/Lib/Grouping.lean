import NexusAgent.Lib.Dict
import Mathlib.Data.List.Sort

/-!
# Collecting items under keys

A dictionary filled item by item, where each item updates the value under its own key
(`Dict.collect`). Afterwards the value under a key is the fold of the items with this key
(`get?_collect`), whatever the order in which the keys took turns, and listing the values
by increasing key is listing them along any increasing list that has all the keys
(`filterMap_sorted`).
-/

namespace Lib
namespace Dict

variable {κ ν δ : Type} [DecidableEq κ]

/-! ### Keys -/

/-- The keys of the items. -/
def keys (d : Dict κ ν) : List κ := d.map Prod.fst

omit [DecidableEq κ] in
theorem keys_cons (k : κ) (v : ν) (d : Dict κ ν) : keys ((k, v) :: d) = k :: keys d := rfl

/-- Setting a key adds this key. -/
theorem mem_keys_set {d : Dict κ ν} {k k' : κ} {v : ν} :
    k' ∈ keys (set d k v) ↔ k' = k ∨ k' ∈ keys d := by
  induction d with
  | nil => simp [set, keys]
  | cons p d ih =>
    obtain ⟨j, w⟩ := p
    by_cases h : j = k
    · subst h
      simp [set, keys_cons]
    · simp only [set, if_neg h, keys_cons, List.mem_cons, ih]
      tauto

/-- The keys stay different. -/
theorem nodup_keys_set {d : Dict κ ν} (k : κ) (v : ν) (h : (keys d).Nodup) :
    (keys (set d k v)).Nodup := by
  induction d with
  | nil => simp [set, keys]
  | cons p d ih =>
    obtain ⟨j, w⟩ := p
    rw [keys_cons, List.nodup_cons] at h
    by_cases hj : j = k
    · subst hj
      simpa [set, keys_cons] using h
    · rw [set, if_neg hj, keys_cons, List.nodup_cons, mem_keys_set]
      exact ⟨fun h_mem => h_mem.elim hj h.1, ih h.2⟩

/-- A key that is not there has no value. -/
theorem get?_eq_none {d : Dict κ ν} {k : κ} (h : k ∉ keys d) : get? d k = none := by
  induction d with
  | nil => rfl
  | cons p d ih =>
    obtain ⟨j, w⟩ := p
    rw [keys_cons, List.mem_cons, not_or] at h
    rw [get?_cons, if_neg (Ne.symm h.1)]
    exact ih h.2

/-- With distinct keys, a lookup finds the item of the key. -/
theorem get?_of_mem {d : Dict κ ν} (h : (keys d).Nodup) {k : κ} {v : ν} (h_mem : (k, v) ∈ d) :
    get? d k = some v := by
  induction d with
  | nil => cases h_mem
  | cons p d ih =>
    obtain ⟨j, w⟩ := p
    rw [keys_cons, List.nodup_cons] at h
    rcases List.mem_cons.mp h_mem with h_eq | h_mem
    · cases h_eq
      rw [get?_cons, if_pos rfl]
    · -- the other entries have other keys
      have h_ne : j ≠ k := by
        rintro rfl
        exact h.1 (List.mem_map.mpr ⟨(j, v), h_mem, rfl⟩)
      rw [get?_cons, if_neg h_ne]
      exact ih h.2 h_mem

/-- With distinct keys, the order of the items does not matter to a lookup. -/
theorem get?_perm {d e : Dict κ ν} (h_perm : d.Perm e) (h : (keys d).Nodup) (k : κ) :
    get? d k = get? e k := by
  have h' : (keys e).Nodup := (h_perm.map Prod.fst).nodup_iff.mp h
  by_cases h_key : k ∈ keys d
  · obtain ⟨⟨j, v⟩, h_mem, rfl⟩ := List.mem_map.mp h_key
    rw [get?_of_mem h h_mem, get?_of_mem h' (h_perm.subset h_mem)]
  · have h_key' : k ∉ keys e := fun h_mem => h_key ((h_perm.map Prod.fst).symm.subset h_mem)
    rw [get?_eq_none h_key, get?_eq_none h_key']

/-! ### Collecting -/

/-- Each item updates the value under its key, starting from `init`. -/
def collect (key : δ → κ) (add : ν → δ → ν) (init : ν) (d : Dict κ ν) (items : List δ) :
    Dict κ ν :=
  items.foldl (fun d x => set d (key x) (add ((get? d (key x)).getD init) x)) d

variable {key : δ → κ} {add : ν → δ → ν} {init : ν}

/-- **What was collected under a key** are the items with this key, in their order. -/
theorem get?_collect (items : List δ) (d : Dict κ ν) (k : κ) :
    (get? (collect key add init d items) k).getD init =
      (items.filter fun x => key x = k).foldl add ((get? d k).getD init) := by
  induction items generalizing d with
  | nil => rfl
  | cons x items ih =>
    rw [collect, List.foldl_cons]
    refine (ih _).trans ?_
    -- the item counts for its own key, and for no other
    rw [get?_set]
    by_cases h : key x = k
    · subst h
      rw [if_pos rfl, List.filter_cons_of_pos (by simp)]
      rfl
    · rw [if_neg h, List.filter_cons_of_neg (by simpa using h)]

/-- Collecting repeats no key. -/
theorem nodup_keys_collect (items : List δ) {d : Dict κ ν} (h : (keys d).Nodup) :
    (keys (collect key add init d items)).Nodup := by
  induction items generalizing d with
  | nil => exact h
  | cons x items ih => exact ih (nodup_keys_set _ _ h)

/-- Collecting adds only the keys of the items. -/
theorem keys_collect_subset (items : List δ) {d : Dict κ ν} {ks : List κ}
    (h : ∀ k ∈ keys d, k ∈ ks) (h_items : ∀ x ∈ items, key x ∈ ks) :
    ∀ k ∈ keys (collect key add init d items), k ∈ ks := by
  induction items generalizing d with
  | nil => exact h
  | cons x items ih =>
    rw [List.forall_mem_cons] at h_items
    refine ih (fun k h_k => ?_) h_items.2
    rcases mem_keys_set.mp h_k with rfl | h_k
    · exact h_items.1
    · exact h k h_k

/-! ### Listing by key -/

section Sorted

variable [LinearOrder κ] {β : Type}

/-- Listing a dictionary with increasing keys along a list of keys that contains them. -/
theorem filterMap_eq_along {d : Dict κ ν} {ks : List κ} (h_keys : ks.Pairwise (· < ·))
    (h_sorted : (keys d).Pairwise (· < ·)) (h_sub : ∀ k ∈ keys d, k ∈ ks) (g : κ → ν → Option β)
    (h_init : ∀ k, g k init = none) :
    d.filterMap (fun p => g p.1 p.2) = ks.filterMap fun k => g k ((get? d k).getD init) := by
  induction ks generalizing d with
  | nil =>
    cases d with
    | nil => rfl
    | cons p d => exact absurd (h_sub p.1 List.mem_cons_self) (List.not_mem_nil)
  | cons k ks ih =>
    rw [List.pairwise_cons] at h_keys
    cases d with
    | nil => simp [h_init]
    | cons p d =>
      obtain ⟨j, v⟩ := p
      rw [keys_cons] at h_sorted h_sub
      rw [List.pairwise_cons] at h_sorted
      rw [List.forall_mem_cons] at h_sub
      have h_tail : ∀ i ∈ keys d, i ∈ k :: ks := h_sub.2
      rcases List.mem_cons.mp h_sub.1 with rfl | h_j
      · -- the first key of both
        have h_rest : ∀ i ∈ keys d, i ∈ ks := by
          intro i hi
          rcases List.mem_cons.mp (h_tail i hi) with rfl | h
          · exact absurd (h_sorted.1 i hi) (lt_irrefl i)
          · exact h
        have h_get : ∀ i ∈ ks, get? ((j, v) :: d) i = get? d i := by
          intro i hi
          rw [get?_cons, if_neg (h_keys.1 i hi).ne]
        have h_eq : (ks.filterMap fun i => g i ((get? ((j, v) :: d) i).getD init)) =
            ks.filterMap fun i => g i ((get? d i).getD init) := by
          apply List.filterMap_congr
          intro i hi
          rw [h_get i hi]
        rw [List.filterMap_cons, List.filterMap_cons, h_eq, ← ih h_keys.2 h_sorted.2 h_rest,
          get?_cons, if_pos rfl]
        rfl
      · -- nothing is filed under the first key of the list
        have h_notin : k ∉ keys ((j, v) :: d) := by
          intro h_mem
          rcases List.mem_cons.mp h_mem with rfl | h_mem
          · exact lt_irrefl _ (h_keys.1 _ h_j)
          · exact lt_asymm (h_sorted.1 k h_mem) (h_keys.1 j h_j)
        have h_rest : ∀ i ∈ keys ((j, v) :: d), i ∈ ks := by
          intro i hi
          have h_or : i ∈ k :: ks := by
            rcases List.mem_cons.mp hi with rfl | hi
            · exact List.mem_cons_of_mem _ h_j
            · exact h_tail i hi
          rcases List.mem_cons.mp h_or with rfl | h
          · exact absurd hi h_notin
          · exact h
        have h_none : g k ((get? ((j, v) :: d) k).getD init) = none := by
          rw [get?_eq_none h_notin]
          exact h_init k
        have h_skip : ((k :: ks).filterMap fun i => g i ((get? ((j, v) :: d) i).getD init)) =
            ks.filterMap fun i => g i ((get? ((j, v) :: d) i).getD init) :=
          List.filterMap_cons_none h_none
        rw [h_skip]
        refine ih h_keys.2 ?_ h_rest
        rw [keys_cons, List.pairwise_cons]
        exact h_sorted

/-- **Listing by increasing key** is listing along any increasing list with all the keys. -/
theorem filterMap_sorted {d : Dict κ ν} {ks : List κ} (h_nodup : (keys d).Nodup)
    (h_keys : ks.Pairwise (· < ·)) (h_sub : ∀ k ∈ keys d, k ∈ ks) (g : κ → ν → Option β)
    (h_init : ∀ k, g k init = none) :
    (d.insertionSort fun p q => p.1 ≤ q.1).filterMap (fun p => g p.1 p.2) =
      ks.filterMap fun k => g k ((get? d k).getD init) := by
  have h_perm := List.perm_insertionSort (fun p q : κ × ν => p.1 ≤ q.1) d
  -- sorting keeps the entries
  have h_nodup' : (keys (d.insertionSort fun p q => p.1 ≤ q.1)).Nodup :=
    (h_perm.map Prod.fst).nodup_iff.mpr h_nodup
  have h_le : (d.insertionSort fun p q => p.1 ≤ q.1).Pairwise fun p q => p.1 ≤ q.1 := by
    have : Std.Total fun p q : κ × ν => p.1 ≤ q.1 := ⟨fun p q => le_total p.1 q.1⟩
    have : IsTrans (κ × ν) fun p q => p.1 ≤ q.1 := ⟨fun _ _ _ => le_trans⟩
    exact List.pairwise_insertionSort _ d
  -- sorted and different: strictly increasing, as the list of all keys
  have h_lt : (keys (d.insertionSort fun p q => p.1 ≤ q.1)).Pairwise (· < ·) := by
    have h_le' : (keys (d.insertionSort fun p q => p.1 ≤ q.1)).Pairwise (· ≤ ·) :=
      List.pairwise_map.mpr h_le
    exact (h_le'.and h_nodup').imp fun h => lt_of_le_of_ne h.1 h.2
  have h_sub' : ∀ k ∈ keys (d.insertionSort fun p q => p.1 ≤ q.1), k ∈ ks :=
    fun k hk => h_sub k ((h_perm.map Prod.fst).subset hk)
  rw [filterMap_eq_along h_keys h_lt h_sub' g h_init]
  apply List.filterMap_congr
  intro k _
  rw [get?_perm h_perm h_nodup']

end Sorted

end Dict
end Lib
