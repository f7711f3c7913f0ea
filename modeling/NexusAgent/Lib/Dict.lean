import Mathlib.Data.Nat.Notation
import Mathlib.Tactic.Common

/-!
# Insertion-ordered dictionaries

A dictionary is the list of its items in insertion order. Assigning to a present
key keeps the key's position, assigning to a new key appends it, and a lookup reads
the first item with the key, so the item order is the iteration order of a
dictionary in a language that keeps insertion order.
-/

namespace Lib

/-- A dictionary: its items in insertion order. -/
abbrev Dict (κ ν : Type) : Type := List (κ × ν)

namespace Dict

variable {κ ν : Type} [DecidableEq κ]

/-- The value at `k`, if there is one. -/
def get? : Dict κ ν → κ → Option ν
  | [], _ => none
  | (k', v) :: d, k => if k' = k then some v else get? d k

/-- `d[k] = v`. -/
def set : Dict κ ν → κ → ν → Dict κ ν
  | [], k, v => [(k, v)]
  | (k', v') :: d, k, v => if k' = k then (k, v) :: d else (k', v') :: set d k v

/-- The dictionary without `k`. -/
def erase (d : Dict κ ν) (k : κ) : Dict κ ν := d.filter fun p => p.1 ≠ k

/-- `d.update(e)`. -/
def update (d e : Dict κ ν) : Dict κ ν := e.foldl (fun d p => set d p.1 p.2) d

/-- The dictionary with `f` applied to its values. -/
def mapValues {μ : Type} (f : ν → μ) (d : Dict κ ν) : Dict κ μ := d.map fun p => (p.1, f p.2)

/-- `k in d`. -/
def has (d : Dict κ ν) (k : κ) : Bool := (get? d k).isSome

@[simp] theorem get?_nil (k : κ) : get? ([] : Dict κ ν) k = none := rfl

theorem get?_cons (k' : κ) (v : ν) (d : Dict κ ν) (k : κ) :
    get? ((k', v) :: d) k = if k' = k then some v else get? d k := rfl

/-- What was set is found. -/
@[simp] theorem get?_set_self (d : Dict κ ν) (k : κ) (v : ν) : get? (set d k v) k = some v := by
  induction d with
  | nil => simp [set, get?]
  | cons p d ih =>
    obtain ⟨k', v'⟩ := p
    by_cases h : k' = k
    · simp [set, get?, h]
    · simp [set, get?, h, ih]

/-- Setting a key leaves the others. -/
theorem get?_set_ne (d : Dict κ ν) {k k' : κ} (v : ν) (h : k ≠ k') :
    get? (set d k v) k' = get? d k' := by
  induction d with
  | nil => simp [set, get?, h]
  | cons p d ih =>
    obtain ⟨j, w⟩ := p
    by_cases hj : j = k
    · subst hj
      simp [set, get?, h]
    · by_cases hj' : j = k'
      · subst hj'
        simp [set, get?, hj]
      · simp [set, get?, hj, hj', ih]

/-- Reading a dictionary after an assignment. -/
theorem get?_set (d : Dict κ ν) (k k' : κ) (v : ν) :
    get? (set d k v) k' = if k = k' then some v else get? d k' := by
  by_cases h : k = k'
  · subst h
    simp
  · rw [get?_set_ne d v h, if_neg h]

/-- Changing all values changes the one that is found. -/
@[simp] theorem get?_mapValues {μ : Type} (f : ν → μ) (d : Dict κ ν) (k : κ) :
    get? (mapValues f d) k = (get? d k).map f := by
  induction d with
  | nil => rfl
  | cons p d ih =>
    by_cases h : p.1 = k
    · simp [mapValues, get?, h]
    · simpa [mapValues, get?, h] using ih

omit [DecidableEq κ] in
/-- Nothing changes where `f` changes no value. -/
theorem mapValues_eq_self {f : ν → ν} {d : Dict κ ν} (h : ∀ p ∈ d, f p.2 = p.2) :
    mapValues f d = d := by
  have h_id : ∀ p ∈ d, (p.1, f p.2) = p := fun p h_p => Prod.ext rfl (h p h_p)
  exact (List.map_congr_left h_id).trans (List.map_id' d)

/-- Reading a dictionary cut down to the keys that meet a condition. -/
theorem get?_filter (d : Dict κ ν) (f : κ → Bool) (k : κ) :
    get? (d.filter fun p => f p.1) k = if f k then get? d k else none := by
  induction d with
  | nil => simp
  | cons p d ih =>
    obtain ⟨j, w⟩ := p
    -- the first entry is kept if its key is
    by_cases h_j : f j = true
    · rw [List.filter_cons_of_pos (by simpa using h_j), get?_cons, get?_cons, ih]
      by_cases h : j = k
      · subst h
        rw [if_pos rfl, if_pos rfl, if_pos h_j]
      · rw [if_neg h, if_neg h]
    · rw [List.filter_cons_of_neg (by simpa using h_j), ih, get?_cons]
      by_cases h : j = k
      · subst h
        rw [if_neg h_j, if_neg h_j]
      · rw [if_neg h]

/-- Reading a dictionary after a key was taken out. -/
theorem get?_erase (d : Dict κ ν) (k k' : κ) :
    get? (erase d k) k' = if k' = k then none else get? d k' := by
  have h_filter := get?_filter d (fun j => decide (j ≠ k)) k'
  rw [erase, h_filter]
  by_cases h : k' = k <;> simp [h]

/-- Taking out a key changes nothing exactly where the key is not there. -/
theorem erase_eq_self_iff {d : Dict κ ν} {k : κ} : erase d k = d ↔ get? d k = none := by
  constructor
  · intro h
    have h_get := get?_erase d k k
    rwa [h, if_pos rfl] at h_get
  · intro h
    induction d with
    -- no entry has the key, so each is kept
    | nil => rfl
    | cons p d ih =>
      obtain ⟨j, v⟩ := p
      rw [get?_cons] at h
      split_ifs at h with h_key
      rw [erase, List.filter_cons_of_pos (by simpa using h_key)]
      exact congrArg (List.cons (j, v)) (ih h)

/-- A value read is one that was stored. -/
theorem mem_of_get? {d : Dict κ ν} {k : κ} {v : ν} (h : get? d k = some v) : (k, v) ∈ d := by
  induction d with
  | nil => cases h
  | cons p d ih =>
    obtain ⟨j, u⟩ := p
    rw [get?_cons] at h
    split_ifs at h with h_key
    · subst h_key
      obtain rfl := Option.some.inj h
      exact List.mem_cons_self
    · exact List.mem_cons_of_mem _ (ih h)

/-- A key that was stored can be read. -/
theorem exists_get?_of_mem {d : Dict κ ν} {k : κ} {v : ν} (h : (k, v) ∈ d) :
    ∃ v', get? d k = some v' := by
  induction d with
  | nil => cases h
  | cons p d ih =>
    obtain ⟨j, u⟩ := p
    rw [get?_cons]
    -- the first entry has the key, or a later one does
    by_cases h_key : j = k
    · exact ⟨u, if_pos h_key⟩
    · rw [if_neg h_key]
      refine ih ((List.mem_cons.mp h).resolve_left fun h_head => h_key ?_)
      exact (congrArg Prod.fst h_head).symm

/-- What an assignment stores. -/
theorem mem_set {d : Dict κ ν} {k k' : κ} {v v' : ν} (h : (k', v') ∈ set d k v) :
    (k' = k ∧ v' = v) ∨ (k', v') ∈ d := by
  induction d with
  | nil =>
    obtain ⟨rfl, rfl⟩ := Prod.mk.inj (List.mem_singleton.mp h)
    exact .inl ⟨rfl, rfl⟩
  | cons p d ih =>
    obtain ⟨j, u⟩ := p
    unfold set at h
    -- the entry of the key is replaced where it stands
    split_ifs at h with h_key
    · rcases List.mem_cons.mp h with h_head | h_tail
      · obtain ⟨rfl, rfl⟩ := Prod.mk.inj h_head
        exact .inl ⟨rfl, rfl⟩
      · exact .inr (List.mem_cons_of_mem _ h_tail)
    · -- or the search goes on behind an entry of another key
      rcases List.mem_cons.mp h with h_head | h_tail
      · exact .inr (h_head ▸ List.mem_cons_self)
      · exact (ih h_tail).imp_right (List.mem_cons_of_mem _)

theorem set_cons (k' : κ) (v' : ν) (d : Dict κ ν) (k : κ) (v : ν) :
    set ((k', v') :: d) k v = if k' = k then (k, v) :: d else (k', v') :: set d k v := rfl

/-- An assignment to a key that is filtered out. -/
theorem filter_set_of_not (d : Dict κ ν) {f : κ → Bool} {k : κ} (h : ¬ f k = true) (v : ν) :
    (set d k v).filter (fun p => f p.1) = d.filter fun p => f p.1 := by
  induction d with
  | nil => exact List.filter_cons_of_neg h
  | cons p d ih =>
    obtain ⟨j, u⟩ := p
    rw [set_cons]
    split_ifs with h_key
    · subst h_key
      simp only [List.filter_cons, if_neg h]
    · rw [List.filter_cons, List.filter_cons, ih]

/-- An assignment to a key that is kept. -/
theorem filter_set (d : Dict κ ν) {f : κ → Bool} {k : κ} (h : f k = true) (v : ν) :
    (set d k v).filter (fun p => f p.1) = set (d.filter fun p => f p.1) k v := by
  induction d with
  | nil => exact List.filter_cons_of_pos h
  | cons p d ih =>
    obtain ⟨j, u⟩ := p
    rw [set_cons, List.filter_cons]
    -- an entry of the key is kept by the filter
    by_cases h_key : j = k
    · subst h_key
      simp only [if_true, List.filter_cons, if_pos h, set_cons]
    · rw [if_neg h_key, List.filter_cons, ih]
      split_ifs with h_j
      · rw [set_cons, if_neg h_key]
      · rfl

/-! ### Items -/

/-- `d.items()`: each key once, with its value. -/
def items : Dict κ ν → List (κ × ν)
  | [] => []
  | p :: d => p :: (items d).filter fun q => q.1 ≠ p.1

/-- A dict lists its keys with the values that are found. -/
theorem mem_items {d : Dict κ ν} {k : κ} {v : ν} : (k, v) ∈ items d ↔ get? d k = some v := by
  induction d with
  | nil => simp [items]
  | cons p d ih =>
    obtain ⟨j, w⟩ := p
    rw [items, List.mem_cons, List.mem_filter, ih, get?_cons]
    by_cases h : j = k
    · subst h
      simp [eq_comm]
    · simp [h, Ne.symm h]

/-- The items of a dictionary cut down to the keys that meet a condition. -/
theorem items_filter (d : Dict κ ν) (f : κ → Bool) :
    items (d.filter fun p => f p.1) = (items d).filter fun p => f p.1 := by
  induction d with
  | nil => rfl
  | cons p d ih =>
    by_cases h : f p.1 = true
    · rw [List.filter_cons_of_pos (by simpa using h), items, items,
        List.filter_cons_of_pos (by simpa using h), ih, List.filter_filter, List.filter_filter]
      congr 1
      apply List.filter_congr
      intro q _
      exact Bool.and_comm _ _
    · rw [List.filter_cons_of_neg (by simpa using h), ih, items,
        List.filter_cons_of_neg (by simpa using h), List.filter_filter]
      apply List.filter_congr
      intro q _
      -- an item with the key that was cut is cut too
      by_cases h_q : q.1 = p.1
      · simp [h_q, h]
      · simp [h_q]

end Dict
end Lib
