import NexusAgent.Lib.Grouping

/-!
# Merging dictionaries

`d.update(e)` overwrites the values of the keys `d` has, where they are, and appends the items
of `e` with other keys (`update_eq`). So the order of the items is that of the first
assignments, and cutting the oldest items off the merged dictionary cuts them off `d`, whatever
`e` has for their keys (`drop_update`).
-/

namespace Lib
namespace Dict

variable {κ ν : Type} [DecidableEq κ]

/-- The items of `d`, with the values of `e` for the keys it has. -/
def overwrite (d e : Dict κ ν) : Dict κ ν := d.map fun p => (p.1, (get? e p.1).getD p.2)

/-- The items of `e` whose keys `d` does not have. -/
def added (d e : Dict κ ν) : Dict κ ν := e.filter fun p => p.1 ∉ keys d

@[simp] theorem keys_overwrite (d e : Dict κ ν) : keys (overwrite d e) = keys d := by
  simp [keys, overwrite, Function.comp_def]

omit [DecidableEq κ] in
theorem mem_keys_of_mem {d : Dict κ ν} {p : κ × ν} (h : p ∈ d) : p.1 ∈ keys d :=
  List.mem_map_of_mem h

/-- The keys that are added are those that were not there. -/
theorem mem_keys_added {d e : Dict κ ν} {k : κ} :
    k ∈ keys (added d e) ↔ k ∈ keys e ∧ k ∉ keys d := by
  simp only [keys, added, List.mem_map, List.mem_filter, decide_eq_true_eq]
  constructor
  · rintro ⟨p, ⟨h_p, h_new⟩, rfl⟩
    exact ⟨⟨p, h_p, rfl⟩, h_new⟩
  · rintro ⟨⟨p, h_p, rfl⟩, h_new⟩
    exact ⟨p, ⟨h_p, h_new⟩, rfl⟩

/-- Looking up a key among those of a dictionary. -/
theorem get?_eq_none_iff {d : Dict κ ν} {k : κ} : get? d k = none ↔ k ∉ keys d := by
  refine ⟨fun h h_key => ?_, get?_eq_none⟩
  obtain ⟨⟨j, v⟩, h_mem, rfl⟩ := List.mem_map.mp h_key
  obtain ⟨v', h_some⟩ := exists_get?_of_mem h_mem
  rw [h] at h_some
  cases h_some

/-! ### Looking up -/

/-- An appended dict is asked second. -/
theorem get?_append (d e : Dict κ ν) (k : κ) : get? (d ++ e) k = (get? d k).or (get? e k) := by
  induction d with
  | nil => rfl
  | cons p d ih =>
    obtain ⟨j, w⟩ := p
    rw [List.cons_append, get?_cons, get?_cons, ih]
    by_cases h : j = k
    · rw [if_pos h, if_pos h, Option.some_or]
    · rw [if_neg h, if_neg h]

/-- Overwriting changes the values and adds no key. -/
theorem get?_overwrite (d e : Dict κ ν) (k : κ) :
    get? (overwrite d e) k = (get? d k).map fun v => (get? e k).getD v := by
  induction d with
  | nil => rfl
  | cons p d ih =>
    obtain ⟨j, w⟩ := p
    show get? ((j, (get? e j).getD w) :: overwrite d e) k = _
    rw [get?_cons, get?_cons, ih]
    by_cases h : j = k
    · rw [if_pos h, if_pos h, h, Option.map_some]
    · rw [if_neg h, if_neg h]

theorem get?_added (d e : Dict κ ν) (k : κ) :
    get? (added d e) k = if k ∈ keys d then none else get? e k := by
  rw [added, get?_filter e (fun j => decide (j ∉ keys d)) k]
  by_cases h : k ∈ keys d <;> simp [h]

/-! ### Assigning -/

/-- Assigning to a key there is replaces its value. -/
theorem set_of_mem {d : Dict κ ν} {k : κ} (v : ν) (h : (keys d).Nodup) (h_key : k ∈ keys d) :
    set d k v = d.map fun p => if p.1 = k then (k, v) else p := by
  induction d with
  | nil => cases h_key
  | cons p d ih =>
    obtain ⟨j, w⟩ := p
    rw [keys_cons, List.nodup_cons] at h
    rw [set, List.map_cons]
    by_cases h_j : j = k
    · subst h_j
      -- no other entry has the key
      have h_rest : (d.map fun p => if p.1 = j then (j, v) else p) = d.map id := by
        refine List.map_congr_left fun p h_p => if_neg ?_
        rintro rfl
        exact h.1 (mem_keys_of_mem h_p)
      rw [h_rest, List.map_id]
      simp
    · rw [keys_cons, List.mem_cons] at h_key
      rw [ih h.2 (h_key.resolve_left (Ne.symm h_j))]
      simp [h_j]

/-- Assigning to another key appends it. -/
theorem set_of_not_mem {d : Dict κ ν} {k : κ} (v : ν) (h_key : k ∉ keys d) :
    set d k v = d ++ [(k, v)] := by
  induction d with
  | nil => rfl
  | cons p d ih =>
    obtain ⟨j, w⟩ := p
    rw [keys_cons, List.mem_cons, not_or] at h_key
    rw [set, if_neg (Ne.symm h_key.1), ih h_key.2, List.cons_append]

/-- What a merge holds was in one of the two. -/
theorem mem_update {d e : Dict κ ν} {p : κ × ν} (h : p ∈ update d e) : p ∈ d ∨ p ∈ e := by
  induction e generalizing d with
  | nil => exact .inl h
  | cons q e ih =>
    have h_parts : p ∈ set d q.1 q.2 ∨ p ∈ e := ih h
    rcases h_parts with h_set | h_rest
    · have h_item : (p.1, p.2) ∈ set d q.1 q.2 := h_set
      rcases mem_set h_item with h_eq | h_old
      · exact .inr (List.mem_cons.mpr (.inl (Prod.ext h_eq.1 h_eq.2)))
      · exact .inl h_old
    · exact .inr (List.mem_cons_of_mem q h_rest)

/-- Updating repeats no key. -/
theorem nodup_keys_update {d : Dict κ ν} (h : (keys d).Nodup) (e : Dict κ ν) :
    (keys (update d e)).Nodup := by
  induction e generalizing d with
  | nil => exact h
  | cons p e ih => exact ih (nodup_keys_set p.1 p.2 h)

/-- Merging items that agree with `f`. -/
theorem get?_update_of_agree {f : κ → Option ν} {d e : Dict κ ν} (h : ∀ p ∈ e, f p.1 = some p.2)
    (k : κ) : get? (update d e) k = if k ∈ keys e then f k else get? d k := by
  induction e generalizing d with
  | nil => rfl
  | cons p e ih =>
    show get? (update (set d p.1 p.2) e) k = _
    rw [ih fun q h_q => h q (List.mem_cons_of_mem p h_q), keys_cons, get?_set]
    -- the last entry of a key decides, but all of them agree
    by_cases h_rest : k ∈ keys e
    · rw [if_pos h_rest, if_pos (List.mem_cons_of_mem _ h_rest)]
    · by_cases h_k : p.1 = k
      · subst h_k
        rw [if_neg h_rest, if_pos rfl, if_pos List.mem_cons_self]
        exact (h p List.mem_cons_self).symm
      · have h_not : k ∉ p.1 :: keys e := by simp [h_rest, Ne.symm h_k]
        rw [if_neg h_rest, if_neg h_k, if_neg h_not]

/-! ### Merging -/

/-- A key that is not in the dict is not written to it. -/
theorem overwrite_cons_of_not_mem {d e : Dict κ ν} {k : κ} (v : ν) (h_key : k ∉ keys d) :
    overwrite d ((k, v) :: e) = overwrite d e := by
  refine List.map_congr_left fun p h_p => ?_
  have h_ne : k ≠ p.1 := by
    rintro rfl
    exact h_key (mem_keys_of_mem h_p)
  rw [get?_cons, if_neg h_ne]

/-- **What merging does**: the items there are keep their places, and the others follow. -/
theorem update_eq {d e : Dict κ ν} (h : (keys d).Nodup) (h' : (keys e).Nodup) :
    update d e = overwrite d e ++ added d e := by
  induction e generalizing d with
  | nil => simp [update, overwrite, added]
  | cons p e ih =>
    obtain ⟨k, v⟩ := p
    rw [keys_cons, List.nodup_cons] at h'
    have h_none : get? e k = none := get?_eq_none h'.1
    show update (set d k v) e = _
    rw [ih (nodup_keys_set k v h) h'.2]
    by_cases h_key : k ∈ keys d
    · -- a key of `d` keeps its place and is written over
      have h_set := set_of_mem v h h_key
      have h_keys : keys (set d k v) = keys d := by
        rw [h_set, keys, keys, List.map_map]
        refine List.map_congr_left fun p _ => ?_
        by_cases h_p : p.1 = k <;> simp [h_p]
      have h_over : overwrite (set d k v) e = overwrite d ((k, v) :: e) := by
        rw [h_set, overwrite, overwrite, List.map_map]
        refine List.map_congr_left fun p _ => ?_
        by_cases h_p : p.1 = k
        · simp [h_p, h_none, get?_cons]
        · simp [h_p, get?_cons, Ne.symm h_p]
      have h_added : added (set d k v) e = added d ((k, v) :: e) := by
        simp [added, h_keys, h_key]
      rw [h_over, h_added]
    · -- a new key comes behind all of `d`, before the rest of `e`
      have h_set := set_of_not_mem v h_key
      have h_over : overwrite (set d k v) e = overwrite d ((k, v) :: e) ++ [(k, v)] := by
        rw [h_set, overwrite_cons_of_not_mem v h_key, overwrite, List.map_append]
        simp [overwrite, h_none]
      have h_added : added d ((k, v) :: e) = (k, v) :: added (set d k v) e := by
        unfold added
        rw [List.filter_cons_of_pos (by simpa using h_key)]
        congr 1
        refine List.filter_congr fun p h_p => ?_
        have h_ne : p.1 ≠ k := by
          rintro rfl
          exact h'.1 (mem_keys_of_mem h_p)
        simp [mem_keys_set, h_ne]
      rw [h_over, h_added, List.append_assoc, List.singleton_append]

theorem length_update {d e : Dict κ ν} (h : (keys d).Nodup) (h' : (keys e).Nodup) :
    (update d e).length = d.length + (added d e).length := by
  rw [update_eq h h', List.length_append, overwrite, List.length_map]

/-- **Cutting off the first items** cuts them off `d`, as long as it has that many. -/
theorem drop_update {d e : Dict κ ν} (h : (keys d).Nodup) (h' : (keys e).Nodup) {n : ℕ}
    (h_n : n ≤ d.length) : (update d e).drop n = overwrite (d.drop n) e ++ added d e := by
  rw [update_eq h h', List.drop_append_of_le_length (by simpa [overwrite] using h_n), overwrite,
    overwrite, List.map_drop]

end Dict
end Lib
