import Mathlib.Logic.Function.Basic
import Mathlib.Tactic.Common

/-!
# Interleavings

A list is an interleaving of a family of lists if it takes their elements one at a time, each from
the front of a member of the family, until they are all empty. When every element knows the member
it comes from, the members can be read off the interleaving (`Interleave.filter`).
-/

namespace Lib

variable {κ α : Type} [DecidableEq κ]

/-- The list takes the elements of the family one at a time, each member's in order. -/
inductive Interleave : (κ → List α) → List α → Prop
  | nil : Interleave (fun _ => []) []
  | take {parts : κ → List α} {k : κ} {x : α} {xs whole : List α} (h_front : parts k = x :: xs)
      (h_rest : Interleave (Function.update parts k xs) whole) : Interleave parts (x :: whole)

variable {parts : κ → List α} {whole : List α}

/-- **The members are read off an interleaving** by the keys of the elements. -/
theorem Interleave.filter (h : Interleave parts whole) {key : α → κ}
    (h_key : ∀ k, ∀ x ∈ parts k, key x = k) (k : κ) :
    whole.filter (fun x => key x = k) = parts k := by
  induction h with
  | nil => rfl
  | @take parts j x xs whole h_front _ ih =>
    -- the element taken is from its own part
    have h_x : key x = j := h_key j x (by rw [h_front]; exact List.mem_cons_self)
    -- and so are those that are left
    have h_rest : ∀ k, ∀ y ∈ Function.update parts j xs k, key y = k := by
      intro k y h_y
      by_cases h_k : k = j
      · subst h_k
        rw [Function.update_self] at h_y
        exact h_key k y (by rw [h_front]; exact List.mem_cons_of_mem x h_y)
      · rw [Function.update_of_ne h_k] at h_y
        exact h_key k y h_y
    have h_filter := ih h_rest
    -- its own part has it in front, the other parts do not change
    by_cases h_k : k = j
    · subst h_k
      rw [List.filter_cons_of_pos (by simpa using h_x), h_filter, Function.update_self, h_front]
    · have h_ne : ¬ key x = k := fun h_eq => h_k (h_eq.symm.trans h_x)
      rw [List.filter_cons_of_neg (by simpa using h_ne), h_filter, Function.update_of_ne h_k]

/-- An element of an interleaving comes from a member of the family. -/
theorem Interleave.mem (h : Interleave parts whole) {x : α} (h_x : x ∈ whole) : ∃ k, x ∈ parts k := by
  induction h with
  | nil => cases h_x
  | @take parts j y xs whole h_front _ ih =>
    rcases List.mem_cons.mp h_x with rfl | h_later
    · exact ⟨j, by rw [h_front]; exact List.mem_cons_self⟩
    · -- a later element is from a part as it is after this step
      obtain ⟨k, h_k⟩ := ih h_later
      by_cases h_eq : k = j
      · subst h_eq
        rw [Function.update_self] at h_k
        exact ⟨k, by rw [h_front]; exact List.mem_cons_of_mem y h_k⟩
      · rw [Function.update_of_ne h_eq] at h_k
        exact ⟨k, h_k⟩

/-- A list is an interleaving of its parts, whatever the elements are told apart by. -/
theorem interleave_filter (key : α → κ) (whole : List α) :
    Interleave (fun k => whole.filter fun x => key x = k) whole := by
  induction whole with
  | nil => exact .nil
  | cons x whole ih =>
    -- the part of the first element has it in front
    have h_front : (x :: whole).filter (fun y => key y = key x) =
        x :: whole.filter fun y => key y = key x := List.filter_cons_of_pos (by simp)
    refine .take (k := key x) h_front ?_
    -- and without it the parts are those of the rest
    have h_update : Function.update (fun k => (x :: whole).filter fun y => key y = k) (key x)
        (whole.filter fun y => key y = key x) = fun k => whole.filter fun y => key y = k := by
      funext k
      by_cases h_k : k = key x
      · subst h_k
        rw [Function.update_self]
      · rw [Function.update_of_ne h_k, List.filter_cons_of_neg (by simpa using Ne.symm h_k)]
    rw [h_update]
    exact ih

end Lib
