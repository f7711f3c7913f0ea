import Mathlib.Data.List.Basic

/-!
# What follows in a trace

A trace is a list of observations. `NextAfter f x P` says what comes next: after every
occurrence of `x`, the first observation that `f` reads is read as something in `P`.
`Waiting f x` says that after some occurrence of `x` there has been none yet.

* `NextAfter.append`: a trace grown at its end, from what the old trace was waiting for.
* `waiting_append`: what a grown trace is waiting for.
-/

namespace Lib.Trace

variable {α β : Type} {f : α → Option β} {x : α} {P : β → Prop} {xs ys : List α}

/-- After every `x`, the first observation that `f` reads is in `P`, if there is one. -/
def NextAfter (f : α → Option β) (x : α) (P : β → Prop) (xs : List α) : Prop :=
  ∀ pre post, xs = pre ++ x :: post → ∀ b, post.findSome? f = some b → P b

/-- After some `x` there is no observation yet that `f` reads. -/
def Waiting (f : α → Option β) (x : α) (xs : List α) : Prop :=
  ∃ pre post, xs = pre ++ x :: post ∧ post.findSome? f = none

theorem Waiting.mem (h : Waiting f x xs) : x ∈ xs := by
  obtain ⟨pre, post, rfl, -⟩ := h
  simp

/-- A trace without `x` is not waiting on its account. -/
theorem nextAfter_of_notMem (h : x ∉ xs) : NextAfter f x P xs := by
  rintro pre post rfl
  simp at h

/-- An occurrence of `x` in a grown trace is in the old part or in the new one. -/
theorem append_eq_append_cons {pre post : List α} (h : xs ++ ys = pre ++ x :: post) :
    (∃ mid, xs = pre ++ x :: mid ∧ post = mid ++ ys) ∨
      ∃ mid, pre = xs ++ mid ∧ ys = mid ++ x :: post := by
  rcases List.append_eq_append_iff.mp h with ⟨mid, h_pre, h_ys⟩ | ⟨mid, h_xs, h_post⟩
  · exact .inr ⟨mid, h_pre, h_ys⟩
  · cases mid with
    | nil => exact .inr ⟨[], by rw [h_xs, List.append_nil, List.append_nil], h_post.symm⟩
    | cons y mid =>
      obtain ⟨rfl, h_tail⟩ := List.cons.inj h_post
      exact .inl ⟨mid, h_xs, h_tail⟩

/-- Nothing comes after an `x` that is last. -/
theorem nextAfter_concat (h : x ∉ xs) : NextAfter f x P (xs ++ [x]) := by
  intro pre post h_eq b h_b
  have h_post : post = [] := by
    rcases append_eq_append_cons h_eq with ⟨mid, rfl, -⟩ | ⟨mid, -, h_x⟩
    · simp at h
    · cases mid with
      | nil => exact (List.cons.inj h_x).2.symm
      | cons y mid => simp at h_x
  subst h_post
  cases h_b

/-- **Growing a trace**: the old trace, the new part, and what the old trace was waiting for. -/
theorem NextAfter.append (h : NextAfter f x P xs) (h' : NextAfter f x P ys)
    (h_next : Waiting f x xs → ∀ b, ys.findSome? f = some b → P b) :
    NextAfter f x P (xs ++ ys) := by
  intro pre post h_eq b h_b
  -- the element is followed up in the first list, or in the second
  rcases append_eq_append_cons h_eq with ⟨mid, h_xs, rfl⟩ | ⟨mid, -, h_ys⟩
  · rw [List.findSome?_append] at h_b
    -- the first list has an answer still
    cases h_mid : mid.findSome? f with
    | some c =>
      obtain rfl : c = b := by simpa [h_mid] using h_b
      exact h pre mid h_xs c h_mid
    -- it has none left, so the second one's first answer counts
    | none => exact h_next ⟨pre, mid, h_xs, h_mid⟩ b (by simpa [h_mid] using h_b)
  · -- or the element lies in the second list
    exact h' mid post h_ys b h_b

/-- What a grown trace is waiting for. -/
theorem waiting_append :
    Waiting f x (xs ++ ys) ↔ (Waiting f x xs ∧ ys.findSome? f = none) ∨ Waiting f x ys := by
  constructor
  · rintro ⟨pre, post, h_eq, h_none⟩
    rcases append_eq_append_cons h_eq with ⟨mid, h_xs, rfl⟩ | ⟨mid, -, h_ys⟩
    · rw [List.findSome?_append, Option.or_eq_none_iff] at h_none
      exact .inl ⟨⟨pre, mid, h_xs, h_none.1⟩, h_none.2⟩
    · exact .inr ⟨mid, post, h_ys, h_none⟩
  · rintro (⟨⟨pre, post, rfl, h_none⟩, h_ys⟩ | ⟨pre, post, rfl, h_none⟩)
    · exact ⟨pre, post ++ ys, by simp, by rw [List.findSome?_append, h_none, h_ys]; rfl⟩
    · exact ⟨xs ++ pre, post, by simp, h_none⟩

end Lib.Trace
