import Mathlib.Data.List.Forall2

/-!
# Programs that add to a heap

A heap is the list of its cells, and the address of a cell is its place in the list. A program that
writes to none but its own cells leaves a heap that begins with the one it found (`Grows`), so that
what could be read off the old cells can still be read.

* `Grows.bind`, `Grows.alloc`, `Grows.mapM`: programs put together.
* `Stable`: what is read off cells that stay.
-/

namespace Lib

variable {κ α β γ : Type}

/-- `prog` adds cells to `h`, with a result and a heap as `post` says. -/
def Grows (prog : StateM (List κ) α) (h : List κ) (post : α → List κ → Prop) : Prop :=
  h <+: (prog h).2 ∧ post (prog h).1 (prog h).2

/-- A fact about a heap that more cells do not change. -/
def Stable (fact : List κ → Prop) : Prop := ∀ h h', h <+: h' → fact h → fact h'

/-- A new cell. -/
def alloc (c : κ) : StateM (List κ) ℕ := fun h => (h.length, h ++ [c])

/-- A cell stays as the heap grows. -/
theorem stable_cell (a : ℕ) (c : κ) : Stable fun h => h[a]? = some c := by
  rintro h h' ⟨more, rfl⟩ h_c
  obtain ⟨h_a, -⟩ := List.getElem?_eq_some_iff.mp h_c
  rw [List.getElem?_append_left h_a]
  exact h_c

theorem Stable.forall₂ {R : List κ → α → β → Prop} (h : ∀ x y, Stable fun heap => R heap x y)
    (xs : List α) (ys : List β) : Stable fun heap => List.Forall₂ (R heap) xs ys :=
  fun heap heap' h_more h_all => h_all.imp fun x y h_xy => h x y heap heap' h_more h_xy

namespace Grows

variable {prog : StateM (List κ) α} {h : List κ} {post : α → List κ → Prop}

protected theorem pure {x : α} (h_post : post x h) : Grows (pure x) h post :=
  ⟨List.prefix_rfl, h_post⟩

/-- Two programs, one after the other. -/
protected theorem bind {next : α → StateM (List κ) β} {post' : β → List κ → Prop}
    (h_prog : Grows prog h post)
    (h_next : ∀ x h', h <+: h' → post x h' → Grows (next x) h' post') :
    Grows (prog >>= next) h post' := by
  obtain ⟨h_more, h_post⟩ := h_prog
  obtain ⟨h_more', h_post'⟩ := h_next _ _ h_more h_post
  exact ⟨h_more.trans h_more', h_post'⟩

/-- A new cell holds what was put into it. -/
protected theorem alloc (c : κ) : Grows (alloc c) h fun a h' => h'[a]? = some c :=
  ⟨List.prefix_append h [c], List.getElem?_concat_length⟩

/-- A new cell is none of the old ones. -/
theorem alloc_fresh (c : κ) :
    Grows (alloc c) h fun a h' => h.length ≤ a ∧ h'[a]? = some c :=
  ⟨List.prefix_append h [c], Nat.le_refl _, List.getElem?_concat_length⟩

/-- A program that goes on to write to its own cells. -/
theorem bind_own {next : α → StateM (List κ) β} {post' : β → List κ → Prop}
    (h_prog : Grows prog h post)
    (h_next : ∀ x h', h <+: h' → post x h' →
      h <+: (next x h').2 ∧ post' (next x h').1 (next x h').2) :
    Grows (prog >>= next) h post' :=
  h_next _ _ h_prog.1 h_prog.2

/-- Reading the heap. -/
protected theorem get : Grows get h fun x h' => x = h ∧ h' = h :=
  ⟨List.prefix_rfl, rfl, rfl⟩

/-- **A program for each element**, from facts about the elements to facts about the results. -/
protected theorem mapM {f : α → StateM (List κ) β} {R : List κ → α → γ → Prop}
    {S : List κ → β → γ → Prop} (h_R : ∀ x z, Stable fun heap => R heap x z)
    (h_S : ∀ y z, Stable fun heap => S heap y z)
    (h_f : ∀ heap x z, R heap x z → Grows (f x) heap fun y heap' => S heap' y z)
    {xs : List α} {zs : List γ} (h_all : List.Forall₂ (R h) xs zs) :
    Grows (xs.mapM f) h fun ys h' => List.Forall₂ (S h') ys zs := by
  induction xs generalizing zs h with
  | nil =>
    obtain rfl := List.forall₂_nil_left_iff.mp h_all
    rw [List.mapM_nil]
    exact .pure .nil
  | cons x xs ih =>
    obtain ⟨z, zs, h_x, h_xs, rfl⟩ := List.forall₂_cons_left_iff.mp h_all
    rw [List.mapM_cons]
    -- the first action allocates, and the others run on what it leaves
    refine (h_f h x z h_x).bind fun y h' h_more h_y => ?_
    -- what was related before is related still
    refine (ih (Stable.forall₂ h_R xs zs h h' h_more h_xs)).bind fun ys h'' h_more' h_ys => ?_
    exact .pure (.cons (h_S y z h' h'' h_more' h_y) h_ys)

end Grows

end Lib
