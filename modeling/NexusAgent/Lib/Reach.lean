import Mathlib.Logic.Relation

/-!
# Reachability around a set of nodes

A search that marks the nodes it has seen explores the paths that avoid them. `Avoids succ seen`
relates the two ends of such a path. Marking one more node cuts the paths through it, and what
lies behind the last visit to it is reached from its successors (`Avoids.split`).
-/

namespace Lib

variable {α : Type} {succ : α → List α} {seen : List α} {n x y z : α}

/-- A path from node to node. -/
def Reaches (succ : α → List α) : α → α → Prop :=
  Relation.ReflTransGen fun a b => b ∈ succ a

/-- A path with no node among those seen. -/
inductive Avoids (succ : α → List α) (seen : List α) : α → α → Prop
  | refl {x : α} (h : x ∉ seen) : Avoids succ seen x x
  | tail {x y z : α} (h : Avoids succ seen x y) (h_edge : z ∈ succ y) (h_new : z ∉ seen) :
    Avoids succ seen x z

namespace Avoids

theorem start (h : Avoids succ seen x y) : x ∉ seen := by
  induction h with
  | refl h => exact h
  | tail _ _ _ ih => exact ih

/-- A path avoids fewer nodes all the more. -/
theorem of_cons (h : Avoids succ (n :: seen) x y) : Avoids succ seen x y := by
  induction h with
  | refl h => exact .refl fun h_mem => h (List.mem_cons_of_mem n h_mem)
  | tail _ h_edge h_new ih =>
    exact .tail ih h_edge fun h_mem => h_new (List.mem_cons_of_mem n h_mem)

/-- A path with one step before it. -/
theorem head (h : Avoids succ seen y z) (h_edge : y ∈ succ x) (h_new : x ∉ seen) :
    Avoids succ seen x z := by
  induction h with
  | refl h => exact .tail (.refl h_new) h_edge h
  | tail _ h_next h_mem ih => exact .tail ih h_next h_mem

/-- **A path, cut at its last visit to `n`**: it avoids `n`, it ends there, or its end is reached
from a successor of `n`. -/
theorem split (h : Avoids succ seen x y) (n : α) :
    Avoids succ (n :: seen) x y ∨ y = n ∨ ∃ c ∈ succ n, Avoids succ (n :: seen) c y := by
  -- what has been seen, and `n`
  have h_new : ∀ {z}, z ∉ seen → z ≠ n → z ∉ n :: seen := fun h_seen h_ne h_mem =>
    (List.mem_cons.mp h_mem).elim h_ne h_seen
  induction h with
  | refl h =>
    -- the path stops at `n`, or avoids it so far
    by_cases h_n : x = n
    · exact .inr (.inl h_n)
    · exact .inl (.refl (h_new h h_n))
  | @tail y z _ h_edge h_z ih =>
    by_cases h_n : z = n
    · exact .inr (.inl h_n)
    · -- the path to `y` avoids `n`, or leaves `n` for the last time on the way
      rcases ih with h_avoids | rfl | ⟨c, h_c, h_avoids⟩
      · exact .inl (.tail h_avoids h_edge (h_new h_z h_n))
      · exact .inr (.inr ⟨z, h_edge, .refl (h_new h_z h_n)⟩)
      · exact .inr (.inr ⟨c, h_c, .tail h_avoids h_edge (h_new h_z h_n)⟩)

/-- While nothing is seen, every path avoids it. -/
theorem nil_iff : Avoids succ [] x y ↔ Reaches succ x y := by
  constructor
  · intro h
    induction h with
    | refl => exact .refl
    | tail _ h_edge _ ih => exact .tail ih h_edge
  · intro h
    induction h with
    | refl => exact .refl List.not_mem_nil
    | tail _ h_edge ih => exact .tail ih h_edge List.not_mem_nil

end Avoids

/-- Paths along edges that are the same. -/
theorem Reaches.congr {succ' : α → List α} (h : ∀ a b, b ∈ succ a ↔ b ∈ succ' a) :
    Reaches succ x y ↔ Reaches succ' x y := by
  have h_eq : (fun a b => b ∈ succ a) = fun a b => b ∈ succ' a := by
    funext a b
    exact propext (h a b)
  unfold Reaches
  rw [h_eq]

end Lib
