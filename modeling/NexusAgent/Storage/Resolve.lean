import NexusAgent.Storage.Paths

/-!
# Resolved paths

A path as the operating system takes it, where `..` leads to the parent and there are no links.

* `Path.resolve_eq_self`: a path of names is resolved.
* `Path.resolve_append_component`: a name at the end stays there.
-/

open Lib

namespace Nexus

/-- A path as the operating system takes it: `..` leads to the parent. -/
def Path.resolve (p : Path) : Path :=
  p.foldl (fun at_ c => if c = ".." then at_.dropLast else at_.join c) []

/-- The name of the last component. -/
def Path.name (p : Path) : String := p.getLast?.getD ""

/-- A component that is a name: not empty, not the folder itself, not its parent. -/
def Component (c : String) : Prop := c ≠ "" ∧ c ≠ "." ∧ c ≠ ".."

instance (c : String) : Decidable (Component c) := inferInstanceAs (Decidable (_ ∧ _))

theorem Path.join_of_component {c : String} (h : Component c) (p : Path) : p.join c = p ++ [c] := by
  unfold Path.join
  exact if_neg (not_or.mpr ⟨h.1, h.2.1⟩)

theorem Path.join_empty (p : Path) : p.join "" = p := if_pos (.inl rfl)

/-- A last component is resolved after the path before it. -/
theorem Path.resolve_concat (p : Path) (c : String) :
    Path.resolve (p ++ [c]) =
      if c = ".." then (Path.resolve p).dropLast else (Path.resolve p).join c := by
  unfold Path.resolve
  rw [List.foldl_append]
  rfl

/-- A name at the end of a path stays at its end. -/
theorem Path.resolve_append_component {c : String} (h : Component c) (p : Path) :
    Path.resolve (p ++ [c]) = Path.resolve p ++ [c] := by
  rw [Path.resolve_concat, if_neg h.2.2, Path.join_of_component h]

/-- A path of names is resolved. -/
theorem Path.resolve_eq_self {p : Path} (h : ∀ c ∈ p, Component c) : p.resolve = p := by
  induction p using List.reverseRecOn with
  | nil => rfl
  | append_singleton p c ih =>
    rw [List.forall_mem_append, List.forall_mem_singleton] at h
    rw [Path.resolve_append_component h.2, ih h.1]

theorem Path.name_concat (p : Path) (c : String) : Path.name (p ++ [c]) = c := by
  simp [Path.name]

end Nexus
