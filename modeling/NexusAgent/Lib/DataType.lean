import Mathlib.Data.List.Basic

/-!
# Data types and their refinement

A `DataType` has states, operations that change them, and questions that its users ask between two
operations. Only the answers can be seen from outside. A concrete data type refines an abstract one
when every answer it gives is one that the abstract one allows, after every list of operations that
the abstract one permits.

* `Refines.of_simulation`: a relation between the states that every operation keeps.
-/

namespace Lib

/-- States with operations and questions. -/
structure DataType (Op Query Answer : Type) where
  State : Type
  start : State
  exec : State → Op → State
  /-- The answers that a state may give. -/
  answers : State → Query → Answer → Prop

namespace DataType

variable {Op Query Answer : Type}

/-- The state after a list of operations. -/
def after (D : DataType Op Query Answer) (ops : List Op) : D.State := ops.foldl D.exec D.start

/-- Each operation is permitted in the state that it is run in. -/
def Permitted (D : DataType Op Query Answer) (permits : D.State → Op → Prop) :
    D.State → List Op → Prop
  | _, [] => True
  | s, op :: ops => permits s op ∧ Permitted D permits (D.exec s op) ops

/-- After permitted operations, what `C` answers to a question in `asked` is an answer of `A`. -/
def Refines (C A : DataType Op Query Answer) (permits : A.State → Op → Prop)
    (asked : Query → Prop) : Prop :=
  ∀ ops, A.Permitted permits A.start ops → ∀ q, asked q → ∀ r,
    C.answers (C.after ops) q r → A.answers (A.after ops) q r

variable {C A : DataType Op Query Answer} {permits : A.State → Op → Prop} {asked : Query → Prop}

/-- **Forward simulation.** -/
theorem Refines.of_simulation (Rel : C.State → A.State → Prop) (h_start : Rel C.start A.start)
    (h_exec : ∀ c a op, Rel c a → permits a op → Rel (C.exec c op) (A.exec a op))
    (h_answers : ∀ c a q r, Rel c a → asked q → C.answers c q r → A.answers a q r) :
    C.Refines A permits asked := by
  -- the relation holds after any operations that are permitted
  have h_run : ∀ (ops : List Op) c a, Rel c a → A.Permitted permits a ops →
      Rel (ops.foldl C.exec c) (ops.foldl A.exec a) := by
    intro ops
    induction ops with
    | nil => exact fun c a h_rel _ => h_rel
    | cons op ops ih =>
      rintro c a h_rel ⟨h_op, h_rest⟩
      exact ih _ _ (h_exec c a op h_rel h_op) h_rest
  intro ops h_permitted q h_asked r h_r
  exact h_answers _ _ q r (h_run ops _ _ h_start h_permitted) h_asked h_r

end DataType
end Lib
