import Mathlib.Data.List.Nodup
import Mathlib.Logic.Function.Basic
import Mathlib.Tactic.Common
import NexusAgent.Lib.Steps

/-!
# Calls on a table whose rows are locked

Calls of a database share a table, and each is about one row. A call reads its row, or puts or
removes it in one statement, or is a transaction that locks the row, goes away with what it read,
and writes it later. A statement that writes waits while the row is locked; one that reads does
not, and sees what is committed. A call may fail at any time, and is rolled back.

The statements see what is committed when they begin (READ COMMITTED). One that has found its row
and then waits for it takes the row as it is once it is free; but when the row has been removed
meanwhile it affects nothing, even if another row has been put under its key since. Such a call is
over with the removal.

* `RowState.Sound`: the invariant of the interleavings.
* `Sound.rows`, `Sound.saw`: the table is what the committed calls make one after the other, and
  each has seen what those before it left.
* `log_prefix`: the order in which they come is never revised.
* `exists_commit`: a call that is not over can always go on to its end; there is no deadlock.
-/

namespace Lib

variable {κ ρ : Type}

/-- What a call does with its row. -/
inductive RowCall (κ ρ : Type)
  | read (key : κ)
  | put (key : κ) (row : ρ)
  /-- The row goes if it passes the test. -/
  | remove (key : κ) (test : ρ → Bool)
  /-- The row is locked when there is one, and written later. -/
  | revise (key : κ) (update : ρ → ρ)

namespace RowCall

def key : RowCall κ ρ → κ
  | .read k => k
  | .put k _ => k
  | .remove k _ => k
  | .revise k _ => k

/-- What the call makes of its row. -/
def apply : RowCall κ ρ → Option ρ → Option ρ
  | .read _, row => row
  | .put _ new, _ => some new
  | .remove _ test, row => row.filter fun row => !test row
  | .revise _ f, row => row.map f

/-- Whether the call looks for its row before it writes it, and finds it. -/
def finds : RowCall κ ρ → Option ρ → Bool
  | .read _, _ | .put _ _, _ => false
  | .remove _ test, row => row.any test
  | .revise _ _, row => row.isSome

/-- A call that looks for its row leaves a missing one missing. -/
theorem apply_none_of_finds {c : RowCall κ ρ} {row : Option ρ} (h : c.finds row = true) :
    c.apply none = none := by
  cases c with
  | read k => rfl
  | put k new => cases h
  | remove k test => rfl
  | revise k f => rfl

/-- A row that passes the test goes. -/
theorem apply_remove_of_passes (k : κ) {test : ρ → Bool} {row : Option ρ}
    (h : row.any test = true) : (remove k test).apply row = none := by
  show row.filter (fun row => !test row) = none
  cases row with
  | none => rfl
  | some row =>
    rw [Option.any_some] at h
    simp [h]

/-- A removal whose test fails leaves the row. -/
theorem apply_remove_of_not_passes (k : κ) {test : ρ → Bool} {row : Option ρ}
    (h : ¬ row.any test = true) : (remove k test).apply row = row := by
  show row.filter (fun row => !test row) = row
  cases row with
  | none => rfl
  | some row =>
    rw [Option.any_some, Bool.not_eq_true] at h
    simp [h]

variable [DecidableEq κ]

/-- The table after the call. -/
def exec (c : RowCall κ ρ) (rows : κ → Option ρ) : κ → Option ρ :=
  Function.update rows c.key (c.apply (rows c.key))

theorem exec_of_ne (c : RowCall κ ρ) (rows : κ → Option ρ) {k : κ} (h : k ≠ c.key) :
    c.exec rows k = rows k :=
  Function.update_of_ne h _ _

theorem exec_of_apply_eq {c : RowCall κ ρ} {rows : κ → Option ρ}
    (h : c.apply (rows c.key) = rows c.key) : c.exec rows = rows := by
  rw [exec, h, Function.update_eq_self]

/-- The table after calls, one after the other. -/
def execAll (calls : ℕ → RowCall κ ρ) (rows : κ → Option ρ) (order : List ℕ) : κ → Option ρ :=
  order.foldl (fun rows i => (calls i).exec rows) rows

theorem execAll_concat (calls : ℕ → RowCall κ ρ) (rows : κ → Option ρ) (order : List ℕ) (i : ℕ) :
    execAll calls rows (order ++ [i]) = (calls i).exec (execAll calls rows order) := by
  rw [execAll, List.foldl_append]
  rfl

end RowCall

/-- Where a call stands; `seen` is the row it found. -/
inductive CallPhase (ρ : Type)
  | waiting
  | holding (row : ρ)
  | committed (seen : Option ρ)
  | failed
  deriving DecidableEq

/-- The call is over. -/
def CallPhase.isOver : CallPhase ρ → Bool
  | .waiting | .holding _ => false
  | .committed _ | .failed => true

/-- The table as it is committed, who has locked which row, where the calls stand, those that have
found their row and wait for it, and those that have committed, in the order they did. -/
structure RowState (κ ρ : Type) where
  rows : κ → Option ρ
  held : κ → Option ℕ := fun _ => none
  phase : ℕ → CallPhase ρ := fun _ => .waiting
  lookers : List ℕ := []
  log : List ℕ := []

/-- A call looks for its row, goes on, or fails. -/
inductive RowAction
  | look (i : ℕ)
  | go (i : ℕ)
  | fail (i : ℕ)
  deriving DecidableEq

namespace RowState

variable [DecidableEq κ]

/-- A call commits. -/
def commit (s : RowState κ ρ) (c : RowCall κ ρ) (i : ℕ) : RowState κ ρ :=
  { s with
    rows := c.exec s.rows
    phase := Function.update s.phase i (.committed (s.rows c.key))
    lookers := s.lookers.filter (· ≠ i)
    log := s.log ++ [i] }

/-- Calls commit, one after the other. -/
def commitAll (calls : ℕ → RowCall κ ρ) (s : RowState κ ρ) (js : List ℕ) : RowState κ ρ :=
  js.foldl (fun s j => s.commit (calls j) j) s

/-- The calls that have found the row of a key. -/
def lookersAt (calls : ℕ → RowCall κ ρ) (s : RowState κ ρ) (k : κ) : List ℕ :=
  s.lookers.filter fun j => (calls j).key = k

/-- A call removes its row, and so ends those that have found it. -/
def removeRow (calls : ℕ → RowCall κ ρ) (s : RowState κ ρ) (i : ℕ) : RowState κ ρ :=
  let removed := s.commit (calls i) i
  removed.commitAll calls (removed.lookersAt calls (calls i).key)

/-- A transaction writes what it has made of the row that it holds, and commits. -/
def writeBack (s : RowState κ ρ) (k : κ) (updated row : ρ) (i : ℕ) : RowState κ ρ where
  rows := Function.update s.rows k (some updated)
  held := Function.update s.held k none
  phase := Function.update s.phase i (.committed (some row))
  lookers := s.lookers.filter (· ≠ i)
  log := s.log ++ [i]

/-- One step. -/
def step (calls : ℕ → RowCall κ ρ) (s : RowState κ ρ) : RowAction → Option (RowState κ ρ)
  | .look i =>
    match s.phase i with
    | .waiting =>
      if (calls i).finds (s.rows (calls i).key) ∧ i ∉ s.lookers then
        some { s with lookers := s.lookers ++ [i] }
      else none
    | _ => none
  | .go i =>
    match calls i, s.phase i with
    | .read k, .waiting => some (s.commit (.read k) i)
    | .put k row, .waiting => if s.held k = none then some (s.commit (.put k row) i) else none
    | .remove k test, .waiting =>
      -- a row that does not pass the test is not waited for
      if (s.rows k).any test then
        if s.held k = none then some (s.removeRow calls i) else none
      else some (s.commit (.remove k test) i)
    | .revise k f, .waiting =>
      if s.held k = none then
        match s.rows k with
        | some row => some { s with
            held := Function.update s.held k (some i)
            phase := Function.update s.phase i (.holding row)
            lookers := s.lookers.filter (· ≠ i) }
        | none => some (s.commit (.revise k f) i)
      else none
    | .revise k f, .holding row => some (s.writeBack k (f row) row i)
    | _, _ => none
  | .fail i =>
    match s.phase i with
    | .waiting => some { s with
        phase := Function.update s.phase i .failed
        lookers := s.lookers.filter (· ≠ i) }
    | .holding _ => some { s with
        held := Function.update s.held (calls i).key none
        phase := Function.update s.phase i .failed }
    | _ => none

/-- A table, with nothing begun. -/
def start (rows : κ → Option ρ) : RowState κ ρ := { rows := rows }

/-- The invariant of calls on a table that was `rows₀`. -/
structure Sound (calls : ℕ → RowCall κ ρ) (rows₀ : κ → Option ρ) (s : RowState κ ρ) : Prop where
  rows : s.rows = RowCall.execAll calls rows₀ s.log
  nodup : s.log.Nodup
  mem_log : ∀ i, i ∈ s.log ↔ ∃ seen, s.phase i = .committed seen
  saw : ∀ before i after, s.log = before ++ i :: after →
    s.phase i = .committed (RowCall.execAll calls rows₀ before (calls i).key)
  held : ∀ k i, s.held k = some i ↔ (calls i).key = k ∧ ∃ row, s.phase i = .holding row
  lookers : s.lookers.Nodup
  looking : ∀ i ∈ s.lookers, s.phase i = .waiting ∧ (calls i).apply none = none
  holding : ∀ i row, s.phase i = .holding row →
    s.rows (calls i).key = some row ∧ ∃ k f, calls i = .revise k f

variable {calls : ℕ → RowCall κ ρ} {rows₀ : κ → Option ρ} {s v : RowState κ ρ} {i : ℕ}
  {a : RowAction} {as : List RowAction}

/-! ### One step -/

/-- **What a step can do**: a call commits, which its lock does not keep from it; or removes its row;
or writes the row that it holds; or it locks its row; or has found it; or it fails. What it had
locked is then free. -/
theorem step_cases (h_step : step calls s a = some v) :
    (∃ i, s.phase i = .waiting ∧ v = s.commit (calls i) i ∧
      ((calls i).apply (s.rows (calls i).key) = s.rows (calls i).key ∨
        s.held (calls i).key = none)) ∨
    (∃ i, s.phase i = .waiting ∧ v = s.removeRow calls i ∧ s.held (calls i).key = none ∧
      (calls i).apply (s.rows (calls i).key) = none) ∨
    (∃ i row k f, calls i = .revise k f ∧ s.phase i = .holding row ∧
      v = s.writeBack k (f row) row i) ∨
    (∃ i row k f, calls i = .revise k f ∧ s.phase i = .waiting ∧ s.held k = none ∧
      s.rows k = some row ∧ v = { s with
        held := Function.update s.held k (some i)
        phase := Function.update s.phase i (.holding row)
        lookers := s.lookers.filter (· ≠ i) }) ∨
    (∃ i, s.phase i = .waiting ∧ (calls i).apply none = none ∧ i ∉ s.lookers ∧
      v = { s with lookers := s.lookers ++ [i] }) ∨
    (∃ i, s.phase i = .waiting ∧ v = { s with
      phase := Function.update s.phase i .failed
      lookers := s.lookers.filter (· ≠ i) }) ∨
    ∃ i row, s.phase i = .holding row ∧ v = { s with
      held := Function.update s.held (calls i).key none
      phase := Function.update s.phase i .failed } := by
  cases a with
  | look i =>
    cases h_phase : s.phase i <;> simp only [step, h_phase, reduceCtorEq] at h_step
    split_ifs at h_step with h_found
    obtain rfl := Option.some.inj h_step
    exact .inr (.inr (.inr (.inr (.inl
      ⟨i, h_phase, RowCall.apply_none_of_finds h_found.1, h_found.2, rfl⟩))))
  | go i =>
    cases h_call : calls i with
    | read k =>
      cases h_phase : s.phase i <;> simp only [step, h_call, h_phase, reduceCtorEq] at h_step
      obtain rfl := Option.some.inj h_step
      exact .inl ⟨i, h_phase, by rw [h_call], .inl (by rw [h_call]; rfl)⟩
    | put k row =>
      cases h_phase : s.phase i <;> simp only [step, h_call, h_phase, reduceCtorEq] at h_step
      split_ifs at h_step with h_free
      obtain rfl := Option.some.inj h_step
      exact .inl ⟨i, h_phase, by rw [h_call], .inr (by rw [h_call]; exact h_free)⟩
    | remove k test =>
      -- a removal that does not pass its test leaves the row, and needs no lock
      cases h_phase : s.phase i <;> simp only [step, h_call, h_phase, reduceCtorEq] at h_step
      split_ifs at h_step with h_passes h_free
      · obtain rfl := Option.some.inj h_step
        refine .inr (.inl ⟨i, h_phase, rfl, by rw [h_call]; exact h_free, ?_⟩)
        rw [h_call]
        exact RowCall.apply_remove_of_passes k h_passes
      · obtain rfl := Option.some.inj h_step
        refine .inl ⟨i, h_phase, by rw [h_call], .inl ?_⟩
        rw [h_call]
        exact RowCall.apply_remove_of_not_passes k h_passes
    | revise k f =>
      cases h_phase : s.phase i <;> simp only [step, h_call, h_phase, reduceCtorEq] at h_step
      · -- a revision of no row commits at once, one of a row takes the lock first
        split_ifs at h_step with h_free
        cases h_row : s.rows k with
        | none =>
          rw [h_row] at h_step
          obtain rfl := Option.some.inj h_step
          exact .inl ⟨i, h_phase, by rw [h_call], .inr (by rw [h_call]; exact h_free)⟩
        | some row =>
          rw [h_row] at h_step
          obtain rfl := Option.some.inj h_step
          exact .inr (.inr (.inr (.inl ⟨i, row, k, f, h_call, h_phase, h_free, h_row, rfl⟩)))
      · obtain rfl := Option.some.inj h_step
        exact .inr (.inr (.inl ⟨i, _, k, f, h_call, h_phase, rfl⟩))
  | fail i =>
    cases h_phase : s.phase i <;> simp only [step, h_phase, reduceCtorEq] at h_step
    · obtain rfl := Option.some.inj h_step
      exact .inr (.inr (.inr (.inr (.inr (.inl ⟨i, h_phase, rfl⟩)))))
    · obtain rfl := Option.some.inj h_step
      exact .inr (.inr (.inr (.inr (.inr (.inr ⟨i, _, h_phase, rfl⟩)))))

/-! ### The invariant -/

namespace Sound

/-- At the start no call has done anything. -/
theorem start : Sound calls rows₀ (RowState.start rows₀) where
  rows := rfl
  nodup := List.nodup_nil
  mem_log i := by simp [RowState.start]
  saw before i after h := by simp [RowState.start] at h
  held k i := by simp [RowState.start]
  lookers := List.nodup_nil
  looking i h := by cases h
  holding i row h := by cases h

/-- Who is left of those that have found their row, when one of them goes on. -/
theorem looking_ne (h : Sound calls rows₀ s) (i : ℕ) (phase : CallPhase ρ) :
    (s.lookers.filter (· ≠ i)).Nodup ∧ ∀ j ∈ s.lookers.filter (· ≠ i),
      Function.update s.phase i phase j = .waiting ∧ (calls j).apply none = none := by
  refine ⟨h.lookers.filter _, fun j h_j => ?_⟩
  obtain ⟨h_mem, h_ne⟩ := List.mem_filter.mp h_j
  rw [Function.update_of_ne (of_decide_eq_true h_ne)]
  exact h.looking j h_mem

/-- The log has only calls that are over. -/
theorem not_mem_log (h : Sound calls rows₀ s) (h_open : (s.phase i).isOver = false) :
    i ∉ s.log := by
  intro h_mem
  obtain ⟨seen, h_seen⟩ := (h.mem_log i).mp h_mem
  rw [h_seen] at h_open
  cases h_open

/-- Nobody but its holder has a lock. -/
theorem not_held (h : Sound calls rows₀ s) (h_phase : s.phase i = .waiting) (k : κ) :
    s.held k ≠ some i := by
  intro h_held
  obtain ⟨-, row, h_row⟩ := (h.held k i).mp h_held
  rw [h_phase] at h_row
  cases h_row

/-- The lock of a call that holds it, once it is free. -/
theorem released (h : Sound calls rows₀ s) {row : ρ} (h_phase : s.phase i = .holding row) (k : κ) :
    Function.update s.held (calls i).key none k ≠ some i ∧
      ∀ j, j ≠ i → (Function.update s.held (calls i).key none k = some j ↔ s.held k = some j) := by
  have h_own : s.held (calls i).key = some i := (h.held _ i).mpr ⟨rfl, row, h_phase⟩
  rcases eq_or_ne k (calls i).key with rfl | h_ne
  · rw [Function.update_self]
    exact ⟨nofun, fun j h_j => by simp [h_own, h_j.symm]⟩
  · rw [Function.update_of_ne h_ne]
    exact ⟨fun h_held => h_ne ((h.held k i).mp h_held).1.symm, fun j _ => Iff.rfl⟩

/-- Another holder has another row. -/
theorem apart (h : Sound calls rows₀ s) (h_lock : s.held (calls i).key = none ∨
    s.held (calls i).key = some i) {j : ℕ} {row : ρ} (h_ne : j ≠ i)
    (h_phase : s.phase j = .holding row) : (calls j).key ≠ (calls i).key := by
  intro h_key
  have h_held := (h.held (calls i).key j).mpr ⟨h_key, row, h_phase⟩
  rcases h_lock with h_free | h_own
  · rw [h_free] at h_held
    cases h_held
  · rw [h_own] at h_held
    exact h_ne (Option.some.inj h_held).symm

/-- The row that a transaction holds is the one it has read. -/
theorem writeBack_eq (h : Sound calls rows₀ s) {row : ρ} {k : κ} {f : ρ → ρ}
    (h_call : calls i = .revise k f) (h_phase : s.phase i = .holding row) :
    s.writeBack k (f row) row i =
      { s.commit (calls i) i with held := Function.update s.held (calls i).key none } := by
  -- the row that is held is the one that is there
  have h_row : s.rows k = some row := by
    have h_there := (h.holding i row h_phase).1
    rwa [h_call] at h_there
  -- so what is written is what the call makes of it
  have h_made : (calls i).apply (s.rows (calls i).key) = some (f row) := by
    rw [h_call]
    show (s.rows k).map f = _
    rw [h_row]
    rfl
  have h_seen : s.rows (calls i).key = some row := by
    rw [h_call]
    exact h_row
  rw [RowState.commit, RowCall.exec, h_made, h_seen, h_call]
  rfl

/-- A call commits. -/
theorem commit (h : Sound calls rows₀ s) (held : κ → Option ℕ)
    (h_open : (s.phase i).isOver = false)
    (h_self : ∀ k, held k ≠ some i) (h_other : ∀ k j, j ≠ i → (held k = some j ↔ s.held k = some j))
    (h_apart : ∀ j row, j ≠ i → s.phase j = .holding row →
      (calls i).exec s.rows (calls j).key = s.rows (calls j).key) :
    Sound calls rows₀ { s.commit (calls i) i with held := held } := by
  have h_new := h.not_mem_log h_open
  have h_phase : ∀ j, j ≠ i → (s.commit (calls i) i).phase j = s.phase j :=
    fun j h_j => Function.update_of_ne h_j _ _
  have h_done : (s.commit (calls i) i).phase i = .committed (s.rows (calls i).key) :=
    Function.update_self _ _ _
  constructor
  case rows =>
    show (calls i).exec s.rows = _
    rw [show (s.commit (calls i) i).log = s.log ++ [i] from rfl, RowCall.execAll_concat, ← h.rows]
  case nodup => exact List.nodup_append.mpr ⟨h.nodup, List.nodup_singleton i, by
    rintro j h_j _ h_i rfl
    exact h_new (List.mem_singleton.mp h_i ▸ h_j)⟩
  case mem_log =>
    intro j
    show j ∈ s.log ++ [i] ↔ ∃ seen, (s.commit (calls i) i).phase j = .committed seen
    rcases eq_or_ne j i with rfl | h_ne
    · rw [h_done]
      simp
    · rw [h_phase j h_ne, ← h.mem_log j]
      simp [h_ne]
  case saw =>
    intro before j after h_log
    show (s.commit (calls i) i).phase j = _
    replace h_log : s.log ++ [i] = before ++ j :: after := h_log
    rcases List.eq_nil_or_concat after with rfl | ⟨after, x, rfl⟩
    · -- the call itself, behind all others
      obtain ⟨rfl, h_last⟩ := List.append_inj' h_log rfl
      obtain rfl := (List.cons.inj h_last).1
      rw [h_done, h.rows]
    · rw [List.concat_eq_append, ← List.cons_append, ← List.append_assoc] at h_log
      obtain ⟨h_before, -⟩ := List.append_inj' h_log rfl
      have h_ne : j ≠ i := by
        rintro rfl
        exact h_new (h_before ▸ List.mem_append_right _ List.mem_cons_self)
      rw [h_phase j h_ne]
      exact h.saw before j after h_before
  case held =>
    intro k j
    show held k = some j ↔ (calls j).key = k ∧ ∃ row, (s.commit (calls i) i).phase j = .holding row
    rcases eq_or_ne j i with rfl | h_ne
    · rw [h_done]
      simp [h_self k]
    · rw [h_phase j h_ne, h_other k j h_ne, h.held k j]
  case lookers => exact (h.looking_ne i (.committed (s.rows (calls i).key))).1
  case looking => exact (h.looking_ne i (.committed (s.rows (calls i).key))).2
  case holding =>
    intro j row h_row
    have h_ne : j ≠ i := by
      rintro rfl
      cases h_done.symm.trans h_row
    have h_row := (h_phase j h_ne).symm.trans h_row
    obtain ⟨h_there, h_call⟩ := h.holding j row h_row
    exact ⟨(h_apart j row h_ne h_row).trans h_there, h_call⟩

/-- Calls that have found a row which is removed commit, and change nothing. -/
theorem commitAll (h : Sound calls rows₀ s) {js : List ℕ} (h_nodup : js.Nodup)
    (h_js : ∀ j ∈ js, j ∈ s.lookers ∧ s.rows (calls j).key = none) :
    Sound calls rows₀ (s.commitAll calls js) ∧
      ∀ i, i ∉ js → (s.commitAll calls js).phase i = s.phase i := by
  induction js generalizing s with
  | nil => exact ⟨h, fun _ _ => rfl⟩
  | cons j js ih =>
    obtain ⟨h_new, h_nodup⟩ := List.nodup_cons.mp h_nodup
    obtain ⟨⟨h_j, h_row⟩, h_js⟩ := List.forall_mem_cons.mp h_js
    obtain ⟨h_phase, h_idle⟩ := h.looking j h_j
    -- the row is gone, so this call changes nothing
    have h_same : (calls j).exec s.rows = s.rows :=
      RowCall.exec_of_apply_eq (by rw [h_row, h_idle])
    -- its commit keeps the state sound
    have h_one : Sound calls rows₀ (s.commit (calls j) j) :=
      h.commit s.held (by rw [h_phase]; rfl) (h.not_held h_phase) (fun _ _ _ => Iff.rfl)
        fun _ _ _ _ => congrFun h_same _
    -- and those that looked with it still find no row
    obtain ⟨h_all, h_others⟩ := ih h_one h_nodup fun k h_k => by
      obtain ⟨h_mem, h_none⟩ := h_js k h_k
      refine ⟨List.mem_filter.mpr ⟨h_mem, decide_eq_true fun h_eq => h_new (h_eq ▸ h_k)⟩, ?_⟩
      exact (congrFun h_same _).trans h_none
    refine ⟨h_all, fun i h_i => ?_⟩
    rw [List.mem_cons, not_or] at h_i
    exact (h_others i h_i.2).trans (Function.update_of_ne h_i.1 _ _)

/-- A call removes its row. -/
theorem removeRow (h : Sound calls rows₀ s) (h_phase : s.phase i = .waiting)
    (h_free : s.held (calls i).key = none)
    (h_gone : (calls i).apply (s.rows (calls i).key) = none) :
    Sound calls rows₀ (s.removeRow calls i) ∧
      (s.removeRow calls i).phase i = .committed (s.rows (calls i).key) := by
  have h_removed : Sound calls rows₀ (s.commit (calls i) i) :=
    h.commit s.held (by rw [h_phase]; rfl) (h.not_held h_phase) (fun _ _ _ => Iff.rfl)
      -- no other call holds the lock of this row
      fun j row h_ne h_row => RowCall.exec_of_ne _ _ (h.apart (.inl h_free) h_ne h_row)
  -- after the removal there is no row at the key
  have h_none : (s.commit (calls i) i).rows (calls i).key = none :=
    (Function.update_self _ _ _).trans h_gone
  have h_lookers : ((s.commit (calls i) i).lookersAt calls (calls i).key).Nodup :=
    h_removed.lookers.filter _
  -- so all who look at it commit with nothing to do
  obtain ⟨h_all, h_others⟩ := h_removed.commitAll h_lookers fun j h_j => by
    obtain ⟨h_mem, h_key⟩ := List.mem_filter.mp h_j
    exact ⟨h_mem, by rw [of_decide_eq_true h_key]; exact h_none⟩
  refine ⟨h_all, (h_others i fun h_i => ?_).trans (Function.update_self _ _ _)⟩
  have h_self := (List.mem_filter.mp (List.mem_filter.mp h_i).1).2
  exact of_decide_eq_true h_self rfl

/-- A call that has not committed goes from one place to another, with the locks that go with it. -/
theorem move (h : Sound calls rows₀ s) (held : κ → Option ℕ) {phase : CallPhase ρ}
    (h_open : (s.phase i).isOver = false) (h_phase : ∀ seen, phase ≠ .committed seen)
    (h_self : ∀ k, held k = some i ↔ (calls i).key = k ∧ ∃ row, phase = .holding row)
    (h_other : ∀ k j, j ≠ i → (held k = some j ↔ s.held k = some j))
    (h_holding : ∀ row, phase = .holding row →
      s.rows (calls i).key = some row ∧ ∃ k f, calls i = .revise k f) :
    Sound calls rows₀ { s with
      held := held
      phase := Function.update s.phase i phase
      lookers := s.lookers.filter (· ≠ i) } := by
  -- a call that is not over has not committed, so the log knows nothing of it
  have h_new := h.not_mem_log h_open
  constructor
  case lookers => exact (h.looking_ne i phase).1
  case looking => exact (h.looking_ne i phase).2
  case rows => exact h.rows
  case nodup => exact h.nodup
  case mem_log =>
    intro j
    show j ∈ s.log ↔ ∃ seen, Function.update s.phase i phase j = .committed seen
    rcases eq_or_ne j i with rfl | h_ne
    · rw [Function.update_self]
      exact iff_of_false h_new fun ⟨seen, h_seen⟩ => h_phase seen h_seen
    · rw [Function.update_of_ne h_ne]
      exact h.mem_log j
  case saw =>
    intro before j after h_log
    have h_ne : j ≠ i := by
      rintro rfl
      exact h_new (h_log ▸ List.mem_append_right _ List.mem_cons_self)
    exact (Function.update_of_ne h_ne _ _).trans (h.saw before j after h_log)
  case held =>
    intro k j
    show held k = some j ↔ (calls j).key = k ∧
      ∃ row, Function.update s.phase i phase j = .holding row
    rcases eq_or_ne j i with rfl | h_ne
    · rw [Function.update_self]
      exact h_self k
    · rw [Function.update_of_ne h_ne, h_other k j h_ne]
      exact h.held k j
  case holding =>
    intro j row h_row
    rcases eq_or_ne j i with rfl | h_ne
    · exact h_holding row ((Function.update_self j phase s.phase).symm.trans h_row)
    · exact h.holding j row ((Function.update_of_ne h_ne _ _).symm.trans h_row)

/-- A step keeps the state sound. -/
theorem step (h : Sound calls rows₀ s) (h_step : RowState.step calls s a = some v) :
    Sound calls rows₀ v := by
  obtain ⟨i, h_phase, rfl, h_lock⟩ | ⟨i, h_phase, rfl, h_free, h_gone⟩ |
    ⟨i, row, k, f, h_call, h_phase, rfl⟩ | ⟨i, row, k, f, h_call, h_phase, h_free, h_row, rfl⟩ |
    ⟨i, h_phase, h_idle, h_new, rfl⟩ | ⟨i, h_phase, rfl⟩ | ⟨i, row, h_phase, rfl⟩ :=
    step_cases h_step
  · refine h.commit s.held (by rw [h_phase]; rfl) (h.not_held h_phase)
      (fun _ _ _ => Iff.rfl) fun j row h_ne h_row => ?_
    rcases h_lock with h_same | h_free
    · rw [RowCall.exec_of_apply_eq h_same]
    · exact RowCall.exec_of_ne _ _ (h.apart (.inl h_free) h_ne h_row)
  · exact (h.removeRow h_phase h_free h_gone).1
  · have h_own : s.held (calls i).key = some i := (h.held _ i).mpr ⟨rfl, row, h_phase⟩
    rw [h.writeBack_eq h_call h_phase]
    exact h.commit _ (by rw [h_phase]; rfl) (fun k => (h.released h_phase k).1)
      (fun k => (h.released h_phase k).2) fun j row' h_ne h_row =>
        RowCall.exec_of_ne _ _ (h.apart (.inr h_own) h_ne h_row)
  · have h_key : (calls i).key = k := by rw [h_call]; rfl
    refine h.move _ (by rw [h_phase]; rfl) nofun (fun k' => ?_) (fun k' j h_ne => ?_)
      fun row' h_row' => ⟨?_, k, f, h_call⟩
    · rcases eq_or_ne k' k with rfl | h_ne
      · simp [h_key]
      · rw [Function.update_of_ne h_ne, h_key]
        exact iff_of_false (h.not_held h_phase k') fun h_k => h_ne h_k.1.symm
    · rcases eq_or_ne k' k with rfl | h_k
      · simp [h_free, h_ne.symm]
      · rw [Function.update_of_ne h_k]
    · rw [h_key, h_row, CallPhase.holding.inj h_row']
  · -- nothing but the list of those that wait has changed
    refine ⟨h.rows, h.nodup, h.mem_log, h.saw, h.held, ?_, fun j h_j => ?_, h.holding⟩
    · refine List.nodup_append.mpr ⟨h.lookers, List.nodup_singleton i, ?_⟩
      rintro j h_j _ h_i rfl
      exact h_new (List.mem_singleton.mp h_i ▸ h_j)
    · rcases List.mem_append.mp h_j with h_j | h_j
      · exact h.looking j h_j
      · obtain rfl := List.mem_singleton.mp h_j
        exact ⟨h_phase, h_idle⟩
  · exact h.move s.held (by rw [h_phase]; rfl) nofun
      (fun k => iff_of_false (h.not_held h_phase k) nofun) (fun _ _ _ => Iff.rfl) nofun
  · have h_over : ∀ seen, (.failed : CallPhase ρ) ≠ .committed seen := nofun
    have h_failed := h.move _ (by rw [h_phase]; rfl) h_over
      (fun k => iff_of_false (h.released h_phase k).1 nofun) (fun k => (h.released h_phase k).2)
      nofun
    -- a call that holds its row does not wait for it
    have h_lookers : s.lookers.filter (· ≠ i) = s.lookers := by
      refine List.filter_eq_self.mpr fun j h_j => decide_eq_true ?_
      rintro rfl
      cases (h.looking _ h_j).1.symm.trans h_phase
    rwa [h_lookers] at h_failed

/-- **The invariant of every run.** -/
theorem of_run (h : Sound calls rows₀ s) (h_run : runSteps (RowState.step calls) s as = some v) :
    Sound calls rows₀ v :=
  runSteps_invariant h (fun _ _ _ h_s h_step => h_s.step h_step) h_run

end Sound

/-! ### The order of the calls -/

theorem log_commitAll (s : RowState κ ρ) (js : List ℕ) : s.log <+: (s.commitAll calls js).log := by
  induction js generalizing s with
  | nil => exact List.prefix_rfl
  | cons j js ih => exact (List.prefix_append s.log [j]).trans (ih (s.commit (calls j) j))

/-- The log only grows. -/
theorem log_step (h_step : step calls s a = some v) : s.log <+: v.log := by
  obtain ⟨i, -, rfl, -⟩ | ⟨i, -, rfl, -⟩ | ⟨i, -, -, -, -, -, rfl⟩ | ⟨i, -, -, -, -, -, -, -, rfl⟩ |
    ⟨i, -, -, -, rfl⟩ | ⟨i, -, rfl⟩ | ⟨i, -, -, rfl⟩ := step_cases h_step
  · exact List.prefix_append _ _
  · exact (List.prefix_append s.log [i]).trans (log_commitAll (s.commit (calls i) i) _)
  · exact List.prefix_append _ _
  · exact List.prefix_rfl
  · exact List.prefix_rfl
  · exact List.prefix_rfl
  · exact List.prefix_rfl

/-- **What has been committed stays so**, and nothing is committed before it any more. -/
theorem log_prefix (h_run : runSteps (step calls) s as = some v) : s.log <+: v.log :=
  runSteps_invariant (I := fun t => s.log <+: t.log) List.prefix_rfl
    (fun _ _ _ h h_step => h.trans (log_step h_step)) h_run

/-! ### No deadlock -/

@[simp] theorem commit_phase (c : RowCall κ ρ) :
    (s.commit c i).phase i = .committed (s.rows c.key) :=
  Function.update_self _ _ _

/-- A call that holds its lock can write. -/
theorem exists_commit_of_holding (h : Sound calls rows₀ s) {row : ρ}
    (h_phase : s.phase i = .holding row) :
    ∃ v, step calls s (.go i) = some v ∧ (∃ seen, v.phase i = .committed seen) ∧
      v.held (calls i).key = none ∧ ∀ j, j ≠ i → v.phase j = s.phase j := by
  obtain ⟨-, k, f, h_call⟩ := h.holding i row h_phase
  refine ⟨s.writeBack k (f row) row i, by simp only [step, h_call, h_phase],
    ⟨some row, ?_⟩, ?_, fun j h_ne => Function.update_of_ne h_ne _ _⟩
  · exact Function.update_self i (CallPhase.committed (some row)) s.phase
  · rw [h_call]
    exact Function.update_self _ _ _

/-- A call whose row is free goes on to its end. -/
theorem exists_commit_of_free (h : Sound calls rows₀ s) (h_phase : s.phase i = .waiting)
    (h_free : s.held (calls i).key = none) :
    ∃ (turns : List ℕ) (v : RowState κ ρ), turns.length ≤ 2 ∧
      runSteps (step calls) s (turns.map .go) = some v ∧ ∃ seen, v.phase i = .committed seen := by
  cases h_call : calls i with
  | read k =>
    refine ⟨[i], s.commit (.read k) i, by simp, ?_, _, commit_phase _⟩
    simp only [List.map, runSteps, step, h_call, h_phase, Option.bind_some]
  | put k row =>
    rw [h_call] at h_free
    refine ⟨[i], s.commit (.put k row) i, by simp, ?_, _, commit_phase _⟩
    simp only [List.map, runSteps, step, h_call, h_phase, if_pos (show s.held k = none from h_free),
      Option.bind_some]
  | remove k test =>
    have h_key : (calls i).key = k := by rw [h_call]; rfl
    rw [h_key] at h_free
    by_cases h_passes : (s.rows k).any test = true
    · have h_gone : (calls i).apply (s.rows (calls i).key) = none := by
        rw [h_key, h_call]
        exact RowCall.apply_remove_of_passes k h_passes
      refine ⟨[i], s.removeRow calls i, by simp, ?_, _,
        (h.removeRow h_phase (h_key ▸ h_free) h_gone).2⟩
      simp only [List.map, runSteps, step, h_call, h_phase, if_pos h_passes, if_pos h_free,
        Option.bind_some]
    · refine ⟨[i], s.commit (.remove k test) i, by simp, ?_, _, commit_phase _⟩
      simp only [List.map, runSteps, step, h_call, h_phase, if_neg h_passes, Option.bind_some]
  | revise k f =>
    rw [h_call] at h_free
    cases h_row : s.rows k with
    | none =>
      refine ⟨[i], s.commit (.revise k f) i, by simp, ?_, _, commit_phase _⟩
      simp only [List.map, runSteps, step, h_call, h_phase,
        if_pos (show s.held k = none from h_free), h_row, Option.bind_some]
    | some row =>
      -- it locks the row first
      have h_lock : step calls s (.go i) = some { s with
          held := Function.update s.held k (some i)
          phase := Function.update s.phase i (.holding row)
          lookers := s.lookers.filter (· ≠ i) } := by
        simp only [step, h_call, h_phase, if_pos (show s.held k = none from h_free), h_row]
      obtain ⟨v, h_v, h_committed, -⟩ := exists_commit_of_holding (h.step h_lock)
        (Function.update_self i (CallPhase.holding row) s.phase)
      refine ⟨[i, i], v, by simp, ?_, h_committed⟩
      rw [List.map_cons, runSteps_cons, h_lock, Option.bind_some, List.map_cons, runSteps_cons, h_v]
      rfl

/-- **No deadlock**: a call that is not over commits after at most three steps, its own and one of
the call that it waits for, without any call that fails. -/
theorem exists_commit (h : Sound calls rows₀ s) (h_open : (s.phase i).isOver = false) :
    ∃ (turns : List ℕ) (v : RowState κ ρ), turns.length ≤ 3 ∧
      runSteps (step calls) s (turns.map .go) = some v ∧ ∃ seen, v.phase i = .committed seen := by
  cases h_phase : s.phase i with
  | committed seen =>
    rw [h_phase] at h_open
    cases h_open
  | failed =>
    rw [h_phase] at h_open
    cases h_open
  | holding row =>
    obtain ⟨v, h_v, h_committed, -⟩ := exists_commit_of_holding h h_phase
    refine ⟨[i], v, by simp, ?_, h_committed⟩
    rw [List.map_cons, runSteps_cons, h_v]
    rfl
  | waiting =>
    cases h_held : s.held (calls i).key with
    | none =>
      obtain ⟨turns, v, h_length, h_commit⟩ := exists_commit_of_free h h_phase h_held
      exact ⟨turns, v, by omega, h_commit⟩
    | some j =>
      -- the holder goes first
      obtain ⟨h_key, row, h_row⟩ := (h.held _ j).mp h_held
      have h_ne : i ≠ j := by
        rintro rfl
        cases h_phase.symm.trans h_row
      obtain ⟨u, h_u, -, h_free, h_others⟩ := exists_commit_of_holding h h_row
      rw [h_key] at h_free
      obtain ⟨turns, v, h_length, h_run, h_committed⟩ := exists_commit_of_free (h.step h_u)
        ((h_others i h_ne).trans h_phase) h_free
      refine ⟨j :: turns, v, Nat.succ_le_succ h_length, ?_, h_committed⟩
      rw [List.map_cons, runSteps_cons, h_u]
      exact h_run

end RowState
end Lib
