import Mathlib.Data.List.Basic
import Mathlib.Logic.Function.Basic
import Mathlib.Tactic.Common
import NexusAgent.Lib.Steps

/-!
# Parties that share locks

Parties take steps of their own, in an environment that takes steps too. A state of a party lies
in the section of at most one lock (`inside`). A step that leads into a section is possible only
while its lock is free, and takes it; the step that leads out of the section frees it.

* `Locks.Consistent`: the table of the locks says who is in which section; `consistent_run`: it
  does so in every run.
* `Consistent.exclusive`: no two parties are in one section.
* `run_invariant`, `run_invariant_at`: what the steps of a party and of the environment keep holds
  of all parties, and of one party, in every run.
* `Stuck.party_eq_none`: a party that cannot go on cannot go on by itself either, provided every
  section can be left. So the locks add no deadlock.
-/

namespace Lib

variable {π γ α β κ : Type}

/-- What the parties and the environment do, and which lock a state of a party needs. -/
structure LockSystem (π γ α β κ : Type) where
  party : γ → π → α → Option π
  env : γ → β → Option γ
  inside : π → Option κ

/-- The environment, the parties, and who holds which lock. -/
structure Locks (π γ κ : Type) where
  env : γ
  parties : List π
  held : κ → Option ℕ

/-- A step of a party or of the environment. -/
inductive LockAction (α β : Type)
  | party (i : ℕ) (a : α)
  | env (b : β)
  deriving DecidableEq

namespace Locks

variable [DecidableEq κ]

/-- The locks after party `i` has gone from one section to another, if it could. -/
def pass (held : κ → Option ℕ) (i : ℕ) : Option κ → Option κ → Option (κ → Option ℕ)
  | none, none => some held
  | none, some k => if held k = none then some (Function.update held k (some i)) else none
  | some k, none => some (Function.update held k none)
  | some k, some k' => if k = k' then some held else none

/-- One step of the system. -/
def step (S : LockSystem π γ α β κ) (w : Locks π γ κ) : LockAction α β → Option (Locks π γ κ)
  | .party i a => do
    let p ← w.parties[i]?
    let q ← S.party w.env p a
    let held ← pass w.held i (S.inside p) (S.inside q)
    return { w with parties := w.parties.set i q, held := held }
  | .env b => (S.env w.env b).map fun e => { w with env := e }

/-- The start: every lock is free. -/
def start (env : γ) (parties : List π) : Locks π γ κ :=
  { env := env, parties := parties, held := fun _ => none }

/-- A lock is held by the party that is in its section, and by nobody else. -/
def Consistent (S : LockSystem π γ α β κ) (w : Locks π γ κ) : Prop :=
  ∀ i k, w.held k = some i ↔ ∃ p, w.parties[i]? = some p ∧ S.inside p = some k

variable {S : LockSystem π γ α β κ} {w v : Locks π γ κ} {i : ℕ} {a : α} {b : β}

/-! ### One step -/

/-- A party moves if its own step is allowed and the lock it asks for is free. -/
theorem step_party :
    step S w (.party i a) = some v ↔ ∃ p q held, w.parties[i]? = some p ∧
      S.party w.env p a = some q ∧ pass w.held i (S.inside p) (S.inside q) = some held ∧
      v = { w with parties := w.parties.set i q, held := held } := by
  simp only [step, Option.bind_eq_bind, Option.bind_eq_some_iff, Option.pure_def,
    Option.some.injEq]
  refine ⟨?_, ?_⟩
  · rintro ⟨p, h_p, q, h_q, held, h_held, rfl⟩
    exact ⟨p, q, held, h_p, h_q, h_held, rfl⟩
  · rintro ⟨p, q, held, h_p, h_q, h_held, rfl⟩
    exact ⟨p, h_p, q, h_q, held, h_held, rfl⟩

theorem step_env :
    step S w (.env b) = some v ↔ ∃ e, S.env w.env b = some e ∧ v = { w with env := e } := by
  rw [step, Option.map_eq_some_iff]
  exact exists_congr fun e => and_congr_right fun _ => eq_comm

section Pass

variable {held held' : κ → Option ℕ} {from? to? : Option κ}
  (h_from : ∀ k, held k = some i ↔ from? = some k) (h : pass held i from? to? = some held')

include h_from h

/-- After a step, the party holds the lock of the section it has come to. -/
theorem pass_self (k : κ) : held' k = some i ↔ to? = some k := by
  match from?, to? with
  | none, none =>
    obtain rfl := Option.some.inj h
    exact h_from k
  | none, some j =>
    simp only [pass] at h
    split_ifs at h
    obtain rfl := Option.some.inj h
    rcases eq_or_ne k j with rfl | h_ne
    · simp
    · rw [Function.update_of_ne h_ne, h_from]
      simp [h_ne.symm]
  | some j, none =>
    obtain rfl := Option.some.inj h
    rcases eq_or_ne k j with rfl | h_ne
    · simp
    · rw [Function.update_of_ne h_ne, h_from]
      simp [h_ne.symm]
  -- a party gets from lock to lock only by keeping it
  | some j, some j' =>
    simp only [pass] at h
    split_ifs at h with h_eq
    obtain rfl := Option.some.inj h
    rw [h_from, h_eq]

/-- What the others hold, a step leaves alone. -/
theorem pass_other {j : ℕ} (h_ne : j ≠ i) (k : κ) : held' k = some j ↔ held k = some j := by
  match from?, to? with
  | none, none =>
    obtain rfl := Option.some.inj h
    exact Iff.rfl
  | none, some l =>
    simp only [pass] at h
    split_ifs at h with h_free
    obtain rfl := Option.some.inj h
    rcases eq_or_ne k l with rfl | h_k
    · -- a free lock goes to the party that moves
      simp [h_free, h_ne.symm]
    · rw [Function.update_of_ne h_k]
  | some l, none =>
    obtain rfl := Option.some.inj h
    rcases eq_or_ne k l with rfl | h_k
    · simp [(h_from k).mpr rfl, h_ne.symm]
    · rw [Function.update_of_ne h_k]
  | some l, some l' =>
    simp only [pass] at h
    split_ifs at h
    obtain rfl := Option.some.inj h
    exact Iff.rfl

end Pass

/-! ### Who is in which section -/

omit [DecidableEq κ] in
/-- Where no party is inside, the start is consistent. -/
theorem consistent_start {env : γ} {parties : List π} (h : ∀ p ∈ parties, S.inside p = none) :
    Consistent S (start env parties : Locks π γ κ) := by
  intro i k
  refine iff_of_false (by simp [start]) ?_
  rintro ⟨p, h_p, h_in⟩
  rw [h p (List.mem_of_getElem? h_p)] at h_in
  cases h_in

/-- A step keeps the locks with those who are inside. -/
theorem Consistent.step {x : LockAction α β} (h : Consistent S w)
    (h_step : Locks.step S w x = some v) : Consistent S v := by
  cases x with
  | env b =>
    obtain ⟨e, -, rfl⟩ := step_env.mp h_step
    exact h
  | party i a =>
    obtain ⟨p, q, held, h_p, -, h_pass, rfl⟩ := step_party.mp h_step
    have h_from : ∀ k, w.held k = some i ↔ S.inside p = some k := by
      intro k
      rw [h i k]
      refine ⟨?_, fun h_in => ⟨p, h_p, h_in⟩⟩
      rintro ⟨p', h_p', h_in⟩
      rwa [Option.some.inj (h_p.symm.trans h_p')]
    intro j k
    rcases eq_or_ne j i with rfl | h_ne
    · -- the party that has gone on
      have h_q : (w.parties.set j q)[j]? = some q := by
        rw [List.getElem?_set_self (List.getElem?_eq_some_iff.mp h_p).1]
      simp only [pass_self h_from h_pass k, h_q, Option.some.injEq, exists_eq_left']
    · -- another party
      rw [show held k = some j ↔ w.held k = some j from pass_other h_from h_pass h_ne k, h j k]
      simp only [List.getElem?_set_ne h_ne.symm]

theorem consistent_run {as : List (LockAction α β)} (h : Consistent S w)
    (h_run : runSteps (Locks.step S) w as = some v) : Consistent S v :=
  runSteps_invariant h (fun _ _ _ h_s h_step => h_s.step h_step) h_run

omit [DecidableEq κ] in
/-- **Mutual exclusion.** -/
theorem Consistent.exclusive (h : Consistent S w) {i j : ℕ} {p q : π} {k : κ}
    (h_p : w.parties[i]? = some p) (h_q : w.parties[j]? = some q) (h_i : S.inside p = some k)
    (h_j : S.inside q = some k) : i = j :=
  Option.some.inj (((h i k).mpr ⟨p, h_p, h_i⟩).symm.trans ((h j k).mpr ⟨q, h_q, h_j⟩))

/-! ### What a party keeps -/

section Invariant

variable {I : γ → π → Prop}
  (h_party : ∀ e p a q, I e p → S.party e p a = some q → I e q)
  (h_env : ∀ e p b e', I e p → S.env e b = some e' → I e' p)

include h_party h_env

/-- What holds of a party and of the environment goes on to hold through any step. -/
theorem step_invariant_at {x : LockAction α β} (h : ∀ p ∈ w.parties[i]?, I w.env p)
    (h_step : step S w x = some v) : ∀ p ∈ v.parties[i]?, I v.env p := by
  cases x with
  | env b =>
    obtain ⟨e, h_e, rfl⟩ := step_env.mp h_step
    exact fun p h_p => h_env _ _ _ _ (h p h_p) h_e
  | party j a =>
    obtain ⟨p, q, held, h_p, h_q, -, rfl⟩ := step_party.mp h_step
    intro p' h_p'
    -- the party that moved, or another one
    rcases eq_or_ne i j with rfl | h_ne
    · rw [List.getElem?_set_self (List.getElem?_eq_some_iff.mp h_p).1] at h_p'
      obtain rfl := Option.some.inj h_p'
      exact h_party _ _ _ _ (h p h_p) h_q
    · rw [List.getElem?_set_ne h_ne.symm] at h_p'
      exact h p' h_p'

/-- **The rule for one party.** -/
theorem run_invariant_at {as : List (LockAction α β)} (h : ∀ p ∈ w.parties[i]?, I w.env p)
    (h_run : runSteps (step S) w as = some v) : ∀ p ∈ v.parties[i]?, I v.env p :=
  runSteps_invariant (I := fun w => ∀ p ∈ w.parties[i]?, I w.env p) h
    (fun _ _ _ h_s h_step => step_invariant_at h_party h_env h_s h_step) h_run

/-- **The rule for all parties.** -/
theorem run_invariant {as : List (LockAction α β)} (h : ∀ p ∈ w.parties, I w.env p)
    (h_run : runSteps (step S) w as = some v) : ∀ p ∈ v.parties, I v.env p := by
  intro p h_p
  obtain ⟨i, h_i⟩ := List.mem_iff_getElem?.mp h_p
  exact run_invariant_at h_party h_env (i := i)
    (fun q h_q => h q (List.mem_of_getElem? h_q)) h_run p h_i

end Invariant

/-! ### Where nobody can go on -/

/-- No party can take one of the steps `A`. -/
def Stuck (S : LockSystem π γ α β κ) (A : α → Prop) (w : Locks π γ κ) : Prop :=
  ∀ i a, A a → step S w (.party i a) = none

section Stuck

variable {A : α → Prop} (h_stuck : Stuck S A w)
  (h_leave : ∀ p ∈ w.parties, ∀ k, S.inside p = some k → ∃ a q, A a ∧
    S.party w.env p a = some q ∧ (S.inside q = none ∨ S.inside q = some k))

include h_stuck h_leave

/-- Where nobody can go on, nobody is in a section. -/
theorem Stuck.outside : ∀ p ∈ w.parties, S.inside p = none := by
  intro p h_p
  by_contra h_in
  obtain ⟨k, h_k⟩ := Option.ne_none_iff_exists'.mp h_in
  obtain ⟨i, h_i⟩ := List.mem_iff_getElem?.mp h_p
  obtain ⟨a, q, h_a, h_q, h_next⟩ := h_leave p h_p k h_k
  -- leaving a section is never refused
  obtain ⟨held, h_held⟩ : ∃ held, pass w.held i (S.inside p) (S.inside q) = some held := by
    rcases h_next with h_next | h_next
    · exact ⟨_, by rw [h_k, h_next]; rfl⟩
    · exact ⟨_, by rw [h_k, h_next, pass, if_pos rfl]⟩
  -- so it could move, but nothing can
  have h_step := step_party.mpr ⟨p, q, held, h_i, h_q, h_held, rfl⟩
  rw [h_stuck i a h_a] at h_step
  cases h_step

/-- In a stuck state no lock is held. -/
theorem Stuck.free (h : Consistent S w) (k : κ) : w.held k = none := by
  by_contra h_held
  obtain ⟨i, h_i⟩ := Option.ne_none_iff_exists'.mp h_held
  obtain ⟨p, h_p, h_k⟩ := (h i k).mp h_i
  rw [h_stuck.outside h_leave p (List.mem_of_getElem? h_p)] at h_k
  cases h_k

/-- **No deadlock**: where nobody can go on, no party could go on if it were alone. -/
theorem Stuck.party_eq_none (h : Consistent S w) {p : π} (h_p : p ∈ w.parties) {a : α}
    (h_a : A a) : S.party w.env p a = none := by
  by_contra h_some
  obtain ⟨q, h_q⟩ := Option.ne_none_iff_exists'.mp h_some
  obtain ⟨i, h_i⟩ := List.mem_iff_getElem?.mp h_p
  have h_out := h_stuck.outside h_leave p h_p
  -- it enters a section whose lock is free, or none
  obtain ⟨held, h_held⟩ : ∃ held, pass w.held i (S.inside p) (S.inside q) = some held := by
    rw [h_out]
    cases S.inside q with
    | none => exact ⟨_, rfl⟩
    | some k => exact ⟨_, by rw [pass, if_pos (h_stuck.free h_leave h k)]⟩
  -- so it could move, but nothing can
  have h_step := step_party.mpr ⟨p, q, held, h_i, h_q, h_held, rfl⟩
  rw [h_stuck i a h_a] at h_step
  cases h_step

end Stuck

end Locks
end Lib
