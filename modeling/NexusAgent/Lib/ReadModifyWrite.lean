import Mathlib.Data.List.Perm.Basic
import Mathlib.Tactic.Common
import NexusAgent.Lib.Steps

/-!
# Read, modify, write

`n` clients share a value. Each of them reads it, and later writes back what its update
makes of the value it read; reads and writes of different clients interleave in any order.

* `Cell`: the shared value behind its two operations, `Cell.Lawful`: that they behave like
  those of a variable.
* `Cell.Sound`: the invariant of the interleavings.
* `Cell.kept_iff`: all updates are kept, if and only if no write falls between the read and
  the write of another client.
-/

namespace Lib

variable {σ ν : Type}

/-- A shared value: what a read returns, what it leaves behind, what a write does, and what
the `i`-th client makes of the value it read. -/
structure Cell (σ ν : Type) where
  read : σ → Option ν
  afterRead : σ → σ
  write : σ → ν → σ
  update : ℕ → ν → ν

/-- The operations are those of a variable: `Holds s v` says that `v` is its value. -/
structure Cell.Lawful (c : Cell σ ν) (Holds : σ → ν → Prop) : Prop where
  read_eq : ∀ {s v}, Holds s v → c.read s = some v
  afterRead : ∀ {s v}, Holds s v → Holds (c.afterRead s) v
  write : ∀ {s s' v w} (i : ℕ), Holds s w → Holds s' v → Holds (c.write s (c.update i v)) (c.update i v)

/-- Where a client stands; `seen` counts the writes there had been when it read. -/
inductive Client (ν : Type)
  | todo
  | holding (v : ν) (seen : ℕ)
  | done
  deriving DecidableEq, Repr

/-- The shared state, the clients, and those that have written, in the order they did. -/
structure Sharing (σ ν : Type) where
  store : σ
  clients : List (Client ν)
  writes : List ℕ := []
  deriving DecidableEq, Repr

/-- An operation of a client. -/
inductive Access
  | read (i : ℕ)
  | write (i : ℕ)
  deriving DecidableEq, Repr

/-- `n` clients that have not begun. -/
def Sharing.start (s : σ) (n : ℕ) : Sharing σ ν := { store := s, clients := List.replicate n .todo }

/-- All clients are done. -/
def Sharing.Over (s : Sharing σ ν) : Prop := ∀ client ∈ s.clients, client = .done

/-- What a client holds after a read: one that finds nothing is done. -/
def Cell.client (c : Cell σ ν) (s : Sharing σ ν) : Client ν :=
  match c.read s.store with
  | some v => .holding v s.writes.length
  | none => .done

/-- One operation of a client, if it is its turn. -/
def Cell.step (c : Cell σ ν) (s : Sharing σ ν) : Access → Option (Sharing σ ν)
  | .read i =>
    match s.clients[i]? with
    | some .todo =>
      some { s with store := c.afterRead s.store, clients := s.clients.set i (c.client s) }
    | _ => none
  | .write i =>
    match s.clients[i]? with
    | some (.holding v _) =>
      some { store := c.write s.store (c.update i v), clients := s.clients.set i .done,
             writes := s.writes ++ [i] }
    | _ => none

/-- The writes a client had seen when it read what it holds. -/
def Sharing.seen? (s : Sharing σ ν) (i : ℕ) : Option ℕ :=
  match s.clients[i]? with
  | some (.holding _ seen) => some seen
  | _ => none

/-- A write that nobody else's write came before, since the client read. -/
def Sharing.Fresh (s : Sharing σ ν) : Access → Prop
  | .read _ => True
  | .write i => ∀ seen ∈ s.seen? i, seen = s.writes.length

instance (s : Sharing σ ν) (a : Access) : Decidable (s.Fresh a) := by
  cases a <;> unfold Sharing.Fresh <;> infer_instance

namespace Cell

variable {c : Cell σ ν} {Holds : σ → ν → Prop} {rank : ν → ℕ} {v₀ : ν} {n : ℕ}

/-! ### One operation -/

/-- A read is the client's first step. -/
theorem step_read {s t : Sharing σ ν} {i : ℕ} (h : c.step s (.read i) = some t) :
    s.clients[i]? = some .todo ∧
      t = { s with store := c.afterRead s.store, clients := s.clients.set i (c.client s) } := by
  simp only [step] at h
  split at h
  · next h_i => exact ⟨h_i, (Option.some.inj h).symm⟩
  · cases h

/-- A client writes what it made of the value that it holds. -/
theorem step_write {s t : Sharing σ ν} {i : ℕ} (h : c.step s (.write i) = some t) :
    ∃ v seen, s.clients[i]? = some (.holding v seen) ∧
      t = { store := c.write s.store (c.update i v), clients := s.clients.set i .done,
            writes := s.writes ++ [i] } := by
  simp only [step] at h
  split at h
  · next v seen h_i => exact ⟨v, seen, h_i, (Option.some.inj h).symm⟩
  · cases h

/-! ### The invariant -/

/-- What a client holds: a value that was once there, not above the writes it has seen, and
the value that is there now if it has seen them all. -/
structure Held (Holds : σ → ν → Prop) (rank : ν → ℕ) (v₀ : ν) (writes : ℕ) (w v : ν) (seen : ℕ) :
    Prop where
  once : ∃ s, Holds s v
  seen_le : seen ≤ writes
  rank_le : rank v ≤ rank v₀ + seen
  eq_of_fresh : seen = writes → v = w

/-- The invariant of a sharing whose value is `w`. Every update adds one to the rank, so the
rank counts the updates in the value. -/
structure Sound (Holds : σ → ν → Prop) (rank : ν → ℕ) (v₀ : ν) (n : ℕ) (s : Sharing σ ν) (w : ν) :
    Prop where
  holds : Holds s.store w
  rank_le : rank w ≤ rank v₀ + s.writes.length
  held : ∀ (i : ℕ) (v : ν) (seen : ℕ), s.clients[i]? = some (Client.holding v seen) →
    Held Holds rank v₀ s.writes.length w v seen
  count : s.clients.length = n
  nodup : s.writes.Nodup
  wrote : ∀ i : ℕ, i ∈ s.writes ↔ s.clients[i]? = some Client.done

/-- At the start no client holds a value, and none has written. -/
theorem sound_start {s : σ} (h : Holds s v₀) : Sound Holds rank v₀ n (.start s n) v₀ where
  holds := h
  rank_le := Nat.le_refl _
  held i v seen h_i := by
    have h_i : (List.replicate n Client.todo)[i]? = some (.holding v seen) := h_i
    rw [List.getElem?_replicate] at h_i
    split at h_i <;> cases h_i
  count := List.length_replicate
  nodup := List.nodup_nil
  wrote i := by
    show i ∈ [] ↔ (List.replicate n Client.todo)[i]? = some .done
    rw [List.getElem?_replicate]
    constructor
    · -- nothing is written, and no client is done
      intro h_i
      cases h_i
    · intro h_i
      split at h_i <;> cases h_i

/-- A read keeps the value. -/
theorem Sound.read (h_law : c.Lawful Holds) {s t : Sharing σ ν} {w : ν} {i : ℕ}
    (h : Sound Holds rank v₀ n s w) (h_step : c.step s (.read i) = some t) :
    Sound Holds rank v₀ n t w ∧ t.writes = s.writes := by
  obtain ⟨h_i, rfl⟩ := step_read h_step
  -- the reader takes the newest value, and has seen all the writes
  have h_client : c.client s = .holding w s.writes.length := by
    unfold client
    rw [h_law.read_eq h.holds]
  have h_lt : i < s.clients.length := (List.getElem?_eq_some_iff.mp h_i).1
  refine ⟨⟨h_law.afterRead h.holds, h.rank_le, fun j v seen h_j => ?_, ?_, h.nodup, fun j => ?_⟩, rfl⟩
  · have h_j : (s.clients.set i (c.client s))[j]? = some (.holding v seen) := h_j
    by_cases h_ij : i = j
    · subst h_ij
      rw [List.getElem?_set_self h_lt, h_client] at h_j
      obtain ⟨rfl, rfl⟩ := Client.holding.inj (Option.some.inj h_j)
      exact ⟨⟨s.store, h.holds⟩, Nat.le_refl _, h.rank_le, fun _ => rfl⟩
    · rw [List.getElem?_set_ne h_ij] at h_j
      exact h.held j v seen h_j
  · show (s.clients.set i _).length = n
    rw [List.length_set]
    exact h.count
  · show j ∈ s.writes ↔ (s.clients.set i (c.client s))[j]? = some .done
    by_cases h_ij : i = j
    · subst h_ij
      rw [List.getElem?_set_self h_lt, h_client, h.wrote, h_i]
      simp
    · rw [List.getElem?_set_ne h_ij]
      exact h.wrote j

/-- A write makes the client's update of what it read the value. -/
theorem Sound.write (h_law : c.Lawful Holds)
    (h_rank : ∀ i < n, ∀ v, rank (c.update i v) = rank v + 1) {s t : Sharing σ ν} {w : ν} {i : ℕ}
    (h : Sound Holds rank v₀ n s w) (h_step : c.step s (.write i) = some t) :
    ∃ v seen, s.clients[i]? = some (.holding v seen) ∧ t.writes = s.writes ++ [i] ∧
      Sound Holds rank v₀ n t (c.update i v) := by
  obtain ⟨v, seen, h_i, rfl⟩ := step_write h_step
  have h_held := h.held i v seen h_i
  obtain ⟨s', h_s'⟩ := h_held.once
  have h_lt : i < s.clients.length := (List.getElem?_eq_some_iff.mp h_i).1
  have h_rank_v := h_rank i (h.count ▸ h_lt) v
  have h_le := h_held.rank_le
  have h_seen := h_held.seen_le
  have h_new : i ∉ s.writes := by
    rw [h.wrote, h_i]
    simp
  refine ⟨v, seen, h_i, rfl, h_law.write i h.holds h_s', ?_, fun j u seen' h_j => ?_, ?_, ?_, fun j => ?_⟩
  · show rank (c.update i v) ≤ rank v₀ + (s.writes ++ [i]).length
    rw [List.length_append, List.length_singleton]
    omega
  · have h_j : (s.clients.set i .done)[j]? = some (.holding u seen') := h_j
    by_cases h_ij : i = j
    · subst h_ij
      rw [List.getElem?_set_self h_lt] at h_j
      cases h_j
    · -- whoever still holds a value has not seen this write
      rw [List.getElem?_set_ne h_ij] at h_j
      have h_u := h.held j u seen' h_j
      have h_u_seen := h_u.seen_le
      refine ⟨h_u.once, ?_, h_u.rank_le, fun h_eq => ?_⟩
      · show seen' ≤ (s.writes ++ [i]).length
        rw [List.length_append]
        omega
      · have h_eq : seen' = (s.writes ++ [i]).length := h_eq
        rw [List.length_append, List.length_singleton] at h_eq
        omega
  · show (s.clients.set i _).length = n
    rw [List.length_set]
    exact h.count
  · show (s.writes ++ [i]).Nodup
    rw [List.nodup_append]
    refine ⟨h.nodup, by simp, fun j h_j k h_k h_eq => ?_⟩
    obtain rfl := List.mem_singleton.mp h_k
    exact h_new (h_eq ▸ h_j)
  · show j ∈ s.writes ++ [i] ↔ (s.clients.set i Client.done)[j]? = some .done
    rw [List.mem_append, List.mem_singleton, h.wrote]
    by_cases h_ij : i = j
    · subst h_ij
      rw [List.getElem?_set_self h_lt]
      simp
    · rw [List.getElem?_set_ne h_ij]
      simp [Ne.symm h_ij]

/-! ### Whole runs -/

/-- What a run has made of the value: all updates in the order of the writes when every write
was fresh, and fewer of them otherwise. -/
structure Traced (c : Cell σ ν) (rank : ν → ℕ) (v₀ : ν) (s : Sharing σ ν) (w : ν) (fresh : Prop) :
    Prop where
  all : fresh → w = s.writes.foldl (fun v i => c.update i v) v₀
  lost : ¬ fresh → rank w < rank v₀ + s.writes.length

/-- **The invariant of a run.** -/
theorem sound_run (h_law : c.Lawful Holds)
    (h_rank : ∀ i < n, ∀ v, rank (c.update i v) = rank v + 1) {s₀ : σ} (h₀ : Holds s₀ v₀)
    {accesses : List Access} {s : Sharing σ ν}
    (h_run : runSteps c.step (.start s₀ n) accesses = some s) :
    ∃ w, Sound Holds rank v₀ n s w ∧
      Traced c rank v₀ s w (EachStep c.step Sharing.Fresh (.start s₀ n) accesses) := by
  refine runSteps_history (I := fun as s => ∃ w, Sound Holds rank v₀ n s w ∧
    Traced c rank v₀ s w (EachStep c.step Sharing.Fresh (.start s₀ n) as)) ?_ ?_ h_run
  · exact ⟨v₀, sound_start h₀, fun _ => rfl, fun h => absurd trivial h⟩
  · rintro as s a t h_as ⟨w, h_sound, h_all, h_lost⟩ h_step
    -- the run is fresh so far and at its last operation
    have h_fresh : EachStep c.step Sharing.Fresh (.start s₀ n) (as ++ [a]) ↔
        EachStep c.step Sharing.Fresh (.start s₀ n) as ∧ s.Fresh a := by
      rw [eachStep_append, h_as]
      simp [EachStep]
    cases a with
    | read i =>
      obtain ⟨h_sound', h_writes⟩ := h_sound.read h_law h_step
      have h_same : EachStep c.step Sharing.Fresh (.start s₀ n) (as ++ [.read i]) ↔
          EachStep c.step Sharing.Fresh (.start s₀ n) as := h_fresh.trans (and_iff_left trivial)
      refine ⟨w, h_sound', ?_, ?_⟩
      · rw [h_same, h_writes]
        exact h_all
      · rw [h_same, h_writes]
        exact h_lost
    | write i =>
      obtain ⟨v, seen, h_i, h_writes, h_sound'⟩ := h_sound.write h_law h_rank h_step
      have h_held := h_sound.held i v seen h_i
      have h_lt : i < n := h_sound.count ▸ (List.getElem?_eq_some_iff.mp h_i).1
      have h_rank_v := h_rank i h_lt v
      have h_le := h_held.rank_le
      have h_seen := h_held.seen_le
      have h_i_fresh : s.Fresh (.write i) ↔ seen = s.writes.length := by
        unfold Sharing.Fresh Sharing.seen?
        simp [h_i]
      rw [h_i_fresh] at h_fresh
      refine ⟨c.update i v, h_sound', fun h_each => ?_, fun h_not => ?_⟩
      · obtain ⟨h_as_fresh, h_eq⟩ := h_fresh.mp h_each
        rw [h_writes, List.foldl_append, ← h_all h_as_fresh, h_held.eq_of_fresh h_eq]
        rfl
      · rw [h_writes, List.length_append, List.length_singleton]
        by_cases h_eq : seen = s.writes.length
        · -- the client saw the value there is, and that lacks an update
          have h_w := h_held.eq_of_fresh h_eq
          have h_less := h_lost fun h_as_fresh => h_not (h_fresh.mpr ⟨h_as_fresh, h_eq⟩)
          rw [← h_w] at h_less
          omega
        · omega

/-- The writes of a run that is over are those of all clients. -/
theorem Sound.perm {s : Sharing σ ν} {w : ν} (h : Sound Holds rank v₀ n s w) (h_over : s.Over) :
    s.writes.Perm (List.range n) := by
  rw [List.perm_ext_iff_of_nodup h.nodup List.nodup_range]
  intro i
  rw [h.wrote, List.mem_range, ← h.count]
  constructor
  · intro h_i
    exact (List.getElem?_eq_some_iff.mp h_i).1
  · intro h_i
    rw [List.getElem?_eq_getElem h_i]
    exact congrArg some (h_over _ (List.getElem_mem h_i))

/-- **All updates are kept, if and only if every write was fresh.** The value at the end is
then that of the updates one after the other. -/
theorem kept_iff (rank : ν → ℕ) (h_law : c.Lawful Holds)
    (h_rank : ∀ i < n, ∀ v, rank (c.update i v) = rank v + 1) {s₀ : σ} (h₀ : Holds s₀ v₀)
    {accesses : List Access} {s : Sharing σ ν}
    (h_run : runSteps c.step (.start s₀ n) accesses = some s) (h_over : s.Over) :
    ∃ w, Holds s.store w ∧
      (EachStep c.step Sharing.Fresh (.start s₀ n) accesses → ∃ order : List ℕ,
        order.Perm (List.range n) ∧ w = order.foldl (fun v i => c.update i v) v₀) ∧
      (¬ EachStep c.step Sharing.Fresh (.start s₀ n) accesses → rank w < rank v₀ + n) := by
  obtain ⟨w, h_sound, h_all, h_lost⟩ := sound_run h_law h_rank h₀ h_run
  -- all have written by then
  have h_perm := h_sound.perm h_over
  refine ⟨w, h_sound.holds, fun h => ⟨s.writes, h_perm, h_all h⟩, fun h => ?_⟩
  -- as many writes as clients
  have h_less := h_lost h
  rw [h_perm.length_eq, List.length_range] at h_less
  exact h_less

end Cell
end Lib
