import Mathlib.Data.List.Nodup
import Mathlib.Order.Defs.LinearOrder
import Mathlib.Order.Nat
import NexusAgent.Lib.Steps

/-!
# The event emitter

`NexusEventEmitter` of `nexus/events/emitter.py`. An emission awaits the sinks one by one, with an
iterator over the emitter's own list, and while it waits sinks can be registered and unregistered
and other emissions can begin. The iterator is a position in the list, so a sink that is
unregistered behind it moves the sinks that are still to come one place back, and the next one is
passed over.

* `emission_served_iff`: a sink that stays registered is given the event exactly once, unless one
  of the sinks before it is unregistered while it is the next.
* `emission_complete`: where that happens to no sink, the sinks given the event are those that are
  registered at the end, in their order.
-/

open Lib

namespace Nexus.Events

/-- How far an emission is. -/
inductive Progress
  | running
  | finished
  /-- A sink raised something that is no `Exception`. -/
  | cancelled
  deriving DecidableEq

/-- One call of `emit`: the place of its iterator, and the sinks it has awaited. -/
structure Emission (κ ν : Type) where
  event : ν
  index : ℕ := 0
  served : List κ := []
  progress : Progress := .running
  deriving DecidableEq

/-- `NexusEventEmitter`, with the emissions that have begun. -/
structure NexusEventEmitter (κ ν : Type) where
  sinks : List κ := []
  emissions : List (Emission κ ν) := []
  deriving DecidableEq

/-- What happens to an emitter between two suspensions. -/
inductive EmitterAction (κ ν : Type)
  | register (sink : κ)
  | unregister (sink : κ)
  | emit (event : ν)
  /-- The emission goes on to its next sink, or ends. -/
  | next (j : ℕ)
  | cancel (j : ℕ)
  deriving DecidableEq

variable {κ ν : Type} [DecidableEq κ]

/-- `register_sink`. -/
def NexusEventEmitter.registerSink (e : NexusEventEmitter κ ν) (sink : κ) :
    NexusEventEmitter κ ν :=
  if sink ∈ e.sinks then e else { e with sinks := e.sinks ++ [sink] }

/-- `unregister_sink`. -/
def NexusEventEmitter.unregisterSink (e : NexusEventEmitter κ ν) (sink : κ) :
    NexusEventEmitter κ ν :=
  if sink ∈ e.sinks then { e with sinks := e.sinks.erase sink } else e

/-- The loop of `emit` from one `await` to the next: an exception of the sink is logged. -/
def Emission.next (sinks : List κ) (m : Emission κ ν) : Emission κ ν :=
  match sinks[m.index]? with
  | some sink => { m with index := m.index + 1, served := m.served ++ [sink] }
  | none => { m with progress := .finished }

/-- One action. -/
def NexusEventEmitter.step (e : NexusEventEmitter κ ν) :
    EmitterAction κ ν → Option (NexusEventEmitter κ ν)
  | .register sink => some (e.registerSink sink)
  | .unregister sink => some (e.unregisterSink sink)
  | .emit event => some { e with emissions := e.emissions ++ [{ event := event }] }
  | .next j =>
    match e.emissions[j]? with
    | some m =>
      -- an emission reads the list of sinks again for each of them
      if m.progress = .running then some { e with emissions := e.emissions.set j (m.next e.sinks) }
      else none
    | none => none
  | .cancel j =>
    match e.emissions[j]? with
    | some m =>
      if m.progress = .running then
        some { e with emissions := e.emissions.set j { m with progress := .cancelled } }
      else none
    | none => none

/-- The action passes a sink over: it unregisters a sink that emission `j` has been at, while the
sink is the next of that emission. -/
def NexusEventEmitter.Skips (e : NexusEventEmitter κ ν) (j : ℕ) (x : κ) :
    EmitterAction κ ν → Prop
  | .unregister y => ∃ m ∈ e.emissions[j]?, m.progress = .running ∧
      e.sinks.idxOf x = m.index ∧ y ∈ e.sinks.take m.index
  | _ => False

instance (e : NexusEventEmitter κ ν) (j : ℕ) (x : κ) (a : EmitterAction κ ν) :
    Decidable (e.Skips j x a) := by
  cases a <;> unfold NexusEventEmitter.Skips <;> infer_instance

/-! ### Places in the list of sinks -/

/-- Erasing moves what comes behind the erased entry one place back, and nothing else. -/
theorem idxOf_erase {x y : κ} {xs : List κ} (h_x : x ∈ xs) (h_ne : x ≠ y) :
    (xs.erase y).idxOf x = if xs.idxOf y < xs.idxOf x then xs.idxOf x - 1 else xs.idxOf x := by
  induction xs with
  | nil => cases h_x
  | cons z zs ih =>
    rcases eq_or_ne z y with rfl | h_zy
    · -- the erased one comes first: all others move up by one
      rw [List.erase_cons_head, List.idxOf_cons_self, List.idxOf_cons_ne _ h_ne.symm]
      simp
    · -- otherwise the head stays, and the rest is as in the shorter list
      rw [List.erase_cons_tail (by simpa using h_zy)]
      rcases eq_or_ne z x with rfl | h_zx
      · simp
      · have h_x : x ∈ zs := (List.mem_cons.mp h_x).resolve_left h_zx.symm
        rw [List.idxOf_cons_ne _ h_zx, List.idxOf_cons_ne _ h_zx, List.idxOf_cons_ne _ h_zy,
          ih h_x]
        split_ifs <;> omega

/-- The first `n` elements are those that first occur below `n`. -/
theorem mem_take_iff_idxOf {y : κ} {xs : List κ} (n : ℕ) :
    y ∈ xs.take n ↔ y ∈ xs ∧ xs.idxOf y < n := by
  induction xs generalizing n with
  | nil => simp
  | cons z zs ih =>
    cases n with
    | zero => simp
    | succ n =>
      rcases eq_or_ne z y with rfl | h_ne
      · simp
      · rw [List.take_succ_cons, List.mem_cons, List.mem_cons, ih, List.idxOf_cons_ne _ h_ne]
        simp [h_ne.symm]

/-! ### One action -/

namespace NexusEventEmitter

variable {e f : NexusEventEmitter κ ν} {a : EmitterAction κ ν} {as : List (EmitterAction κ ν)}
  {j : ℕ} {m : Emission κ ν} {x : κ}

/-- A step hands the event to the sink that the emission comes to in the present list. -/
theorem step_next {i : ℕ} :
    e.step (.next i) = some f ↔ ∃ m, e.emissions[i]? = some m ∧ m.progress = .running ∧
      f = { e with emissions := e.emissions.set i (m.next e.sinks) } := by
  simp only [step]
  split
  · next m h_i =>
    simp only [h_i, Option.some.injEq, exists_eq_left', Option.ite_none_right_eq_some]
    exact and_congr_right fun _ => eq_comm
  · next h_i => simp [h_i]

/-- A cancellation leaves the emission where it is. -/
theorem step_cancel {i : ℕ} :
    e.step (.cancel i) = some f ↔ ∃ m, e.emissions[i]? = some m ∧ m.progress = .running ∧
      f = { e with emissions := e.emissions.set i { m with progress := .cancelled } } := by
  simp only [step]
  split
  · next m h_i =>
    simp only [h_i, Option.some.injEq, exists_eq_left', Option.ite_none_right_eq_some]
    exact and_congr_right fun _ => eq_comm
  · next h_i => simp [h_i]

/-- No sink is registered twice. -/
theorem nodup_step (h : e.sinks.Nodup) (h_step : e.step a = some f) : f.sinks.Nodup := by
  cases a with
  | register sink =>
    obtain rfl := Option.some.inj h_step
    unfold registerSink
    split_ifs with h_sink
    · exact h
    · -- registering looks first, so no sink comes twice
      exact List.nodup_append.mpr ⟨h, List.nodup_singleton _, by
        rintro y h_y z h_z rfl
        exact h_sink (List.mem_singleton.mp h_z ▸ h_y)⟩
  | unregister sink =>
    obtain rfl := Option.some.inj h_step
    unfold unregisterSink
    split_ifs
    · exact h.erase sink
    · exact h
  | emit event =>
    obtain rfl := Option.some.inj h_step
    exact h
  | next i =>
    obtain ⟨-, -, -, rfl⟩ := step_next.mp h_step
    exact h
  | cancel i =>
    obtain ⟨-, -, -, rfl⟩ := step_cancel.mp h_step
    exact h

/-- No sink is registered twice. -/
theorem nodup_run (h_run : runSteps step {} as = some e) : e.sinks.Nodup :=
  runSteps_invariant (I := fun e : NexusEventEmitter κ ν => e.sinks.Nodup) List.nodup_nil
    (fun _ _ _ h_s h_step => nodup_step h_s h_step) h_run

/-- What an action does to one emission and to the place of a sink that stays. -/
inductive Effect (e f : NexusEventEmitter κ ν) (a : EmitterAction κ ν) (x : κ)
    (m : Emission κ ν) : Emission κ ν → Prop
  | none (h_place : f.sinks.idxOf x = e.sinks.idxOf x)
      (h_not : ∀ y, a = .unregister y → y ∈ e.sinks → e.sinks.idxOf x ≤ e.sinks.idxOf y) :
      Effect e f a x m m
  | back (y : κ) (h_a : a = .unregister y) (h_y : y ∈ e.sinks)
      (h_before : e.sinks.idxOf y < e.sinks.idxOf x)
      (h_place : f.sinks.idxOf x = e.sinks.idxOf x - 1) : Effect e f a x m m
  | next (h_running : m.progress = .running) (h_a : ∀ y, a ≠ .unregister y)
      (h_sinks : f.sinks = e.sinks) : Effect e f a x m (m.next e.sinks)
  | cancel (h_running : m.progress = .running) (h_sinks : f.sinks = e.sinks) :
      Effect e f a x m { m with progress := .cancelled }

/-- What a step does to an emission and to a sink that stays registered. -/
theorem step_effect (h_step : e.step a = some f) (h_m : e.emissions[j]? = some m)
    (h_x : x ∈ e.sinks) (h_stays : a ≠ .unregister x) :
    x ∈ f.sinks ∧ ∃ m', f.emissions[j]? = some m' ∧ Effect e f a x m m' := by
  cases a with
  | register sink =>
    obtain rfl := Option.some.inj h_step
    unfold registerSink
    split_ifs with h_sink
    · exact ⟨h_x, m, h_m, .none rfl nofun⟩
    · -- a new sink comes last, so the place of `x` stays
      refine ⟨List.mem_append_left _ h_x, m, h_m, .none ?_ nofun⟩
      exact List.idxOf_append_of_mem h_x
  | unregister y =>
    obtain rfl := Option.some.inj h_step
    have h_ne : x ≠ y := fun h => h_stays (h ▸ rfl)
    unfold unregisterSink
    split_ifs with h_y
    · refine ⟨(List.mem_erase_of_ne h_ne).mpr h_x, m, h_m, ?_⟩
      -- a sink that leaves before `x` moves `x` up by one
      have h_place := idxOf_erase h_x h_ne
      split_ifs at h_place with h_before
      · exact .back y rfl h_y h_before h_place
      · refine .none h_place fun z h_z _ => ?_
        obtain rfl := EmitterAction.unregister.inj h_z
        exact Nat.le_of_not_lt h_before
    · refine ⟨h_x, m, h_m, .none rfl fun z h_z h_mem => ?_⟩
      exact absurd (EmitterAction.unregister.inj h_z ▸ h_mem) h_y
  | emit event =>
    obtain rfl := Option.some.inj h_step
    refine ⟨h_x, m, ?_, .none rfl nofun⟩
    show (e.emissions ++ [{ event := event }])[j]? = some m
    rw [List.getElem?_append_left (List.getElem?_eq_some_iff.mp h_m).1, h_m]
  | next i =>
    obtain ⟨n, h_n, h_running, rfl⟩ := step_next.mp h_step
    refine ⟨h_x, ?_⟩
    -- a step of another emission leaves this one alone
    rcases eq_or_ne i j with rfl | h_ij
    · obtain rfl := Option.some.inj (h_n.symm.trans h_m)
      refine ⟨_, List.getElem?_set_self (List.getElem?_eq_some_iff.mp h_m).1, ?_⟩
      exact .next h_running nofun rfl
    · exact ⟨m, (List.getElem?_set_ne h_ij).trans h_m, .none rfl nofun⟩
  | cancel i =>
    obtain ⟨n, h_n, h_running, rfl⟩ := step_cancel.mp h_step
    refine ⟨h_x, ?_⟩
    rcases eq_or_ne i j with rfl | h_ij
    · obtain rfl := Option.some.inj (h_n.symm.trans h_m)
      exact ⟨_, List.getElem?_set_self (List.getElem?_eq_some_iff.mp h_m).1, .cancel h_running rfl⟩
    · exact ⟨m, (List.getElem?_set_ne h_ij).trans h_m, .none rfl nofun⟩

/-! ### One emission and one sink -/

/-- A sink that has been given the event is given it no more. -/
theorem given_run {w : NexusEventEmitter κ ν} (h_run : runSteps step e as = some w)
    (h_nodup : e.sinks.Nodup) (h_x : x ∈ e.sinks) (h_stays : .unregister x ∉ as)
    (h_m : e.emissions[j]? = some m) (h_place : e.sinks.idxOf x < m.index) :
    EachStep step (fun e a => ¬e.Skips j x a) e as ∧
      ∃ m', w.emissions[j]? = some m' ∧ m'.served.count x = m.served.count x := by
  induction as generalizing e m with
  | nil =>
    obtain rfl := Option.some.inj h_run
    exact ⟨trivial, m, h_m, rfl⟩
  | cons a as ih =>
    obtain ⟨f, h_step, h_rest⟩ := runSteps_cons_eq_some.mp h_run
    rw [List.mem_cons, not_or] at h_stays
    obtain ⟨h_x', m', h_m', h_effect⟩ := step_effect h_step h_m h_x (Ne.symm h_stays.1)
    have h_nodup' := nodup_step h_nodup h_step
    have h_not : ¬e.Skips j x a := by
      cases a with
      | unregister y =>
        rintro ⟨n, h_n, -, h_next, -⟩
        obtain rfl := Option.some.inj (h_m.symm.trans h_n)
        omega
      | _ => exact id
    have h_after : f.sinks.idxOf x < m'.index ∧ m'.served.count x = m.served.count x := by
      cases h_effect with
      | none h_same => exact ⟨h_same ▸ h_place, rfl⟩
      | back y _ _ _ h_back => exact ⟨by omega, rfl⟩
      | cancel _ h_sinks => exact ⟨h_sinks ▸ h_place, rfl⟩
      | next _ _ h_sinks =>
        rw [h_sinks]
        unfold Emission.next
        split
        · next sink h_sink =>
          -- the next sink stands behind this one
          have h_ne : sink ≠ x := by
            rintro rfl
            obtain ⟨h_lt, h_get⟩ := List.getElem?_eq_some_iff.mp h_sink
            rw [← h_get, h_nodup.idxOf_getElem] at h_place
            omega
          refine ⟨Nat.lt_succ_of_lt h_place, ?_⟩
          rw [List.count_append, List.count_singleton]
          simp [h_ne]
        · exact ⟨h_place, rfl⟩
    obtain ⟨h_each, n, h_n, h_count⟩ := ih h_rest h_nodup' h_x' h_stays.2 h_m' h_after.1
    refine ⟨⟨h_not, fun t h_t => ?_⟩, n, h_n, h_count.trans h_after.2⟩
    obtain rfl := Option.some.inj (h_step.symm.trans h_t)
    exact h_each

/-- An emission that is over stays as it is. -/
theorem ended_run {w : NexusEventEmitter κ ν} (h_run : runSteps step e as = some w)
    (h_m : e.emissions[j]? = some m) (h_ended : m.progress ≠ .running) :
    w.emissions[j]? = some m := by
  refine runSteps_invariant (I := fun e : NexusEventEmitter κ ν => e.emissions[j]? = some m) h_m
    (fun e a f h_m h_step => ?_) h_run
  cases a with
  | register sink =>
    obtain rfl := Option.some.inj h_step
    unfold registerSink
    split_ifs <;> exact h_m
  | unregister sink =>
    obtain rfl := Option.some.inj h_step
    unfold unregisterSink
    split_ifs <;> exact h_m
  | emit event =>
    obtain rfl := Option.some.inj h_step
    exact (List.getElem?_append_left (List.getElem?_eq_some_iff.mp h_m).1).trans h_m
  -- only a running emission goes on, and this one has ended
  | next i =>
    obtain ⟨n, h_n, h_running, rfl⟩ := step_next.mp h_step
    refine (List.getElem?_set_ne ?_).trans h_m
    rintro rfl
    exact h_ended (Option.some.inj (h_n.symm.trans h_m) ▸ h_running)
  | cancel i =>
    obtain ⟨n, h_n, h_running, rfl⟩ := step_cancel.mp h_step
    refine (List.getElem?_set_ne ?_).trans h_m
    rintro rfl
    exact h_ended (Option.some.inj (h_n.symm.trans h_m) ▸ h_running)

/-- A sink that is still to come is given the event once, unless it is passed over. -/
theorem coming_run {w : NexusEventEmitter κ ν} (h_run : runSteps step e as = some w)
    (h_nodup : e.sinks.Nodup) (h_x : x ∈ e.sinks) (h_stays : .unregister x ∉ as)
    (h_m : e.emissions[j]? = some m) (h_running : m.progress = .running)
    (h_place : m.index ≤ e.sinks.idxOf x) (h_count : m.served.count x = 0) {m' : Emission κ ν}
    (h_m' : w.emissions[j]? = some m') (h_finished : m'.progress = .finished) :
    m'.served.count x = if EachStep step (fun e a => ¬e.Skips j x a) e as then 1 else 0 := by
  induction as generalizing e m with
  | nil =>
    obtain rfl := Option.some.inj h_run
    rw [Option.some.inj (h_m.symm.trans h_m')] at h_running
    rw [h_running] at h_finished
    cases h_finished
  | cons a as ih =>
    obtain ⟨f, h_step, h_rest⟩ := runSteps_cons_eq_some.mp h_run
    rw [List.mem_cons, not_or] at h_stays
    obtain ⟨h_x', n, h_n, h_effect⟩ := step_effect h_step h_m h_x (Ne.symm h_stays.1)
    have h_nodup' := nodup_step h_nodup h_step
    -- the rest of the run decides, once this action passes nothing over
    have h_later (h_not : ¬e.Skips j x a) :
        EachStep step (fun e a => ¬e.Skips j x a) e (a :: as) ↔
          EachStep step (fun e a => ¬e.Skips j x a) f as :=
      ⟨fun h => h.2 f h_step, fun h => ⟨h_not, fun t h_t =>
        Option.some.inj (h_step.symm.trans h_t) ▸ h⟩⟩
    cases h_effect with
    | none h_same h_not =>
      rw [if_congr (h_later ?_) rfl rfl]
      · exact ih h_rest h_nodup' h_x' h_stays.2 h_n h_running (h_same ▸ h_place) h_count
      · cases a with
        | unregister y =>
          rintro ⟨k, h_k, -, h_next, h_y⟩
          obtain rfl := Option.some.inj (h_m.symm.trans h_k)
          obtain ⟨h_y, h_lt⟩ := (mem_take_iff_idxOf _).mp h_y
          have h_le := h_not y rfl h_y
          omega
        | _ => exact id
    | back y h_a h_y h_before h_back =>
      rcases Nat.eq_or_lt_of_le h_place with h_next | h_next
      · -- the sink is the next, and is passed over
        have h_skips : e.Skips j x a := by
          rw [h_a]
          exact ⟨m, h_m, h_running, h_next.symm,
            (mem_take_iff_idxOf _).mpr ⟨h_y, h_next ▸ h_before⟩⟩
        rw [if_neg fun h => h.1 h_skips]
        obtain ⟨-, n', h_n', h_same⟩ := given_run h_rest h_nodup' h_x' h_stays.2 h_n (by omega)
        rw [Option.some.inj (h_m'.symm.trans h_n'), h_same, h_count]
      · rw [if_congr (h_later ?_) rfl rfl]
        · exact ih h_rest h_nodup' h_x' h_stays.2 h_n h_running (by omega) h_count
        · rw [h_a]
          rintro ⟨k, h_k, -, h_eq, -⟩
          obtain rfl := Option.some.inj (h_m.symm.trans h_k)
          omega
    | cancel _ h_sinks =>
      have h_same := ended_run h_rest h_n nofun
      rw [Option.some.inj (h_m'.symm.trans h_same)] at h_finished
      cases h_finished
    | next _ h_a h_sinks =>
      have h_not : ¬e.Skips j x a := by
        cases a with
        | unregister y => exact absurd rfl (h_a y)
        | _ => exact id
      rw [if_congr (h_later h_not) rfl rfl]
      unfold Emission.next at h_n
      split at h_n
      · next sink h_sink =>
        obtain ⟨h_lt, h_get⟩ := List.getElem?_eq_some_iff.mp h_sink
        rcases eq_or_ne sink x with rfl | h_ne
        · -- it is given the event now
          have h_now : f.sinks.idxOf sink < m.index + 1 := by
            rw [h_sinks, ← h_get, h_nodup.idxOf_getElem]
            exact Nat.lt_succ_self _
          obtain ⟨h_each, n', h_n', h_same⟩ :=
            given_run h_rest h_nodup' h_x' h_stays.2 h_n h_now
          rw [if_pos h_each, Option.some.inj (h_m'.symm.trans h_n'), h_same]
          simp [h_count]
        · refine ih h_rest h_nodup' h_x' h_stays.2 h_n h_running ?_ ?_
          · have h_other : e.sinks.idxOf x ≠ m.index := by
              rintro h_eq
              apply h_ne
              rw [← h_get]
              simp only [← h_eq, List.getElem_idxOf]
            rw [h_sinks]
            exact Nat.succ_le_of_lt (Nat.lt_of_le_of_ne h_place h_other.symm)
          · rw [List.count_append, h_count]
            simp [h_ne]
      · next h_end =>
        have h_lt := List.idxOf_lt_length_of_mem h_x
        rw [List.getElem?_eq_none_iff] at h_end
        omega

end NexusEventEmitter

open NexusEventEmitter

variable {e f : NexusEventEmitter κ ν} {before as : List (EmitterAction κ ν)}

/-- **A sink that stays registered is given the event exactly once**, unless a sink before it is
unregistered while it is the next; then it is not given the event. Other emissions and
registrations, in any order, make no difference. -/
theorem emission_served_iff (h_before : runSteps step {} before = some e) {event : ν}
    (h_run : runSteps step e (.emit event :: as) = some f) {x : κ} (h_x : x ∈ e.sinks)
    (h_stays : .unregister x ∉ as) {m : Emission κ ν}
    (h_m : f.emissions[e.emissions.length]? = some m) (h_finished : m.progress = .finished) :
    m.served.count x =
      if EachStep step (fun w a => ¬w.Skips e.emissions.length x a) e (.emit event :: as) then 1
      else 0 := by
  have h_nodup := nodup_run h_before
  obtain ⟨g, h_g, h_rest⟩ := runSteps_cons_eq_some.mp h_run
  obtain rfl := Option.some.inj h_g
  -- the emission is the last of the list, with no sink served yet
  have h_new : (e.emissions ++ [{ event := event }])[e.emissions.length]? =
      some ({ event := event } : Emission κ ν) := by simp
  -- the sink is yet to come, so it is served unless a step passes over it
  rw [coming_run h_rest h_nodup h_x h_stays h_new rfl (Nat.zero_le _) rfl h_m
    h_finished]
  refine if_congr ⟨fun h => ⟨id, fun t h_t => ?_⟩, fun h => h.2 _ rfl⟩ rfl rfl
  exact Option.some.inj h_t ▸ h

/-- Two sinks. -/
def twoSinks : NexusEventEmitter ℕ String := { sinks := [0, 1] }

/-- The first unregisters itself when it is given the event, and the second is passed over. -/
def unregistersItself : List (EmitterAction ℕ String) := [.next 0, .unregister 0, .next 0]

/-- Unregistering oneself while being served passes over the next sink. -/
theorem emission_served_iff_passedOver : ∃ f m,
    runSteps NexusEventEmitter.step twoSinks (.emit "e" :: unregistersItself) = some f ∧
    f.emissions[0]? = some m ∧ 1 ∈ f.sinks ∧ m.served = [0] ∧
    m.served.count 1 = if EachStep NexusEventEmitter.step (fun w a => ¬w.Skips 0 1 a) twoSinks
      (.emit "e" :: unregistersItself) then 1 else 0 :=
  have h_before : runSteps NexusEventEmitter.step {} [.register 0, .register 1] =
      some twoSinks := rfl
  have h_run : runSteps NexusEventEmitter.step twoSinks (.emit "e" :: unregistersItself) =
      some { sinks := [1], emissions := [⟨"e", 1, [0], .finished⟩] } := rfl
  ⟨_, ⟨"e", 1, [0], .finished⟩, h_run, rfl, by decide, rfl,
    emission_served_iff h_before h_run (by decide) (by decide) rfl rfl⟩

/-! ### Sinks that are passed over by no emission -/

/-- The action unregisters no sink that emission `j` has been at. -/
def NexusEventEmitter.Spares (w : NexusEventEmitter κ ν) (j : ℕ) (a : EmitterAction κ ν) : Prop :=
  ∀ y, a = .unregister y → ∀ m ∈ w.emissions[j]?, y ∉ w.sinks.take m.index

/-- The sinks the emission has awaited are the first of those that are registered. -/
def NexusEventEmitter.InOrder (j : ℕ) (w : NexusEventEmitter κ ν) : Prop :=
  ∀ m ∈ w.emissions[j]?, m.progress = .running →
    m.served = w.sinks.take m.index ∧ m.index ≤ w.sinks.length

/-- An element that does not lie in front is erased from behind. -/
theorem take_erase {y : κ} {xs : List κ} {n : ℕ} (h : y ∉ xs.take n) (h_le : n ≤ xs.length) :
    (xs.erase y).take n = xs.take n ∧ n ≤ (xs.erase y).length := by
  have h_length : (xs.take n).length = n := List.length_take_of_le h_le
  have h_erase : xs.erase y = xs.take n ++ (xs.drop n).erase y := by
    conv_lhs => rw [← List.take_append_drop n xs]
    exact List.erase_append_right _ h
  rw [h_erase]
  refine ⟨?_, ?_⟩
  · rw [List.take_append_of_le_length h_length.ge, List.take_of_length_le h_length.le]
  · rw [List.length_append, h_length]
    exact Nat.le_add_right _ _

/-- A step that spares an emission leaves its served sinks in front of those to come. -/
theorem NexusEventEmitter.InOrder.step {w v : NexusEventEmitter κ ν} {j : ℕ}
    {a : EmitterAction κ ν} (h : w.InOrder j) (h_spares : w.Spares j a)
    (h_step : w.step a = some v) : v.InOrder j := by
  intro m h_m h_running
  cases a with
  | register sink =>
    obtain rfl := Option.some.inj h_step
    unfold registerSink at h_m ⊢
    split_ifs at h_m ⊢ with h_sink
    · exact h m h_m h_running
    · -- the new sink lies behind all that were served
      obtain ⟨h_served, h_le⟩ := h m h_m h_running
      refine ⟨?_, h_le.trans (by simp)⟩
      rw [h_served, List.take_append_of_le_length h_le]
  | unregister y =>
    obtain rfl := Option.some.inj h_step
    unfold unregisterSink at h_m ⊢
    split_ifs at h_m ⊢ with h_y
    · obtain ⟨h_served, h_le⟩ := h m h_m h_running
      -- `Spares`: what leaves was not served yet
      obtain ⟨h_take, h_length⟩ := take_erase (h_spares y rfl m h_m) h_le
      exact ⟨h_served.trans h_take.symm, h_length⟩
    · exact h m h_m h_running
  | emit event =>
    obtain rfl := Option.some.inj h_step
    have h_m : (w.emissions ++ [{ event := event }])[j]? = some m := h_m
    rw [List.getElem?_append] at h_m
    split_ifs at h_m
    · exact h m h_m h_running
    · obtain rfl := List.mem_singleton.mp (List.mem_of_getElem? h_m)
      exact ⟨List.take_zero.symm, Nat.zero_le _⟩
  | next i =>
    obtain ⟨n, h_n, h_n_running, rfl⟩ := step_next.mp h_step
    rcases eq_or_ne i j with rfl | h_ij
    · rw [List.getElem?_set_self (List.getElem?_eq_some_iff.mp h_n).1] at h_m
      obtain rfl := Option.some.inj h_m
      obtain ⟨h_served, h_le⟩ := h n h_n h_n_running
      unfold Emission.next at h_running ⊢
      split
      · next sink h_sink =>
        -- one more sink is served, the one at the count
        obtain ⟨h_lt, h_get⟩ := List.getElem?_eq_some_iff.mp h_sink
        refine ⟨?_, h_lt⟩
        rw [List.take_succ_eq_append_getElem h_lt, ← h_served, h_get]
      · next h_none =>
        rw [h_none] at h_running
        cases h_running
    · exact h m ((List.getElem?_set_ne h_ij).symm.trans h_m) h_running
  | cancel i =>
    obtain ⟨n, h_n, -, rfl⟩ := step_cancel.mp h_step
    rcases eq_or_ne i j with rfl | h_ij
    · rw [List.getElem?_set_self (List.getElem?_eq_some_iff.mp h_n).1] at h_m
      obtain rfl := Option.some.inj h_m
      cases h_running
    · exact h m ((List.getElem?_set_ne h_ij).symm.trans h_m) h_running

/-- **An emission that passes nothing over** has, when it comes to the end of the list, awaited
the sinks that are registered then, each once and in their order. -/
theorem emission_complete {event : ν} (h_run : runSteps step e (.emit event :: as) = some f)
    (h_each : EachStep step (fun w a => w.Spares e.emissions.length a) e (.emit event :: as))
    {m : Emission κ ν} (h_m : f.emissions[e.emissions.length]? = some m)
    (h_running : m.progress = .running) (h_end : f.sinks.length ≤ m.index) :
    m.served = f.sinks := by
  have h_order := runSteps_history_of_each (I := fun _ w => w.InOrder e.emissions.length)
    (fun m h_m => by simp at h_m) (fun _ w a v _ h_w h_spares h_step => h_w.step h_spares h_step)
    h_run h_each
  rw [(h_order m h_m h_running).1, List.take_of_length_le h_end]

end Nexus.Events
