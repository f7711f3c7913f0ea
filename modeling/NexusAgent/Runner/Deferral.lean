import NexusAgent.Runner.Results
import NexusAgent.Runner.Waiting

/-!
# What a turn defers

The handlers of a turn leave an interaction for every call they deferred; the turn records
the results of the handlers up to the first that paused. In the sequential branch these are
the same calls. In the parallel branch they are, if a call that waits is the only one of its
response that waits or raises (`PausesAlone`).

* `HandlingEffect.pausedRecords_eq`: the interactions that were left are for the records that
  wait in the turn.
* `HandlingEffect.quiet_of_raised`: handlers of a turn that raised left none.
-/

open Lib

namespace Nexus

variable {a : StoreAdapter}

/-- In the parallel branch, a call that waits is the only one that is not answered at once. -/
def PausesAlone (env : Env a) (calls : List ToolCallRequest) : Prop :=
  useParallel env calls = true → ∀ (i : ℕ), ∀ req ∈ calls[i]?, callFate env req = .waits →
    ∀ (j : ℕ), ∀ req' ∈ calls[j]?, j ≠ i → ∃ key, callFate env req' = .answered key

/-- The record of a handler that paused. -/
def pausedRecord? : ℕ × Except RunError Handled → Option ToolCallRecord
  | (_, .ok h) => if h.paused then some h.record else none
  | (_, .error _) => none

section Handlers

variable {env : Env a} {calls : List ToolCallRequest} {outs : List (ℕ × Except RunError Handled)}
  {obs : List Obs}

/-- The interactions left are those of the handlers that paused, in the order these ran. -/
theorem Logged.pausedRecords {n m : ℕ} (h : Logged env calls n outs obs m) :
    (obs.filterMap Obs.pending?).map PendingInteraction.ids =
      (outs.filterMap pausedRecord?).map ToolCallRecord.ids := by
  induction h with
  | nil => rfl
  -- only a deferred call is pending and has a record that waits
  | malformed _ ih => exact ih
  | approval _ _ _ ih => exact ih
  | deferred _ _ _ _ _ _ ih =>
    simp only [List.filterMap_cons, Obs.pending?, pausedRecord?, if_true, List.map_cons, ih]
    rfl
  | unknown _ _ _ _ _ _ _ ih => exact ih
  | executed _ _ _ _ _ _ _ ih => exact ih

/-- No interaction of a handler is a request to the human in the loop. -/
theorem Logged.not_human {n m : ℕ} (h : Logged env calls n outs obs m) :
    ∀ p ∈ obs.filterMap Obs.pending?, p ≠ hitlRequest := by
  intro p h_p h_eq
  have h_ids := List.mem_map_of_mem (f := PendingInteraction.ids) h_p
  rw [h.pausedRecords] at h_ids
  obtain ⟨tc, h_tc, h_same⟩ := List.mem_map.mp h_ids
  obtain ⟨⟨pos, o⟩, h_o, h_paused⟩ := List.mem_filterMap.mp h_tc
  cases o with
  | error e => cases h_paused
  | ok r =>
    have h_record : (if r.paused then some r.record else none) = some tc := h_paused
    split_ifs at h_record
    obtain rfl := Option.some.inj h_record
    obtain ⟨req, i, -, -, -, h_as⟩ := h.returned pos r h_o
    -- the ids of records begin with `TC`
    have h_id : tcIdOf i = "HITL" := by
      rw [← h_as.tcId.2.1, (Prod.mk.inj h_same).1, h_eq]
      rfl
    have h_first := congrArg (fun id : String => id.toList.head?) h_id
    simp [tcIdOf] at h_first

/-- A call that paused waits. -/
theorem HandlingEffect.waits {s t : RunState a} (h : HandlingEffect env calls s outs obs t)
    {pos : ℕ} {r : Handled} (h_mem : (pos, .ok r) ∈ outs) (h_paused : r.paused = true) :
    ∃ req ∈ calls[pos]?, callFate env req = .waits := by
  -- the record is that of a call at this position
  obtain ⟨req, i, h_req, -, -, h_as⟩ := h.logged.returned pos r h_mem
  obtain ⟨req', h_req', h_raises⟩ := h.fates _ h_mem
  obtain rfl := Option.some.inj (h_req.symm.trans h_req')
  refine ⟨req, h_req, ?_⟩
  -- which is gated, as its record is paused
  have h_gated : env.registry.gated req.toolName = true := h_as.paused ▸ h_paused
  -- and returned, so it did not raise
  have h_fate : callFate env req ≠ .raises := fun h_eq => by
    obtain ⟨e, h_e⟩ := h_raises.mp h_eq
    cases h_e
  unfold callFate at h_fate ⊢
  split_ifs at h_fate ⊢ with h_bad h_app
  · exact absurd rfl h_fate
  · exact absurd rfl h_fate
  · rfl

/-- A call whose handler raised does so by its fate. -/
theorem HandlingEffect.raises {s t : RunState a} (h : HandlingEffect env calls s outs obs t)
    {pos : ℕ} {e : RunError} (h_mem : (pos, .error e) ∈ outs) :
    ∃ req ∈ calls[pos]?, callFate env req = .raises := by
  obtain ⟨req, h_req, h_raises⟩ := h.fates _ h_mem
  exact ⟨req, h_req, h_raises.mpr ⟨e, rfl⟩⟩

/-- Whether handling the calls of response `k` raises: one of the calls does in the parallel
branch, and the run is cancelled before a call or the call raises in the sequential one. -/
def RaisesIn (env : Env a) (k : ℕ) (calls : List ToolCallRequest) : Prop :=
  if useParallel env calls then ∃ req ∈ calls, callFate env req = .raises
  else ∃ p, BreaksAt env k calls p

/-- A handler that raised did so in the call that raises. -/
theorem HandlingEffect.raisesIn {s t : RunState a} (h : HandlingEffect env calls s outs obs t)
    {k : ℕ} (h_raised : RaisedBy env k calls outs) : RaisesIn env k calls := by
  unfold RaisedBy at h_raised
  unfold RaisesIn
  split_ifs at h_raised ⊢ with h_par
  · obtain ⟨i, e, h_e⟩ := Prog.exists_error h_raised.2
    obtain ⟨req, h_req, h_raises⟩ := h.raises h_e
    exact ⟨req, List.mem_of_getElem? h_req, h_raises⟩
  · exact h_raised.2

/-- A list in which only one place has a value. -/
theorem filterMap_eq_singleton {β γ : Type} {f : ℕ × β → Option γ} {y : γ} :
    ∀ {xs : List (ℕ × β)} {x : ℕ × β}, (xs.map Prod.fst).Nodup → x ∈ xs → f x = some y →
      (∀ x' ∈ xs, x'.1 ≠ x.1 → f x' = none) → xs.filterMap f = [y] := by
  intro xs
  induction xs with
  | nil => exact fun _ h_x => nomatch h_x
  | cons x₀ xs ih =>
    intro x h_nodup h_x h_f h_else
    rw [List.map_cons, List.nodup_cons] at h_nodup
    rw [List.forall_mem_cons] at h_else
    rcases List.mem_cons.mp h_x with rfl | h_x
    · -- no later element has the same position
      rw [List.filterMap_cons_some h_f]
      congr 1
      refine List.filterMap_eq_nil_iff.mpr fun x' h_x' => h_else.2 x' h_x' fun h_same => ?_
      exact h_nodup.1 (h_same ▸ List.mem_map_of_mem h_x')
    · -- an earlier element has another position
      have h_first : x₀.1 ≠ x.1 := fun h_same =>
        h_nodup.1 (h_same ▸ List.mem_map_of_mem h_x)
      rw [List.filterMap_cons_none (h_else.1 h_first)]
      exact ih h_nodup.2 h_x h_f h_else.2

/-- A list in which only one place satisfies `p`. -/
theorem filter_eq_singleton {β : Type} {p : β → Bool} {x : β} :
    ∀ {xs : List β} {i : ℕ}, xs[i]? = some x → p x = true →
      (∀ j x', xs[j]? = some x' → j ≠ i → p x' = false) → xs.filter p = [x] := by
  intro xs
  induction xs with
  | nil => exact fun h_i => nomatch h_i
  | cons x₀ xs ih =>
    intro i h_i h_p h_else
    cases i with
    -- the element comes first, and all others fail the predicate
    | zero =>
      obtain rfl : x₀ = x := by simpa using h_i
      rw [List.filter_cons_of_pos h_p]
      congr 1
      refine List.filter_eq_nil_iff.mpr fun x' h_x' => ?_
      obtain ⟨j, h_j⟩ := List.mem_iff_getElem?.mp h_x'
      rw [h_else (j + 1) x' (by simpa using h_j) (by omega)]
      exact Bool.false_ne_true
    -- it comes later
    | succ i =>
      have h_first : p x₀ = false := h_else 0 x₀ rfl (by omega)
      rw [List.filter_cons_of_neg (by simp [h_first])]
      exact ih (by simpa using h_i) h_p fun j x' h_j h_ne =>
        h_else (j + 1) x' (by simpa using h_j) (by omega)

/-- The sequential branch records every handler that ran. -/
theorem InSequence.pausedRecords {pos : ℕ} {handled : List Handled}
    (h : InSequence pos outs handled) :
    outs.filterMap pausedRecord? = (handled.filter Handled.paused).map Handled.record := by
  induction handled generalizing pos outs with
  | nil =>
    match outs with
    | [] => rfl
    | (_, .ok _) :: _ => exact h.elim
    | (_, .error _) :: _ => exact h.elim
  | cons r handled ih =>
    match outs with
    | [] => exact h.elim
    -- in a sequence nothing has raised
    | (_, .error _) :: _ => exact h.elim
    | (i, .ok r') :: outs =>
      obtain ⟨-, rfl, -, h_rest⟩ := h
      have h_tail := ih h_rest
      cases h_paused : r.paused with
      | true =>
        rw [List.filterMap_cons_some (b := r.record) (by simp [pausedRecord?, h_paused]),
          List.filter_cons_of_pos h_paused, List.map_cons, h_tail]
      | false =>
        rw [List.filterMap_cons_none (by simp [pausedRecord?, h_paused]),
          List.filter_cons_of_neg (by simp [h_paused]), h_tail]

/-- At most one result of a turn paused. -/
theorem Results.paused_le_one {handled : List Handled} (h : Results calls outs handled) :
    handled.filter Handled.paused = [] ∨ ∃ r, handled.filter Handled.paused = [r] := by
  by_cases h_none : ∀ r ∈ handled, r.paused = false
  · exact .inl (List.filter_eq_nil_iff.mpr fun r h_r => by simp [h_none r h_r])
  · obtain ⟨r, h_rest⟩ := not_forall.mp h_none
    obtain ⟨h_r, h_paused⟩ := Classical.not_imp.mp h_rest
    rw [Bool.not_eq_false] at h_paused
    obtain ⟨i, h_i⟩ := List.mem_iff_getElem?.mp h_r
    have h_lt := (List.getElem?_eq_some_iff.mp h_i).1
    -- the one that paused is the last
    have h_last : i + 1 = handled.length := by
      by_contra h_ne
      have := h.running i r h_i (by omega)
      rw [h_paused] at this
      cases this
    refine .inr ⟨r, filter_eq_singleton h_i h_paused fun j r' h_j h_ne => ?_⟩
    have h_lt' := (List.getElem?_eq_some_iff.mp h_j).1
    exact h.running j r' h_j (by omega)

/-- **The interactions a turn leaves are for the records that wait in it.** -/
theorem HandlingEffect.pausedRecords_eq {s t : RunState a}
    (h : HandlingEffect env calls s outs obs t) {k n : ℕ} {handled : List Handled}
    (h_handled : HandledBy env k calls outs handled n) (h_alone : PausesAlone env calls) :
    outs.filterMap pausedRecord? = (handled.filter Handled.paused).map Handled.record := by
  have h_results := h_handled.results h.logged
  unfold HandledBy at h_handled
  split_ifs at h_handled with h_par
  · obtain ⟨h_places, -⟩ := h_handled
    have h_nodup : (outs.map Prod.fst).Nodup := by
      rw [h_places]
      exact (env.gatherOrder k calls.length).property.nodup_iff.mpr List.nodup_range
    -- handlers that paused handled the same call, the only one that waits
    have h_same : ∀ i j r r', (i, .ok r) ∈ outs → r.paused = true → (j, .ok r') ∈ outs →
        r'.paused = true → j = i := by
      intro i j r r' h_r h_paused h_r' h_paused'
      by_contra h_ne
      obtain ⟨req, h_req, h_waits⟩ := h.waits h_r h_paused
      obtain ⟨req', h_req', h_waits'⟩ := h.waits h_r' h_paused'
      obtain ⟨key, h_answered⟩ := h_alone h_par i req h_req h_waits j req' h_req' h_ne
      rw [h_waits'] at h_answered
      cases h_answered
    have h_unique : ∀ i r r', (i, .ok r) ∈ outs → (i, .ok r') ∈ outs → r = r' := by
      intro i r r' h_r h_r'
      have := List.inj_on_of_nodup_map h_nodup h_r h_r' rfl
      exact Except.ok.inj (Prod.mk.inj this).2
    by_cases h_some : ∃ i r, (i, .ok r) ∈ outs ∧ r.paused = true
    · obtain ⟨i, r, h_r, h_paused⟩ := h_some
      have h_outs : outs.filterMap pausedRecord? = [r.record] := by
        refine filterMap_eq_singleton h_nodup h_r (by simp [pausedRecord?, h_paused]) ?_
        rintro ⟨j, o⟩ h_o h_ne
        cases o with
        | error e => rfl
        | ok r' =>
          have h_not : r'.paused = false := by
            rw [Bool.eq_false_iff]
            exact fun h_paused' => h_ne (h_same i j r r' h_r h_paused h_o h_paused')
          simp [pausedRecord?, h_not]
      have h_mem : handled[i]? = some r := by
        by_cases h_lt : i < handled.length
        · have h_i := List.getElem?_eq_getElem h_lt
          rw [h_i, h_unique i _ r (h_results.returned i _ h_i) h_r]
        · -- the results end before place `i` only at a call that paused
          exfalso
          obtain ⟨req, h_req, -⟩ := h.waits h_r h_paused
          have h_bound := (List.getElem?_eq_some_iff.mp h_req).1
          have h_short : handled.length ≠ calls.length := by omega
          refine h_short (h_results.complete fun r' h_r' => ?_)
          obtain ⟨j, h_j⟩ := List.mem_iff_getElem?.mp h_r'
          have h_lt' := (List.getElem?_eq_some_iff.mp h_j).1
          rw [Bool.eq_false_iff]
          intro h_paused'
          have := h_same i j r r' h_r h_paused (h_results.returned j r' h_j) h_paused'
          omega
      rw [h_outs, filter_eq_singleton h_mem h_paused]
      · rfl
      · intro j r' h_j h_ne
        rw [Bool.eq_false_iff]
        exact fun h_paused' =>
          h_ne (h_same i j r r' h_r h_paused (h_results.returned j r' h_j) h_paused')
    · have h_outs : outs.filterMap pausedRecord? = [] := by
        refine List.filterMap_eq_nil_iff.mpr ?_
        rintro ⟨i, o⟩ h_o
        cases o with
        | error e => rfl
        | ok r =>
          have h_not : r.paused = false := by
            rw [Bool.eq_false_iff]
            exact fun h_paused => h_some ⟨i, r, h_o, h_paused⟩
          simp [pausedRecord?, h_not]
      have h_handled : handled.filter Handled.paused = [] := by
        refine List.filter_eq_nil_iff.mpr fun r h_r h_paused => ?_
        obtain ⟨i, h_i⟩ := List.mem_iff_getElem?.mp h_r
        exact h_some ⟨i, r, h_results.returned i r h_i, h_paused⟩
      rw [h_outs, h_handled]
      rfl
  · exact h_handled.1.pausedRecords

/-- What was left after handlers that did not pause. -/
theorem HandlingEffect.quiet {s t : RunState a} (h : HandlingEffect env calls s outs obs t)
    (h_none : outs.filterMap pausedRecord? = []) : obs.filterMap Obs.pending? = [] := by
  have h_ids := h.logged.pausedRecords
  rw [h_none] at h_ids
  exact List.map_eq_nil_iff.mp h_ids

/-- What broke off has no paused record. -/
theorem BrokenOff.pausedRecords {k pos : ℕ} (h : BrokenOff env k pos outs) :
    outs.filterMap pausedRecord? = [] := by
  induction outs generalizing pos with
  | nil => rfl
  | cons o outs ih =>
    match o with
    -- the calls before returned unpaused, and the last one raised
    | (i, .ok r) =>
      obtain ⟨-, h_paused, -, h_rest⟩ := h
      rw [List.filterMap_cons_none (by simp [pausedRecord?, h_paused])]
      exact ih h_rest
    | (i, .error e) =>
      obtain ⟨-, -, rfl⟩ := h
      rfl

/-- **Handlers of a turn that raised left nothing to wait for.** -/
theorem HandlingEffect.quiet_of_raised {s t : RunState a}
    (h : HandlingEffect env calls s outs obs t) {k : ℕ} (h_raised : RaisedBy env k calls outs)
    (h_alone : PausesAlone env calls) : obs.filterMap Obs.pending? = [] := by
  refine h.quiet ?_
  unfold RaisedBy at h_raised
  split_ifs at h_raised with h_par
  · obtain ⟨h_places, h_first⟩ := h_raised
    have h_nodup : (outs.map Prod.fst).Nodup := by
      rw [h_places]
      exact (env.gatherOrder k calls.length).property.nodup_iff.mpr List.nodup_range
    obtain ⟨j, e, h_e⟩ := Prog.exists_error h_first
    obtain ⟨req', h_req', h_raises⟩ := h.raises h_e
    refine List.filterMap_eq_nil_iff.mpr ?_
    rintro ⟨i, o⟩ h_o
    cases o with
    | error e => rfl
    | ok r =>
      have h_not : r.paused = false := by
        rw [Bool.eq_false_iff]
        intro h_paused
        obtain ⟨req, h_req, h_waits⟩ := h.waits h_o h_paused
        -- the call that raised and the one that waits are two
        have h_ne : j ≠ i := by
          rintro rfl
          have := List.inj_on_of_nodup_map h_nodup h_e h_o rfl
          cases this
        obtain ⟨key, h_answered⟩ := h_alone h_par i req h_req h_waits j req' h_req' h_ne
        rw [h_raises] at h_answered
        cases h_answered
      simp [pausedRecord?, h_not]
  · exact h_raised.1.pausedRecords

/-- **The records of a turn that wait** are those of the results that paused. -/
theorem Results.waiting {gated : String → Bool}
    (h_gated : ∀ name, env.registry.gated name = gated name) {n m : ℕ} {handled : List Handled}
    (h : Results calls outs handled) (h_logged : Logged env calls n outs obs m) :
    (handled.map Handled.record).filter (ToolCallRecord.waiting gated) =
      (handled.filter Handled.paused).map Handled.record := by
  rw [List.filter_map]
  congr 1
  refine List.filter_congr fun r h_r => ?_
  obtain ⟨i, h_i⟩ := List.mem_iff_getElem?.mp h_r
  -- each record is that of a call
  obtain ⟨req, -, j, h_as⟩ := h.handledAs h_logged h_i
  obtain ⟨result, h_record, h_empty⟩ := h_as.record
  have h_name : r.record.toolName = req.toolName := by rw [h_record]; rfl
  have h_raw : r.record.rawResponse = result := by rw [h_record]; rfl
  -- with the call's name, and an empty response if it waits
  show (gated r.record.toolName && decide (r.record.rawResponse = "")) = r.paused
  rw [h_name, h_raw, ← h_gated, ← h_as.paused]
  cases h_paused : r.paused with
  | false => rfl
  | true => simp [h_empty h_paused]

end Handlers

end Nexus
