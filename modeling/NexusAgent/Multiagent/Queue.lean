import NexusAgent.Multiagent.Rules

/-!
# The queue of a streaming parallel group

What the loop over the queue makes of the events in it. An event whose data is not that of a
run, the `final_response` of a failed group, ends the loop.

* `mergeEvents_spec` gives the results and the totals the loop leaves, as folds over the queue.
* `get?_foldl_storeEvent_last`: the last event of a member decides the result under its name.
-/

open Lib

namespace Nexus.Team

variable {script : Script} {config : GroupConfig} {path : Path}

/-- A `final_response` event with the status `failed`, which is not one of a run. -/
def Event.Failed : Event → Prop
  | .final (.group g) => g.status = .failed
  | _ => False

/-- What a queued event stores. -/
def storeEvent (script : Script) (results : Dict String MemberResult) (q : String × Event) :
    Dict String MemberResult :=
  match q.2 with
  | .error _ => results
  | .final res =>
    match res.asRunResult script.validationError with
    | .ok r => Dict.set results q.1 (.run r)
    | .error _ => results

/-- What a queued event adds. -/
def addEvent (totals : Totals) (q : String × Event) : Totals :=
  match q.2 with
  | .error _ => totals
  | .final res => totals.addData res

/-- The data of an event is that of a run unless the event is a failed group's. -/
theorem asRunResult_cases (validationError : String) (res : MemberResult) :
    (∃ r, res.asRunResult validationError = .ok r ∧ r.finalResponse = res.finalResponse ∧
      ¬ (Event.final res).Failed) ∨
    (∃ e, res.asRunResult validationError = .error e ∧ (Event.final res).Failed) := by
  cases res with
  | run r => exact .inl ⟨r, rfl, rfl, id⟩
  | group g =>
    rcases h : g.status with _ | _ | _
    · exact .inl ⟨_, by simp only [MemberResult.asRunResult, h]; rfl, rfl, by simp [Event.Failed, h]⟩
    · exact .inr ⟨validationError, by simp [MemberResult.asRunResult, h], h⟩
    · exact .inl ⟨_, by simp only [MemberResult.asRunResult, h]; rfl, rfl, by simp [Event.Failed, h]⟩

/-- The loop over the queue stores and adds every event, unless one is a failed group's. -/
theorem mergeEvents_spec (script : Script) (queue : List (String × Event)) (merge : Merge) :
    ((∀ q ∈ queue, ¬ q.2.Failed) →
      (mergeEvents script queue merge).2 = .ok () ∧
        (mergeEvents script queue merge).1.memberResults =
          queue.foldl (storeEvent script) merge.memberResults ∧
        (mergeEvents script queue merge).1.totals = queue.foldl addEvent merge.totals) ∧
    ((∃ q ∈ queue, q.2.Failed) → ∃ e, (mergeEvents script queue merge).2 = .error e) := by
  induction queue generalizing merge with
  | nil => exact ⟨fun _ => ⟨rfl, rfl, rfl⟩, fun ⟨q, h_q, _⟩ => by cases h_q⟩
  | cons q queue ih =>
    obtain ⟨name, event⟩ := q
    cases event with
    | error content =>
      -- an error event is only forwarded, and never counts as failed
      have h_ih := ih { merge with events := merge.events ++ [.error content] }
      constructor
      · intro h
        exact h_ih.1 (List.forall_mem_cons.mp h).2
      · intro h
        rw [List.exists_mem_cons_iff] at h
        exact h_ih.2 (h.resolve_left id)
    | final res =>
      -- a final event is either read back as a result or raises
      rcases asRunResult_cases script.validationError res with ⟨r, h_r, -, h_fine⟩ | ⟨e, h_e, h_bad⟩
      · have h_ih := ih
          { events := merge.events ++ [.final res]
            memberResults := Dict.set merge.memberResults name (.run r)
            totals := merge.totals.addData res }
        constructor
        · intro h
          simpa [mergeEvents, h_r, storeEvent, addEvent] using h_ih.1 (List.forall_mem_cons.mp h).2
        · intro h
          rw [List.exists_mem_cons_iff] at h
          simpa [mergeEvents, h_r] using h_ih.2 (h.resolve_left h_fine)
      · constructor
        · intro h
          exact absurd h_bad (List.forall_mem_cons.mp h).1
        · intro _
          exact ⟨e, by simp [mergeEvents, h_e]⟩

/-- An event of another member leaves the stored result. -/
theorem get?_storeEvent_ne (script : Script) (d : Dict String MemberResult) (q : String × Event) (k : String)
    (h : q.1 ≠ k) : Dict.get? (storeEvent script d q) k = Dict.get? d k := by
  unfold storeEvent
  split
  · rfl
  · split
    · exact Dict.get?_set_ne d _ h
    · rfl

/-- What the stream of one member stores: under its own name only. -/
theorem get?_foldl_storeEvent_ne (script : Script) {name k : String} (h : name ≠ k) (events : List Event)
    (d : Dict String MemberResult) :
    Dict.get? ((events.map (name, ·)).foldl (storeEvent script) d) k = Dict.get? d k := by
  apply get?_foldl_of_notMem Prod.fst (get?_storeEvent_ne script)
  intro h_mem
  obtain ⟨q, h_q, rfl⟩ := List.mem_map.mp h_mem
  obtain ⟨event, -, rfl⟩ := List.mem_map.mp h_q
  exact h rfl

/-- The last event of a stream decides what is stored. -/
theorem get?_foldl_storeEvent_last {name : String} {events : List Event} {res : MemberResult}
    {r : RunResult} (h_last : events.getLast? = some (.final res))
    (h_r : res.asRunResult script.validationError = .ok r) (d : Dict String MemberResult) :
    Dict.get? ((events.map (name, ·)).foldl (storeEvent script) d) name = some (.run r) := by
  obtain ⟨init, rfl⟩ := List.getLast?_eq_some_iff.mp h_last
  rw [List.map_append, List.foldl_append]
  simp [storeEvent, h_r]

/-- The events a member puts into the queue. -/
def memberEvents (streamed : Streamed) : List Event :=
  streamed.events ++ streamed.raised.toList.map Event.error

/-- The queued events are stored member by member. -/
theorem queuedEvents_foldl (gathered : List (ℕ × String × Streamed))
    (d : Dict String MemberResult) :
    (queuedEvents gathered).foldl (storeEvent script) d =
      gathered.foldl (fun d g => ((memberEvents g.2.2).map (g.2.1, ·)).foldl (storeEvent script) d)
        d := by
  rw [queuedEvents, List.foldl_flatMap]
  rfl

end Nexus.Team
