import NexusAgent.Multiagent.Queue

/-!
# Which response `first_complete` reports

A parallel group with the strategy `first_complete` reports the response of a member that
finished. `_aggregate_parallel` goes through the members in the order of their definition, so
that member need not be the one that finished first.

* `firstFinished` is the response the strategy is about, read off the runs of the members and
  the order in which they finished.
* `first_complete_iff` says exactly when the blocking and the streaming implementation report
  it, and `first_complete_by_position` runs a group that reports another one.
-/

open Lib

namespace Nexus.Team

variable {script : Script} {config : GroupConfig} {path : Path}

/-! ### Responses of the members -/

/-- The non-empty response of a run. -/
def Trace.response (trace : Trace) : Option String :=
  match trace.outcome with
  | .ok res => truthy res.finalResponse
  | .error _ => none

/-- Whether the result has the status `completed`. -/
def MemberResult.completed : MemberResult → Bool
  | run r => r.status = .completed
  | group g => g.status = .completed

/-- The run returned a result with the status `completed`. -/
def Trace.Completed (trace : Trace) : Prop := ∃ res, trace.outcome = .ok res ∧ res.completed

/-- The first non-empty response in the order of the members. -/
def firstDefined (runs : List Trace) : Option String := runs.findSome? Trace.response

/-- The first non-empty response in the order in which the members finished. -/
def firstFinished (order : List ℕ) (runs : List Trace) : Option String :=
  firstDefined (order.filterMap fun i => runs[i]?)

/-- All members of a group ran, and all of them completed. -/
def AllComplete (members : Dict String Part) (runs : List Trace) : Prop :=
  runs.length = members.length ∧ ∀ t ∈ runs, t.Completed

/-- The final response a blocking run reports; nothing when it raises. -/
def Ran.response (ran : Ran) : Option (Option String) :=
  ran.outcome.toOption.map MemberResult.finalResponse

/-- The final response a streaming run reports; nothing when it raises. -/
def Streamed.response (streamed : Streamed) : Option (Option String) :=
  streamed.result.map MemberResult.finalResponse

/-! ### Aggregation -/

/-- The aggregation goes by the names it is given. -/
theorem aggregateParallel_first (h_strategy : config.aggregationStrategy = .firstComplete)
    (results : Dict String MemberResult) (names : List String) :
    aggregateParallel config results names =
      names.findSome? fun name =>
        truthy ((Dict.get? results name).bind MemberResult.finalResponse) := by
  -- the first of the non-empty responses
  have h_head := List.head?_filterMap (l := names) (f := fun name =>
    (truthy ((Dict.get? results name).bind MemberResult.finalResponse)).map (name, ·))
  -- taken with the name or without it
  have h_map (f : String → Option String) (names : List String) :
      (names.findSome? fun name => (f name).map (name, ·)).map Prod.snd = names.findSome? f := by
    induction names with
    | nil => rfl
    | cons name names ih =>
      rw [List.findSome?_cons, List.findSome?_cons]
      cases f name with
      | none => exact ih
      | some r => rfl
  rw [← h_map, ← h_head]
  unfold aggregateParallel
  simp only [h_strategy]
  split_ifs with h_none
  · rw [h_none]
    rfl
  · rfl

/-- Two functions that agree on a list find the same in it. -/
theorem findSome?_congr {α β : Type} {f g : α → Option β} {xs : List α}
    (h : ∀ x ∈ xs, f x = g x) : xs.findSome? f = xs.findSome? g := by
  induction xs with
  | nil => rfl
  | cons x xs ih =>
    obtain ⟨h_x, h_xs⟩ := List.forall_mem_cons.mp h
    rw [List.findSome?_cons, List.findSome?_cons, h_x, ih h_xs]

/-- Where the results are those of the runs, the aggregation goes by the order of the
members. -/
theorem aggregateParallel_stored (h_strategy : config.aggregationStrategy = .firstComplete)
    {β : Type} {gathered : List (String × β)} {trace : β → Trace}
    {results : Dict String MemberResult}
    (h_results : ∀ r ∈ gathered, (trace r.2).response =
      truthy ((Dict.get? results r.1).bind MemberResult.finalResponse)) :
    aggregateParallel config results (gathered.map Prod.fst) =
      firstDefined (gathered.map fun r => trace r.2) := by
  rw [aggregateParallel_first h_strategy, List.findSome?_map, firstDefined, List.findSome?_map]
  apply findSome?_congr
  intro r h_r
  exact (h_results r h_r).symm

/-! ### Blocking -/

/-- The response of a run whose result is at hand. -/
theorem Trace.response_of_outcome {trace : Trace} {res : MemberResult}
    (h : trace.outcome = .ok res) : trace.response = truthy res.finalResponse := by
  simp [Trace.response, h]

section Blocking

variable {members : Dict String Part} {input : String} {budget : ℤ} {w : World}

/-- A parallel group of agents that all complete reports the first response in the order of
the members; one with a nested group raises. -/
theorem runParallel_first (h_keys : (Dict.keys members).Nodup)
    (h_members : ∀ m ∈ members, Traced script (path ++ [m.1]) m.2)
    (h_strategy : config.aggregationStrategy = .firstComplete)
    (h_complete : AllComplete members (runParallel script config path members input budget w).1.2) :
    let ran := (runParallel script config path members input budget w).1
    ((∀ t ∈ ran.2, t.isGroup = false) →
      ∃ g, ran.1 = .ok g ∧ g.finalResponse = firstDefined ran.2) ∧
    ((∃ t ∈ ran.2, t.isGroup = true) → ∃ e, ran.1 = .error e) := by
  revert h_complete
  unfold runParallel
  split_ifs with h_budget
  · intro _
    exact ⟨fun _ => ⟨_, rfl, rfl⟩, fun ⟨t, h_t, _⟩ => by cases h_t⟩
  · simp only
    have h_names := @results_names _ (runMember script config path members input budget) members
      script path w (w.begin path)
    have h_made := @made_of_mem_results _ (runMember script config path members input budget)
      members script path w (w.begin path)
    generalize inDefinitionOrder members.length (gatherParts _ members _ _).1 = results
      at h_names h_made
    intro h_complete
    -- what a member returned is what its trace says
    have h_tells : ∀ r ∈ results, ∃ part slot, Tells part slot input budget r.2 := by
      intro r h_r
      obtain ⟨i, h_i⟩ := h_made h_r
      obtain ⟨part, -, h⟩ := h_i.tells h_members
      exact ⟨part, _, h⟩
    have h_ok : ∀ r ∈ results, ∃ res, r.2.outcome = .ok res ∧ res.isGroup = r.2.trace.isGroup := by
      intro r h_r
      obtain ⟨part, slot, h⟩ := h_tells r h_r
      obtain ⟨res, h_res, -⟩ := h_complete.2 _ (List.mem_map_of_mem h_r)
      rw [h.outcome] at h_res
      exact ⟨res, h_res, (h.kind res h_res).trans h.isGroup.symm⟩
    -- all are complete, so a result merges exactly if it is that of an agent
    have h_merges : ∀ r ∈ results, (Merges r.2.outcome ↔ r.2.trace.isGroup = false) := by
      intro r h_r
      obtain ⟨res, h_res, h_kind⟩ := h_ok r h_r
      unfold Merges
      rw [h_res, ← h_kind]
      cases res <;> simp [MemberResult.isGroup]
    constructor
    · intro h_agents
      rw [mergeResults_of_merges _ _ _ fun r h_r =>
        (h_merges r h_r).mpr (h_agents _ (List.mem_map_of_mem h_r))]
      refine ⟨_, rfl, ?_⟩
      simp only [completedResult]
      rw [← h_names]
      -- the results are looked up by their names, in the order of the definition
      apply aggregateParallel_stored h_strategy
      intro r h_r
      obtain ⟨res, h_res, -⟩ := h_ok r h_r
      obtain ⟨part, slot, h⟩ := h_tells r h_r
      rw [get?_stored (h_names ▸ h_keys) h_r h_res, Trace.response_of_outcome (h.outcome.trans h_res)]
      rfl
    · rintro ⟨t, h_t, h_group⟩
      obtain ⟨r, h_r, rfl⟩ := List.mem_map.mp h_t
      rcases mergeResults_of_stops config (w.sessionId path) (members.map Prod.fst) results [] {}
        ⟨r, h_r, fun h => by simp [(h_merges r h_r).mp h] at h_group⟩ with
          h_error | ⟨e, _, ⟨s, h_s, h_e⟩, -⟩
      · exact h_error
      · obtain ⟨res, h_res, -⟩ := h_ok s h_s
        cases h_res.symm.trans h_e

end Blocking

/-! ### Streaming -/

/-- The streams of the members of a parallel group, in the order in which they finish. -/
def memberStreams (script : Script) (config : GroupConfig) (path : Path)
    (members : Dict String Part) (input : String) (w : World) : List (ℕ × String × Streamed) :=
  (gatherParts (pumpMember script config path members input) members
    (finishOrder script path members w) (w.begin path)).1

section Streaming

variable {members : Dict String Part} {input : String} {w : World}

/-- A streaming parallel group whose members all complete reports the first response in the
order of the members, unless it raises at the event of a failed group. -/
theorem streamParallel_first (h_keys : (Dict.keys members).Nodup)
    (h_members : ∀ m ∈ members, StreamTraced script (path ++ [m.1]) m.2)
    (h_strategy : config.aggregationStrategy = .firstComplete)
    (h_complete : AllComplete members (streamParallel script config path members input w).1.runs) :
    let stream := (streamParallel script config path members input w).1
    let queue := queuedEvents (memberStreams script config path members input w)
    ((∀ q ∈ queue, ¬ q.2.Failed) → stream.raised = none ∧ ∃ g, stream.outcome = .ok g ∧
      g.finalResponse = firstDefined stream.runs) ∧
    ((∃ q ∈ queue, q.2.Failed) → stream.raised ≠ none) := by
  revert h_complete
  unfold streamParallel memberStreams
  simp only
  have h_names := @results_names _ (pumpMember script config path members input) members
    script path w (w.begin path)
  have h_perm := @results_perm _ (pumpMember script config path members input) members
    script path w (w.begin path)
  have h_made := @gatherParts_made _ (pumpMember script config path members input) members
    (finishOrder script path members w) (w.begin path)
  simp only at h_perm
  generalize (gatherParts _ members _ _).1 = gathered at h_names h_perm h_made
  generalize inDefinitionOrder members.length gathered = results at h_names h_perm
  obtain ⟨h_fine, h_bad⟩ := mergeEvents_spec script (queuedEvents gathered) {}
  intro h_complete
  constructor
  · intro h_queue
    obtain ⟨h_ok, h_stored, -⟩ := h_fine h_queue
    rw [h_ok]
    refine ⟨rfl, _, rfl, ?_⟩
    split at h_complete
    · rename_i e h_e
      cases h_ok.symm.trans h_e
    · simp only [completedResult, GroupStream.ofResult] at h_complete ⊢
      rw [← h_names]
      apply aggregateParallel_stored h_strategy
      intro r h_r
      obtain ⟨g, h_g, rfl⟩ := List.mem_map.mp (h_perm.subset h_r)
      obtain ⟨res, h_res, -⟩ := h_complete.2 _ (List.mem_map_of_mem h_r)
      obtain ⟨part, -, h_tells⟩ := (h_made g h_g).streamTells h_members
      obtain ⟨h_raised, h_last⟩ := h_tells.ends res h_res
      have h_own : memberEvents g.2.2 = g.2.2.events := by simp [memberEvents, h_raised]
      -- the last event of the member is in the queue, so its data is that of a run
      have h_queued : (g.2.1, Event.final res) ∈ queuedEvents gathered := by
        refine List.mem_flatMap.mpr ⟨g, h_g, List.mem_map.mpr ⟨.final res, ?_, rfl⟩⟩
        exact List.mem_append_left _ (List.mem_of_getLast? h_last)
      rcases asRunResult_cases script.validationError res with
        ⟨r, h_run, h_response, -⟩ | ⟨e, -, h_failed⟩
      · have h_nodup : (gathered.map fun g => g.2.1).Nodup := by
          have h_keys' : ((gathered.map Prod.snd).map Prod.fst).Nodup := by
            rw [← (h_perm.map Prod.fst).nodup_iff, h_names]
            exact h_keys
          rwa [List.map_map] at h_keys'
        have h_get := get?_foldl_of_mem (fun g : ℕ × String × Streamed => g.2.1)
          (fun d g k h => get?_foldl_storeEvent_ne script h (memberEvents g.2.2) d)
          h_nodup h_g (v := .run r)
          (fun d => get?_foldl_storeEvent_last (h_own ▸ h_last) h_run d) []
        rw [h_stored, queuedEvents_foldl, h_get, Trace.response_of_outcome h_res, ← h_response]
        rfl
      · exact absurd h_failed (h_queue _ h_queued)
  · intro h_queue
    obtain ⟨e, h_e⟩ := h_bad h_queue
    rw [h_e]
    simp

end Streaming

/-! ### The exact condition -/

/-- **The first finished member wins** in a blocking run: if all members completed, the group
reports the first non-empty response in the order in which they finished. -/
def FirstFinishedWins (order : List ℕ) (members : Dict String Part)
    (response : Option (Option String)) (trace : Trace) : Prop :=
  AllComplete members trace.inner → response = some (firstFinished order trace.inner)

/-- **Exactly when `first_complete` reports the member that finished first.** A blocking run
does if and only if no member is a nested group and the first non-empty response in the order
of the members is the one in the order in which they finished; a streaming run if and only if
no member passes on the event of a failed group and the two responses are the same. -/
theorem first_complete_iff (script : Script) (group : Group) (h_pattern : group.config.pattern = .parallel)
    (h_strategy : group.config.aggregationStrategy = .firstComplete) (ctx : RunContext)
    (path : Path) (input : String) (maxTurns : Option ℤ) (w : World) :
    let members := group.parts script ctx path
    let order := finishOrder script path members w
    let ran := (group.run script ctx path input maxTurns w).1
    let streamed := (group.stream script ctx path input w).1
    (AllComplete members ran.trace.inner →
      (FirstFinishedWins order members ran.response ran.trace ↔
        (∀ t ∈ ran.trace.inner, t.isGroup = false) ∧
          firstDefined ran.trace.inner = firstFinished order ran.trace.inner)) ∧
    (AllComplete members streamed.trace.inner →
      (FirstFinishedWins order members streamed.response streamed.trace ↔
        (∀ q ∈ queuedEvents (memberStreams script group.config path members input w),
          ¬ q.2.Failed) ∧
          firstDefined streamed.trace.inner = firstFinished order streamed.trace.inner)) := by
  have h_keys : (Dict.keys (group.parts script ctx path)).Nodup :=
    (group.parts_induction (P := fun _ _ => True) ctx path (fun _ _ => trivial)
      (fun _ _ _ _ _ => trivial)).1
  constructor
  · intro h_complete
    -- the blocking group: members that are groups make the merge raise
    simp only [Group.run, runGroup, runPattern, h_pattern, Trace.inner] at h_complete ⊢
    obtain ⟨h_agents, h_group⟩ :=
      runParallel_first h_keys (group.parts_traced ctx path) h_strategy h_complete
    generalize (runParallel _ _ _ _ _ _ _).1 = ran at h_agents h_group h_complete ⊢
    simp only [FirstFinishedWins, Trace.inner, h_complete, true_implies]
    constructor
    · intro h_response
      have h_none : ∀ t ∈ ran.2, t.isGroup = false := by
        intro t h_t
        by_contra h_isGroup
        obtain ⟨e, h_e⟩ := h_group ⟨t, h_t, eq_true_of_ne_false h_isGroup⟩
        rw [h_e] at h_response
        cases h_response
      obtain ⟨g, h_g, h_first⟩ := h_agents h_none
      rw [h_g] at h_response
      exact ⟨h_none, h_first.symm.trans (Option.some.inj h_response)⟩
    · rintro ⟨h_none, h_same⟩
      obtain ⟨g, h_g, h_first⟩ := h_agents h_none
      rw [h_g, ← h_same, ← h_first]
      rfl
  · intro h_complete
    -- the streaming group: an event that failed makes the queue raise
    simp only [Group.stream, streamGroup, streamPattern, h_pattern, Trace.inner] at h_complete ⊢
    obtain ⟨h_fine, h_failed⟩ :=
      streamParallel_first h_keys (group.parts_streamTraced ctx path) h_strategy h_complete
    have h_ends := @streamParallel_ends script group.config path
      (group.parts script ctx path) input w
    generalize (streamParallel _ _ _ _ _ _).1 = stream at h_fine h_failed h_complete h_ends ⊢
    simp only [FirstFinishedWins, Trace.inner, h_complete, true_implies]
    constructor
    · intro h_response
      have h_none : ∀ q ∈ queuedEvents (memberStreams script group.config path
          (group.parts script ctx path) input w), ¬ q.2.Failed := by
        intro q h_q h_bad
        -- a stream that raised has no response
        have h_raised := h_failed ⟨q, h_q, h_bad⟩
        obtain ⟨e, h_e⟩ := Option.ne_none_iff_exists'.mp h_raised
        simp [Streamed.response, Streamed.result, h_e] at h_response
      -- else its response is the first defined one in the order of the definition
      obtain ⟨h_raised, g, h_g, h_first⟩ := h_fine h_none
      obtain ⟨-, h_last⟩ := h_ends g h_g
      simp only [Streamed.response, Streamed.result, h_raised, h_last, Option.map_some,
        Option.some.injEq] at h_response
      exact ⟨h_none, h_first.symm.trans h_response⟩
    · rintro ⟨h_none, h_same⟩
      obtain ⟨h_raised, g, h_g, h_first⟩ := h_fine h_none
      obtain ⟨-, h_last⟩ := h_ends g h_g
      simp only [Streamed.response, Streamed.result, h_raised, h_last, Option.map_some]
      rw [← h_same, ← h_first]
      rfl

/-! ### A group that reports another member -/

/-- Two reviewers that answer with their paths; the second one finishes first. -/
def raceScript : Script where
  agent path _ _ limit _ := .finish (.returning limit
    { sessionId := "s", finalResponse := some (PyStr.join "/" path), turnsUsed := 1,
      status := .completed })
  order _ _ n := ⟨(List.range n).reverse, List.reverse_perm _⟩

/-- A panel of two reviewers. -/
def panel : Group where
  config := { name := "panel", pattern := .parallel, aggregationStrategy := .firstComplete }
  members := [.agent "slow" 10, .agent "fast" 10]

/-- The first reviewer of the panel finishes first. -/
def leadScript : Script where
  agent := raceScript.agent
  order _ _ n := ⟨List.range n, .refl _⟩

/-- Both reviewers complete, in the order of the definition. -/
theorem first_complete_leader :
    FirstFinishedWins [0, 1] (panel.parts leadScript {} [])
      (panel.run leadScript {} [] "go" none freshWorld).1.response
      (panel.run leadScript {} [] "go" none freshWorld).1.trace := by
  have h_complete : AllComplete (panel.parts leadScript {} [])
      (panel.run leadScript {} [] "go" none freshWorld).1.trace.inner :=
    ⟨rfl, List.forall_mem_cons.mpr ⟨⟨_, rfl, rfl⟩, List.forall_mem_singleton.mpr ⟨_, rfl, rfl⟩⟩⟩
  have h_iff := (first_complete_iff leadScript panel rfl rfl {} [] "go" none
    freshWorld).1 h_complete
  exact h_iff.mpr ⟨List.forall_mem_cons.mpr ⟨rfl, List.forall_mem_singleton.mpr rfl⟩, rfl⟩

/-- Both reviewers of the panel complete, `fast` before `slow`, and the panel reports `slow`,
blocking and streaming. -/
theorem first_complete_by_position :
    ¬ FirstFinishedWins [1, 0] (panel.parts raceScript {} [])
      (panel.run raceScript {} [] "go" none freshWorld).1.response
      (panel.run raceScript {} [] "go" none freshWorld).1.trace ∧
    ¬ FirstFinishedWins [1, 0] (panel.parts raceScript {} [])
      (panel.stream raceScript {} [] "go" freshWorld).1.response
      (panel.stream raceScript {} [] "go" freshWorld).1.trace := by
  constructor
  · intro h
    -- both members answered
    have h_complete : AllComplete (panel.parts raceScript {} [])
        (panel.run raceScript {} [] "go" none freshWorld).1.trace.inner :=
      ⟨rfl, List.forall_mem_cons.mpr ⟨⟨_, rfl, rfl⟩, List.forall_mem_singleton.mpr ⟨_, rfl, rfl⟩⟩⟩
    -- so the response had to be that of the one that finished first
    have h_slow : (some (some "slow") : Option (Option String)) = some (some "fast") :=
      h h_complete
    exact absurd h_slow (by decide)
  · intro h
    have h_complete : AllComplete (panel.parts raceScript {} [])
        (panel.stream raceScript {} [] "go" freshWorld).1.trace.inner :=
      ⟨rfl, List.forall_mem_cons.mpr ⟨⟨_, rfl, rfl⟩, List.forall_mem_singleton.mpr ⟨_, rfl, rfl⟩⟩⟩
    have h_slow : (some (some "slow") : Option (Option String)) = some (some "fast") :=
      h h_complete
    exact absurd h_slow (by decide)

end Nexus.Team
