import NexusAgent.Runner.Deferral
import NexusAgent.Runner.Recall

/-!
# The work of a turn and its record

A turn stores the results of its handlers up to the first that paused, and nothing if a
handler raised. In the sequential branch no handler runs after one that paused. In the
parallel branch they all run, so what comes after the first that waits is done and not
recorded.

* `StoredAfter`: what a turn stores once its calls were handled.
* `KeepsWork`: every tool body that ran and every interaction that was created has a record.
* `recordsWork_iff`: it has, unless `LosesWork` says otherwise.
-/

open Lib

namespace Nexus

variable {a : StoreAdapter}

/-! ### Work -/

/-- The record id under which a tool body ran or a call was deferred. -/
def Obs.workId? : Obs → Option String
  | .executed tcId _ _ => some tcId
  | .deferred pending => some pending.tcId
  | _ => none

/-- Whether handling the call runs a tool body or creates an interaction. -/
def CallFate.works : CallFate → Bool
  | .waits => true
  | .answered key => key.isSome
  | .raises => false

/-- What was done has one record in the turn that was stored, and the records are those of
the first calls, in the order of the calls. -/
structure KeepsWork (calls : List ToolCallRequest) (obs : List Obs) : Prop where
  recorded : ∀ id ∈ obs.filterMap Obs.workId?, ∃ turn, turnsOf obs = [turn] ∧
    turn.toolCalls.countP (·.tcId = id) = 1
  ordered : ∀ turn ∈ turnsOf obs,
    turn.toolCalls.map (fun tc => (tc.toolName, tc.callId)) <+:
      calls.map fun req => (req.toolName, req.id)

/-- Whether work of response `k` is lost. In the parallel branch: a call raises and another
works, or a call works that comes after one that waits. In the sequential branch: it
raises at a call, and one before that worked. -/
def LosesWork (env : Env a) (k : ℕ) (calls : List ToolCallRequest) : Prop :=
  if useParallel env calls then
    ((∃ req ∈ calls, callFate env req = .raises) ∧
        ∃ req ∈ calls, (callFate env req).works = true) ∨
      ∃ (i j : ℕ) (req req' : ToolCallRequest), i < j ∧ calls[i]? = some req ∧
        calls[j]? = some req' ∧ callFate env req = .waits ∧ (callFate env req').works = true
  else
    ∃ p, BreaksAt env k calls p ∧
      ∃ q < p, ∃ req, calls[q]? = some req ∧ (callFate env req).works = true

/-! ### What a turn stores -/

/-- Whether an event tells of a tool call or its result. -/
def StreamEvent.isTool : StreamEvent → Bool
  | .toolCall .. | .toolResult .. => true
  | _ => false

/-- The events of tool calls and their results. -/
def toolEvents (events : List StreamEvent) : List StreamEvent := events.filter StreamEvent.isTool

/-- `t` comes after `v` by a turn that stored the results `handled`. -/
structure StoredAfter (handled : List Handled) (v t : RunState a) : Prop where
  trace : ∃ turn after, turn.toolCalls = handled.map Handled.record ∧
    t.trace = v.trace ++ .turnAppended turn :: after ∧ ∀ o ∈ after, ∃ message, o = .inject message
  events : toolEvents t.events = toolEvents v.events

section Stored

variable {env : Env a} {stream : Bool} {k : ℕ} {handled : List Handled} {v t t' : RunState a}

/-- Changes of other fields, and events of another kind. -/
theorem StoredAfter.same (h : StoredAfter handled v t) (h_trace : t'.trace = t.trace)
    (h_events : toolEvents t'.events = toolEvents t.events) : StoredAfter handled v t' where
  trace := by
    rw [h_trace]
    exact h.trace
  events := h_events.trans h.events

/-- A message after the turn. -/
theorem StoredAfter.inject (h : StoredAfter handled v t) (message : String)
    (h_trace : t'.trace = t.trace ++ [.inject message])
    (h_events : toolEvents t'.events = toolEvents t.events) : StoredAfter handled v t' where
  trace := by
    obtain ⟨turn, after, h_calls, h_stored, h_after⟩ := h.trace
    refine ⟨turn, after ++ [.inject message], h_calls, ?_, ?_⟩
    · rw [h_trace, h_stored, List.append_assoc]
      rfl
    · refine List.forall_mem_append.mpr ⟨h_after, List.forall_mem_singleton.mpr ⟨message, rfl⟩⟩
  events := h_events.trans h.events

/-- Telling the caller that the run paused. -/
theorem wp_emitPaused_stored (h : StoredAfter handled v t) {E : RunError → RunState a → Prop} :
    Prog.wp (emitPaused stream) (fun _ t' => StoredAfter handled v t') E t := by
  unfold emitPaused emit
  simp only [Prog.wp_bind, Prog.wp_get, Prog.wp_modify]
  cases stream with
  | false => exact h
  | true =>
    refine h.same rfl ?_
    show toolEvents (t.events ++ [_]) = _
    simp [toolEvents, StreamEvent.isTool]

/-- The end of a turn. -/
theorem wp_endTurn_stored (h : StoredAfter handled v t) {onward : Run a Prog.Ctl}
    (h_onward : Prog.wp onward (fun _ t' => StoredAfter handled v t')
      (fun _ t' => StoredAfter handled v t') t) :
    Prog.wp (endTurn env stream k onward) (fun _ t' => StoredAfter handled v t')
      (fun _ t' => StoredAfter handled v t') t := by
  unfold endTurn
  rw [Prog.wp_ite]
  refine ⟨fun _ => h.same rfl rfl, fun _ => ?_⟩
  split
  · -- an injected message is appended to the trace only
    next message _ _ => exact h.inject message rfl rfl
  · simp only [Prog.wp_bind, Prog.wp_get]
    rw [Prog.wp_ite]
    refine ⟨fun _ => ?_, fun _ => h_onward⟩
    unfold pauseForHuman
    simp only [Prog.wp_bind, Prog.wp_modify, Prog.wp_pure]
    -- so is a pause
    apply wp_emitPaused_stored
    exact h.same rfl rfl

/-- **A turn with tool calls** raises what its handlers raise, or stores their results. -/
theorem wp_toolTurn_stored {P : RunState a → Prop} {r : LLMResponse} {s : RunState a}
    (compactorSaved savings : ℕ)
    (h : Prog.wp (runTools env stream k r.toolCalls)
      (fun p v => ∀ t, StoredAfter p.1 v t → P t) (fun _ v => P v) s) :
    P (toolTurn env stream k r compactorSaved savings s).2 := by
  refine Prog.wp_final.mp ?_
  unfold toolTurn
  rw [Prog.wp_bind]
  refine Prog.wp_mono h ?_ fun _ _ h_v => h_v
  rintro ⟨handled, n⟩ v h_stored
  have h_turn : StoredAfter handled v (persistTurnWithState env
      (toolRecord env r compactorSaved savings n handled v) v) :=
    ⟨⟨_, [], rfl, rfl, nofun⟩, rfl⟩
  -- every way to go on from there keeps it
  refine Prog.wp_mono (Q := fun _ t => StoredAfter handled v t)
    (E := fun _ t => StoredAfter handled v t) ?_ (fun _ t => h_stored t) fun _ t => h_stored t
  simp only [Prog.wp_bind, Prog.wp_modify, Prog.wp_get]
  rw [Prog.wp_ite]
  refine ⟨fun _ => ?_, fun _ => ?_⟩
  · simp only [Prog.wp_bind, Prog.wp_modify, Prog.wp_pure]
    apply wp_emitPaused_stored
    exact h_turn.same rfl rfl
  · simp only [Prog.wp_bind, Prog.wp_modify]
    apply wp_endTurn_stored
    · exact h_turn.same rfl rfl
    · rw [Prog.wp_ite]
      exact ⟨fun _ => h_turn.same rfl rfl, fun _ => h_turn.same rfl rfl⟩

end Stored

/-! ### What handlers did -/

/-- The record id of a handler that ran a tool body or deferred its call. -/
def work? (env : Env a) (calls : List ToolCallRequest) :
    ℕ × Except RunError Handled → Option String
  | (pos, .ok r) => calls[pos]?.bind fun req =>
    if env.registry.gated req.toolName || (env.registry.reachedKey req.toolName).isSome then
      some r.record.tcId
    else none
  | (_, .error _) => none

/-- A call that does not raise works if it is gated or reaches a tool. -/
theorem works_of_not_raises {env : Env a} {req : ToolCallRequest} (h : callFate env req ≠ .raises) :
    (callFate env req).works =
      (env.registry.gated req.toolName || (env.registry.reachedKey req.toolName).isSome) := by
  unfold callFate at h ⊢
  split_ifs at h ⊢ with h_bad h_gated h_app
  · exact absurd rfl h
  · exact absurd rfl h
  · simp [CallFate.works, h_gated]
  · simp [CallFate.works, h_gated]

section Handlers

variable {env : Env a} {calls : List ToolCallRequest} {outs : List (ℕ × Except RunError Handled)}
  {obs : List Obs} {s t : RunState a} {k n : ℕ} {handled : List Handled}

/-- What is observed of handlers is the work of those that returned, in the order they ran. -/
theorem Logged.work {n m : ℕ} (h : Logged env calls n outs obs m) :
    obs.filterMap Obs.workId? = outs.filterMap (work? env calls) := by
  induction h with
  | nil => rfl
  | malformed _ ih => exact ih
  | approval _ _ _ ih => exact ih
  | deferred updates saved h_req h_gated h_app _ ih =>
    -- a deferred call is work
    simp [Obs.workId?, work?, h_req, h_gated, ih, pendingOf, recordOf]
  | unknown updates saved result h_req h_gated h_key _ ih =>
    simp [work?, h_req, h_gated, h_key, ih]
  | executed updates saved result h_req h_gated h_key _ ih =>
    -- and so is an executed one
    simp [Obs.workId?, work?, h_req, h_gated, h_key, ih, recordOf]

/-- **What was done** is the work of the calls whose handlers returned. -/
theorem HandlingEffect.mem_work (h : HandlingEffect env calls s outs obs t) {id : String} :
    id ∈ obs.filterMap Obs.workId? ↔ ∃ pos r req, (pos, .ok r) ∈ outs ∧ calls[pos]? = some req ∧
      (callFate env req).works = true ∧ r.record.tcId = id := by
  rw [h.logged.work, List.mem_filterMap]
  -- a call with a record has not raised
  have h_fate : ∀ {pos : ℕ} {r : Handled} {req : ToolCallRequest}, (pos, .ok r) ∈ outs →
      calls[pos]? = some req → callFate env req ≠ .raises := by
    intro pos r req h_out h_req h_raises
    obtain ⟨req', h_req', h_iff⟩ := h.fates _ h_out
    obtain rfl := Option.some.inj (h_req.symm.trans h_req')
    obtain ⟨e, h_e⟩ := h_iff.mp h_raises
    cases h_e
  constructor
  · rintro ⟨⟨pos, o⟩, h_out, h_work⟩
    cases o with
    | error e => cases h_work
    | ok r =>
      obtain ⟨req, h_req, h_id⟩ := Option.bind_eq_some_iff.mp h_work
      split_ifs at h_id with h_works
      rw [← works_of_not_raises (h_fate h_out h_req)] at h_works
      exact ⟨pos, r, req, h_out, h_req, h_works, Option.some.inj h_id⟩
  · rintro ⟨pos, r, req, h_out, h_req, h_works, rfl⟩
    rw [works_of_not_raises (h_fate h_out h_req)] at h_works
    exact ⟨(pos, .ok r), h_out, Option.bind_eq_some_iff.mpr ⟨req, h_req, if_pos h_works⟩⟩

/-- Calls in sequence are handled at their places. -/
theorem InSequence.places {pos : ℕ} (h : InSequence pos outs handled) :
    outs.map Prod.fst = List.range' pos handled.length := by
  induction handled generalizing pos outs with
  | nil =>
    match outs with
    | [] => rfl
    | (_, .ok _) :: _ => exact h.elim
    | (_, .error _) :: _ => exact h.elim
  | cons r handled ih =>
    match outs with
    | [] => exact h.elim
    | (_, .error _) :: _ => exact h.elim
    | (i, .ok r') :: outs =>
      obtain ⟨rfl, -, -, h_rest⟩ := h
      -- this place, and then those of the rest
      rw [List.map_cons, ih h_rest]
      rfl

/-- A turn has one handler for a call at most. -/
theorem HandledBy.nodup (h : HandledBy env k calls outs handled n) : (outs.map Prod.fst).Nodup := by
  unfold HandledBy at h
  split_ifs at h
  · rw [h.1]
    exact (env.gatherOrder k calls.length).property.nodup_iff.mpr List.nodup_range
  · rw [h.1.places]
    exact List.nodup_range'

/-- A handler's result has one record exactly when its place is among those recorded. -/
theorem Results.recorded_iff {n m : ℕ} (h : Results calls outs handled)
    (h_logged : Logged env calls n outs obs m) (h_nodup : (outs.map Prod.fst).Nodup) {pos : ℕ}
    {r : Handled} (h_out : (pos, .ok r) ∈ outs) :
    (handled.map Handled.record).countP (·.tcId = r.record.tcId) = 1 ↔ pos < handled.length := by
  have h_count : (handled.map Handled.record).countP (·.tcId = r.record.tcId) =
      ((handled.map Handled.record).map ToolCallRecord.tcId).count r.record.tcId := by
    generalize handled.map Handled.record = tcs
    rw [List.count_eq_countP, List.countP_map]
    refine List.countP_congr fun tc _ => ?_
    simp
  have h_unique := h.tcIds_nodup h_logged
  rw [h_count]
  constructor
  · intro h_one
    have h_mem := List.count_pos_iff.mp (by omega : 0 < ((handled.map Handled.record).map
      ToolCallRecord.tcId).count r.record.tcId)
    obtain ⟨tc, h_tc, h_id⟩ := List.mem_map.mp h_mem
    obtain ⟨r', h_r', rfl⟩ := List.mem_map.mp h_tc
    obtain ⟨i, hi, rfl⟩ := List.mem_iff_getElem.mp h_r'
    have h_i := h.returned i _ (List.getElem?_eq_getElem hi)
    -- results with one id are results of one handler
    by_cases h_same : i = pos
    · exact h_same ▸ hi
    · exfalso
      have h_ne : (i, Except.ok handled[i]) ≠ ((pos, Except.ok r) : ℕ × Except RunError Handled) :=
        fun h => h_same (Prod.mk.inj h).1
      refine h_logged.distinct.forall h_i h_out h_ne _ _ rfl rfl ?_
      obtain ⟨_, j, -, -, -, h_as⟩ := h_logged.returned _ _ h_i
      obtain ⟨_, j', -, -, -, h_as'⟩ := h_logged.returned _ _ h_out
      rw [h_as.tcId.2.1, h_as'.tcId.2.1] at h_id
      rw [h_as.tcId.1, h_as'.tcId.1, tcIdOf_injective h_id]
  · intro h_lt
    have h_i := h.returned pos _ (List.getElem?_eq_getElem h_lt)
    have h_eq : handled[pos] = r := by
      have := List.inj_on_of_nodup_map h_nodup h_i h_out rfl
      exact Except.ok.inj (Prod.mk.inj this).2
    refine List.count_eq_one_of_mem h_unique (List.mem_map_of_mem ?_)
    exact List.mem_map_of_mem (h_eq ▸ List.getElem_mem h_lt)

/-- The records of a turn name the first calls, in order. -/
theorem Results.ordered {n m : ℕ} (h : Results calls outs handled)
    (h_logged : Logged env calls n outs obs m) :
    (handled.map Handled.record).map (fun tc => (tc.toolName, tc.callId)) <+:
      calls.map fun req => (req.toolName, req.id) := by
  rw [List.prefix_iff_eq_take, List.length_map, List.length_map, ← List.map_take, List.map_map]
  refine List.ext_getElem? fun i => ?_
  rw [List.getElem?_map, List.getElem?_map]
  -- the record of a handled call has the name and the id of the call
  by_cases h_lt : i < handled.length
  · have h_i := List.getElem?_eq_getElem h_lt
    obtain ⟨req, h_req, j, h_as⟩ := h.handledAs h_logged h_i
    obtain ⟨result, h_record, -⟩ := h_as.record
    rw [h_i, List.getElem?_take_of_lt h_lt, h_req]
    show some (handled[i].record.toolName, handled[i].record.callId) = _
    rw [h_record]
    rfl
  · -- beyond the handled ones neither list goes on
    rw [List.getElem?_eq_none (by omega), List.getElem?_eq_none]
    · rfl
    · rw [List.length_take]
      omega

/-! ### Turns that are stored -/

/-- The calls that worked are among those with a result. -/
def Kept (env : Env a) (calls : List ToolCallRequest) (outs : List (ℕ × Except RunError Handled))
    (handled : List Handled) : Prop :=
  ∀ pos r req, (pos, .ok r) ∈ outs → calls[pos]? = some req → (callFate env req).works = true →
    pos < handled.length

/-- A turn that is stored keeps the work whose results it has. -/
theorem HandlingEffect.keepsWork_of_stored (h : HandlingEffect env calls s outs obs t)
    (h_handled : HandledBy env k calls outs handled n) {turn : TurnRecord} {after : List Obs}
    (h_turn : turn.toolCalls = handled.map Handled.record)
    (h_after : ∀ o ∈ after, ∃ message, o = .inject message) :
    KeepsWork calls (obs ++ .turnAppended turn :: after) ↔ Kept env calls outs handled := by
  have h_results := h_handled.results h.logged
  -- the turn is the only one told of
  have h_turns : turnsOf (obs ++ .turnAppended turn :: after) = [turn] := by
    have h_none : turnsOf obs = [] :=
      turnsOf_quiet [] fun turn h_mem => h.logged.observed _ h_mem
    have h_rest : turnsOf after = [] := by
      refine turnsOf_quiet [] fun turn h_mem => ?_
      obtain ⟨message, h_eq⟩ := h_after _ h_mem
      cases h_eq
    rw [turnsOf_append, h_none]
    show turn :: turnsOf after = [turn]
    rw [h_rest]
  -- and the work is what was told before it
  have h_work : (obs ++ .turnAppended turn :: after).filterMap Obs.workId? =
      obs.filterMap Obs.workId? := by
    have h_rest : after.filterMap Obs.workId? = [] := by
      refine List.filterMap_eq_nil_iff.mpr fun o h_o => ?_
      obtain ⟨message, rfl⟩ := h_after o h_o
      rfl
    rw [List.filterMap_append]
    show _ ++ after.filterMap Obs.workId? = _
    rw [h_rest, List.append_nil]
  constructor
  · intro h_keeps pos r req h_out h_req h_works
    have h_mem : r.record.tcId ∈ (obs ++ .turnAppended turn :: after).filterMap Obs.workId? := by
      rw [h_work]
      exact h.mem_work.mpr ⟨pos, r, req, h_out, h_req, h_works, rfl⟩
    obtain ⟨turn', h_only, h_one⟩ := h_keeps.recorded _ h_mem
    obtain rfl : turn = turn' := by simpa using h_turns.symm.trans h_only
    rw [h_turn, h_results.recorded_iff h.logged h_handled.nodup h_out] at h_one
    exact h_one
  · intro h_kept
    constructor
    · intro id h_id
      rw [h_work] at h_id
      obtain ⟨pos, r, req, h_out, h_req, h_works, rfl⟩ := h.mem_work.mp h_id
      refine ⟨turn, h_turns, ?_⟩
      rw [h_turn, h_results.recorded_iff h.logged h_handled.nodup h_out]
      exact h_kept pos r req h_out h_req h_works
    · intro turn' h_mem
      rw [h_turns, List.mem_singleton] at h_mem
      rw [h_mem, h_turn]
      exact h_results.ordered h.logged

/-- The call of a result does not raise. -/
theorem HandlingEffect.not_raises (h : HandlingEffect env calls s outs obs t) {pos : ℕ}
    {r : Handled} {req : ToolCallRequest} (h_out : (pos, .ok r) ∈ outs)
    (h_req : calls[pos]? = some req) : callFate env req ≠ .raises := by
  intro h_raises
  obtain ⟨req', h_req', h_iff⟩ := h.fates _ h_out
  obtain rfl := Option.some.inj (h_req.symm.trans h_req')
  obtain ⟨e, h_e⟩ := h_iff.mp h_raises
  cases h_e

/-- Whether a result paused. -/
theorem HandlingEffect.waits_iff (h : HandlingEffect env calls s outs obs t) {pos : ℕ}
    {r : Handled} {req : ToolCallRequest} (h_out : (pos, .ok r) ∈ outs)
    (h_req : calls[pos]? = some req) : callFate env req = .waits ↔ r.paused = true := by
  constructor
  · intro h_waits
    -- the call was handled at this position
    obtain ⟨req', j, h_req', -, -, h_as⟩ := h.logged.returned pos r h_out
    obtain rfl := Option.some.inj (h_req.symm.trans h_req')
    rw [h_as.paused]
    by_contra h_not
    unfold callFate at h_waits
    split_ifs at h_waits
  · -- a paused record is that of a call that waits
    intro h_paused
    obtain ⟨req', h_req', h_waits⟩ := h.waits h_out h_paused
    obtain rfl := Option.some.inj (h_req'.symm.trans h_req)
    exact h_waits

/-- **The work of a stored turn is kept** unless the calls say that it is lost. -/
theorem HandlingEffect.kept_iff (h : HandlingEffect env calls s outs obs t)
    (h_handled : HandledBy env k calls outs handled n) :
    Kept env calls outs handled ↔ ¬LosesWork env k calls := by
  have h_results := h_handled.results h.logged
  -- a result at a place before the last did not pause
  have h_running : ∀ i (hi : i < handled.length) req, calls[i]? = some req →
      callFate env req = .waits → handled.length = i + 1 := by
    intro i hi req h_req h_waits
    have h_i := List.getElem?_eq_getElem hi
    have h_paused := (h.waits_iff (h_results.returned i _ h_i) h_req).mp h_waits
    by_contra h_ne
    have h_not := h_results.running i _ h_i (by omega)
    rw [h_paused] at h_not
    cases h_not
  unfold LosesWork
  by_cases h_par : useParallel env calls = true
  · rw [if_pos h_par]
    have h_all : ∀ i req, calls[i]? = some req → ∃ r, (i, .ok r) ∈ outs := by
      intro i req h_req
      unfold HandledBy at h_handled
      rw [if_pos h_par] at h_handled
      obtain ⟨h_places, h_first, -⟩ := h_handled
      have h_perm : (outs.map Prod.fst).Perm (List.range calls.length) :=
        h_places ▸ (env.gatherOrder k calls.length).property
      obtain ⟨h_length, h_order⟩ := Prog.getElem?_inOrder h_perm h_first
      have h_lt := (List.getElem?_eq_some_iff.mp h_req).1
      exact ⟨_, h_order i _ (List.getElem?_eq_getElem (h_length.symm ▸ h_lt))⟩
    constructor
    · rintro h_kept (⟨⟨req, h_mem, h_raises⟩, -⟩ | ⟨i, j, req, req', h_lt, h_i, h_j, h_waits, h_works⟩)
      · obtain ⟨i, h_i⟩ := List.mem_iff_getElem?.mp h_mem
        obtain ⟨r, h_out⟩ := h_all i req h_i
        exact h.not_raises h_out h_i h_raises
      · obtain ⟨r, h_out⟩ := h_all j req' h_j
        have h_bound := h_kept j r req' h_out h_j h_works
        have := h_running i (by omega) req h_i h_waits
        omega
    · intro h_not pos r req h_out h_req h_works
      by_contra h_ge
      -- some call before this one waits
      have h_lt := (List.getElem?_eq_some_iff.mp h_req).1
      have h_short : handled.length ≠ calls.length := by omega
      have h_some : ∃ r ∈ handled, r.paused = true := by
        by_contra h_none
        refine h_short (h_results.complete fun r' h_r' => ?_)
        by_contra h_paused
        exact h_none ⟨r', h_r', by simpa using h_paused⟩
      obtain ⟨r', h_r', h_paused⟩ := h_some
      obtain ⟨i, hi, rfl⟩ := List.mem_iff_getElem.mp h_r'
      have h_i := h_results.returned i _ (List.getElem?_eq_getElem hi)
      obtain ⟨req', h_req', h_waits⟩ := h.waits h_i h_paused
      exact h_not (.inr ⟨i, pos, req', req, by omega, h_req', h_req, h_waits, h_works⟩)
  · rw [if_neg h_par]
    unfold HandledBy at h_handled
    rw [if_neg h_par] at h_handled
    obtain ⟨h_seq, -, h_complete, h_free⟩ := h_handled
    refine iff_of_true ?_ ?_
    · intro pos r req h_out _ _
      have h_mem := List.mem_map_of_mem (f := Prod.fst) h_out
      rw [h_seq.places, List.mem_range'_1] at h_mem
      omega
    · rintro ⟨p, ⟨⟨req, h_req, h_stop⟩, h_before⟩, -⟩
      have h_lt := (List.getElem?_eq_some_iff.mp h_req).1
      by_cases h_p : p < handled.length
      · -- the call was handled, and nothing stopped the run there
        rcases h_stop with h_cancel | h_raises
        · rw [h_free p h_p] at h_cancel
          cases h_cancel
        · exact h.not_raises (h_results.returned p _ (List.getElem?_eq_getElem h_p)) h_req h_raises
      · -- the results end before the call, though none of them paused
        have h_none : ∀ r ∈ handled, r.paused = false := by
          intro r h_r
          obtain ⟨i, hi, rfl⟩ := List.mem_iff_getElem.mp h_r
          have h_i := h_results.returned i _ (List.getElem?_eq_getElem hi)
          obtain ⟨req', -, h_req', -⟩ := h.logged.returned i _ h_i
          obtain ⟨key, h_key⟩ := (h_before i (by omega)).2 req' h_req'
          rw [Bool.eq_false_iff]
          intro h_paused
          rw [(h.waits_iff h_i h_req').mpr h_paused] at h_key
          cases h_key
        have := h_complete h_none
        omega

/-! ### Turns that raise -/

/-- A turn that raises keeps its work only if there is none. -/
theorem HandlingEffect.keepsWork_of_raised (h : HandlingEffect env calls s outs obs t) :
    KeepsWork calls obs ↔ ∀ pos r req, (pos, .ok r) ∈ outs → calls[pos]? = some req →
      (callFate env req).works = false := by
  -- no turn was stored
  have h_none : turnsOf obs = [] := turnsOf_quiet [] fun turn h_mem => h.logged.observed _ h_mem
  constructor
  · intro h_keeps pos r req h_out h_req
    -- so work that was done would be recorded nowhere
    by_contra h_works
    obtain ⟨turn, h_turn, -⟩ := h_keeps.recorded _
      (h.mem_work.mpr ⟨pos, r, req, h_out, h_req, by simpa using h_works, rfl⟩)
    rw [h_none] at h_turn
    cases h_turn
  · intro h_idle
    constructor
    · intro id h_id
      -- and without work nothing is missing
      obtain ⟨pos, r, req, h_out, h_req, h_works, -⟩ := h.mem_work.mp h_id
      rw [h_idle pos r req h_out h_req] at h_works
      cases h_works
    · intro turn h_turn
      rw [h_none] at h_turn
      cases h_turn

/-- How far handlers that were broken off came. -/
theorem BrokenOff.reached {pos : ℕ} (h : BrokenOff env k pos outs) :
    ∃ m, pos ≤ m ∧ (∀ q, pos ≤ q → q < m → env.cancelCall k q = false ∧ ∃ r, (q, .ok r) ∈ outs) ∧
      (∀ q r, (q, .ok r) ∈ outs → q < m) ∧
      (env.cancelCall k m = true ∨ ∃ e, (m, .error e) ∈ outs) := by
  induction outs generalizing pos with
  | nil => exact ⟨pos, le_rfl, fun q h_q h_lt => absurd h_lt (by omega), nofun, .inl h⟩
  | cons o outs ih =>
    match o with
    -- the sequence ends at the call that raised
    | (i, .error e) =>
      obtain ⟨rfl, -, rfl⟩ := h
      exact ⟨i, le_rfl, fun q h_q h_lt => absurd h_lt (by omega), by simp,
        .inr ⟨e, List.mem_singleton_self _⟩⟩
    | (i, .ok r) =>
      obtain ⟨rfl, -, h_free, h_rest⟩ := h
      obtain ⟨m, h_le, h_ran, h_bound, h_stop⟩ := ih h_rest
      refine ⟨m, by omega, fun q h_q h_lt => ?_, fun q r' h_mem => ?_,
        h_stop.imp_right fun ⟨e, h_e⟩ => ⟨e, List.mem_cons_of_mem _ h_e⟩⟩
      · rcases Nat.eq_or_lt_of_le h_q with rfl | h_q
        · exact ⟨h_free, r, List.mem_cons_self⟩
        · obtain ⟨h_free', r', h_r'⟩ := h_ran q h_q h_lt
          exact ⟨h_free', r', List.mem_cons_of_mem _ h_r'⟩
      · rcases List.mem_cons.mp h_mem with h_eq | h_mem
        · obtain ⟨rfl, -⟩ := Prod.mk.inj h_eq
          omega
        · exact h_bound q r' h_mem

/-- The sequential branch breaks off where its handlers did. -/
theorem HandlingEffect.eq_of_breaksAt (h : HandlingEffect env calls s outs obs t) {m p : ℕ}
    (h_ran : ∀ q < m, env.cancelCall k q = false ∧ ∃ r, (q, .ok r) ∈ outs)
    (h_stop : env.cancelCall k m = true ∨ ∃ e, (m, .error e) ∈ outs) (h_p : BreaksAt env k calls p) :
    p = m := by
  obtain ⟨⟨req, h_req, h_call⟩, h_before⟩ := h_p
  rcases Nat.lt_trichotomy p m with h_lt | h_eq | h_lt
  · -- before the break all calls returned
    exfalso
    obtain ⟨h_free, r, h_out⟩ := h_ran p h_lt
    rcases h_call with h_cancel | h_raises
    · rw [h_free] at h_cancel
      cases h_cancel
    · exact h.not_raises h_out h_req h_raises
  · exact h_eq
  · -- behind it the call that stops is no call that returned
    exfalso
    obtain ⟨h_free, h_answered⟩ := h_before m h_lt
    rcases h_stop with h_cancel | ⟨e, h_e⟩
    · rw [h_free] at h_cancel
      cases h_cancel
    · obtain ⟨req', h_req', h_raises⟩ := h.raises h_e
      obtain ⟨key, h_key⟩ := h_answered req' h_req'
      rw [h_raises] at h_key
      cases h_key

/-- **The work of a turn that raised** was none, unless the calls say that some is lost. -/
theorem HandlingEffect.idle_iff (h : HandlingEffect env calls s outs obs t)
    (h_raised : RaisedBy env k calls outs) :
    (∀ pos r req, (pos, .ok r) ∈ outs → calls[pos]? = some req →
      (callFate env req).works = false) ↔ ¬LosesWork env k calls := by
  have h_raises := h.raisesIn h_raised
  unfold RaisesIn at h_raises
  unfold RaisedBy at h_raised
  unfold LosesWork
  cases h_par : useParallel env calls with
  | true =>
    rw [if_pos h_par] at h_raised h_raises
    rw [if_pos rfl]
    obtain ⟨h_places, h_first⟩ := h_raised
    -- every call that does not raise returned
    have h_all : ∀ i req, calls[i]? = some req → (callFate env req).works = true →
        ∃ r, (i, .ok r) ∈ outs := by
      intro i req h_req h_works
      have h_lt := (List.getElem?_eq_some_iff.mp h_req).1
      have h_place : i ∈ outs.map Prod.fst := by
        rw [h_places, (env.gatherOrder k calls.length).property.mem_iff]
        exact List.mem_range.mpr h_lt
      obtain ⟨⟨i', o⟩, h_out, rfl⟩ := List.mem_map.mp h_place
      cases o with
      | ok r => exact ⟨r, h_out⟩
      | error e =>
        obtain ⟨req', h_req', h_raises'⟩ := h.raises h_out
        obtain rfl := Option.some.inj (h_req.symm.trans h_req')
        rw [h_raises'] at h_works
        cases h_works
    constructor
    · intro h_idle
      have h_no_work : ¬∃ (i : ℕ) (req : ToolCallRequest), calls[i]? = some req ∧
          (callFate env req).works = true := by
        rintro ⟨i, req, h_req, h_works⟩
        obtain ⟨r, h_out⟩ := h_all i req h_req h_works
        rw [h_idle i r req h_out h_req] at h_works
        cases h_works
      rintro (⟨-, req, h_mem, h_works⟩ | ⟨-, j, -, req, -, -, h_j, -, h_works⟩)
      · obtain ⟨i, h_i⟩ := List.mem_iff_getElem?.mp h_mem
        exact h_no_work ⟨i, req, h_i, h_works⟩
      · exact h_no_work ⟨j, req, h_j, h_works⟩
    · intro h_not pos r req h_out h_req
      by_contra h_works
      exact h_not (.inl ⟨h_raises, req, List.mem_of_getElem? h_req, by simpa using h_works⟩)
  | false =>
    rw [if_neg (by simp [h_par])] at h_raised h_raises
    rw [if_neg Bool.false_ne_true]
    obtain ⟨p, h_p⟩ := h_raises
    obtain ⟨m, -, h_ran, h_bound, h_stop⟩ := h_raised.1.reached
    have h_ran : ∀ q < m, env.cancelCall k q = false ∧ ∃ r, (q, .ok r) ∈ outs :=
      fun q h_q => h_ran q (Nat.zero_le q) h_q
    constructor
    · rintro h_idle ⟨p', h_p', q, h_q, req, h_req, h_works⟩
      obtain rfl := h.eq_of_breaksAt h_ran h_stop h_p'
      obtain ⟨-, r, h_out⟩ := h_ran q h_q
      rw [h_idle q r req h_out h_req] at h_works
      cases h_works
    · intro h_not q r req h_out h_req
      by_contra h_works
      obtain rfl := h.eq_of_breaksAt h_ran h_stop h_p
      exact h_not ⟨p, h_p, q, h_bound q r h_out, req, h_req, by simpa using h_works⟩

end Handlers

/-! ### One turn -/

/-- The turn of the response, from `s`, keeps its work. -/
def RecordsWork (env : Env a) (stream : Bool) (k : ℕ) (response : LLMResponse)
    (compactorSaved savings : ℕ) (s : RunState a) : Prop :=
  ∃ obs, (toolTurn env stream k response compactorSaved savings s).2.trace = s.trace ++ obs ∧
    KeepsWork response.toolCalls obs

/-- **A turn keeps its work** unless the calls say that it is lost. -/
theorem recordsWork_iff (env : Env a) (stream : Bool) (k : ℕ) (r : LLMResponse)
    (compactorSaved savings : ℕ) (s : RunState a) :
    RecordsWork env stream k r compactorSaved savings s ↔ ¬LosesWork env k r.toolCalls := by
  -- the trace tells what was observed, so any observations that fit will do
  have h_iff : ∀ {t : RunState a} {obs : List Obs}, t.trace = s.trace ++ obs →
      (KeepsWork r.toolCalls obs ↔ ¬LosesWork env k r.toolCalls) →
      ((∃ obs, t.trace = s.trace ++ obs ∧ KeepsWork r.toolCalls obs) ↔
        ¬LosesWork env k r.toolCalls) := by
    intro t obs h_trace h_keeps
    rw [← h_keeps]
    constructor
    · rintro ⟨obs', h_trace', h_obs'⟩
      rwa [List.append_cancel_left (h_trace.symm.trans h_trace')]
    · exact fun h => ⟨obs, h_trace, h⟩
  unfold RecordsWork
  refine wp_toolTurn_stored (P := fun t => (∃ obs, t.trace = s.trace ++ obs ∧
    KeepsWork r.toolCalls obs) ↔ ¬LosesWork env k r.toolCalls) compactorSaved savings ?_
  refine Prog.wp_mono (wp_runTools env stream k r.toolCalls s) ?_ ?_
  · rintro ⟨handled, n⟩ v ⟨outs, obs, h_effect, h_handled⟩ t h_stored
    obtain ⟨turn, after, h_turn, h_trace, h_after⟩ := h_stored.trace
    rw [h_effect.trace, List.append_assoc] at h_trace
    exact h_iff h_trace ((h_effect.keepsWork_of_stored h_handled h_turn h_after).trans
      (h_effect.kept_iff h_handled))
  · rintro e v ⟨outs, obs, h_effect, h_raised⟩
    exact h_iff h_effect.trace (h_effect.keepsWork_of_raised.trans (h_effect.idle_iff h_raised))

end Nexus
