import NexusAgent.Runner.Recorded

/-!
# Parallel and sequential tool calls

The two branches agree on what a call is answered, and differ in how they number the records,
in when they look at a cancellation and in what they stream.

* `Env.sequential`: the same agent without parallel tool calls.
* `wp_runParallel_answers`, `wp_runSequential_answers`: the two branches on calls that do not
  wait.
* `tool_results_kept_iff`: a turn keeps its work and agrees with sequential mode exactly when
  no work is lost and the calls say so.
* `tool_results_lost`: a tool that runs after an elicitation.
-/

open Lib

namespace Nexus

variable {a : StoreAdapter}

/-- The agent with parallel tool calls turned off. -/
def Env.sequential (env : Env a) : Env a :=
  { env with config := { env.config with parallelToolCalls := false } }

/-- The results of tools do not depend on each other: no body looks at the state bag the
others write. -/
def Independent (env : Env a) (k : ℕ) : Prop :=
  ∀ pos key args state state', (env.toolBody k pos key args state).1 =
    (env.toolBody k pos key args state').1

/-- The text a call is answered with. -/
def resultText (env : Env a) (k pos : ℕ) (req : ToolCallRequest) (state : StateBag) : String :=
  match env.registry.reachedKey req.toolName with
  | none =>
    let parts := PyStr.split '.' req.toolName
    "Error executing tool " ++ req.toolName ++ ": Tool '" ++ parts.headD "" ++ "." ++
      parts.tail.headD "" ++ "' not found in registry"
  | some key =>
    match (env.toolBody k pos key (cleanArgs env.config.interceptor req.toolInput) state).1 with
    | .ok text => text
    | .error e => "Error executing tool " ++ req.toolName ++ ": " ++ e

/-- The text of a result does not depend on the state, where calls are independent. -/
theorem Independent.resultText {env : Env a} {k : ℕ} (h : Independent env k) (pos : ℕ)
    (req : ToolCallRequest) (state state' : StateBag) :
    resultText env k pos req state = resultText env k pos req state' := by
  unfold Nexus.resultText
  cases env.registry.reachedKey req.toolName with
  | none => rfl
  | some key =>
    dsimp only
    rw [h pos key _ state state']

/-! ### One call -/

/-- The call at place `pos` was answered, from `s` to `t`. -/
structure Answers (env : Env a) (k pos : ℕ) (req : ToolCallRequest) (s : RunState a) (h : Handled)
    (t : RunState a) : Prop where
  fate : ∃ key, callFate env req = .answered key
  paused : h.paused = false
  record : h.record =
    recordOf env req (s.session.tcCounter + 1) (resultText env k pos req s.state)
  counter : t.session.tcCounter = s.session.tcCounter + 1
  events : t.events = s.events

/-- **Handling a call that does not wait.** -/
theorem wp_handleTool_answers {env : Env a} {req : ToolCallRequest} (h_fate : callFate env req ≠ .waits)
    (k pos : ℕ) (s : RunState a) :
    Prog.wp (handleTool env k pos req) (fun h t => Answers env k pos req s h t)
      (fun _ t => callFate env req = .raises ∧ t.events = s.events) s := by
  unfold handleTool onLive nextTcIndex
  simp only [Prog.wp_bind, Prog.wp_get, Prog.wp_zoom]
  refine Prog.wp_mono (wp_intercept _ env.counter s.sessionTurnIndex req.toolInput s.live) ?_ ?_
  · rintro ⟨args, updates⟩ l ⟨h_args, hl, h_formed⟩
    have h_args : args = cleanArgs env.config.interceptor req.toolInput := h_args
    have h_counter := hl.tcCounter
    simp only [Prog.wp_update]
    by_cases h_gated : env.registry.gated req.toolName = true
    · -- a gated call that does not wait needs approval, which raises
      have h_app : env.registry.needsApproval req.toolName = true := by
        by_contra h_not
        exact h_fate (by simp [callFate, h_formed, h_gated, h_not])
      simp only [h_gated, h_app, if_true, Prog.wp_throw]
      exact ⟨by simp [callFate, h_formed, h_gated, h_app], rfl⟩
    · rw [Bool.not_eq_true] at h_gated
      simp only [h_gated, Bool.false_eq_true, if_false, Prog.wp_bind]
      -- any other call is executed on the arguments without the reserved ones
      have h_answered : ∃ key, callFate env req = .answered key := by
        simp only [callFate, h_formed, h_gated, Bool.false_eq_true, if_false]
        exact ⟨_, rfl⟩
      unfold executeTool
      split
      · next h_key =>
        refine ⟨h_answered, rfl, ?_, congrArg (· + 1) h_counter, rfl⟩
        show recordOf env req (l.session.tcCounter + 1) _ = _
        rw [h_counter]
        unfold resultText
        rw [h_key]
      · next key h_key =>
        refine ⟨h_answered, rfl, ?_, congrArg (· + 1) h_counter, rfl⟩
        show recordOf env req (l.session.tcCounter + 1) _ = _
        rw [h_counter, h_args]
        unfold resultText
        rw [h_key]
        rfl
  · rintro msg l ⟨hl, h_bad⟩
    refine ⟨?_, trivial⟩
    simp [callFate, h_bad]

/-! ### The parallel branch -/

/-- The record of the call at place `i`, numbered as the `j`-th from the state `s`. -/
def answerAs (env : Env a) (k : ℕ) (s : RunState a) (j i : ℕ) (req : ToolCallRequest) :
    ToolCallRecord :=
  recordOf env req (s.session.tcCounter + j + 1) (resultText env k i req s.state)

/-- The records of all calls, numbered along `order`. -/
structure NumberedAlong (env : Env a) (k : ℕ) (calls : List ToolCallRequest) (s : RunState a)
    (order : List ℕ) (records : List ToolCallRecord) : Prop where
  length : records.length = calls.length
  records : ∀ (i : ℕ) req, calls[i]? = some req → ∃ j : ℕ, order[j]? = some i ∧
    records[i]? = some (answerAs env k s j i req)

/-- Handlers of calls none of which waits, from `s`. -/
structure Answering (env : Env a) (k : ℕ) (calls : List ToolCallRequest) (s : RunState a)
    (outs : List (ℕ × Except RunError Handled)) (t : RunState a) : Prop where
  raises : ∀ i e, (i, .error e) ∈ outs → ∃ req ∈ calls, callFate env req = .raises
  answers : (∀ i e, (i, .error e) ∉ outs) → t.session.tcCounter = s.session.tcCounter + outs.length ∧
    ∀ j i r, outs[j]? = some (i, .ok r) → r.paused = false ∧ ∃ req, calls[i]? = some req ∧
      callFate env req ≠ .raises ∧ r.record = answerAs env k s j i req
  events : t.events = s.events

/-- One more handler. -/
theorem Answering.snoc_ok {env : Env a} {k i : ℕ} {calls : List ToolCallRequest} {s t u : RunState a}
    {outs : List (ℕ × Except RunError Handled)} {req : ToolCallRequest} {r : Handled}
    (h_ind : Independent env k) (h : Answering env k calls s outs t) (h_req : calls[i]? = some req)
    (h_one : Answers env k i req t r u) : Answering env k calls s (outs ++ [(i, .ok r)]) u where
  raises i' e h_mem := h.raises i' e (by simpa using h_mem)
  answers h_none := by
    obtain ⟨h_counter, h_answers⟩ := h.answers fun i' e h_mem =>
      h_none i' e (List.mem_append_left _ h_mem)
    -- the counter moves on by one
    refine ⟨?_, fun j i' r' h_j => ?_⟩
    · rw [h_one.counter, h_counter, List.length_append]
      rfl
    · -- an answer from before, this one, or none
      rcases Nat.lt_trichotomy j outs.length with h_lt | rfl | h_gt
      · rw [List.getElem?_append_left h_lt] at h_j
        exact h_answers j i' r' h_j
      · rw [List.getElem?_concat_length] at h_j
        obtain ⟨rfl, h_r⟩ := Prod.mk.inj (Option.some.inj h_j)
        obtain rfl := Except.ok.inj h_r
        -- the call was executed
        obtain ⟨key, h_key⟩ := h_one.fate
        refine ⟨h_one.paused, req, h_req, by simp [h_key], ?_⟩
        rw [h_one.record, h_counter, h_ind.resultText i req t.state s.state]
        rfl
      · rw [List.getElem?_eq_none (by rw [List.length_append]; exact h_gt)] at h_j
        cases h_j
  events := h_one.events.trans h.events

/-- A call that raises joins the answers so far. -/
theorem Answering.snoc_error {env : Env a} {k i : ℕ} {calls : List ToolCallRequest}
    {s t u : RunState a} {outs : List (ℕ × Except RunError Handled)} {req : ToolCallRequest}
    {e : RunError} (h : Answering env k calls s outs t) (h_req : calls[i]? = some req)
    (h_raises : callFate env req = .raises) (h_events : u.events = t.events) :
    Answering env k calls s (outs ++ [(i, .error e)]) u where
  raises i' e' h_mem := by
    rcases List.mem_append.mp h_mem with h_mem | -
    · exact h.raises i' e' h_mem
    · exact ⟨req, List.mem_of_getElem? h_req, h_raises⟩
  answers h_none := absurd (List.mem_append_right _ List.mem_cons_self) (h_none i e)
  events := h_events.trans h.events

/-- **The parallel branch** answers every call, numbered along the schedule, and streams
nothing. It raises if a call does. -/
theorem wp_runParallel_answers {env : Env a} {k : ℕ} {calls : List ToolCallRequest}
    (h_fates : ∀ req ∈ calls, callFate env req ≠ .waits) (h_ind : Independent env k)
    (s : RunState a) :
    Prog.wp (runParallel env k calls)
      (fun handled t => (∀ req ∈ calls, callFate env req ≠ .raises) ∧ t.events = s.events ∧
        NumberedAlong env k calls s (env.gatherOrder k calls.length).val (handled.map Handled.record))
      (fun _ t => ¬(∀ req ∈ calls, callFate env req ≠ .raises) ∧ t.events = s.events) s := by
  unfold runParallel Prog.gather
  simp only [Prog.wp_bind]
  have h_task : ∀ i ∈ (env.gatherOrder k calls.length).val, ∀ outs t,
      Answering env k calls s outs t →
      Prog.wp (handleAt env k calls i)
        (fun r u => Answering env k calls s (outs ++ [(i, .ok r)]) u)
        (fun e u => Answering env k calls s (outs ++ [(i, .error e)]) u) t := by
    intro i hi outs t h_t
    have h_lt : i < calls.length := by
      simpa using (env.gatherOrder k calls.length).property.subset hi
    have h_req : calls[i]? = some calls[i] := List.getElem?_eq_getElem h_lt
    unfold handleAt
    rw [h_req]
    exact Prog.wp_mono (wp_handleTool_answers (h_fates _ (List.getElem_mem h_lt)) k i t)
      (fun r u h_one => h_t.snoc_ok h_ind h_req h_one)
      fun e u h_raises => h_t.snoc_error h_req h_raises.1 h_raises.2
  have h_start : Answering env k calls s [] s := ⟨by simp, fun _ => ⟨rfl, by simp⟩, rfl⟩
  refine Prog.wp_mono (Prog.wp_gatherFrom _ h_task [] s h_start) ?_ (fun _ _ h => h)
  rintro outs t ⟨h_outs, h_places⟩
  rw [List.map_nil, List.nil_append] at h_places
  cases h_first : Prog.firstError outs with
  | some e =>
    obtain ⟨i, e', h_e⟩ := Prog.exists_error (by simp [h_first] : Prog.firstError outs ≠ none)
    obtain ⟨req, h_mem, h_raises⟩ := h_outs.raises i e' h_e
    exact ⟨fun h_fine => h_fine req h_mem h_raises, h_outs.events⟩
  | none =>
    have h_perm : (outs.map Prod.fst).Perm (List.range calls.length) :=
      h_places ▸ (env.gatherOrder k calls.length).property
    obtain ⟨h_length, h_order⟩ := Prog.getElem?_inOrder h_perm h_first
    obtain ⟨-, h_answers⟩ := h_outs.answers fun i e h_mem => by
      have := List.findSome?_eq_none_iff.mp h_first _ h_mem
      cases this
    -- the result at a place is that of a handler on the schedule
    have h_at : ∀ i r, (Prog.inOrder calls.length outs)[i]? = some r → ∃ j,
        (env.gatherOrder k calls.length).val[j]? = some i ∧ r.paused = false ∧
        ∃ req, calls[i]? = some req ∧ callFate env req ≠ .raises ∧
          r.record = answerAs env k s j i req := by
      intro i r h_i
      obtain ⟨j, h_j⟩ := List.mem_iff_getElem?.mp (h_order i r h_i)
      refine ⟨j, ?_, h_answers j i r h_j⟩
      rw [← h_places, List.getElem?_map, h_j]
      rfl
    have h_running : ∀ r ∈ Prog.inOrder calls.length outs, r.paused = false := by
      intro r h_r
      obtain ⟨i, h_i⟩ := List.mem_iff_getElem?.mp h_r
      obtain ⟨-, -, h_paused, -⟩ := h_at i r h_i
      exact h_paused
    have h_all : untilPaused (Prog.inOrder calls.length outs) = Prog.inOrder calls.length outs := by
      generalize Prog.inOrder calls.length outs = results at h_running
      induction results with
      | nil => rfl
      | cons r results ih =>
        rw [List.forall_mem_cons] at h_running
        unfold untilPaused
        rw [if_neg (by simp [h_running.1]), ih h_running.2]
    have h_result : ∀ (i : ℕ) req, calls[i]? = some req →
        ∃ r, (Prog.inOrder calls.length outs)[i]? = some r := by
      intro i req h_req
      have h_lt := (List.getElem?_eq_some_iff.mp h_req).1
      exact ⟨_, List.getElem?_eq_getElem (h_length.symm ▸ h_lt)⟩
    show (∀ req ∈ calls, _) ∧ _ ∧ NumberedAlong _ _ _ _ _ ((untilPaused _).map _)
    rw [h_all]
    refine ⟨fun req h_mem => ?_, h_outs.events, (List.length_map _).trans h_length,
      fun i req h_req => ?_⟩
    · obtain ⟨i, h_i⟩ := List.mem_iff_getElem?.mp h_mem
      obtain ⟨r, h_r⟩ := h_result i req h_i
      obtain ⟨j, -, -, req', h_req', h_fate, -⟩ := h_at i r h_r
      obtain rfl := Option.some.inj (h_i.symm.trans h_req')
      exact h_fate
    · obtain ⟨r, h_r⟩ := h_result i req h_req
      obtain ⟨j, h_j, -, req', h_req', -, h_record⟩ := h_at i r h_r
      obtain rfl := Option.some.inj (h_req.symm.trans h_req')
      refine ⟨j, h_j, ?_⟩
      rw [List.getElem?_map, h_r, Option.map_some, h_record]

/-! ### The sequential branch -/

/-- From the call at place `pos` on, nothing raises and the run is not cancelled. -/
structure Smooth (env : Env a) (k pos : ℕ) (calls : List ToolCallRequest) : Prop where
  fates : ∀ req ∈ calls, callFate env req ≠ .raises
  going : ∀ i < calls.length, env.cancelCall k (pos + i) = false

/-- The tool events of the calls from place `pos` on: none without calls, without streaming,
or if the run is cancelled at once. -/
def Streamed (env : Env a) (stream : Bool) (k pos : ℕ) (calls : List ToolCallRequest)
    (s t : RunState a) : Prop :=
  ∃ new, toolEvents t.events = toolEvents s.events ++ new ∧
    (new = [] ↔ calls = [] ∨ stream = false ∨ env.cancelCall k pos = true)

/-- The state with the event of a call streamed. -/
def RunState.emitted (stream : Bool) (e : StreamEvent) (s : RunState a) : RunState a :=
  if stream then { s with events := s.events ++ [e] } else s

theorem wp_emit_emitted (stream : Bool) (e : StreamEvent) {Q : Unit → RunState a → Prop}
    {E : RunError → RunState a → Prop} {s : RunState a} :
    Prog.wp (emit stream e) Q E s ↔ Q () (s.emitted stream e) :=
  Iff.rfl

@[simp] theorem RunState.emitted_live (stream : Bool) (e : StreamEvent) (s : RunState a) :
    (s.emitted stream e).live = s.live := by
  cases stream <;> rfl

@[simp] theorem RunState.emitted_state (stream : Bool) (e : StreamEvent) (s : RunState a) :
    (s.emitted stream e).state = s.state := by
  cases stream <;> rfl

/-- What is streamed of a call is seen if the run is streamed. -/
theorem toolEvents_emitted (stream : Bool) {e : StreamEvent} (h_tool : e.isTool = true)
    (s : RunState a) :
    toolEvents (s.emitted stream e).events = toolEvents s.events ++ if stream then [e] else [] := by
  cases stream with
  | false => exact (List.append_nil _).symm
  | true =>
    show toolEvents (s.events ++ [e]) = _
    simp [toolEvents, h_tool]

/-- A call that streams its start, and then what `t` adds. -/
theorem Streamed.cons {env : Env a} {stream : Bool} {k pos : ℕ} {req : ToolCallRequest}
    {calls : List ToolCallRequest} {s t : RunState a} {e : StreamEvent} (h_tool : e.isTool = true)
    (h_going : env.cancelCall k pos = false)
    (h : ∃ new, toolEvents t.events = toolEvents (s.emitted stream e).events ++ new ∧
      (stream = false → new = [])) :
    Streamed env stream k pos (req :: calls) s t := by
  obtain ⟨new, h_events, h_quiet⟩ := h
  rw [toolEvents_emitted stream h_tool, List.append_assoc] at h_events
  -- the event of this call comes first, if the run streams
  refine ⟨_, h_events, ?_⟩
  cases stream with
  | false => simp [h_quiet rfl]
  | true => simp [h_going]

/-- The next record, seen from one call before. -/
theorem answerAs_next {env : Env a} {k pos : ℕ} {req : ToolCallRequest} {s t : RunState a}
    (h_ind : Independent env k) (h_counter : t.session.tcCounter = s.session.tcCounter + 1)
    (i : ℕ) : answerAs env k t i (pos + 1 + i) req = answerAs env k s (i + 1) (pos + (i + 1)) req := by
  unfold answerAs
  rw [h_counter, h_ind.resultText _ req t.state s.state,
    show s.session.tcCounter + 1 + i + 1 = s.session.tcCounter + (i + 1) + 1 by omega,
    show pos + 1 + i = pos + (i + 1) by omega]

/-- **The sequential branch** answers every call, numbered in their order, and streams every
call it comes to. It raises if a call does, or where the run is cancelled. -/
theorem wp_runSequential_answers {env : Env a} {k : ℕ} (stream : Bool)
    {calls : List ToolCallRequest} (h_fates : ∀ req ∈ calls, callFate env req ≠ .waits)
    (h_ind : Independent env k) (pos : ℕ) (s : RunState a) :
    Prog.wp (runSequential env stream k pos calls)
      (fun handled t => Smooth env k pos calls ∧ Streamed env stream k pos calls s t ∧
        handled.length = calls.length ∧ ∀ i req, calls[i]? = some req →
          (handled.map Handled.record)[i]? = some (answerAs env k s i (pos + i) req))
      (fun _ t => ¬Smooth env k pos calls ∧ Streamed env stream k pos calls s t) s := by
  induction calls generalizing pos s with
  | nil =>
    refine ⟨⟨nofun, nofun⟩, ⟨[], (List.append_nil _).symm, by simp⟩, rfl, nofun⟩
  | cons req calls ih =>
    rw [List.forall_mem_cons] at h_fates
    unfold runSequential raiseIfCancelled
    rw [Prog.wp_bind, Prog.wp_ite]
    refine ⟨fun h_cancel => ⟨fun h_smooth => ?_, [], (List.append_nil _).symm, by simp [h_cancel]⟩,
      fun h_going => ?_⟩
    · have := h_smooth.going 0 (Nat.succ_pos _)
      rw [Nat.add_zero, h_cancel] at this
      cases this
    rw [Bool.not_eq_true] at h_going
    simp only [Prog.wp_pure, Prog.wp_bind, Prog.wp_get, wp_emit_emitted]
    generalize h_e : StreamEvent.toolCall s.sessionTurnIndex req.toolName req.toolInput = e
    have h_tool : e.isTool = true := h_e ▸ rfl
    refine Prog.wp_mono (wp_handleTool_answers h_fates.1 k pos (s.emitted stream e)) ?_ ?_
    · intro r t h_one
      have h_record : r.record = answerAs env k s 0 (pos + 0) req := by
        rw [h_one.record, RunState.emitted_state]
        show recordOf env req ((s.emitted stream e).live.session.tcCounter + 1) _ = _
        rw [RunState.emitted_live]
        rfl
      have h_counter : t.session.tcCounter = s.session.tcCounter + 1 := by
        rw [h_one.counter]
        show (s.emitted stream e).live.session.tcCounter + 1 = _
        rw [RunState.emitted_live]
      -- the rest, once the result of this call was streamed or not
      have h_rest : ∀ u : RunState a, u.live = t.live →
          (∃ new, toolEvents u.events = toolEvents (s.emitted stream e).events ++ new ∧
            (stream = false → new = [])) →
          Prog.wp (if r.paused = true then do
              emitPaused stream
              pure [r]
            else do
              let hs ← runSequential env stream k (pos + 1) calls
              pure (r :: hs))
            (fun handled t => Smooth env k pos (req :: calls) ∧
              Streamed env stream k pos (req :: calls) s t ∧
              handled.length = (req :: calls).length ∧ ∀ i req', (req :: calls)[i]? = some req' →
                (handled.map Handled.record)[i]? = some (answerAs env k s i (pos + i) req'))
            (fun _ t => ¬Smooth env k pos (req :: calls) ∧
              Streamed env stream k pos (req :: calls) s t) u := by
        rintro u h_live ⟨new, h_new, h_quiet⟩
        rw [if_neg (by simp [h_one.paused])]
        simp only [Prog.wp_bind, Prog.wp_pure]
        -- what the rest streams comes after this call's events
        have h_streamed : ∀ v, Streamed env stream k (pos + 1) calls u v →
            Streamed env stream k pos (req :: calls) s v := by
          rintro v ⟨new', h_new', h_iff⟩
          refine .cons h_tool h_going ⟨new ++ new', ?_, fun h_off => ?_⟩
          · rw [h_new', h_new, List.append_assoc]
          · rw [h_quiet h_off, h_iff.mpr (.inr (.inl h_off))]
            rfl
        refine Prog.wp_mono (ih h_fates.2 (pos + 1) u) ?_ ?_
        · rintro handled v ⟨h_smooth, h_v, h_length, h_records⟩
          refine ⟨⟨?_, fun i hi => ?_⟩, h_streamed v h_v, by simp [h_length], fun i req' h_i => ?_⟩
          · obtain ⟨key, h_key⟩ := h_one.fate
            exact List.forall_mem_cons.mpr ⟨by simp [h_key], h_smooth.fates⟩
          · cases i with
            | zero => exact h_going
            | succ i =>
              have := h_smooth.going i (by simpa using hi)
              rwa [show pos + 1 + i = pos + (i + 1) by omega] at this
          · cases i with
            | zero =>
              obtain rfl := Option.some.inj h_i
              exact congrArg some h_record
            | succ i =>
              have h_u : u.session.tcCounter = s.session.tcCounter + 1 := by
                rw [RunState.session, h_live]
                exact h_counter
              have h_at := h_records i req' h_i
              rw [answerAs_next h_ind h_u] at h_at
              exact h_at
        · rintro e' v ⟨h_rough, h_v⟩
          refine ⟨fun h_smooth => h_rough ⟨?_, fun i hi => ?_⟩, h_streamed v h_v⟩
          · exact (List.forall_mem_cons.mp h_smooth.fates).2
          · have := h_smooth.going (i + 1) (by simpa using hi)
            rwa [show pos + (i + 1) = pos + 1 + i by omega] at this
      rw [Prog.wp_ite]
      refine ⟨fun _ => ?_, fun _ => ?_⟩
      · rw [Prog.wp_bind, wp_emit_emitted]
        have h_new := toolEvents_emitted stream (e := .toolResult s.sessionTurnIndex req.toolName
          r.record.tcId r.record.rawResponse) rfl t
        rw [h_one.events] at h_new
        refine h_rest _ (RunState.emitted_live _ _ _) ⟨_, h_new, fun h_off => ?_⟩
        rw [h_off]
        rfl
      · refine h_rest t rfl ⟨[], ?_, fun _ => rfl⟩
        rw [h_one.events, List.append_nil]
    · rintro e' t ⟨h_raises, h_events⟩
      refine ⟨fun h_smooth => ?_, .cons h_tool h_going ⟨[], ?_, fun _ => rfl⟩⟩
      · exact (List.forall_mem_cons.mp h_smooth.fates).1 h_raises
      · rw [h_events, List.append_nil]

/-! ### Both branches -/

/-- The records of the turns of a run. -/
def recordsOf (s : RunState a) : List (List ToolCallRecord) :=
  (turnsOf s.trace).map TurnRecord.toolCalls

/-- The turn of the response agrees with that of sequential mode: the same records, and the
same events of tool calls and results in some order. -/
structure AgreesWithSequential (env : Env a) (stream : Bool) (k : ℕ) (response : LLMResponse)
    (compactorSaved savings : ℕ) (s : RunState a) : Prop where
  records : recordsOf (toolTurn env stream k response compactorSaved savings s).2 =
    recordsOf (toolTurn env.sequential stream k response compactorSaved savings s).2
  events : (toolEvents (toolTurn env stream k response compactorSaved savings s).2.events).Perm
    (toolEvents (toolTurn env.sequential stream k response compactorSaved savings s).2.events)

/-- When the two modes agree on calls that do not wait: the parallel branch is not taken, or
a call raises or the run is not cancelled and the handlers run in the order of the calls,
and there is nothing to stream. -/
def SameAsSequential (env : Env a) (stream : Bool) (k : ℕ) (calls : List ToolCallRequest) : Prop :=
  useParallel env calls = true →
    ((∃ req ∈ calls, callFate env req = .raises) ∨
      (∀ i < calls.length, env.cancelCall k i = false) ∧
        (env.gatherOrder k calls.length).val = List.range calls.length) ∧
    (stream = false ∨ env.cancelCall k 0 = true)

section Modes

variable {env : Env a} {stream : Bool} {k : ℕ} {r : LLMResponse} {s : RunState a}

/-- A sequence does not depend on the mode. -/
theorem runSequential_sequential (pos : ℕ) (calls : List ToolCallRequest) :
    runSequential env stream k pos calls = runSequential env.sequential stream k pos calls := by
  induction calls generalizing pos with
  | nil => rfl
  | cons req calls ih =>
    unfold runSequential
    rw [ih]
    rfl

/-- Where calls do not run in parallel, they run as if they never could. -/
theorem runTools_sequential (h : useParallel env r.toolCalls = false) :
    runTools env stream k r.toolCalls = runTools env.sequential stream k r.toolCalls := by
  have h_off : useParallel env.sequential r.toolCalls = false := rfl
  unfold runTools
  rw [if_neg (by simp [h]), if_neg (by simp [h_off]), runSequential_sequential]

/-- Where the parallel branch is not taken, the modes are the same. -/
theorem toolTurn_sequential (h : useParallel env r.toolCalls = false) (compactorSaved savings : ℕ) :
    toolTurn env stream k r compactorSaved savings =
      toolTurn env.sequential stream k r compactorSaved savings := by
  unfold toolTurn
  rw [runTools_sequential h]
  rfl

/-- Handling calls stores no record. -/
theorem recordsOf_effect {calls : List ToolCallRequest} {outs : List (ℕ × Except RunError Handled)}
    {obs : List Obs} {v : RunState a} (h : HandlingEffect env calls s outs obs v) :
    recordsOf v = recordsOf s := by
  unfold recordsOf
  rw [h.recall.1]

/-- What is stored after the calls are the records of what they gave. -/
theorem StoredAfter.records {handled : List Handled} {v t : RunState a}
    (h : StoredAfter handled v t) : recordsOf t = recordsOf v ++ [handled.map Handled.record] := by
  obtain ⟨turn, after, h_turn, h_trace, h_after⟩ := h.trace
  -- the observations behind the turn are no turns
  have h_rest : turnsOf after = [] := by
    refine turnsOf_quiet [] fun turn h_mem => ?_
    obtain ⟨message, h_eq⟩ := h_after _ h_mem
    cases h_eq
  unfold recordsOf
  rw [h_trace, turnsOf_append, List.map_append]
  show _ ++ (turn :: turnsOf after).map _ = _
  rw [h_rest, ← h_turn]
  rfl

/-- What a turn stored, from `s` to `t`: nothing if something raised, else the records of all
calls, numbered along `order`. -/
def TurnStored (env : Env a) (k : ℕ) (calls : List ToolCallRequest) (s t : RunState a)
    (order : List ℕ) (fine : Prop) : Prop :=
  (¬fine ∧ recordsOf t = recordsOf s) ∨
    (fine ∧ ∃ records, recordsOf t = recordsOf s ++ [records] ∧ NumberedAlong env k calls s order records)

/-- A turn stores what its tools answer, and streams no more tool events than they do. -/
theorem toolTurn_stored {env' : Env a} {fine : Prop} {order : List ℕ} {S : List StreamEvent → Prop}
    (h : Prog.wp (runTools env' stream k r.toolCalls)
      (fun p v => fine ∧ S (toolEvents v.events) ∧
        NumberedAlong env k r.toolCalls s order (p.1.map Handled.record))
      (fun _ v => ¬fine ∧ S (toolEvents v.events)) s) (compactorSaved savings : ℕ) :
    let t := (toolTurn env' stream k r compactorSaved savings s).2
    S (toolEvents t.events) ∧ TurnStored env k r.toolCalls s t order fine := by
  refine wp_toolTurn_stored (P := fun t => S (toolEvents t.events) ∧
    TurnStored env k r.toolCalls s t order fine) compactorSaved savings ?_
  refine Prog.wp_mono (Prog.wp_and (wp_runTools env' stream k r.toolCalls s) h) ?_ ?_
  · -- the calls returned, and their records are stored
    rintro p v ⟨⟨outs, obs, h_effect, -⟩, h_fine, h_events, h_numbered⟩ t h_stored
    refine ⟨by rwa [h_stored.events], .inr ⟨h_fine, p.1.map Handled.record, ?_, h_numbered⟩⟩
    rw [h_stored.records, recordsOf_effect h_effect]
  · -- one raised, and nothing is stored
    rintro e v ⟨⟨outs, obs, h_effect, -⟩, h_rough, h_events⟩
    exact ⟨h_events, .inl ⟨h_rough, recordsOf_effect h_effect⟩⟩

/-- What a turn in the parallel branch stores and streams. -/
theorem parallel_stored (stream : Bool) (s : RunState a)
    (h_par : useParallel env r.toolCalls = true)
    (h_fates : ∀ req ∈ r.toolCalls, callFate env req ≠ .waits) (h_ind : Independent env k)
    (compactorSaved savings : ℕ) :
    let t := (toolTurn env stream k r compactorSaved savings s).2
    toolEvents t.events = toolEvents s.events ∧ TurnStored env k r.toolCalls s t
      (env.gatherOrder k r.toolCalls.length).val (∀ req ∈ r.toolCalls, callFate env req ≠ .raises) := by
  refine toolTurn_stored (S := fun events => events = toolEvents s.events) ?_ compactorSaved savings
  unfold runTools
  rw [if_pos h_par, Prog.wp_bind]
  refine Prog.wp_mono (wp_runParallel_answers h_fates h_ind s) ?_ ?_
  · -- every call returned
    rintro handled v ⟨h_fine, h_events, h_numbered⟩
    exact ⟨h_fine, congrArg toolEvents h_events, h_numbered⟩
  · -- or one raised
    rintro e v ⟨h_rough, h_events⟩
    exact ⟨h_rough, congrArg toolEvents h_events⟩

/-- What a turn in the sequential branch stores and streams. -/
theorem sequential_stored (stream : Bool) (s : RunState a)
    (h_fates : ∀ req ∈ r.toolCalls, callFate env req ≠ .waits) (h_ind : Independent env k) (compactorSaved savings : ℕ) :
    let t := (toolTurn env.sequential stream k r compactorSaved savings s).2
    (∃ new, toolEvents t.events = toolEvents s.events ++ new ∧
        (new = [] ↔ r.toolCalls = [] ∨ stream = false ∨ env.cancelCall k 0 = true)) ∧
      TurnStored env k r.toolCalls s t (List.range r.toolCalls.length)
        (Smooth env k 0 r.toolCalls) := by
  refine toolTurn_stored (S := fun events => ∃ new, events = toolEvents s.events ++ new ∧
    (new = [] ↔ r.toolCalls = [] ∨ stream = false ∨ env.cancelCall k 0 = true)) ?_
    compactorSaved savings
  -- the mode is off
  have h_off : useParallel env.sequential r.toolCalls = false := rfl
  unfold runTools
  rw [if_neg (by simp [h_off]), ← runSequential_sequential, Prog.wp_bind]
  refine Prog.wp_mono (wp_runSequential_answers stream h_fates h_ind 0 s) ?_ ?_
  · -- every call returned, so each has its record
    rintro handled v ⟨h_smooth, h_streamed, h_length, h_records⟩
    refine ⟨h_smooth, h_streamed, (List.length_map _).trans h_length, fun i req h_i => ⟨i, ?_, ?_⟩⟩
    · exact List.getElem?_range (List.getElem?_eq_some_iff.mp h_i).1
    · rw [h_records i req h_i, Nat.zero_add]
  · -- or the sequence broke off
    rintro e v ⟨h_rough, h_streamed⟩
    exact ⟨h_rough, h_streamed⟩

/-- Records numbered along a schedule are those numbered in the order of the calls exactly
when the schedule is that order. -/
theorem NumberedAlong.eq_iff {calls : List ToolCallRequest} {order : List ℕ}
    (h_order : order.Perm (List.range calls.length)) {records records' : List ToolCallRecord}
    (h : NumberedAlong env k calls s order records)
    (h' : NumberedAlong env k calls s (List.range calls.length) records') :
    records = records' ↔ order = List.range calls.length := by
  have h_range : ∀ {i j : ℕ}, (List.range calls.length)[j]? = some i → j = i := by
    intro i j h_j
    have h_bound := (List.getElem?_eq_some_iff.mp h_j).1
    rw [List.length_range] at h_bound
    rw [List.getElem?_range h_bound] at h_j
    exact Option.some.inj h_j
  constructor
  · rintro rfl
    refine List.ext_getElem? fun i => ?_
    by_cases h_lt : i < calls.length
    · have h_req := List.getElem?_eq_getElem h_lt
      obtain ⟨j, h_j, h_record⟩ := h.records i _ h_req
      obtain ⟨j', h_j', h_record'⟩ := h'.records i _ h_req
      -- the number of a record tells its place on the schedule
      have h_index := congrArg ToolCallRecord.tcIndex
        (Option.some.inj (h_record.symm.trans h_record'))
      have h_same : j = j' := by
        simp only [answerAs, recordOf] at h_index
        omega
      obtain rfl : j = i := h_same.trans (h_range h_j')
      rw [List.getElem?_range h_lt, h_j]
    · rw [List.getElem?_eq_none (by rw [h_order.length_eq, List.length_range]; omega),
        List.getElem?_eq_none (by rw [List.length_range]; omega)]
  · rintro rfl
    refine List.ext_getElem? fun i => ?_
    by_cases h_lt : i < calls.length
    · have h_req := List.getElem?_eq_getElem h_lt
      obtain ⟨j, h_j, h_record⟩ := h.records i _ h_req
      obtain ⟨j', h_j', h_record'⟩ := h'.records i _ h_req
      rw [h_record, h_record', h_range h_j, h_range h_j']
    · have h_length := h.length
      have h_length' := h'.length
      rw [List.getElem?_eq_none (by omega), List.getElem?_eq_none (by omega)]

/-- **When the modes agree** on calls that do not wait. -/
theorem agreesWithSequential_iff (h_fates : ∀ req ∈ r.toolCalls, callFate env req ≠ .waits)
    (h_ind : Independent env k) (compactorSaved savings : ℕ) :
    AgreesWithSequential env stream k r compactorSaved savings s ↔
      SameAsSequential env stream k r.toolCalls := by
  unfold SameAsSequential
  cases h_par : useParallel env r.toolCalls with
  | false =>
    refine iff_of_true ?_ (fun h => absurd h Bool.false_ne_true)
    have h_same : toolTurn env stream k r compactorSaved savings =
        toolTurn env.sequential stream k r compactorSaved savings :=
      toolTurn_sequential h_par compactorSaved savings
    exact ⟨by rw [h_same], by rw [h_same]⟩
  | true =>
    obtain ⟨h_quiet, h_parallel⟩ := parallel_stored stream s h_par h_fates h_ind
      compactorSaved savings
    obtain ⟨⟨new, h_new, h_iff⟩, h_sequential⟩ := sequential_stored stream s
      h_fates h_ind compactorSaved savings
    have h_some : r.toolCalls ≠ [] := by
      intro h_nil
      simp [useParallel, h_nil] at h_par
    have h_events : (toolEvents (toolTurn env stream k r compactorSaved savings s).2.events).Perm
        (toolEvents (toolTurn env.sequential stream k r compactorSaved savings s).2.events) ↔
          stream = false ∨ env.cancelCall k 0 = true := by
      rw [h_quiet, h_new]
      constructor
      · intro h_perm
        have h_length := h_perm.length_eq
        rw [List.length_append] at h_length
        exact (h_iff.mp (List.length_eq_zero_iff.mp (by omega))).resolve_left h_some
      · intro h_off
        rw [h_iff.mpr (.inr h_off), List.append_nil]
    have h_records : recordsOf (toolTurn env stream k r compactorSaved savings s).2 =
        recordsOf (toolTurn env.sequential stream k r compactorSaved savings s).2 ↔
          (∃ req ∈ r.toolCalls, callFate env req = .raises) ∨
            (∀ i < r.toolCalls.length, env.cancelCall k i = false) ∧
              (env.gatherOrder k r.toolCalls.length).val = List.range r.toolCalls.length := by
      rcases h_parallel with ⟨h_raises, h_none⟩ | ⟨h_fine, records, h_one, h_numbered⟩
      · -- a call raises, in either mode
        have h_some_raises : ∃ req ∈ r.toolCalls, callFate env req = .raises := by
          by_contra h_not
          exact h_raises fun req h_mem h_fate => h_not ⟨req, h_mem, h_fate⟩
        refine iff_of_true ?_ (.inl h_some_raises)
        rcases h_sequential with ⟨-, h_none'⟩ | ⟨h_smooth, -⟩
        · rw [h_none, h_none']
        · exact absurd h_smooth.fates h_raises
      · have h_no_raise : ¬∃ req ∈ r.toolCalls, callFate env req = .raises := by
          rintro ⟨req, h_mem, h_fate⟩
          exact h_fine req h_mem h_fate
        rw [or_iff_right h_no_raise]
        rcases h_sequential with ⟨h_rough, h_none'⟩ | ⟨h_smooth, records', h_one', h_numbered'⟩
        · refine iff_of_false (fun h_eq => ?_) fun h_cond => h_rough ⟨h_fine, fun i hi => ?_⟩
          · rw [h_one, h_none'] at h_eq
            simpa using congrArg List.length h_eq
          · rw [Nat.zero_add]
            exact h_cond.1 i hi
        · have h_free : ∀ i < r.toolCalls.length, env.cancelCall k i = false := fun i hi => by
            have := h_smooth.going i hi
            rwa [Nat.zero_add] at this
          rw [h_one, h_one', and_iff_right h_free, ← h_numbered.eq_iff
            (env.gatherOrder k r.toolCalls.length).property h_numbered']
          constructor
          · intro h_eq
            simpa using List.append_cancel_left h_eq
          · intro h_eq
            rw [h_eq]
    constructor
    · exact fun h _ => ⟨h_records.mp h.records, h_events.mp h.events⟩
    · exact fun h => ⟨h_records.mpr (h rfl).1, h_events.mpr (h rfl).2⟩

end Modes

/-- No result of a turn is lost, and on calls that do not wait, with tools whose results do
not depend on each other, the turn agrees with that of sequential mode. -/
structure ToolResultsKept (env : Env a) (stream : Bool) (k : ℕ) (response : LLMResponse)
    (compactorSaved savings : ℕ) (s : RunState a) : Prop where
  work : RecordsWork env stream k response compactorSaved savings s
  modes : (∀ req ∈ response.toolCalls, callFate env req ≠ .waits) → Independent env k →
    AgreesWithSequential env stream k response compactorSaved savings s

/-- **The results of a turn are kept, and the modes agree**, exactly when no work is lost and,
where no call waits, nothing tells the modes apart. -/
theorem tool_results_kept_iff (env : Env a) (stream : Bool) (k : ℕ) (response : LLMResponse)
    (compactorSaved savings : ℕ) (s : RunState a) :
    ToolResultsKept env stream k response compactorSaved savings s ↔
      ¬LosesWork env k response.toolCalls ∧
        ((∀ req ∈ response.toolCalls, callFate env req ≠ .waits) → Independent env k →
          SameAsSequential env stream k response.toolCalls) := by
  constructor
  · -- the two parts of the property
    intro h
    refine ⟨(recordsWork_iff ..).mp h.work, fun h_fates h_ind => ?_⟩
    exact (agreesWithSequential_iff h_fates h_ind compactorSaved savings).mp (h.modes h_fates h_ind)
  · -- from the two parts of the condition
    rintro ⟨h_work, h_same⟩
    refine ⟨(recordsWork_iff ..).mpr h_work, fun h_fates h_ind => ?_⟩
    exact (agreesWithSequential_iff h_fates h_ind compactorSaved savings).mpr (h_same h_fates h_ind)

/-- An agent with a tool that charges a card and one that asks the user. -/
def chargeEnv : Env .memory where
  config := { parallelToolCalls := true }
  registry := [("shop.charge", {}), ("shop.request_user_input", {})]
  proxy := .scripted []

/-- A question, and a charge after it. -/
def askThenCharge : LLMResponse :=
  { toolCalls := [⟨"c1", "shop.request_user_input", []⟩, ⟨"c2", "shop.charge", []⟩] }

/-- Two charges. -/
def chargeTwice : LLMResponse :=
  { toolCalls := [⟨"c1", "shop.charge", []⟩, ⟨"c2", "shop.charge", []⟩] }

/-- A run of the agent before its first pass. -/
def chargeStart (stream : Bool) : RunState .memory :=
  startRun chargeEnv stream { userMessage := "Two tickets." } (.empty _)

/-- **The card is charged, and the turn has no record of it.** And two charges of a streamed
run tell the caller nothing. -/
theorem tool_results_lost :
    ¬ToolResultsKept chargeEnv false 0 askThenCharge 0 0 (chargeStart false) ∧
      ¬ToolResultsKept chargeEnv true 0 chargeTwice 0 0 (chargeStart true) := by
  constructor
  · -- work is lost: the call in front asks, the second charges
    intro h
    refine (recordsWork_iff ..).mp h.work ?_
    unfold LosesWork
    rw [if_pos (by decide +kernel)]
    exact .inr ⟨0, 1, _, _, Nat.one_pos, rfl, rfl, by decide +kernel, by decide +kernel⟩
  · -- in another order: the second call is cancelled in sequence only
    intro h
    have h_fates : ∀ req ∈ chargeTwice.toolCalls, callFate chargeEnv req ≠ .waits := by
      decide +kernel
    have h_ind : Independent chargeEnv 0 := fun _ _ _ _ _ => rfl
    have h_same := (agreesWithSequential_iff h_fates h_ind 0 0).mp (h.modes h_fates h_ind)
    have h_off := (h_same (by decide +kernel)).2
    revert h_off
    decide +kernel

end Nexus
