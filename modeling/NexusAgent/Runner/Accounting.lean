import NexusAgent.Runner.Results

/-!
# Status and turn count of a run

What `AgentRunResult` says about how a run ended. The turn counter goes up when a turn is
followed by another or by the final answer, not when the run pauses or is stopped, and the
status of a run whose counter reached the limit is overwritten after the loop, whatever the
loop ended with.

* `Accounted`: the status tells exhaustion from the other ends, and the count is the number
  of turns stored.
* `accounted_iff`: a run is accounted for exactly when no turn pauses or stops it and the
  answer does not come on the last permitted turn.
* `not_accounted`: an answer on the only permitted turn.
-/

open Lib

namespace Nexus

variable {a : StoreAdapter}

/-! ### How a run ends -/

/-- How the loop of a run ends: at its condition, by a turn that ended the run, or by an
exception. -/
def loopEnd (env : Env a) (stream : Bool) (args : RunArgs) (st : Store a) :
    Except RunError Prog.LoopEnd :=
  (Prog.loop (loopCond (turnLimit env args)) (turn env stream)
    (runFuel env (turnLimit env args)) (startRun env stream args st)).1

/-- How many turns a run appended to the session. -/
def appendedTurns (trace : List Obs) : ℕ :=
  trace.countP fun o => match o with
    | .turnAppended _ => true
    | _ => false

/-- The pass from `s` is the final answer of the run: the response has no tool calls and is
accepted, and the turn-end hook and the human in the loop let it be. -/
def AnswersRun (env : Env a) (stream : Bool) (s : RunState a) : Prop :=
  ∃ raw, callResponse env stream s.calls = .ok raw ∧
    (acceptedResponse env s.calls raw).toolCalls = [] ∧
    structuredFailure env (acceptedResponse env s.calls raw) = none ∧
    (decisionAfter env s.calls).action ≠ .stop ∧ injectedMessage env s.calls = none ∧
    humanInLoopDue env.config.turns s.runTurnIndex = false

/-- The result of a run accounts for its turns. -/
structure Accounted (env : Env a) (stream : Bool) (args : RunArgs) (st : Store a) : Prop where
  /-- The status is the limit's if and only if all turns were used and none ended the run. -/
  limit : (resultOf (execRun env stream args st)).status = .maxTurnsReached ↔
    appendedTurns (execRun env stream args st).trace = turnLimit env args ∧
      loopEnd env stream args st = .ok .done
  /-- A final answer on any permitted turn completes the run. -/
  answer : ∀ s, TurnOf env stream args st s → AnswersRun env stream s →
    (resultOf (execRun env stream args st)).status = .completed
  turns : (resultOf (execRun env stream args st)).turnsUsed =
    appendedTurns (execRun env stream args st).trace

/-- An accepted response the result accounts for, in the turn from `s`: nothing stops the
run, no call waits for the caller, and if nothing is injected, no human is due and a
response without tool calls does not come on the last turn. -/
structure ResponseCounts (env : Env a) (limit : ℕ) (s : RunState a) (r : LLMResponse) : Prop where
  decision : (decisionAfter env s.calls).action ≠ .stop
  calls : ∀ tc ∈ r.toolCalls, env.registry.gated tc.toolName = false
  human : injectedMessage env s.calls = none →
    humanInLoopDue env.config.turns s.runTurnIndex = false
  answer : injectedMessage env s.calls = none → r.toolCalls = [] → s.runTurnIndex + 1 < limit

/-- A turn the result accounts for: its response is asked for again, or is accounted for. -/
def TurnCounts (env : Env a) (stream : Bool) (limit : ℕ) (s : RunState a) : Prop :=
  ∀ raw, callResponse env stream s.calls = .ok raw →
    structuredFailure env (acceptedResponse env s.calls raw) = none →
      ResponseCounts env limit s (acceptedResponse env s.calls raw)

/-! ### Counting -/

theorem appendedTurns_append (xs ys : List Obs) :
    appendedTurns (xs ++ ys) = appendedTurns xs + appendedTurns ys :=
  List.countP_append

/-- Observations of another kind are not counted. -/
theorem appendedTurns_quiet (xs : List Obs) {ys : List Obs}
    (h : ∀ turn, Obs.turnAppended turn ∉ ys) : appendedTurns (xs ++ ys) = appendedTurns xs := by
  have h_zero : appendedTurns ys = 0 := by
    refine List.countP_eq_zero.mpr fun o ho => ?_
    cases o <;> first | exact absurd ho (h _) | simp
  rw [appendedTurns_append, h_zero, Nat.add_zero]

/-- At the head of the loop: every stored turn is counted, and nothing has happened to the
status. -/
structure Counted (limit : ℕ) (s : RunState a) : Prop where
  appended : appendedTurns s.trace = s.runTurnIndex
  status : s.status = .completed
  bound : s.runTurnIndex ≤ limit

/-- A model call appends no turn and leaves the index and the status. -/
theorem Replied.counted {env : Env a} {stream : Bool} {s t : RunState a} {sent : List Message}
    {r : LLMResponse} (h : Replied env stream s sent r t) :
    appendedTurns t.trace = appendedTurns s.trace ∧ t.runTurnIndex = s.runTurnIndex ∧
      t.status = s.status := by
  refine ⟨?_, by rw [h.rest], by rw [h.rest]⟩
  obtain ⟨u, events, h_open, rfl⟩ := h.opened
  obtain ⟨builds, session, messages, h_trace, h_builds, -⟩ := h_open.trace
  change appendedTurns u.trace = _
  rw [h_trace, List.append_assoc]
  -- neither the context that was built nor the call is an appended turn
  refine appendedTurns_quiet _ fun turn h_mem => ?_
  rcases List.mem_append.mp h_mem with h_build | h_call
  · obtain ⟨degraded, dropped, h_eq⟩ := h_builds _ h_build
    cases h_eq
  · simp at h_call

/-- Accepting a response appends no turn. -/
theorem Accepted.counted {env : Env a} {r : LLMResponse} {s t : RunState a}
    (h : Accepted env r s t) :
    appendedTurns t.trace = appendedTurns s.trace ∧ t.runTurnIndex = s.runTurnIndex ∧
      t.status = s.status := by
  cases h <;> exact ⟨rfl, rfl, rfl⟩

/-- Handling calls appends no turn. -/
theorem HandlingEffect.counted {env : Env a} {calls : List ToolCallRequest} {s t : RunState a}
    {outs : List (ℕ × Except RunError Handled)} {obs : List Obs}
    (h : HandlingEffect env calls s outs obs t) :
    appendedTurns t.trace = appendedTurns s.trace ∧ t.runTurnIndex = s.runTurnIndex := by
  refine ⟨?_, by rw [h.rest]⟩
  rw [h.trace]
  exact appendedTurns_quiet _ fun turn h_mem => h.logged.observed _ h_mem

/-- A stored turn is counted once. -/
theorem storedTurn_counted (env : Env a) (k : ℕ) (turn : TurnRecord) (s : RunState a) :
    appendedTurns (storedTurn env k turn s).trace = appendedTurns s.trace + 1 ∧
      (storedTurn env k turn s).runTurnIndex = s.runTurnIndex ∧
      (storedTurn env k turn s).status = s.status := by
  refine ⟨?_, rfl, rfl⟩
  rw [storedTurn_trace, appendedTurns_append]
  rfl

/-! ### One turn -/

/-- What a pass that did not raise does to the count. -/
inductive TurnOutcome (env : Env a) (stream : Bool) (limit : ℕ) (s : RunState a) :
    Prog.Ctl → RunState a → Prop
  /-- The run goes on, with the turn counted. -/
  | goesOn {s' : RunState a} (h_counted : Counted limit s') (h_counts : TurnCounts env stream limit s)
      (h_answer : ¬AnswersRun env stream s) : TurnOutcome env stream limit s .next s'
  /-- The run was paused or stopped, and the turn not counted. -/
  | cutShort {s' : RunState a} (h_index : s'.runTurnIndex = s.runTurnIndex)
      (h_appended : appendedTurns s'.trace = s.runTurnIndex + 1)
      (h_counts : ¬TurnCounts env stream limit s) (h_answer : ¬AnswersRun env stream s) :
    TurnOutcome env stream limit s .stop s'
  /-- The run was answered, and the turn counted. -/
  | answered {s' : RunState a} (h_index : s'.runTurnIndex = s.runTurnIndex + 1)
      (h_appended : appendedTurns s'.trace = s.runTurnIndex + 1) (h_status : s'.status = .completed)
      (h_counts : TurnCounts env stream limit s ↔ s.runTurnIndex + 1 < limit) :
    TurnOutcome env stream limit s .stop s'

section Outcome

variable {env : Env a} {stream : Bool} {limit : ℕ} {s : RunState a} {raw : LLMResponse}

/-- A turn is judged by the one response it gets. -/
theorem turnCounts_iff (h_raw : callResponse env stream s.calls = .ok raw)
    (h_valid : structuredFailure env (acceptedResponse env s.calls raw) = none) :
    TurnCounts env stream limit s ↔
      ResponseCounts env limit s (acceptedResponse env s.calls raw) := by
  refine ⟨fun h => h raw h_raw h_valid, fun h raw' h_raw' _ => ?_⟩
  obtain rfl := Except.ok.inj (h_raw.symm.trans h_raw')
  exact h

/-- What an answer of the run would have been. -/
theorem AnswersRun.of_raw (h : AnswersRun env stream s)
    (h_raw : callResponse env stream s.calls = .ok raw) :
    (acceptedResponse env s.calls raw).toolCalls = [] ∧
      structuredFailure env (acceptedResponse env s.calls raw) = none ∧
      (decisionAfter env s.calls).action ≠ .stop ∧ injectedMessage env s.calls = none ∧
      humanInLoopDue env.config.turns s.runTurnIndex = false := by
  obtain ⟨raw', h_raw', h_rest⟩ := h
  obtain rfl := Except.ok.inj (h_raw'.symm.trans h_raw)
  exact h_rest

/-- A decision to inject is no decision to stop. -/
theorem decision_of_injected {k : ℕ} {message : String} (h : injectedMessage env k = some message) :
    (decisionAfter env k).action ≠ .stop := by
  unfold injectedMessage at h
  split at h
  · next h_act =>
    rw [h_act]
    decide
  · cases h

/-- The end of a turn that was stored as the next one. -/
theorem EndTurn.outcome {final : Bool} {u s' : RunState a} {c : Prog.Ctl}
    (h : EndTurn env s.calls final u (.ok c) s')
    (h_raw : callResponse env stream s.calls = .ok raw)
    (h_valid : structuredFailure env (acceptedResponse env s.calls raw) = none)
    (h_ungated : ∀ tc ∈ (acceptedResponse env s.calls raw).toolCalls,
      env.registry.gated tc.toolName = false)
    (h_final : final = true ↔ (acceptedResponse env s.calls raw).toolCalls = [])
    (h_lt : s.runTurnIndex < limit) (h_index : u.runTurnIndex = s.runTurnIndex)
    (h_appended : appendedTurns u.trace = s.runTurnIndex + 1) (h_status : u.status = .completed) :
    TurnOutcome env stream limit s c s' := by
  generalize ho : (Except.ok c : Except RunError Prog.Ctl) = o at h
  cases h with
  | stopped h_stop =>
    obtain rfl := Except.ok.inj ho
    -- a decision to stop breaks off with the turn appended and not counted
    refine .cutShort h_index h_appended ?_ fun h => (h.of_raw h_raw).2.2.1 h_stop
    rw [turnCounts_iff h_raw h_valid]
    exact fun h => h.decision h_stop
  | injected h_msg =>
    obtain rfl := Except.ok.inj ho
    -- the injected message takes the loop to a next turn, within the limit
    refine .goesOn ⟨?_, h_status, ?_⟩ ?_ fun h => ?_
    · change appendedTurns (u.trace ++ [_]) = u.runTurnIndex + 1
      rw [appendedTurns_quiet _ (by simp), h_appended, h_index]
    · change u.runTurnIndex + 1 ≤ limit
      omega
    · rw [turnCounts_iff h_raw h_valid]
      refine ⟨decision_of_injected h_msg, h_ungated, fun h_none => ?_, fun h_none => ?_⟩ <;>
        exact absurd (h_none.symm.trans h_msg) (by simp)
    · exact absurd ((h.of_raw h_raw).2.2.2.1.symm.trans h_msg) (by simp)
  | human h_stop h_none h_due events =>
    obtain rfl := Except.ok.inj ho
    rw [h_index] at h_due
    refine .cutShort h_index h_appended ?_ fun h => ?_
    · rw [turnCounts_iff h_raw h_valid]
      exact fun h => absurd ((h.human h_none).symm.trans h_due) (by simp)
    · exact absurd ((h.of_raw h_raw).2.2.2.2.symm.trans h_due) (by simp)
  | timedOut => cases ho
  | onward h_stop h_none h_due =>
    obtain rfl := Except.ok.inj ho
    rw [h_index] at h_due
    -- nothing intervenes: the turn counts, and a final text answers the run
    have h_next : u.nextTurn.runTurnIndex = s.runTurnIndex + 1 := congrArg (· + 1) h_index
    cases final with
    | true =>
      refine .answered h_next h_appended h_status ?_
      rw [turnCounts_iff h_raw h_valid]
      exact ⟨fun h => h.answer h_none (h_final.mp rfl),
        fun h => ⟨h_stop, h_ungated, fun _ => h_due, fun _ _ => h⟩⟩
    | false =>
      have h_calls : (acceptedResponse env s.calls raw).toolCalls ≠ [] :=
        fun h => absurd (h_final.mpr h) (by simp)
      refine .goesOn ⟨h_appended.trans h_next.symm, h_status, ?_⟩ ?_ fun h => ?_
      · rw [h_next]
        omega
      · rw [turnCounts_iff h_raw h_valid]
        exact ⟨h_stop, h_ungated, fun _ => h_due, fun _ h => absurd h h_calls⟩
      · exact h_calls (h.of_raw h_raw).1

/-- **One turn.** -/
theorem TurnStep.outcome (h_empty : env.config.turns.stopOnEmptyToolCalls = true)
    (h_s : Counted limit s) (h_lt : s.runTurnIndex < limit) {c : Prog.Ctl} {s' : RunState a}
    (h : TurnStep env stream s (.ok c) s') : TurnOutcome env stream limit s c s' := by
  generalize ho : (Except.ok c : Except RunError Prog.Ctl) = o at h
  cases h with
  | cancelled => cases ho
  | callFailed => cases ho
  | retried h_reply h_fail =>
    obtain rfl := Except.ok.inj ho
    -- the retry appends no turn and counts none, so the two stay level
    obtain ⟨h_appended, h_index, h_status⟩ := h_reply.counted
    obtain ⟨raw, h_raw, rfl⟩ := h_reply.response
    refine .goesOn ⟨?_, h_status.trans h_s.status, ?_⟩ (fun raw' h_raw' h_valid => ?_) fun h => ?_
    · change appendedTurns (_ ++ [_]) = _
      rw [appendedTurns_quiet _ (by simp), h_appended, h_s.appended]
      exact h_index.symm
    · exact h_index.le.trans h_s.bound
    · obtain rfl := Except.ok.inj (h_raw.symm.trans h_raw')
      rw [h_fail] at h_valid
      cases h_valid
    · exact absurd ((h.of_raw h_raw).2.1.symm.trans h_fail) (by simp)
  | rejected => cases ho
  | @answered sent r t u h_reply h_accepted h_calls _ savings _ _ h_end =>
    subst ho
    -- a text without calls: its turn is stored, and `on_turn_end` decides
    obtain ⟨h_appended, h_index, h_status⟩ := h_reply.counted
    obtain ⟨h_appended', h_index', h_status'⟩ := h_accepted.counted
    obtain ⟨raw, h_raw, rfl⟩ := h_reply.response
    have h_stored := storedTurn_counted env s.calls
      (answerRecord (acceptedResponse env s.calls raw) savings
        (answering (acceptedResponse env s.calls raw) u)) (answering (acceptedResponse env s.calls raw) u)
    refine h_end.outcome h_raw h_accepted.noFailure (by simp [h_calls]) (by simp [h_calls]) h_lt
      (h_index'.trans h_index) ?_ (h_status'.trans (h_status.trans h_s.status))
    rw [h_stored.1, ← h_s.appended, ← h_appended, ← h_appended']
    rfl
  | toolsRaised => cases ho
  | @paused sent r t u v h_reply h_accepted _ outs obs h_effect handled n h_handled h_paused c' savings w h_w =>
    obtain rfl := Except.ok.inj ho
    subst h_w
    obtain ⟨h_appended, h_index, h_status⟩ := h_reply.counted
    obtain ⟨h_appended', h_index', h_status'⟩ := h_accepted.counted
    obtain ⟨h_appended'', h_index''⟩ := h_effect.counted
    obtain ⟨raw, h_raw, rfl⟩ := h_reply.response
    -- a run pauses for a gated call only, and its turn is appended but not counted
    obtain ⟨tc, h_tc, h_gated⟩ := h_effect.gated_of_paused
      (h_status'.trans (h_status.trans h_s.status)) h_paused
    refine .cutShort (h_index''.trans (h_index'.trans h_index)) ?_ ?_ fun h => ?_
    · change appendedTurns (v.trace ++ [_]) = _
      rw [appendedTurns_append, h_appended'', h_appended', h_appended, h_s.appended]
      rfl
    · rw [turnCounts_iff h_raw h_accepted.noFailure]
      exact fun h => absurd ((h.calls tc h_tc).symm.trans h_gated) (by simp)
    · rw [(h.of_raw h_raw).1] at h_tc
      cases h_tc
  | @handled sent r t u v h_reply h_accepted h_tools outs obs h_effect handled n h_handled h_running c' savings _ _ h_end =>
    subst ho
    obtain ⟨h_appended, h_index, h_status⟩ := h_reply.counted
    obtain ⟨h_appended', h_index', h_status'⟩ := h_accepted.counted
    obtain ⟨h_appended'', h_index''⟩ := h_effect.counted
    obtain ⟨raw, h_raw, rfl⟩ := h_reply.response
    -- an accepted response that stops at no calls has some
    have h_calls : (acceptedResponse env s.calls raw).toolCalls ≠ [] :=
      h_tools.resolve_right (by simp [h_empty])
    have h_stored := storedTurn_counted env s.calls
      (toolRecord env (acceptedResponse env s.calls raw) c' savings n handled v) v
    -- none of them paused the run
    have h_completed : v.status = .completed := by
      have h_v := h_effect.status
      rw [statusAfter, h_status', h_status, h_s.status] at h_v
      split_ifs at h_v with h_none
      · exact h_v
      · exact absurd h_v h_running
    refine h_end.outcome h_raw h_accepted.noFailure (h_effect.not_gated h_handled h_running)
      (by simp [h_calls]) h_lt (h_index''.trans (h_index'.trans h_index)) ?_ h_completed
    rw [h_stored.1, h_appended'', h_appended', h_appended, h_s.appended]

end Outcome

/-! ### The run -/

section Run

variable {env : Env a} {stream : Bool} {args : RunArgs} {st : Store a}

/-- The turns counted by a run are those of its loop. -/
theorem execRun_runTurnIndex (env : Env a) (stream : Bool) (args : RunArgs) (st : Store a) :
    (execRun env stream args st).runTurnIndex =
      (runLoop env stream (turnLimit env args) (startRun env stream args st)).runTurnIndex := by
  unfold execRun finishRun curateAtEnd
  dsimp only
  split_ifs <;> rfl

/-- The result of a run whose loop ended without an exception. -/
theorem result_of_loop {c : Prog.LoopEnd} {s : RunState a}
    (h : Prog.loop (loopCond (turnLimit env args)) (turn env stream)
      (runFuel env (turnLimit env args)) (startRun env stream args st) = (.ok c, s)) :
    loopEnd env stream args st = .ok c ∧
      (resultOf (execRun env stream args st)).status =
        (if turnLimit env args ≤ s.runTurnIndex then .maxTurnsReached else s.status) ∧
      (resultOf (execRun env stream args st)).turnsUsed = s.runTurnIndex ∧
      (execRun env stream args st).trace = s.trace := by
  have h_status := execRun_status env stream args st
  have h_index := execRun_runTurnIndex env stream args st
  have h_trace := execRun_trace env stream args st
  unfold runLoop at h_status h_index h_trace
  rw [h] at h_status h_index h_trace
  -- the finish reads the status and the index of the state that the loop left
  refine ⟨congrArg Prod.fst h, ?_, ?_, ?_⟩
  · refine h_status.trans ?_
    dsimp only
    split_ifs <;> rfl
  · refine h_index.trans ?_
    dsimp only
    split_ifs <;> rfl
  · refine h_trace.trans ?_
    dsimp only
    split_ifs <;> rfl

/-- A run always comes to an end. -/
theorem loop_ne_outOfFuel (env : Env a) (stream : Bool) (args : RunArgs) (st : Store a) :
    loopEnd env stream args st ≠ .ok .outOfFuel := by
  have h := wp_loop_turns env stream (turnLimit env args) (I := fun _ => True) (Q := fun _ => True)
    (E := fun _ _ => True) (startRun env stream args st) (fun _ _ _ _ _ _ => trivial)
    (fun _ _ _ _ _ _ => trivial) (fun _ _ _ _ _ _ _ => trivial) trivial
    (startRun_retries env stream args st).le
  unfold loopEnd
  unfold Prog.wp at h
  intro h_fuel
  rcases hr : Prog.loop (loopCond (turnLimit env args)) (turn env stream)
    (runFuel env (turnLimit env args)) (startRun env stream args st) with ⟨e | c, s⟩
  · -- an exception is no end of the loop
    rw [hr] at h_fuel
    cases h_fuel
  · rw [hr] at h h_fuel
    obtain rfl := Except.ok.inj h_fuel
    -- the loop ends at its condition or by a stop
    rcases h with ⟨h_end, -⟩ | ⟨h_end, -⟩ <;> cases h_end

/-- The state at the head of a run's loop is counted. -/
theorem counted_head (h_empty : env.config.turns.stopOnEmptyToolCalls = true) {s : RunState a}
    (h : HeadOf env stream (turnLimit env args) (startRun env stream args st) s) :
    Counted (turnLimit env args) s := by
  induction h with
  | refl => exact ⟨rfl, rfl, Nat.zero_le _⟩
  | @tail s s' _ h_pass ih =>
    obtain ⟨h_cond, h_body⟩ := h_pass
    have h_step := Prog.wp_ok (wp_turn env stream s) h_body
    have h_outcome := h_step.outcome h_empty ih (by simpa [loopCond] using h_cond)
    cases h_outcome with
    | goesOn h_counted => exact h_counted

/-- What the pass from a state the run visits does, when the run raises nothing: it goes on,
or the run ends with it. -/
theorem pass_of_turn (h_ok : ∀ e, loopEnd env stream args st ≠ .error e) {s : RunState a}
    (h : TurnOf env stream args st s) :
    ∃ c s', TurnStep env stream s (.ok c) s' ∧ (c = .stop →
      Prog.loop (loopCond (turnLimit env args)) (turn env stream)
        (runFuel env (turnLimit env args)) (startRun env stream args st) = (.ok .broke, s')) := by
  obtain ⟨h_head, h_lt⟩ := h
  -- the turn is one that the loop comes to
  have h_cond : loopCond (turnLimit env args) s = true := by simpa [loopCond] using h_lt
  have h_fuel := loop_ne_outOfFuel env stream args st
  rcases h_body : turn env stream s with ⟨e | c, s'⟩
  · -- the turn raised, and so did the loop
    have h_loop := Prog.loop_of_last h_head h_cond h_body (by simp) h_fuel
    exact absurd (congrArg Prod.fst h_loop) (h_ok e)
  · refine ⟨c, s', Prog.wp_ok (x := turn env stream) (wp_turn env stream s) h_body, ?_⟩
    rintro rfl
    -- a stop is where the loop ends
    exact Prog.loop_of_last h_head h_cond h_body (by simp) h_fuel

/-- How a run that raises nothing ends: at its limit, or by a turn it visits. -/
theorem run_end (h_ok : ∀ e, loopEnd env stream args st ≠ .error e) :
    (∃ s, HeadOf env stream (turnLimit env args) (startRun env stream args st) s ∧
        turnLimit env args ≤ s.runTurnIndex ∧
        Prog.loop (loopCond (turnLimit env args)) (turn env stream)
          (runFuel env (turnLimit env args)) (startRun env stream args st) = (.ok .done, s)) ∨
      ∃ s s', TurnOf env stream args st s ∧ TurnStep env stream s (.ok .stop) s' ∧
        Prog.loop (loopCond (turnLimit env args)) (turn env stream)
          (runFuel env (turnLimit env args)) (startRun env stream args st) = (.ok .broke, s') := by
  have h := wp_loop_turns env stream (turnLimit env args) (I := fun _ => True)
    (Q := fun s' => ∃ s, TurnOf env stream args st s ∧ TurnStep env stream s (.ok .stop) s')
    (E := fun _ _ => True) (startRun env stream args st) (fun _ _ _ _ _ _ => trivial)
    (fun s s' h_head _ h_lt h_step => ⟨s, ⟨h_head, h_lt⟩, h_step⟩)
    (fun _ _ _ _ _ _ _ => trivial) trivial (startRun_retries env stream args st).le
  unfold loopEnd at h_ok
  unfold Prog.wp at h
  rcases hr : Prog.loop (loopCond (turnLimit env args)) (turn env stream)
    (runFuel env (turnLimit env args)) (startRun env stream args st) with ⟨e | c, s⟩
  · -- the loop did not raise
    rw [hr] at h_ok
    exact absurd rfl (h_ok e)
  · rw [hr] at h
    -- the limit is reached, or a turn stopped the loop
    rcases h with ⟨rfl, -, h_limit, h_head⟩ | ⟨rfl, s₀, h_turn, h_step⟩
    · exact .inl ⟨s, h_head, h_limit, rfl⟩
    · exact .inr ⟨s₀, s, h_turn, h_step, rfl⟩

/-- **A run is accounted for** exactly when every turn it comes to is. -/
theorem accounted_iff (h_empty : env.config.turns.stopOnEmptyToolCalls = true)
    (h_ok : ∀ e, loopEnd env stream args st ≠ .error e) :
    Accounted env stream args st ↔
      ∀ s, TurnOf env stream args st s → TurnCounts env stream (turnLimit env args) s := by
  constructor
  · intro h_acc s h_turn
    -- a turn that does not count would have left one turn more than the result tells
    obtain ⟨c, s', h_step, h_loop⟩ := pass_of_turn h_ok h_turn
    have h_outcome := h_step.outcome h_empty (counted_head h_empty h_turn.1) h_turn.2
    cases h_outcome with
    | goesOn _ h_counts => exact h_counts
    | cutShort h_index h_appended =>
      obtain ⟨-, -, h_used, h_trace⟩ := result_of_loop (h_loop rfl)
      have h_turns := h_acc.turns
      rw [h_used, h_trace, h_index, h_appended] at h_turns
      omega
    | answered h_index h_appended h_status h_counts =>
      rw [h_counts]
      by_contra h_last
      obtain ⟨h_end, h_max, -⟩ := result_of_loop (h_loop rfl)
      rw [if_pos (by omega)] at h_max
      have h_done := (h_acc.limit.mp h_max).2
      rw [h_end] at h_done
      cases h_done
  · intro h_counts
    -- an answer that is counted within the limit completes the run
    have h_answer : ∀ s, TurnOf env stream args st s → AnswersRun env stream s →
        (resultOf (execRun env stream args st)).status = .completed := by
      intro s h_turn h_answers
      obtain ⟨c, s', h_step, h_loop⟩ := pass_of_turn h_ok h_turn
      have h_outcome := h_step.outcome h_empty (counted_head h_empty h_turn.1) h_turn.2
      cases h_outcome with
      | goesOn _ _ h_not => exact absurd h_answers h_not
      | cutShort _ _ _ h_not => exact absurd h_answers h_not
      | answered h_index h_appended h_status h_iff =>
        have h_lt := h_iff.mp (h_counts s h_turn)
        obtain ⟨-, h_max, -⟩ := result_of_loop (h_loop rfl)
        rw [h_max, if_neg (by omega), h_status]
    -- the loop ends at its limit, or by a turn that stops it
    rcases run_end h_ok with ⟨s, h_head, h_limit, h_loop⟩ | ⟨s, s', h_turn, h_step, h_loop⟩
    · obtain ⟨h_end, h_max, h_used, h_trace⟩ := result_of_loop h_loop
      have h_s := counted_head h_empty h_head
      rw [if_pos h_limit] at h_max
      refine ⟨⟨fun _ => ⟨?_, h_end⟩, fun _ => h_max⟩, h_answer, ?_⟩
      · rw [h_trace, h_s.appended]
        exact le_antisymm h_s.bound h_limit
      · rw [h_used, h_trace, h_s.appended]
    · obtain ⟨h_end, h_max, h_used, h_trace⟩ := result_of_loop h_loop
      have h_outcome := h_step.outcome h_empty (counted_head h_empty h_turn.1) h_turn.2
      cases h_outcome with
      | cutShort _ _ h_not => exact absurd (h_counts s h_turn) h_not
      | answered h_index h_appended h_status h_iff =>
        have h_lt := h_iff.mp (h_counts s h_turn)
        rw [if_neg (by omega), h_status] at h_max
        refine ⟨⟨fun h => ?_, fun h => ?_⟩, h_answer, ?_⟩
        · rw [h_max] at h
          cases h
        · rw [h_end] at h
          cases h.2
        · rw [h_used, h_trace, h_index, h_appended]

end Run

/-- A model that answers at once. -/
def promptEnv : Env .memory where
  proxy := .scripted [{ content := some "Hello." }]

/-- An answer on the first of ten turns is accounted for. -/
theorem accounted_prompt : Accounted promptEnv false { userMessage := "hi" } (.empty .memory) := by
  refine (accounted_iff rfl fun e h => ?_).mpr fun s h_turn => ?_
  · -- the run ends with its answer
    have h_end : loopEnd promptEnv false { userMessage := "hi" } (.empty .memory) = .ok .broke := by
      decide +kernel
    rw [h] at h_end
    cases h_end
  · -- there is only the first turn
    rcases Relation.ReflTransGen.cases_head h_turn.1 with rfl | ⟨s', ⟨-, h_pass⟩, -⟩
    · intro raw h_raw _
      have h_mem := LLMProxy.mem_of_scripted h_raw
      obtain rfl := List.mem_singleton.mp h_mem
      exact ⟨by decide +kernel, by decide +kernel, fun _ => by decide +kernel,
        fun _ _ => by decide +kernel⟩
    · -- which stops the loop, so no other follows
      have h_stop : (turn promptEnv false (startRun promptEnv false { userMessage := "hi" }
          (.empty .memory))).1 = .ok .stop := by decide +kernel
      rw [h_pass] at h_stop
      cases h_stop

/-- An answer on the only permitted turn is reported as a run that reached its limit. -/
theorem not_accounted :
    ∃ st : Store .memory, (∃ c, loopEnd promptEnv false { userMessage := "hi", maxTurns := some 1 } st = .ok c) ∧
      ¬Accounted promptEnv false { userMessage := "hi", maxTurns := some 1 } st := by
  refine ⟨.empty .memory, ⟨.broke, by decide +kernel⟩, fun h => ?_⟩
  have h_max := h.limit.mp (by decide +kernel)
  exact absurd h_max.2 (by decide +kernel)

end Nexus
