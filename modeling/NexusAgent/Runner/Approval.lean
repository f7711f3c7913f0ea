import NexusAgent.Runner.Accounting

/-!
# Calls that need approval

A call of a tool that needs approval is to wait for the caller: the run pauses with a pending
interaction for it, and a resume fills in its record. The handler gives the interaction a
kind that the record does not admit, so building it raises, and the exception ends the run.

* `Reached`: the loop comes to the call at a place of a response.
* `ApprovalPauses`: what is promised of a run that comes to such a call.
* `approval_never_pauses`: every run that comes to such a call ends with an exception, and
  none pauses for it.
* `approval_not_paused`: a run with a single such call.
-/

open Lib

namespace Nexus

variable {a : StoreAdapter}

/-- The loop comes to the call at place `p` of response `k`: all calls of a parallel turn are
started; in a sequential turn nobody cancels before the call, and the calls before it are
answered at once. -/
def Reached (env : Env a) (k : ℕ) (calls : List ToolCallRequest) (p : ℕ) : Prop :=
  if useParallel env calls then p < calls.length
  else (∀ q ≤ p, env.cancelCall k q = false) ∧
    ∀ q < p, ∀ req, calls[q]? = some req → ∃ key, callFate env req = .answered key

/-- The records of a session, in order. -/
def AgentSession.records (s : AgentSession) : List ToolCallRecord :=
  s.turns.flatMap TurnRecord.toolCalls

/-- A run pauses for the call `req`: it does not execute the call and ends as paused, with a
pending interaction for the call, and a resume with the call's id puts its result in the
record of the interaction and in no other. -/
structure ApprovalPauses (env : Env a) (stream : Bool) (args : RunArgs) (st : Store a)
    (req : ToolCallRequest) : Prop where
  unexecuted : ∀ tcId key,
    Obs.executed tcId req.toolName key ∉ (execRun env stream args st).trace
  status : (resultOf (execRun env stream args st)).status = .paused
  pending : ∃ pending ∈ (execRun env stream args st).session.pendingInteractions,
    pending.callId = req.id ∧ pending.toolName = req.toolName ∧
      ∀ content, content ≠ "" →
        let s := (execRun env stream args st).session
        (resumeSession [{ callId := some req.id, content := content }] s).records =
          s.records.map fun tc =>
            if tc.tcId = pending.tcId then { tc with rawResponse := content } else tc

/-! ### The turn of the call -/

section Turn

variable {env : Env a} {k l n m p : ℕ} {calls : List ToolCallRequest}
  {outs : List (ℕ × Except RunError Handled)} {obs : List Obs} {handled : List Handled}
  {req : ToolCallRequest}

/-- A call that is answered needs no approval. -/
theorem CallFate.ungated {key : Option String} (h : callFate env req = .answered key) :
    env.registry.gated req.toolName = false := by
  unfold callFate at h
  split_ifs at h with h_bad h_gated h_app
  exact Bool.eq_false_iff.mpr h_gated

/-- In a sequential turn that returned, the handlers got as far as a reached call. -/
theorem Results.reached (h : Results calls outs handled) (h_logged : Logged env calls n outs obs m)
    (h_req : calls[p]? = some req)
    (h_before : ∀ q < p, ∀ req, calls[q]? = some req → ∃ key, callFate env req = .answered key)
    (h_app : env.registry.needsApproval req.toolName = true) : p < handled.length := by
  have h_p : p < calls.length := (List.getElem?_eq_some_iff.mp h_req).1
  have h_at : calls[p] = req := (List.getElem?_eq_some_iff.mp h_req).2
  by_contra h_short
  -- the first deferred call is neither before the call, nor the call, nor after it
  obtain ⟨i, hi, h_gated, h_free, h_first⟩ := h.deferred_before h_logged (by omega)
  rcases lt_trichotomy i p with h_lt | rfl | h_gt
  · obtain ⟨key, h_fate⟩ := h_before i h_lt calls[i] (List.getElem?_eq_getElem (by omega))
    rw [CallFate.ungated h_fate] at h_gated
    cases h_gated
  · rw [h_at, h_app] at h_free
    cases h_free
  · have h_ungated := h_first p h_gt
    rw [h_at, needsApproval_gated h_app] at h_ungated
    cases h_ungated

/-- **No turn that reaches a call needing approval returns.** -/
theorem HandledBy.not_reached (h : HandledBy env k calls outs handled l)
    (h_logged : Logged env calls n outs obs m) (h_req : calls[p]? = some req)
    (h_app : env.registry.needsApproval req.toolName = true) : ¬Reached env k calls p := by
  intro h_reached
  have h_gated := needsApproval_gated h_app
  unfold Reached at h_reached
  split_ifs at h_reached with h_par
  · -- in parallel, no call that needs approval was handled
    have h_free := h.no_approval h_par h_logged req (List.mem_of_getElem? h_req) h_gated
    rw [h_app] at h_free
    cases h_free
  · have h_results := h.results h_logged
    -- in sequence, the calls before it are handled, and this one as well
    have h_lt := h_results.reached h_logged h_req h_reached.2 h_app
    have h_free := (h_results.gated h_logged h_lt h_req).2 h_gated
    rw [h_app] at h_free
    cases h_free

end Turn

section Run

variable {env : Env a} {stream : Bool} {args : RunArgs} {st : Store a} {s : RunState a}
  {raw : LLMResponse} {p : ℕ} {req : ToolCallRequest}

/-- A pass whose response has a reached call that needs approval raises. -/
theorem TurnStep.raises_of_approval (h_raw : callResponse env stream s.calls = .ok raw)
    (h_req : (acceptedResponse env s.calls raw).toolCalls[p]? = some req)
    (h_app : env.registry.needsApproval req.toolName = true)
    (h_reached : Reached env s.calls (acceptedResponse env s.calls raw).toolCalls p)
    {o : Except RunError Prog.Ctl} {s' : RunState a} (h : TurnStep env stream s o s') :
    ∃ e, o = .error e := by
  have h_same : ∀ {sent r t}, Replied env stream s sent r t →
      r = acceptedResponse env s.calls raw := by
    intro sent r t h_reply
    obtain ⟨raw', h_raw', rfl⟩ := h_reply.response
    rw [Except.ok.inj (h_raw.symm.trans h_raw')]
  -- a response with calls is not checked for structure
  have h_some : (acceptedResponse env s.calls raw).toolCalls ≠ [] := by
    intro h_none
    rw [h_none] at h_req
    cases h_req
  cases h with
  | cancelled => exact ⟨_, rfl⟩
  | callFailed => exact ⟨_, rfl⟩
  | retried h_reply h_fail =>
    obtain rfl := h_same h_reply
    exact absurd (toolCalls_of_structuredFailure h_fail) h_some
  | rejected => exact ⟨_, rfl⟩
  | answered h_reply _ h_calls =>
    obtain rfl := h_same h_reply
    exact absurd h_calls h_some
  | toolsRaised => exact ⟨_, rfl⟩
  -- a turn whose calls were all handled has not come to one that needs approval
  | paused h_reply _ _ h_effect h_handled =>
    obtain rfl := h_same h_reply
    exact absurd h_reached (h_handled.not_reached h_effect.logged h_req h_app)
  | handled h_reply _ _ h_effect h_handled =>
    obtain rfl := h_same h_reply
    exact absurd h_reached (h_handled.not_reached h_effect.logged h_req h_app)

/-- A run with a pass that raises ends with its exception. -/
theorem loopEnd_of_raise (h_turn : TurnOf env stream args st s)
    (h_raise : ∀ o s', TurnStep env stream s o s' → ∃ e, o = .error e) :
    ∃ e, loopEnd env stream args st = .error e := by
  obtain ⟨h_head, h_lt⟩ := h_turn
  have h_cond : loopCond (turnLimit env args) s = true := by simpa [loopCond] using h_lt
  have h_fuel := loop_ne_outOfFuel env stream args st
  rcases h_body : turn env stream s with ⟨e | c, s'⟩
  · exact ⟨e, congrArg Prod.fst (Prog.loop_of_last h_head h_cond h_body (by simp) h_fuel)⟩
  · obtain ⟨e, h_error⟩ :=
      h_raise _ _ (Prog.wp_ok (x := turn env stream) (wp_turn env stream s) h_body)
    cases h_error

/-- A run that ends with an exception is not paused. -/
theorem status_of_raise {e : RunError} (h : loopEnd env stream args st = .error e) :
    (resultOf (execRun env stream args st)).status ≠ .paused := by
  have h_status := execRun_status env stream args st
  unfold loopEnd at h
  unfold runLoop at h_status
  rcases h_loop : Prog.loop (loopCond (turnLimit env args)) (turn env stream)
    (runFuel env (turnLimit env args)) (startRun env stream args st) with ⟨e' | c, s⟩
  · -- a raise sets another status than that of a pause
    rw [h_loop] at h_status
    show (execRun env stream args st).status ≠ .paused
    rw [h_status]
    cases e' <;> simp [raised]
  · rw [h_loop] at h
    cases h

/-- **A run never pauses for approval.** Whenever a run comes to a call of a tool that needs
approval, alone or among others, an exception ends the run: it is not paused, and the call is
not left waiting. -/
theorem approval_never_pauses (h_turn : TurnOf env stream args st s)
    (h_raw : callResponse env stream s.calls = .ok raw)
    (h_req : (acceptedResponse env s.calls raw).toolCalls[p]? = some req)
    (h_app : env.registry.needsApproval req.toolName = true)
    (h_reached : Reached env s.calls (acceptedResponse env s.calls raw).toolCalls p) :
    (∃ e, loopEnd env stream args st = .error e) ∧ ¬ApprovalPauses env stream args st req := by
  have h_end : ∃ e, loopEnd env stream args st = .error e :=
    loopEnd_of_raise h_turn fun _ _ h_step =>
      h_step.raises_of_approval h_raw h_req h_app h_reached
  obtain ⟨e, h_error⟩ := h_end
  exact ⟨⟨e, h_error⟩, fun h_pauses => status_of_raise h_error h_pauses.status⟩

end Run

/-- A call of a plain tool. -/
def orderCall : ToolCallRequest := ⟨"c0", "shop.order", []⟩

/-- A call of a tool that needs approval. -/
def refundCall : ToolCallRequest := ⟨"c1", "shop.refund", []⟩

/-- A response that looks an order up and then asks for the refund. -/
def shopResponse : LLMResponse := { toolCalls := [orderCall, refundCall] }

/-- A model that makes this response. -/
def shopEnv : Env .memory where
  registry := [("shop.refund", { requiresApproval := true }), ("shop.order", {})]
  proxy := .scripted [shopResponse]

/-- The run of the shop's user. -/
def shopArgs : RunArgs := { userMessage := "I want my money back." }

/-- The second call needs approval, and the run ends with an error. -/
theorem approval_never_pauses_second :
    (∃ e, loopEnd shopEnv false shopArgs (.empty .memory) = .error e) ∧
      ¬ApprovalPauses shopEnv false shopArgs (.empty .memory) refundCall := by
  have h_raw : callResponse shopEnv false 0 = .ok shopResponse := rfl
  -- the first call does not wait
  have h_first : (acceptedResponse shopEnv 0 shopResponse).toolCalls[0]? = some orderCall := by
    decide +kernel
  refine approval_never_pauses (s := startRun shopEnv false shopArgs (.empty .memory)) (p := 1)
    ⟨.refl, by decide +kernel⟩ h_raw (by decide +kernel) (by decide +kernel) ?_
  rw [Reached, if_neg (by decide +kernel)]
  refine ⟨fun _ _ => rfl, fun q h_q req h_at => ?_⟩
  -- it is the only one in front
  obtain rfl : q = 0 := by omega
  rw [Option.some.inj (h_at.symm.trans h_first)]
  exact ⟨some "shop.order", by decide +kernel⟩

/-- A run whose model calls nothing but the tool that needs approval ends with status
`error`: nothing waits for the caller. -/
theorem approval_not_paused :
    let env : Env .memory := { shopEnv with proxy := .scripted [{ toolCalls := [refundCall] }] }
    let st : Store .memory := .empty .memory
    (resultOf (execRun env false shopArgs st)).status = .error ∧
      (resultOf (execRun env false shopArgs st)).pendingInteractions = [] ∧
      ¬ApprovalPauses env false shopArgs st refundCall := by
  refine ⟨by decide +kernel, by decide +kernel, fun h => ?_⟩
  have h_status := h.status
  revert h_status
  decide +kernel

end Nexus
