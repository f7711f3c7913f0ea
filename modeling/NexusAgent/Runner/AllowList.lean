import NexusAgent.Lib.Trace
import NexusAgent.Runner.Runs
import NexusAgent.Tools.Toolsets

/-!
# The allow-list of a run

What the allow-list of a runner says about the tools a run executes. The list is computed
when the run starts, changed by grants and revokes, and read once for every model call, to
pick the schemas the call is sent. The executor does not read it: it looks an emitted name
up in the whole registry.

* `RunAccess.inForce k` is the allow-list read for call `k`.
* `allowCovers_iff`: when the list says about a name what the executor does.
* `allowList_enforced`: a run whose responses only hold such names executes tools of the
  list in force only.
* `allowList_not_enforced`: a run that executes a tool outside the list.
-/

open Lib

namespace Nexus

/-! ### The list in force -/

/-- A grant or a revoke, by a tool or by the host. -/
inductive AccessChange
  | grantTools (names : Finset String)
  | grantToolset (toolsets : Dict String Toolset) (names : List String)
  | revokeTools (names : Finset String)

/-- A change of the allow-list. `grant_toolset` merges nothing when nothing resolves. -/
def AccessChange.apply : AccessChange → ToolAccess → ToolAccess
  | grantTools names, access => access.grantTools names
  | grantToolset toolsets names, access =>
    access.grantToolset ((resolveToolset toolsets (some names)).getD ∅)
  | revokeTools names, access => access.revokeTools names

/-- What decides over the allow-list of a run: the runner it starts on, the toolset of the
settings and of the context, and the changes made before the schemas of call `k` are picked. -/
structure RunAccess where
  start : ToolAccess := {}
  toolsets : Dict String Toolset := []
  config : Option (List String) := none
  override : Option (List String) := none
  changes : ℕ → List AccessChange := fun _ => []

namespace RunAccess

/-- The runner as the run starts: `_resolve_toolsets`. -/
def opened (ra : RunAccess) : ToolAccess :=
  ra.start.resolveToolsets (resolveToolset ra.toolsets (ra.override.or ra.config))

/-- The runner when the schemas of call `k` are picked. -/
def access (ra : RunAccess) : ℕ → ToolAccess
  | 0 => (ra.changes 0).foldl (fun access change => change.apply access) ra.opened
  | k + 1 => (ra.changes (k + 1)).foldl (fun access change => change.apply access) (ra.access k)

/-- The allow-list in force at call `k`. -/
def inForce (ra : RunAccess) (k : ℕ) : Option (Finset String) := (ra.access k).allowed

/-- `_filter_tool_schemas`, on the names of the schemas: what call `k` is offered. -/
def offered (ra : RunAccess) (reg : ToolRegistry) (k : ℕ) : List String :=
  (reg.map Prod.fst).filter (Admits (ra.inForce k))

end RunAccess

/-! ### Names the list covers -/

namespace ToolRegistry

/-- A condition on an emitted name under which the allow-list decides rightly: the name
reaches no tool, or it is held back for the caller, or the tool it reaches is in the list. -/
def allowCovers (reg : ToolRegistry) (allowed : Option (Finset String)) (name : String) : Bool :=
  match reg.reachedKey name with
  | none => true
  | some key => reg.gated name || decide (Admits allowed key)

/-- **The list decides rightly about a name** exactly when `allowCovers` says so: a tool the
executor runs for it is in the list. -/
theorem allowCovers_iff (reg : ToolRegistry) (allowed : Option (Finset String)) (name : String) :
    reg.allowCovers allowed name = true ↔ ∀ key, reg.reachedKey name = some key →
      reg.gated name = false → Admits allowed key := by
  unfold allowCovers
  cases h_key : reg.reachedKey name with
  | none => simp
  | some key => cases h_gated : reg.gated name <;> simp

/-- A name of at most two segments that is offered is covered: it reaches its own tool. -/
theorem allowCovers_of_offered {ra : RunAccess} {reg : ToolRegistry} {k : ℕ} {name : String}
    (h_offered : name ∈ ra.offered reg k)
    (h_reached : ∀ key, reg.reachedKey name = some key → key = name) :
    reg.allowCovers (ra.inForce k) name = true := by
  rw [allowCovers_iff]
  intro key h_key _
  obtain rfl := h_reached key h_key
  exact of_decide_eq_true (List.mem_filter.mp h_offered).2

end ToolRegistry

/-! ### Runs -/

/-- An observation of a model call. -/
def Obs.isCall : Obs → Bool
  | .llmCall _ => true
  | _ => false

/-- The number of the call that comes last in a trace. -/
def lastCall (trace : List Obs) : ℕ := trace.countP Obs.isCall - 1

/-- Every tool executed in a trace is in the allow-list in force at the call it answers. -/
def Enforced (ra : RunAccess) (trace : List Obs) : Prop :=
  ∀ pre tcId name key post, trace = pre ++ .executed tcId name key :: post →
    Admits (ra.inForce (lastCall pre)) key

variable {a : StoreAdapter}

/-- The responses of a run hold only names covered by the list in force. -/
def NamesCovered (env : Env a) (stream : Bool) (ra : RunAccess) : Prop :=
  ∀ k raw, callResponse env stream k = .ok raw →
    ∀ tc ∈ (acceptedResponse env k raw).toolCalls,
      env.registry.allowCovers (ra.inForce k) tc.toolName = true

/-- After the call of a turn there is no other. -/
theorem countP_afterCall {after : List Obs} (h : ∀ o ∈ after, AfterCall o) :
    after.countP Obs.isCall = 0 := by
  refine List.countP_eq_zero.mpr fun o ho => ?_
  have h_o := h o ho
  cases o <;> first | exact Bool.false_ne_true | exact h_o.elim

/-- The call of a pass comes before every tool executed in it. -/
theorem calls_beforeExecuted {builds after mid post : List Obs} {sent : List Message}
    {tcId name key : String}
    (h_builds : ∀ o ∈ builds, ∃ degraded dropped, o = .contextBuilt degraded dropped)
    (h_after : ∀ o ∈ after, AfterCall o)
    (h : builds ++ .llmCall sent :: after = mid ++ .executed tcId name key :: post) :
    mid.countP Obs.isCall = 1 := by
  induction builds generalizing mid with
  | nil =>
    -- the call comes first, and nothing after it is a call
    cases mid with
    | nil => cases h
    | cons m mid =>
      obtain ⟨rfl, rfl⟩ := List.cons.inj h
      have h_mid := countP_afterCall (List.forall_mem_append.mp h_after).1
      rw [List.countP_cons, h_mid]
      rfl
  | cons b builds ih =>
    rw [List.forall_mem_cons] at h_builds
    obtain ⟨⟨degraded, dropped, rfl⟩, h_builds⟩ := h_builds
    -- a built context is no call
    cases mid with
    | nil => cases h
    | cons m mid =>
      obtain ⟨rfl, h_rest⟩ := List.cons.inj h
      rw [List.countP_cons, ih h_builds h_rest]
      rfl

/-- **The trace of a pass** that makes call `k`: at most one call, and every tool executed
after it. -/
theorem TurnStep.callFirst {env : Env a} {stream : Bool} {s s' : RunState a}
    {o : Except RunError Prog.Ctl} (h : TurnStep env stream s o s') :
    (o = .error .cancelled ∧ s'.trace = s.trace) ∨
      ∃ builds sent after, s'.trace = s.trace ++ (builds ++ .llmCall sent :: after) ∧
        (∀ o ∈ builds, ∃ degraded dropped, o = .contextBuilt degraded dropped) ∧
        ∀ o ∈ after, AfterCall o := by
  rcases h.opened with ⟨rfl, rfl⟩ | ⟨sent, t, after, h_open, h_trace, h_after⟩
  · exact .inl ⟨rfl, rfl⟩
  · obtain ⟨builds, session, messages, h_builds, h_only, -⟩ := h_open.trace
    -- the contexts that were built, the call, and what came after
    refine .inr ⟨builds, sent, after, ?_, h_only, h_after⟩
    rw [h_trace, h_builds]
    simp only [List.append_assoc, List.singleton_append]

theorem EndTurn.calls {env : Env a} {k : ℕ} {final : Bool} {s s' : RunState a}
    {o : Except RunError Prog.Ctl} (h : EndTurn env k final s o s') : s'.calls = s.calls := by
  cases h <;> rfl

theorem Accepted.calls {env : Env a} {r : LLMResponse} {s t : RunState a}
    (h : Accepted env r s t) : t.calls = s.calls := by
  cases h <;> rfl

/-- A pass begins one call. -/
theorem TurnStep.calls {env : Env a} {stream : Bool} {s s' : RunState a}
    {o : Except RunError Prog.Ctl} (h : TurnStep env stream s o s') : s'.calls = s.calls + 1 := by
  have h_opened : ∀ {sent : List Message} {t : RunState a},
      Opened env s sent t → t.calls = s.calls + 1 := fun h_open => by rw [h_open.rest]
  have h_replied : ∀ {sent : List Message} {r : LLMResponse} {t : RunState a},
      Replied env stream s sent r t → t.calls = s.calls + 1 := fun h_reply => by rw [h_reply.rest]
  -- handling the tools calls no model
  have h_effect : ∀ {r : LLMResponse} {u v : RunState a} {outs obs},
      HandlingEffect env r.toolCalls u outs obs v → v.calls = u.calls := fun h => by rw [h.rest]
  cases h with
  | cancelled => rfl
  | @callFailed sent t e h_open => exact h_opened (t := t) h_open
  | @retried sent r t h_reply => exact h_replied (t := t) h_reply
  | rejected h_reply => exact h_replied h_reply
  | answered h_reply h_accepted _ _ _ h_end =>
    exact h_end.calls.trans (h_accepted.calls.trans (h_replied h_reply))
  | toolsRaised h_reply h_accepted _ h_handling =>
    exact (h_effect h_handling).trans (h_accepted.calls.trans (h_replied h_reply))
  | paused h_reply h_accepted _ h_handling _ _ _ _ h_w =>
    subst h_w
    exact (h_effect h_handling).trans (h_accepted.calls.trans (h_replied h_reply))
  | handled h_reply h_accepted _ h_handling _ _ _ _ h_end =>
    exact h_end.calls.trans
      ((h_effect h_handling).trans (h_accepted.calls.trans (h_replied h_reply)))

/-- A tool executed in a pass is in the list in force at the call of the pass. -/
theorem TurnStep.executed_covered {env : Env a} {stream : Bool} {ra : RunAccess}
    {s s' : RunState a} {o : Except RunError Prog.Ctl} (h : TurnStep env stream s o s')
    (h_names : NamesCovered env stream ra) {new : List Obs} (h_trace : s'.trace = s.trace ++ new)
    {tcId name key : String} (h_mem : .executed tcId name key ∈ new) :
    Admits (ra.inForce s.calls) key := by
  obtain ⟨new', h_trace', h_pass⟩ := h.extends
  obtain rfl := List.append_cancel_left (h_trace.symm.trans h_trace')
  obtain ⟨raw, h_raw, tc, h_tc, rfl, h_gated, h_key⟩ := h_pass _ h_mem
  exact (env.registry.allowCovers_iff _ _).mp (h_names _ raw h_raw tc h_tc) key h_key h_gated

/-- What holds of the trace at the head of the loop: it has the calls begun so far, and what
was executed is in the list in force. -/
structure HeadEnforced (ra : RunAccess) (s : RunState a) : Prop where
  calls : s.trace.countP Obs.isCall = s.calls
  enforced : Enforced ra s.trace

/-- **A pass executes tools of the list in force only.** -/
theorem TurnStep.enforced {env : Env a} {stream : Bool} {ra : RunAccess} {s s' : RunState a}
    {o : Except RunError Prog.Ctl} (h : TurnStep env stream s o s')
    (h_names : NamesCovered env stream ra) (h_head : HeadEnforced ra s) : Enforced ra s'.trace := by
  rcases h.callFirst with ⟨-, h_trace⟩ | ⟨builds, sent, after, h_trace, h_builds, h_after⟩
  · rw [h_trace]
    exact h_head.enforced
  · intro pre tcId name key post h_split
    rw [h_trace] at h_split
    -- executed before this turn, or in it
    rcases Trace.append_eq_append_cons h_split with ⟨mid, h_old, -⟩ | ⟨mid, rfl, h_new⟩
    · exact h_head.enforced _ _ _ _ _ h_old
    · have h_one := calls_beforeExecuted h_builds h_after h_new
      -- the last call in front is the one of this turn
      have h_last : lastCall (s.trace ++ mid) = s.calls := by
        rw [lastCall, List.countP_append, h_head.calls, h_one, Nat.add_sub_cancel]
      rw [h_last]
      -- the turn executed it, so it was covered
      have h_mem : .executed tcId name key ∈ builds ++ .llmCall sent :: after := by
        rw [h_new]
        exact List.mem_append_right _ List.mem_cons_self
      exact h.executed_covered h_names h_trace h_mem

/-- A pass that goes on keeps the count of its calls. -/
theorem TurnStep.headEnforced {env : Env a} {stream : Bool} {ra : RunAccess} {s s' : RunState a}
    (h : TurnStep env stream s (.ok .next) s') (h_names : NamesCovered env stream ra)
    (h_head : HeadEnforced ra s) : HeadEnforced ra s' where
  calls := by
    rcases h.callFirst with ⟨h_raised, -⟩ | ⟨builds, sent, after, h_trace, h_builds, h_after⟩
    · cases h_raised
    · -- the pass makes one call
      have h_none : builds.countP Obs.isCall = 0 := by
        refine List.countP_eq_zero.mpr fun o ho => ?_
        obtain ⟨degraded, dropped, rfl⟩ := h_builds o ho
        exact Bool.false_ne_true
      rw [h_trace, h.calls, List.countP_append, List.countP_append, h_head.calls, h_none,
        List.countP_cons, countP_afterCall h_after]
      rfl
  enforced := h.enforced h_names h_head

/-- **The allow-list is enforced where it covers the names.** If the list in force at every
call decides rightly about every tool name in the response to it, a run executes only tools
of the list in force at the call it answers. -/
theorem allowList_enforced (env : Env a) (ra : RunAccess) (stream : Bool) (args : RunArgs)
    (st : Store a) (h_names : NamesCovered env stream ra) :
    Enforced ra (execRun env stream args st).trace := by
  -- at the start nothing was executed
  have h_start : HeadEnforced ra (startRun env stream args st) := by
    refine ⟨rfl, fun pre tcId name key post h_split => ?_⟩
    have h_mem : Obs.executed tcId name key ∈ (startRun env stream args st).trace := by
      rw [h_split]
      simp
    simp [startRun] at h_mem
  rw [execRun_trace]
  have h_cases := runLoop_cases env stream (turnLimit env args) (I := HeadEnforced ra)
    (Q := fun s => Enforced ra s.trace) (E := fun _ s => Enforced ra s.trace)
    (startRun env stream args st) (fun s s' _ h_s _ h_step => h_step.headEnforced h_names h_s)
    (fun s s' _ h_s _ h_step => h_step.enforced h_names h_s)
    (fun s e s' _ h_s _ h_step => h_step.enforced h_names h_s) h_start
    (startRun_retries env stream args st)
  -- the loop ended at the limit, by a stop or by an exception
  rcases h_cases with ⟨s, h_s, -, -, h_eq⟩ | ⟨s, h_s, h_eq⟩ | ⟨e, s, h_s, h_eq⟩ <;> rw [h_eq]
  · exact h_s.enforced
  · split_ifs <;> exact h_s
  · rw [raised_trace]
    exact h_s

/-- A registry with two plain tools. -/
def appRegistry : ToolRegistry := [("app.sample", {}), ("app.other", {})]

/-- A run of a model that calls the tool `name`. -/
def appEnv (name : String) : Env .memory where
  registry := appRegistry
  proxy := .scripted [{ toolCalls := [⟨"c1", name, []⟩] }, { content := some "done" }]

/-- A runner whose toolset is the first of them. -/
def sampleAccess : RunAccess := { config := some ["app.sample"] }

/-- The list in force names the sample tool alone. -/
theorem sampleAccess_inForce (k : ℕ) : sampleAccess.inForce k = some {"app.sample"} := by
  unfold RunAccess.inForce
  have h_opened : sampleAccess.opened = { allowed := some {"app.sample"} } := by
    simp [sampleAccess, RunAccess.opened, resolveToolset, resolveToolsetTools,
      ToolAccess.resolveToolsets]
  have h_access : sampleAccess.access k = sampleAccess.opened := by
    induction k with
    | zero => rfl
    | succ k ih => exact ih
  rw [h_access, h_opened]

/-- A model that calls the tool of the list runs it, and it alone. -/
theorem allowList_enforced_sample :
    Obs.executed "TC1" "app.sample" "app.sample" ∈
        (execRun (appEnv "app.sample") false { userMessage := "hi" } (.empty .memory)).trace ∧
      Enforced sampleAccess
        (execRun (appEnv "app.sample") false { userMessage := "hi" } (.empty .memory)).trace := by
  refine ⟨by decide +kernel, allowList_enforced _ _ _ _ _ fun k raw h_raw tc h_tc => ?_⟩
  have h_mem := LLMProxy.mem_of_scripted h_raw
  simp only [List.mem_cons, List.not_mem_nil, or_false] at h_mem
  rw [sampleAccess_inForce]
  -- the first response calls the sample tool, the second calls none
  rcases h_mem with rfl | rfl
  · obtain rfl := List.mem_singleton.mp h_tc
    decide +kernel
  · exact absurd h_tc List.not_mem_nil

/-- A model that calls the other tool runs that, though it is not in the list. -/
theorem allowList_not_enforced :
    ¬Enforced sampleAccess
      (execRun (appEnv "app.other") false { userMessage := "hi" } (.empty .memory)).trace := by
  intro h_enforced
  have h_mem : Obs.executed "TC1" "app.other" "app.other" ∈
      (execRun (appEnv "app.other") false { userMessage := "hi" } (.empty .memory)).trace := by
    decide +kernel
  obtain ⟨pre, post, h_split⟩ := List.append_of_mem h_mem
  have h_admits := h_enforced _ _ _ _ _ h_split
  rw [sampleAccess_inForce] at h_admits
  exact absurd h_admits (by decide)

end Nexus
