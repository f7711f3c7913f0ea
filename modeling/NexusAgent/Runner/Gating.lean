import NexusAgent.Runner.Runs

/-!
# Tool gating

Which registered tool bodies a run may execute: those of server tools that need no
approval and do not ask the user (`unrestricted`). The gate decides on the emitted name as
a whole, while the executor looks up its first two segments, so a name can pass the gate
and still reach a restricted tool.

* `gateCovers_iff`: when the gate decides rightly about a name.
* `executed_unrestricted`: a run whose responses only hold such names executes
  unrestricted tools only.
* `executed_restricted`: a run that executes a tool that needs approval.
-/

open Lib

namespace Nexus

namespace ToolRegistry

/-- The tool registered under `key` is a server tool that needs no approval and does not
ask the user. -/
def unrestricted (reg : ToolRegistry) (key : String) : Bool :=
  (match Dict.get? reg key with
    | some m => m.execution = "server" && !m.requiresApproval
    | none => false) &&
  !isElicitation key

/-- A condition on a name under which the gate decides rightly: it reaches no tool, or the
gate holds it back, or it reaches the tool of that very name and that tool's mode is not
one the gate does not know, or it reaches an unrestricted tool. -/
def gateCovers (reg : ToolRegistry) (name : String) : Bool :=
  match reg.reachedKey name with
  | none => true
  | some key =>
    reg.gated name ||
      if key = name then reg.getExecutionMode key = "server" else reg.unrestricted key

/-- A name the gate lets through and that reaches the tool of that very name. -/
theorem unrestricted_of_not_gated {reg : ToolRegistry} {name : String} (h_has : reg.has name = true)
    (h_gated : reg.gated name = false) (h_mode : reg.getExecutionMode name = "server") :
    reg.unrestricted name = true := by
  simp only [gated, needsApproval, resolvedTool, resolveToolName_of_has h_has, Option.getD_some,
    Bool.or_eq_false_iff] at h_gated
  -- neither elicited nor with approval
  obtain ⟨⟨-, h_elicit⟩, h_app⟩ := h_gated
  unfold getExecutionMode at h_mode
  unfold requiresApproval at h_app
  unfold has Dict.has at h_has
  unfold unrestricted
  -- the tool is there and runs on the server
  cases h_get : Dict.get? reg name with
  | none => simp [h_get] at h_has
  | some m =>
    rw [h_get] at h_mode h_app
    simp only at h_mode h_app
    simp [h_mode, h_app, h_elicit]

/-- The mode of an unrestricted tool. -/
theorem getExecutionMode_of_unrestricted {reg : ToolRegistry} {key : String}
    (h : reg.unrestricted key = true) : reg.getExecutionMode key = "server" := by
  unfold unrestricted at h
  unfold getExecutionMode
  cases h_get : Dict.get? reg key with
  | none => simp [h_get] at h
  | some m =>
    rw [h_get] at h
    simp only [Bool.and_eq_true, decide_eq_true_eq] at h
    exact h.1.1

/-- **The gate decides rightly about a name** exactly when `gateCovers` says so: whatever
tool the name reaches, the gate holds the name back or the tool is unrestricted. -/
theorem gateCovers_iff (reg : ToolRegistry) (name : String) :
    reg.gateCovers name = true ↔ ∀ key, reg.reachedKey name = some key →
      reg.gated name = false → reg.unrestricted key = true := by
  unfold gateCovers
  -- a name that reaches no tool is covered
  cases h_key : reg.reachedKey name with
  | none => simp
  | some key =>
    have h_has := has_of_reachedKey h_key
    -- a gated name is covered as well
    cases h_gated : reg.gated name with
    | true => simp
    | false =>
      simp only [Bool.false_or, Option.some.injEq, forall_eq', forall_const]
      -- under its own name the tool is unrestricted as it is not gated
      split_ifs with h_name
      · subst h_name
        simp only [decide_eq_true_eq]
        exact ⟨unrestricted_of_not_gated h_has h_gated, getExecutionMode_of_unrestricted⟩
      · rfl

end ToolRegistry

variable {a : StoreAdapter}

/-- **Gating is sound where the gate covers the names.** If the gate decides rightly about
every tool name in the responses of a run, every body the run executes is the body of an
unrestricted tool. -/
theorem executed_unrestricted (env : Env a) (stream : Bool) (args : RunArgs) (st : Store a)
    (h_names : ∀ k raw, callResponse env stream k = .ok raw →
      ∀ tc ∈ (acceptedResponse env k raw).toolCalls, env.registry.gateCovers tc.toolName = true)
    (tcId name key : String)
    (h : Obs.executed tcId name key ∈ (execRun env stream args st).trace) :
    env.registry.unrestricted key = true := by
  rw [execRun_trace] at h
  rcases runLoop_observed env stream _ (startRun_retries env stream args st) _ h with h | ⟨k, h⟩
  · simp [startRun] at h
  · obtain ⟨raw, h_raw, tc, h_tc, rfl, h_gated, h_key⟩ := h
    exact (env.registry.gateCovers_iff tc.toolName).mp (h_names k raw h_raw tc h_tc) key h_key h_gated

/-- A registry with a tool that needs approval and a plain one. -/
def bankRegistry : ToolRegistry :=
  [("bank.transfer", { requiresApproval := true }), ("bank.balance", {})]

/-- A run of a model that makes the given responses. -/
def bankEnv (responses : List LLMResponse) : Env .memory where
  registry := bankRegistry
  proxy := .scripted responses

/-- Where the gate covers the names, the plain tool runs and nothing else. -/
theorem executed_unrestricted_balance :
    Obs.executed "TC1" "bank.balance" "bank.balance" ∈
      (execRun (bankEnv [{ toolCalls := [⟨"c1", "bank.balance", []⟩] }, { content := some "done" }])
        false { userMessage := "hi" } (.empty .memory)).trace ∧
      bankRegistry.unrestricted "bank.balance" = true := by
  have h_ran : Obs.executed "TC1" "bank.balance" "bank.balance" ∈
      (execRun (bankEnv [{ toolCalls := [⟨"c1", "bank.balance", []⟩] }, { content := some "done" }])
        false { userMessage := "hi" } (.empty .memory)).trace := by decide +kernel
  refine ⟨h_ran, executed_unrestricted (bankEnv _) false _ _ (fun k raw h_raw => ?_) _ _ _ h_ran⟩
  -- the first response calls the tool, the second calls none
  have h_mem := LLMProxy.mem_of_scripted h_raw
  simp only [List.mem_cons, List.not_mem_nil, or_false] at h_mem
  rcases h_mem with rfl | rfl
  · change ∀ tc ∈ [(⟨"c1", "bank.balance", []⟩ : ToolCallRequest)], bankRegistry.gateCovers tc.toolName = true
    decide +kernel
  · change ∀ tc ∈ ([] : List ToolCallRequest), bankRegistry.gateCovers tc.toolName = true
    simp

/-- A name with a third segment passes the gate and runs the tool that needs approval. -/
theorem executed_restricted :
    ∃ tcId name key, Obs.executed tcId name key ∈
      (execRun (bankEnv [{ toolCalls := [⟨"c1", "bank.transfer.now", []⟩] }])
        false { userMessage := "hi" } (.empty .memory)).trace ∧
      bankRegistry.unrestricted key = false ∧ bankRegistry.requiresApproval key = true :=
  ⟨"TC1", "bank.transfer.now", "bank.transfer", by decide +kernel, by decide +kernel,
    by decide +kernel⟩

end Nexus
