import NexusAgent.Lib.Steps
import NexusAgent.Tools.Registry

/-!
# Runs that share a registry

Runners and groups register tools of their own in the registry they were given: a group call
its delegate tools before its supervisor runs, and a run the tools of its memory, retrieval
and skill plugins when it starts. These tools close over the run (its members, its memory
namespace and scope, its providers), but their names are the same for every run, and a call
looks the name up in the registry as it is then.

* `ToolBody` is a registered function, with the run it was made for; `ToolBody.key` is the
  name it is registered under.
* `SharedRegistry` is the registry, with the log of who registered what, and `step` is what
  runs do to it between two suspension points.
* `calls_own_iff`: along every interleaving, each call reaches a tool of its own run exactly
  when the last registration under the name it reaches was its run's.
* `delegates_mixed`: two groups whose members have the same name.
-/

open Lib

namespace Nexus

/-! ### Tools made for a run -/

/-- A registered function: one of the application, the delegate tool of a group call for a
member, or a method of a plugin that was made for a run. -/
inductive ToolBody
  | application (name : String) (metadata : ToolMetadata)
  | delegate (run : ℕ) (member : String)
  | plugin (run : ℕ) (pluginName tool : String)
  deriving DecidableEq, Repr

namespace ToolBody

/-- The name a function is registered under. -/
def key : ToolBody → String
  | application name _ => name
  | delegate _ member => "supervisor" ++ "." ++ ("delegate_to_" ++ member)
  | plugin _ pluginName tool => pluginName ++ "." ++ tool

/-- The run a function was made for. -/
def run? : ToolBody → Option ℕ
  | application _ _ => none
  | delegate run _ => some run
  | plugin run _ _ => some run

/-- The properties a function is registered with. -/
def metadata : ToolBody → ToolMetadata
  | application _ m => m
  | delegate _ _ => {}
  | plugin _ pluginName tool =>
    { requiresApproval := pluginName = "skills" ∧ tool = "run_skill_script" }

end ToolBody

/-- What decides which tools are made for a run: the members its group call delegates to, the
memory tools (with `require_approval`), retrieval, the skills and their management. -/
structure RunTools where
  delegates : List String := []
  memory : Option Bool := none
  rag : Bool := false
  manageSkills : Bool := false
  skills : Bool := false
  deriving DecidableEq, Repr

/-- The tools of `MemoryPlugin`, or of `HITLMemoryPlugin` when approval is required. -/
def memoryTools (requireApproval : Bool) : List String :=
  ["list", "remove", "search", "write"] ++
    if requireApproval then ["approve", "edit", "reject"] else []

namespace RunTools

/-- The delegate tools of a group call. -/
def delegateBodies (t : RunTools) (run : ℕ) : List ToolBody := t.delegates.map (.delegate run)

/-- `_setup_skills`: the plugins of a run, in the order they are registered. -/
def pluginBodies (t : RunTools) (run : ℕ) : List ToolBody :=
  (match t.memory with
    | some requireApproval => (memoryTools requireApproval).map (.plugin run "memory")
    | none => []) ++
  (if t.rag then [.plugin run "rag" "retrieve"] else []) ++
  (if t.manageSkills then
    ["delete", "disable", "list", "upsert"].map (.plugin run "skill_manage") else []) ++
  if t.skills then
    ["load_skill", "read_skill_resource", "run_skill_script"].map (.plugin run "skills") else []

/-- All tools made for a run. -/
def bodies (t : RunTools) (run : ℕ) : List ToolBody := t.delegateBodies run ++ t.pluginBodies run

end RunTools

/-! ### The shared registry -/

/-- The registry, the runs that have registered their delegate tools and their plugins, and
who registered what under which name, the last one first. -/
structure SharedRegistry where
  tools : Dict String ToolBody := []
  delegated : List ℕ := []
  ready : List ℕ := []
  log : List (String × Option ℕ) := []
  deriving DecidableEq, Repr

/-- What happens between two suspension points. A call is the lookup in `execute`. -/
inductive RegistryAction
  | install (name : String) (metadata : ToolMetadata)
  | delegate (run : ℕ)
  | setup (run : ℕ)
  | call (run : ℕ) (name : String)
  deriving DecidableEq, Repr

namespace SharedRegistry

/-- Registers a function under its name. -/
def register (s : SharedRegistry) (body : ToolBody) : SharedRegistry :=
  { s with
    tools := Dict.set s.tools body.key body
    log := (body.key, body.run?) :: s.log }

/-- Registers functions one after another. -/
def registerAll (s : SharedRegistry) (bodies : List ToolBody) : SharedRegistry :=
  bodies.foldl register s

/-- The names of the registry with their properties. -/
def names (s : SharedRegistry) : ToolRegistry := s.tools.map fun p => (p.1, p.2.metadata)

/-- The name under which a call finds its tool. -/
def reached (s : SharedRegistry) (name : String) : Option String := s.names.reachedKey name

/-- One action. A run calls tools after its plugins are registered, and the supervisor of a
group runs after the delegate tools of the group call are. -/
def step (tools : ℕ → RunTools) (s : SharedRegistry) : RegistryAction → Option SharedRegistry
  | .install name metadata => some (s.register (.application name metadata))
  | .delegate run =>
    if run ∈ s.delegated then none
    else some { s.registerAll ((tools run).delegateBodies run) with delegated := run :: s.delegated }
  | .setup run =>
    if run ∈ s.ready ∨ ((tools run).delegates ≠ [] ∧ run ∉ s.delegated) then none
    else some { s.registerAll ((tools run).pluginBodies run) with ready := run :: s.ready }
  | .call run _ => if run ∈ s.ready then some s else none

/-- A call runs a function made for its own run; under a name its run has no tool for, one of
the application. -/
def CallsOwn (tools : ℕ → RunTools) (s : SharedRegistry) : RegistryAction → Prop
  | .call run name => ∀ key ∈ s.reached name, ∀ body ∈ Dict.get? s.tools key,
      body ∈ (tools run).bodies run ∨
        (body.run? = none ∧ key ∉ ((tools run).bodies run).map ToolBody.key)
  | _ => True

/-- The last registration under the name a call reaches was its run's; or the application's,
if the run has no tool of this name. -/
def LastIsOwn (tools : ℕ → RunTools) (s : SharedRegistry) : RegistryAction → Prop
  | .call run name => ∀ key ∈ s.reached name,
      s.log.lookup key = some (some run) ∨
        (s.log.lookup key = some none ∧ key ∉ ((tools run).bodies run).map ToolBody.key)
  | _ => True

instance (tools : ℕ → RunTools) (s : SharedRegistry) (a : RegistryAction) :
    Decidable (CallsOwn tools s a) := by
  cases a <;> unfold CallsOwn <;> infer_instance

instance (tools : ℕ → RunTools) (s : SharedRegistry) (a : RegistryAction) :
    Decidable (LastIsOwn tools s a) := by
  cases a <;> unfold LastIsOwn <;> infer_instance

/-! ### The invariant -/

/-- The registry holds, under each name, what was registered last: a tool of the application,
or one made for the run that registered it. -/
structure Logged (tools : ℕ → RunTools) (s : SharedRegistry) : Prop where
  last : ∀ key, (Dict.get? s.tools key).map ToolBody.run? = s.log.lookup key
  own : ∀ key body run, Dict.get? s.tools key = some body → body.run? = some run →
    body ∈ (tools run).bodies run

theorem logged_start (tools : ℕ → RunTools) : Logged tools {} where
  last _ := rfl
  own _ _ _ h := by cases h

variable {tools : ℕ → RunTools} {s t : SharedRegistry}

/-- Registering a body keeps the log. -/
theorem Logged.register (h : Logged tools s) {body : ToolBody}
    (h_own : ∀ run, body.run? = some run → body ∈ (tools run).bodies run) :
    Logged tools (s.register body) where
  last key := by
    show (Dict.get? (Dict.set s.tools body.key body) key).map ToolBody.run? =
      ((body.key, body.run?) :: s.log).lookup key
    rw [Dict.get?_set, List.lookup_cons]
    -- the key is that of the body, or another one
    by_cases h_key : body.key = key
    · subst h_key
      simp
    · have h_ne : (key == body.key) = false := by simpa using Ne.symm h_key
      rw [if_neg h_key, h_ne]
      exact h.last key
  own key body' run h_get h_run := by
    have h_get : Dict.get? (Dict.set s.tools body.key body) key = some body' := h_get
    rw [Dict.get?_set] at h_get
    -- the body found is this one, or one from before
    split_ifs at h_get with h_key
    · obtain rfl := Option.some.inj h_get
      exact h_own run h_run
    · exact h.own key body' run h_get h_run

/-- So does registering several. -/
theorem Logged.registerAll (h : Logged tools s) {bodies : List ToolBody}
    (h_own : ∀ body ∈ bodies, ∀ run, body.run? = some run → body ∈ (tools run).bodies run) :
    Logged tools (s.registerAll bodies) := by
  induction bodies generalizing s with
  | nil => exact h
  | cons body bodies ih =>
    rw [List.forall_mem_cons] at h_own
    exact ih (h.register h_own.1) h_own.2

/-- The tools made for a run are marked with it. -/
theorem run?_of_mem_bodies {t : RunTools} {run : ℕ} {body : ToolBody} (h : body ∈ t.bodies run) :
    body.run? = some run := by
  unfold RunTools.bodies RunTools.delegateBodies RunTools.pluginBodies at h
  rcases List.mem_append.mp h with h_delegate | h_plugin
  · obtain ⟨member, -, rfl⟩ := List.mem_map.mp h_delegate
    rfl
  · -- all the others are tools of plugins that the run's own setup made
    have h_plugin : ∃ pluginName tool, body = .plugin run pluginName tool := by
      rcases List.mem_append.mp h_plugin with h_rest | h_skills
      · rcases List.mem_append.mp h_rest with h_rest | h_manage
        · rcases List.mem_append.mp h_rest with h_memory | h_rag
          · split at h_memory
            · obtain ⟨tool, -, rfl⟩ := List.mem_map.mp h_memory
              exact ⟨_, _, rfl⟩
            · cases h_memory
          · split_ifs at h_rag
            · exact ⟨_, _, List.mem_singleton.mp h_rag⟩
            · cases h_rag
        · split_ifs at h_manage
          · obtain ⟨tool, -, rfl⟩ := List.mem_map.mp h_manage
            exact ⟨_, _, rfl⟩
          · cases h_manage
      · split_ifs at h_skills
        · obtain ⟨tool, -, rfl⟩ := List.mem_map.mp h_skills
          exact ⟨_, _, rfl⟩
        · cases h_skills
    obtain ⟨pluginName, tool, rfl⟩ := h_plugin
    rfl

/-- **One action** keeps the registry in step with the log. -/
theorem Logged.step (h : Logged tools s) {a : RegistryAction} (h_step : s.step tools a = some t) :
    Logged tools t := by
  -- a body belongs to the one run it was made for
  have h_bodies : ∀ run bodies, bodies ⊆ (tools run).bodies run →
      ∀ body ∈ bodies, ∀ run', body.run? = some run' → body ∈ (tools run').bodies run' := by
    intro run bodies h_sub body h_body run' h_run'
    have h_mem := h_sub h_body
    obtain rfl := Option.some.inj ((run?_of_mem_bodies h_mem).symm.trans h_run')
    exact h_mem
  cases a with
  | install name metadata =>
    obtain rfl := Option.some.inj h_step
    exact h.register nofun
  | delegate run =>
    simp only [SharedRegistry.step] at h_step
    split_ifs at h_step with h_again
    obtain rfl := Option.some.inj h_step
    have h_all := h.registerAll (h_bodies run _ (List.subset_append_left _ _))
    exact ⟨h_all.last, h_all.own⟩
  | setup run =>
    simp only [SharedRegistry.step] at h_step
    split_ifs at h_step with h_again
    obtain rfl := Option.some.inj h_step
    have h_all := h.registerAll (h_bodies run _ (List.subset_append_right _ _))
    exact ⟨h_all.last, h_all.own⟩
  | call run name =>
    simp only [SharedRegistry.step] at h_step
    split_ifs at h_step with h_ready
    obtain rfl := Option.some.inj h_step
    exact h

/-- A name is there if its body is. -/
theorem names_has (s : SharedRegistry) (key : String) :
    s.names.has key = (Dict.get? s.tools key).isSome := by
  unfold names ToolRegistry.has Dict.has
  induction s.tools with
  | nil => rfl
  | cons p d ih =>
    rw [List.map_cons, Dict.get?_cons, Dict.get?_cons]
    split_ifs
    · rfl
    · exact ih

/-- **In step with the log, a call reaches its own run's tool exactly when the last
registration was its run's.** -/
theorem Logged.callsOwn_iff (h : Logged tools s) (a : RegistryAction) :
    CallsOwn tools s a ↔ LastIsOwn tools s a := by
  cases a with
  | call run name =>
    -- the body under the key is the one registered last
    refine forall₂_congr fun key h_key => ?_
    have h_has := ToolRegistry.has_of_reachedKey h_key
    rw [names_has] at h_has
    obtain ⟨body, h_body⟩ := Option.isSome_iff_exists.mp h_has
    -- which the log knows
    have h_last := h.last key
    rw [h_body, Option.map_some] at h_last
    rw [h_body, ← h_last]
    simp only [Option.mem_def, Option.some.injEq, forall_eq']
    refine or_congr_left ⟨run?_of_mem_bodies, fun h_run => h.own key body run h_body h_run⟩
  | _ => exact Iff.rfl

/-- **Every call of a run reaches a tool of its own**, along every interleaving of runs and
groups over one registry, exactly when no call comes after another registration under the
name it reaches. -/
theorem calls_own_iff (tools : ℕ → RunTools) (actions : List RegistryAction) :
    EachStep (step tools) (CallsOwn tools) {} actions ↔
      EachStep (step tools) (LastIsOwn tools) {} actions :=
  eachStep_congr (logged_start tools) (fun _ _ _ h h_step => h.step h_step)
    (fun _ a h => h.callsOwn_iff a) actions

/-- Two groups with a member `helper` each; both group calls start before the first supervisor
delegates. The first supervisor's call runs the member of the second group. -/
theorem delegates_mixed :
    let tools : ℕ → RunTools := fun _ => { delegates := ["helper"] }
    let before : List RegistryAction := [.delegate 0, .setup 0, .delegate 1, .setup 1]
    ¬EachStep (step tools) (CallsOwn tools) {} (before ++ [.call 0 "supervisor.delegate_to_helper"]) ∧
      (runSteps (step tools) {} before).bind
          (fun s => Dict.get? s.tools "supervisor.delegate_to_helper") =
        some (.delegate 1 "helper") := by
  decide +kernel

end SharedRegistry
end Nexus
