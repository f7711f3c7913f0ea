import NexusAgent.Tools.Interceptor

/-!
# The manifest resolver

`nexus/orchestration/resolver.py`, with `resolve_persona_config` of `nexus/orchestration/prompts.py`.
A manifest names agents and groups; the members of a group are names or mappings, and a mapping
with a pattern and members is a group inside the group. The resolver builds the tree below the root
and keeps the names of the groups around it on a stack.

The interpreter's limit on nested calls is the argument `limit`, counted in groups.
-/

open Lib

namespace Nexus.Orchestration

/-! ### Manifests -/

/-- `ManifestDefaults`. -/
structure ManifestDefaults where
  agent : Dict String Json := []
  llm : Dict String Json := []
  group : Dict String Json := []

/-- `OrchestrationManifestSchema`: what the resolver reads of it. -/
structure OrchestrationManifestSchema where
  root : String
  defaults : ManifestDefaults := {}
  agents : Dict String (Dict String Json) := []
  groups : Dict String (Dict String Json) := []

/-- The errors of a resolution. -/
inductive ManifestError
  | manifestLoad (message : String)
  | promptNotFound (promptName : Json) (available : List String)
  | referenceCycle (cyclePath : List String)
  | memberNotFound (name : String) (group : Json)
  /-- The calls are nested too deeply. -/
  | recursion
  /-- An error of the interpreter, of a validation or of a prompt. -/
  | raised (what : String)
  deriving DecidableEq

/-- A prompt: a text, or a function of the persona and the prompt's arguments, nothing if it
raises. -/
inductive PromptValue
  | text (template : String)
  | callable (f : Dict String Json → Dict String Json → Option String)

/-- What the resolver relies on: the interpreter's operations on values, the validated
configurations of models, agents and groups, and the prompts. -/
structure Host (L A G : Type) where
  /-- `==`. -/
  eq : Json → Json → Bool
  eq_str : ∀ a b, eq (.str a) (.str b) = true ↔ a = b
  /-- `repr`. -/
  repr : Json → String
  /-- `str`. -/
  str : Json → String
  llmConfig : Dict String Json → Option L
  agentConfig : Dict String Json → Option L → Option A
  groupConfig : Dict String Json → Option G
  prompts : Dict String PromptValue := []

/-- `MemberConfig`: an agent, or a group with its members. -/
inductive MemberConfig (A G : Type)
  | agent (config : A)
  | group (config : G) (members : List (MemberConfig A G))

/-! ### Merging -/

mutual

/-- `deep_merge`. -/
def deepMerge (base : Dict String Json) : Dict String Json → Dict String Json
  | [] => base
  | (key, value) :: override => deepMerge (Dict.set base key (merged (Dict.get? base key) value)) override

/-- The value of a key after a merge. -/
def merged (old : Option Json) : Json → Json
  | .obj override =>
    match old with
    | some (.obj base) => .obj (deepMerge base override)
    | _ => .obj override
  | value => value

end

/-! ### Agents -/

variable {L A G : Type} (host : Host L A G) (schema : OrchestrationManifestSchema)

/-- The errors of calls that are not the resolver's own. -/
def orRaise {α : Type} (what : String) : Option α → Except ManifestError α
  | some x => .ok x
  | none => .error (.raised what)

/-- `resolve_prompt_template`. -/
def resolvePromptTemplate (promptName : Json) (persona promptArgs : Dict String Json) :
    Except ManifestError String :=
  match promptName with
  | .arr _ => .error (.raised "TypeError")
  | .obj _ => .error (.raised "TypeError")
  | .str name =>
    match Dict.get? host.prompts name with
    | none => .error (.promptNotFound promptName (host.prompts.map Prod.fst))
    | some (.text template) => .ok template
    | some (.callable f) => orRaise "prompt" (f persona promptArgs)
  | _ => .error (.promptNotFound promptName (host.prompts.map Prod.fst))

/-- `resolve_persona_config`. -/
def resolvePersonaConfig (personaData : Dict String Json) :
    Except ManifestError (Dict String Json) :=
  let promptArgs := match Dict.get? personaData "prompt_args" with
    | some (.obj args) => args
    | _ => []
  let persona := Dict.set (Dict.erase (Dict.erase personaData "prompt") "prompt_args") "prompt_args"
    (.obj promptArgs)
  match (Dict.get? personaData "prompt").getD .null with
  | .null => .ok persona
  | promptName => do
    let template ← resolvePromptTemplate host promptName persona promptArgs
    return Dict.set persona "system_prompt_template" (.str template)

/-- `_coerce_llm_config`. -/
def coerceLlmConfig (data : Dict String Json) : Except ManifestError L :=
  let apiKey := (Dict.get? data "api_key").getD (.str "")
  let apiKey := if jsonTruthy apiKey then host.str apiKey else ""
  orRaise "ValidationError" (host.llmConfig (Dict.set data "api_key" (.str apiKey)))

/-- The persona of an agent, resolved if there is one. -/
def withPersona (merged : Dict String Json) : Except ManifestError (Dict String Json) :=
  match Dict.get? merged "persona" with
  | some (.obj persona) => do
    let persona ← resolvePersonaConfig host persona
    return Dict.set merged "persona" (.obj persona)
  | _ => .ok merged

/-- The model of an agent, if it is given by a mapping. -/
def llmOf (merged : Dict String Json) : Except ManifestError (Option L) :=
  match Dict.get? merged "llm" with
  | some (.obj data) => do
    let config ← coerceLlmConfig host data
    return some config
  | _ => .ok none

/-- `_resolve_agent`. -/
def resolveAgent (name : Json) (spec : Dict String Json) : Except ManifestError A := do
  let merged := Dict.set (deepMerge schema.defaults.agent spec) "name" name
  let merged := if ¬ Dict.has merged "llm" ∧ schema.defaults.llm ≠ [] then
    Dict.set merged "llm" (.obj schema.defaults.llm) else merged
  let merged ← withPersona host merged
  let llm ← llmOf host merged
  orRaise "ValidationError" (host.agentConfig merged llm)

/-! ### Groups -/

/-- The text of a name, if it is one. -/
def textOf : Json → Option String
  | .str name => some name
  | _ => none

/-- `raise ReferenceCycleError(path)`: the names are joined for the message, so each has to be a
text. -/
def raiseCycle (path : List Json) : ManifestError :=
  match path.mapM textOf with
  | some names => .referenceCycle names
  | none => .raised "TypeError"

/-- `_is_inline_group`. -/
def isInlineGroup (entry : Dict String Json) : Bool := Dict.has entry "pattern" && Dict.has entry "members"

/-- A group's own fields over the defaults. -/
def mergedGroup (name : Json) (spec : Dict String Json) : Dict String Json :=
  Dict.set (deepMerge schema.defaults.group spec) "name" name

/-- The entries of a group. -/
def membersSpec (spec : Dict String Json) : Except ManifestError (List Json) :=
  match updateItems ((Dict.get? (deepMerge schema.defaults.group spec) "members").getD (.arr [])) with
  | .ok entries => .ok entries
  | .error what => .error (.raised what)

/-- The check of a group's pattern. -/
def checkPattern (name : Json) (spec : Dict String Json) : Except ManifestError Unit :=
  let pattern := (Dict.get? (mergedGroup schema name spec) "pattern").getD (.str "supervisor")
  if pattern ∈ [.str "supervisor", .str "pipeline", .str "parallel"] then .ok ()
  else .error (.manifestLoad ("Group " ++ host.repr name ++ " has unsupported pattern " ++
    host.repr pattern ++ ". Supported: supervisor, pipeline, parallel"))

section Members

variable (resolveGroup : Json → Dict String Json → List Json → Except ManifestError (MemberConfig A G))

/-- `_resolve_member_ref`. -/
def resolveMemberRef (name : String) (groupName : Json) (resolving : List Json) :
    Except ManifestError (MemberConfig A G) :=
  match Dict.get? schema.agents name with
  | some spec => (resolveAgent host schema (.str name) spec).map .agent
  | none =>
    match Dict.get? schema.groups name with
    | some spec => resolveGroup (.str name) spec resolving
    | none => .error (.memberNotFound name groupName)

/-- `_resolve_member_entry`. -/
def resolveMemberEntry (entry groupName : Json) (resolving : List Json) :
    Except ManifestError (MemberConfig A G) :=
  match entry with
  | .str name => resolveMemberRef host schema resolveGroup name groupName resolving
  | .obj fields =>
    if isInlineGroup fields then
      let inlineName := (Dict.get? fields "name").getD .null
      if jsonTruthy inlineName then resolveGroup inlineName fields resolving
      else .error (.manifestLoad
        ("Inline group in " ++ host.repr groupName ++ " must include a name"))
    -- a mapping without a pattern is an agent, named after the group if it has no name
    else
      let inlineName := (Dict.get? fields "name").getD (.str (host.str groupName ++ "_member"))
      (resolveAgent host schema inlineName fields).map .agent
  | _ => .error (.manifestLoad ("Invalid member entry in group " ++ host.repr groupName ++
      ": expected name ref or mapping"))

end Members

/-- `_resolve_group`. -/
def resolveGroup : ℕ → Json → Dict String Json → List Json → Except ManifestError (MemberConfig A G)
  | 0, _, _, _ => .error .recursion
  | limit + 1, name, spec, resolving =>
    if resolving.any fun other => host.eq other name then
      .error (raiseCycle (resolving ++ [name]))
    else do
      checkPattern host schema name spec
      let entries ← membersSpec schema spec
      let members ← entries.mapM fun entry =>
        resolveMemberEntry host schema (resolveGroup limit) entry name (resolving ++ [name])
      let config ← orRaise "ValidationError"
        (host.groupConfig (Dict.erase (mergedGroup schema name spec) "members"))
      return .group config members

/-- The message for a root that is missing. -/
def rootNotFound : String :=
  let sorted (d : Dict String (Dict String Json)) : String :=
    host.repr (.arr (((d.map Prod.fst).mergeSort fun a b => a ≤ b).map .str))
  "Root " ++ host.repr (.str schema.root) ++ " not found in agents or groups. Available agents: " ++
    sorted schema.agents ++ "; groups: " ++ sorted schema.groups

/-- `resolve_root`. -/
def resolveRoot (limit : ℕ) : Except ManifestError (MemberConfig A G) :=
  match Dict.get? schema.agents schema.root with
  | some spec => (resolveAgent host schema (.str schema.root) spec).map .agent
  | none =>
    match Dict.get? schema.groups schema.root with
    | some spec => resolveGroup host schema limit (.str schema.root) spec []
    | none => .error (.manifestLoad (rootNotFound host schema))

end Nexus.Orchestration
