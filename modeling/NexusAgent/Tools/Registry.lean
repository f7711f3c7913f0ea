import NexusAgent.Session.Models

/-!
# The tool registry

Name lookup of `nexus/tools/registry.py`. A registry maps full names
(`plugin.tool`, or a flat name) to the properties declared by the `@tool` decorator.
Two routes turn a name the model emitted into a registered tool, and they parse it
differently:

* `resolveToolName` (with `getExecutionMode` and `requiresApproval`) looks the whole
  name up, and knows the legacy `tenant.` and `admin.` prefixes;
* `executeKey` is the lookup inside `execute`, which takes the name as the plugin and
  tool segments the caller cut it into.
-/

open Lib

namespace Nexus

/-- The declared properties of a registered tool that the runner reads. The execution
mode is the decorator's string, unvalidated. -/
structure ToolMetadata where
  requiresApproval : Bool := false
  execution : String := "server"
  deriving DecidableEq, Repr

/-- A registry: full names with their properties, in registration order. -/
abbrev ToolRegistry : Type := Dict String ToolMetadata

namespace ToolRegistry

/-- `has`. -/
def has (reg : ToolRegistry) (fullName : String) : Bool := Dict.has reg fullName

/-- `get_execution_mode`: an unregistered name counts as a server tool. -/
def getExecutionMode (reg : ToolRegistry) (fullName : String) : String :=
  match Dict.get? reg fullName with
  | some m => m.execution
  | none => "server"

/-- `requires_approval`. -/
def requiresApproval (reg : ToolRegistry) (fullName : String) : Bool :=
  match Dict.get? reg fullName with
  | some m => m.requiresApproval
  | none => false

/-- The bare name behind a legacy prefix, if `name` has the prefix and the bare name is
registered. -/
def stripPrefix (reg : ToolRegistry) (name pre : String) : Option String :=
  if PyStr.startsWith name pre then
    let bare := PyStr.dropFirst pre.length name
    if has reg bare then some bare else none
  else none

/-- `resolve_tool_name`; `none` is the `ValueError`. -/
def resolveToolName (reg : ToolRegistry) (name : String) : Option String :=
  if has reg name then some name
  else
    match ["tenant.", "admin."].findSome? (stripPrefix reg name) with
    | some bare => some bare
    | none =>
      if '.' ∈ name.toList then none
      else ["tenant." ++ name, "admin." ++ name].find? (has reg)

/-- The key `execute(plugin, tool)` runs; `none` is the `ValueError`. -/
def executeKey (reg : ToolRegistry) (plugin tool : String) : Option String :=
  let fullName := plugin ++ "." ++ tool
  if has reg fullName then some fullName
  else if tool = "" ∧ has reg plugin then some plugin
  else none

/-- The key the runner executes for an emitted name: it cuts the name at its dots and
hands the first two segments to `execute`. -/
def reachedKey (reg : ToolRegistry) (name : String) : Option String :=
  match PyStr.split '.' name with
  | plugin :: tool :: _ => executeKey reg plugin tool
  | [plugin] => executeKey reg plugin ""
  | [] => none

/-! ### What the lookups agree on -/

/-- The key executed is registered. -/
theorem has_of_executeKey {reg : ToolRegistry} {plugin tool k : String}
    (h : executeKey reg plugin tool = some k) : has reg k = true := by
  simp only [executeKey] at h
  split_ifs at h with hk hp
  · exact Option.some.inj h ▸ hk
  · exact Option.some.inj h ▸ hp.2

/-- Only registered tools are reached. -/
theorem has_of_reachedKey {reg : ToolRegistry} {name k : String}
    (h : reachedKey reg name = some k) : has reg k = true := by
  unfold reachedKey at h
  split at h
  · exact has_of_executeKey h
  · exact has_of_executeKey h
  · cases h

/-- A registered name resolves to itself. -/
theorem resolveToolName_of_has {reg : ToolRegistry} {name : String} (h : has reg name = true) :
    resolveToolName reg name = some name := by
  simp [resolveToolName, h]

end ToolRegistry
end Nexus
