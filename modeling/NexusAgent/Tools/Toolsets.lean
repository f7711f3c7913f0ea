import Mathlib.Data.Finset.Image
import NexusAgent.Tools.Registry

/-!
# Toolsets and the allow-list of a runner

`nexus/tools/toolsets.py`, `resolve_toolset` of `nexus/tools/registry.py`, and the allow-list
that `AgentRunner` of `nexus/runner/agent_runner.py` keeps.

A toolset names tools and other toolsets; expanding one collects the tools of every toolset
it reaches. The runner holds the result (`allowed`, where `none` is no restriction) and, in a
second place, the names granted while it lives (`granted`), which every run merges in again.
-/

open Lib

namespace Nexus

/-! ### Expanding toolsets -/

/-- `Toolset`, the fields the expansion reads. -/
structure Toolset where
  includes : List String := []
  tools : List String := []
  deriving DecidableEq, Repr

/-- The names of toolsets that were not expanded yet. -/
def unseenToolsets (toolsets : Dict String Toolset) (seen : List String) : List String :=
  (toolsets.map Prod.fst).filter (· ∉ seen)

theorem unseenToolsets_cons (toolsets : Dict String Toolset) (name : String) (seen : List String) :
    unseenToolsets toolsets (name :: seen) = (unseenToolsets toolsets seen).filter (· ≠ name) := by
  simp [unseenToolsets, List.filter_filter]

/-- Visiting a toolset leaves no more unseen than before. -/
theorem unseenToolsets_cons_le (toolsets : Dict String Toolset) (name : String)
    (seen : List String) :
    (unseenToolsets toolsets (name :: seen)).length ≤ (unseenToolsets toolsets seen).length := by
  rw [unseenToolsets_cons]
  exact List.length_filter_le _ _

/-- A toolset that is visited is no longer unseen. -/
theorem unseenToolsets_cons_lt {toolsets : Dict String Toolset} {name : String} {ts : Toolset}
    {seen : List String} (h : Dict.get? toolsets name = some ts) (h_seen : name ∉ seen) :
    (unseenToolsets toolsets (name :: seen)).length < (unseenToolsets toolsets seen).length := by
  have h_mem : name ∈ unseenToolsets toolsets seen :=
    List.mem_filter.mpr ⟨List.mem_map.mpr ⟨_, Dict.mem_of_get? h, rfl⟩, by simpa using h_seen⟩
  rw [unseenToolsets_cons]
  exact List.length_filter_lt_length_iff_exists.mpr ⟨name, h_mem, by simp⟩

/-- `resolve_toolset_tools` for the names `todo` one after the other, with the set of names
seen shared among them: an unknown name with a dot is a tool, any other unknown name nothing. -/
def resolveToolsetTools (toolsets : Dict String Toolset) (seen : List String) :
    List String → Finset String
  | [] => ∅
  | name :: todo =>
    if name ∈ seen then resolveToolsetTools toolsets seen todo
    else
      match _h : Dict.get? toolsets name with
      | none =>
        (if '.' ∈ name.toList then {name} else ∅) ∪ resolveToolsetTools toolsets (name :: seen) todo
      | some ts =>
        ts.tools.toFinset ∪ resolveToolsetTools toolsets (name :: seen) (ts.includes ++ todo)
termination_by todo => ((unseenToolsets toolsets seen).length, todo.length)
decreasing_by
  · exact Prod.Lex.right _ (by simp)
  · exact Prod.Lex.right' _ (unseenToolsets_cons_le toolsets name seen) (by simp)
  · exact Prod.Lex.left _ _ (unseenToolsets_cons_lt ‹_› ‹_›)

/-- `ToolRegistry.resolve_toolset`. -/
def resolveToolset (toolsets : Dict String Toolset) (names : Option (List String)) :
    Option (Finset String) :=
  names.map fun names =>
    names.foldl (fun out name => out ∪ resolveToolsetTools toolsets [] [name]) ∅

/-! ### The allow-list of a runner -/

/-- `_allowed_tools` and `_runtime_granted_tools`. -/
structure ToolAccess where
  allowed : Option (Finset String) := none
  granted : Finset String := ∅
  deriving DecidableEq

namespace ToolAccess

/-- `_resolve_toolsets`, on the allow-list the toolset resolves to. -/
def resolveToolsets (configured : Option (Finset String)) (access : ToolAccess) : ToolAccess :=
  { access with allowed := configured.map (· ∪ access.granted) }

/-- `grant_tools`. -/
def grantTools (names : Finset String) (access : ToolAccess) : ToolAccess where
  allowed := access.allowed.map (· ∪ names)
  granted := access.granted ∪ names

/-- `grant_toolset`, on the tools the toolset resolves to. -/
def grantToolset (resolved : Finset String) (access : ToolAccess) : ToolAccess :=
  { access with allowed := access.allowed.map (· ∪ resolved) }

/-- `revoke_tools`. -/
def revokeTools (names : Finset String) (access : ToolAccess) : ToolAccess :=
  { access with allowed := access.allowed.map (· \ names) }

end ToolAccess

/-- An allow-list admits a name: `filter_schemas_by_tools` keeps a schema of that name. -/
def Admits (allowed : Option (Finset String)) (name : String) : Prop := ∀ tools ∈ allowed, name ∈ tools

instance (allowed : Option (Finset String)) (name : String) : Decidable (Admits allowed name) :=
  inferInstanceAs (Decidable (∀ tools ∈ allowed, name ∈ tools))

@[simp] theorem admits_none (name : String) : Admits none name := by simp [Admits]

@[simp] theorem admits_some (tools : Finset String) (name : String) :
    Admits (some tools) name ↔ name ∈ tools := by
  simp [Admits]

end Nexus
