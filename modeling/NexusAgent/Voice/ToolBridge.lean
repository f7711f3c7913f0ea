import Mathlib.Data.List.Forall2
import NexusAgent.Lib.Merge
import NexusAgent.Lib.Replace
import NexusAgent.Lib.Split
import NexusAgent.Tools.Registry

/-!
# Tools of the speech-to-speech pipeline

`_build_tool_schemas` and `_tool_executor` of `nexus/realtime/pipelines/speech_to_speech.py`, with
`get_tool_schemas_for_llm` of `nexus/tools/registry.py`. A tool is advertised with dashes for the
dots of its name, and a map leads from the advertised name back to the two parts of the name that
`execute` takes.

* `bridged_iff`: the registries whose tools are advertised under names of their own, and run.
-/

open Lib

namespace Nexus

/-! ### The registry -/

/-- A registered tool: the properties of its decorator that a schema is made of, and the schema of
its parameters. -/
structure RegisteredTool extends ToolMetadata where
  plugin : String := ""
  description : String := ""
  parameters : Json := .obj []
  deriving DecidableEq, Repr

/-- A tool as it is offered to a model. -/
structure ToolSchema where
  name : String
  description : String
  parameters : Json
  deriving DecidableEq, Repr

/-- The registered tools by their full names. -/
abbrev ToolTable : Type := Dict String RegisteredTool

namespace ToolTable

/-- The registry the lookups read. -/
def registry (tools : ToolTable) : ToolRegistry := Dict.mapValues RegisteredTool.toToolMetadata tools

/-- `get_tool_schemas_for_llm`, without the injection of a control field: the tools without a plugin
are always kept. -/
def getToolSchemasForLlm (tools : ToolTable) (pluginNames : List String) : List ToolSchema :=
  (Dict.items tools).filterMap fun t =>
    if pluginNames ≠ [] ∧ t.2.plugin ≠ "" ∧ t.2.plugin ∉ pluginNames then none
    else some { name := t.1, description := t.2.description, parameters := t.2.parameters }

end ToolTable

namespace Voice

/-! ### The pipeline -/

/-- `name.partition(".")`, without the separator. -/
def partition (name : String) : String × String :=
  match PyStr.cut ['.'] name.toList with
  | some (plugin, tool) => (String.ofList plugin, String.ofList tool)
  | none => (name, "")

/-- The realtime-safe name. -/
def safeName (name : String) : String := PyStr.replace "." "-" name

/-- `_build_tool_schemas`: the schemas under their safe names. -/
def buildToolSchemas (raw : List ToolSchema) : List ToolSchema :=
  raw.map fun schema => { schema with name := safeName schema.name }

/-- `_name_map` after `_build_tool_schemas`. -/
def nameMap (raw : List ToolSchema) : Dict String (String × String) :=
  Dict.update [] (raw.map fun schema => (safeName schema.name, partition schema.name))

/-- `_tool_executor`: the tool that is run, with the arguments it is given; nothing if no tool is
found. -/
def toolExecutor (tools : ToolTable) (names : Dict String (String × String)) (name : String)
    (args : Dict String Json) : Option (String × Dict String Json) :=
  let (plugin, tool) := (Dict.get? names name).getD (name, "")
  (tools.registry.executeKey plugin tool).map fun key => (key, Dict.erase args "_context_updates")

/-- The bridging is sound: no two schemas are advertised under one name, and a call by the name of a
schema runs the tool the schema was made from. -/
structure Bridged (tools : ToolTable) (plugins : List String) : Prop where
  distinct : ((buildToolSchemas (tools.getToolSchemasForLlm plugins)).map ToolSchema.name).Nodup
  executes : ∀ schema ∈ tools.getToolSchemasForLlm plugins, ∀ args,
    toolExecutor tools (nameMap (tools.getToolSchemasForLlm plugins)) (safeName schema.name) args =
      some (schema.name, Dict.erase args "_context_updates")

/-! ### Names -/

/-- The names differ in dots against dashes at most. -/
def SameButDots (name name' : String) : Prop :=
  List.Forall₂ (fun c c' => c = c' ∨ c = '.' ∧ c' = '-' ∨ c = '-' ∧ c' = '.') name.toList name'.toList

/-- **Names with one safe name.** -/
theorem safeName_eq_iff {name name' : String} :
    safeName name = safeName name' ↔ SameButDots name name' := by
  -- a dot and a hyphen become the same character
  have h_char : ∀ c c' : Char, (if c = '.' then '-' else c) = (if c' = '.' then '-' else c') ↔
      c = c' ∨ c = '.' ∧ c' = '-' ∨ c = '-' ∧ c' = '.' := by
    intro c c'
    split_ifs with h_c h_c' h_c' <;> grind
  -- the replacement is character by character
  have h_list : ∀ s : String, (safeName s).toList = s.toList.map fun c => if c = '.' then '-' else c := by
    intro s
    unfold safeName PyStr.replace
    rw [String.toList_ofList]
    exact PyStr.replaceFrom_char '.' '-' s.toList
  rw [← String.toList_inj, h_list, h_list, ← List.forall₂_eq_eq_eq, List.forall₂_map_left_iff,
    List.forall₂_map_right_iff]
  simp only [h_char]
  rfl

/-- Without a dot the name is the plugin. -/
theorem partition_of_notMem {name : String} (h : '.' ∉ name.toList) : partition name = (name, "") := by
  unfold partition
  cases h_cut : PyStr.cut ['.'] name.toList with
  | none => rfl
  | some p =>
    have h_name := PyStr.cut_some h_cut
    rw [h_name] at h
    exact absurd (List.mem_append_right _ (List.mem_cons_self)) h

/-- A name with a dot is its two parts. -/
theorem partition_of_mem {name : String} (h : '.' ∈ name.toList) :
    (partition name).1 ++ "." ++ (partition name).2 = name := by
  obtain ⟨u, v, h_name⟩ := List.append_of_mem h
  obtain ⟨plugin, tool, h_cut, -⟩ := @PyStr.cut_le ['.'] (List.cons_ne_nil _ _) u v
  have h_cut' : PyStr.cut ['.'] name.toList = some (plugin, tool) := by
    rw [h_name]
    exact h_cut
  unfold partition
  rw [h_cut', ← String.toList_inj, PyStr.cut_some h_cut']
  simp

/-- **The key the two parts of a registered name lead to**: the name, unless it is one part and the
name with a dot after it is registered too. -/
theorem executeKey_partition {reg : ToolRegistry} {name : String} (h : reg.has name = true) :
    reg.executeKey (partition name).1 (partition name).2 = some name ↔
      ('.' ∉ name.toList → reg.has (name ++ ".") = false) := by
  -- a dotted name is found under its parts
  by_cases h_dot : '.' ∈ name.toList
  · unfold ToolRegistry.executeKey
    simp only [partition_of_mem h_dot]
    rw [if_pos h]
    exact iff_of_true rfl fun h_notMem => absurd h_dot h_notMem
  · -- a plain one is tried with a dot at its end first
    have h_dotted : name ++ "." ++ "" = name ++ "." := String.append_empty
    rw [partition_of_notMem h_dot]
    unfold ToolRegistry.executeKey
    simp only [h_dotted]
    -- which may be another tool
    cases h_has : reg.has (name ++ ".") with
    | true =>
      rw [if_pos rfl]
      refine iff_of_false (fun h_eq => ?_) fun h_off => by cases h_off h_dot
      have h_chars := congrArg String.toList (Option.some.inj h_eq)
      rw [String.toList_append] at h_chars
      exact absurd h_chars (by simp)
    | false =>
      rw [if_neg Bool.false_ne_true, if_pos ⟨trivial, h⟩]
      exact iff_of_true rfl fun _ => rfl

/-! ### Schemas -/

variable {tools : ToolTable} {plugins : List String}

/-- A schema is made from a registered tool. -/
theorem has_of_mem {schema : ToolSchema} (h : schema ∈ tools.getToolSchemasForLlm plugins) :
    tools.registry.has schema.name = true := by
  obtain ⟨⟨name, t⟩, h_item, h_schema⟩ := List.mem_filterMap.mp h
  split_ifs at h_schema
  obtain rfl := Option.some.inj h_schema
  have h_get := Dict.mem_items.mp h_item
  unfold ToolRegistry.has Dict.has ToolTable.registry
  rw [Dict.get?_mapValues, h_get]
  rfl

/-- The names are distinct if no two tools differ in dots only. -/
theorem distinct_iff {raw : List ToolSchema} :
    ((buildToolSchemas raw).map ToolSchema.name).Nodup ↔
      raw.Pairwise fun schema schema' => ¬ SameButDots schema.name schema'.name := by
  rw [buildToolSchemas, List.map_map, List.Nodup, List.pairwise_map]
  simp only [Function.comp_apply, Ne, safeName_eq_iff]

/-- The map leads back to the parts of the name. -/
theorem get?_nameMap {raw : List ToolSchema} (h : ((buildToolSchemas raw).map ToolSchema.name).Nodup)
    {schema : ToolSchema} (h_mem : schema ∈ raw) :
    Dict.get? (nameMap raw) (safeName schema.name) = some (partition schema.name) := by
  -- the safe names are all different, so each leads back to one tool
  have h_inj : ∀ s ∈ raw, ∀ s' ∈ raw, safeName s.name = safeName s'.name → s = s' := by
    rw [buildToolSchemas, List.map_map] at h
    exact fun s h_s s' h_s' => List.inj_on_of_nodup_map h h_s h_s'
  let back (name : String) : Option (String × String) :=
    (raw.find? fun s => safeName s.name = name).map fun s => partition s.name
  have h_back : ∀ s ∈ raw, back (safeName s.name) = some (partition s.name) := by
    intro s h_s
    have h_some : (raw.find? fun s' => safeName s'.name = safeName s.name).isSome :=
      List.find?_isSome.mpr ⟨s, h_s, decide_eq_true rfl⟩
    obtain ⟨s', h_find⟩ := Option.isSome_iff_exists.mp h_some
    have h_same : safeName s'.name = safeName s.name := by simpa using List.find?_some h_find
    have h_eq := h_inj s' (List.mem_of_find?_eq_some h_find) s h_s h_same
    show (raw.find? fun s' => safeName s'.name = safeName s.name).map _ = _
    rw [h_find, h_eq]
    rfl
  unfold nameMap
  rw [@Dict.get?_update_of_agree _ _ _ back, if_pos]
  · exact h_back schema h_mem
  · unfold Dict.keys
    rw [List.map_map]
    exact List.mem_map.mpr ⟨schema, h_mem, rfl⟩
  · intro p h_p
    obtain ⟨s, h_s, rfl⟩ := List.mem_map.mp h_p
    exact h_back s h_s

/-- **The tools of a registry are bridged** exactly if the names of no two schemas differ in dots
against dashes only, and no name without a dot is registered with a dot after it as well. -/
theorem bridged_iff (tools : ToolTable) (plugins : List String) :
    Bridged tools plugins ↔
      ((tools.getToolSchemasForLlm plugins).Pairwise fun schema schema' =>
        ¬ SameButDots schema.name schema'.name) ∧
      ∀ schema ∈ tools.getToolSchemasForLlm plugins, '.' ∉ schema.name.toList →
        tools.registry.has (schema.name ++ ".") = false := by
  -- a call runs the tool unless a name with a dot at its end hides it
  have h_run : ∀ schema ∈ tools.getToolSchemasForLlm plugins,
      ((buildToolSchemas (tools.getToolSchemasForLlm plugins)).map ToolSchema.name).Nodup → ∀ args,
        (toolExecutor tools (nameMap (tools.getToolSchemasForLlm plugins)) (safeName schema.name)
            args = some (schema.name, Dict.erase args "_context_updates") ↔
          ('.' ∉ schema.name.toList → tools.registry.has (schema.name ++ ".") = false)) := by
    intro schema h_mem h_distinct args
    rw [← executeKey_partition (has_of_mem h_mem)]
    unfold toolExecutor
    rw [get?_nameMap h_distinct h_mem]
    simp
  -- distinct names and calls that run, each by its condition
  constructor
  · intro h
    refine ⟨distinct_iff.mp h.distinct, fun schema h_mem => ?_⟩
    exact (h_run schema h_mem h.distinct []).mp (h.executes schema h_mem [])
  · rintro ⟨h_pairwise, h_dotted⟩
    have h_distinct := distinct_iff.mpr h_pairwise
    exact ⟨h_distinct, fun schema h_mem args =>
      (h_run schema h_mem h_distinct args).mpr (h_dotted schema h_mem)⟩

/-- A tool with a dash and a tool of a plugin are advertised under one name. -/
theorem bridged_dash :
    ¬ Bridged [("notes.add", { plugin := "notes" }), ("notes-add", {})] [] := by
  intro h
  exact absurd h.distinct (by decide +kernel)

end Voice
end Nexus
