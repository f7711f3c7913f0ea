import NexusAgent.Lib.Reach
import NexusAgent.Tools.Toolsets

/-!
# What a toolset resolves to

`resolve_toolset_tools` expands the included toolsets one inside the other, with one set of the
names seen for all of them, and a name met again adds nothing. `Expands` is this recursion as the
source has it; `resolveToolsetTools` is the same search with the names still to do in a list.

* `Expands.resolve`, `exists_expands`: the recursion is the search, and it ends.
* `mem_resolveToolsetTools`: what a search finds, by the paths that avoid the names seen.
* `resolveToolset_reaches`: what a list of names resolves to.
-/

open Lib

namespace Nexus

/-! ### The recursion of the source -/

/-- What a name that is no toolset adds. -/
def undefinedTools (name : String) : Finset String := if '.' ∈ name.toList then {name} else ∅

/-- The calls `resolve_toolset_tools(name, _seen=seen)` for the names one after the other: the union
of what they return, and the names seen after them. -/
inductive Expands (toolsets : Dict String Toolset) :
    List String → List String → Finset String → List String → Prop
  | nil {seen : List String} : Expands toolsets seen [] ∅ seen
  | again {seen seen' : List String} {name : String} {names : List String} {rest : Finset String}
      (h : name ∈ seen) (h_rest : Expands toolsets seen names rest seen') :
    Expands toolsets seen (name :: names) (∅ ∪ rest) seen'
  | undefined {seen seen' : List String} {name : String} {names : List String}
      {rest : Finset String} (h : name ∉ seen) (h_get : Dict.get? toolsets name = none)
      (h_rest : Expands toolsets (name :: seen) names rest seen') :
    Expands toolsets seen (name :: names) (undefinedTools name ∪ rest) seen'
  | defined {seen seen' seen'' : List String} {name : String} {names : List String}
      {ts : Toolset} {out rest : Finset String} (h : name ∉ seen)
      (h_get : Dict.get? toolsets name = some ts)
      (h_children : Expands toolsets (name :: seen) ts.includes out seen')
      (h_rest : Expands toolsets seen' names rest seen'') :
    Expands toolsets seen (name :: names) ((ts.tools.toFinset ∪ out) ∪ rest) seen''

variable {toolsets : Dict String Toolset}

/-- An undefined toolset is passed over. -/
theorem resolveToolsetTools_undefined {seen : List String} {name : String} (h : name ∉ seen)
    (h_get : Dict.get? toolsets name = none) (todo : List String) :
    resolveToolsetTools toolsets seen (name :: todo) =
      undefinedTools name ∪ resolveToolsetTools toolsets (name :: seen) todo := by
  rw [resolveToolsetTools, if_neg h]
  split
  · rfl
  · next h_some =>
    rw [h_get] at h_some
    cases h_some

/-- A defined one adds its tools and is followed by its children. -/
theorem resolveToolsetTools_defined {seen : List String} {name : String} {ts : Toolset}
    (h : name ∉ seen) (h_get : Dict.get? toolsets name = some ts) (todo : List String) :
    resolveToolsetTools toolsets seen (name :: todo) =
      ts.tools.toFinset ∪ resolveToolsetTools toolsets (name :: seen) (ts.includes ++ todo) := by
  rw [resolveToolsetTools, if_neg h]
  split
  · next h_none =>
    rw [h_get] at h_none
    cases h_none
  · next ts' h_some =>
    rw [h_get] at h_some
    obtain rfl := Option.some.inj h_some
    rfl

/-- **The recursion and the search agree.** -/
theorem Expands.resolve {seen seen' names : List String} {out : Finset String}
    (h : Expands toolsets seen names out seen') (todo : List String) :
    resolveToolsetTools toolsets seen (names ++ todo) =
      out ∪ resolveToolsetTools toolsets seen' todo := by
  -- by induction on the expansion, in the order of the recursion
  induction h generalizing todo with
  | nil => rw [List.nil_append, Finset.empty_union]
  | again h _ ih =>
    rw [List.cons_append, resolveToolsetTools, if_pos h, ih, Finset.empty_union]
  | undefined h h_get _ ih =>
    rw [List.cons_append, resolveToolsetTools_undefined h h_get, ih, Finset.union_assoc]
  -- first the children, and then the rest
  | defined h h_get _ _ ih_children ih_rest =>
    rw [List.cons_append, resolveToolsetTools_defined h h_get, ih_children, ih_rest,
      Finset.union_assoc, Finset.union_assoc]

/-- The calls for two lists of names. -/
theorem Expands.of_append {seen seen'' names more : List String} {out : Finset String}
    (h : Expands toolsets seen (names ++ more) out seen'') :
    ∃ out₁ seen' out₂, Expands toolsets seen names out₁ seen' ∧
      Expands toolsets seen' more out₂ seen'' := by
  -- by induction on the names, split where the first list ends
  induction names generalizing seen out with
  | nil => exact ⟨∅, seen, out, .nil, h⟩
  | cons name names ih =>
    cases h with
    | again h h_rest =>
      obtain ⟨out₁, seen', out₂, h_names, h_more⟩ := ih h_rest
      exact ⟨_, seen', out₂, .again h h_names, h_more⟩
    | undefined h h_get h_rest =>
      obtain ⟨out₁, seen', out₂, h_names, h_more⟩ := ih h_rest
      exact ⟨_, seen', out₂, .undefined h h_get h_names, h_more⟩
    | defined h h_get h_children h_rest =>
      obtain ⟨out₁, seen', out₂, h_names, h_more⟩ := ih h_rest
      exact ⟨_, seen', out₂, .defined h h_get h_children h_names, h_more⟩

/-- **The recursion ends**, whatever includes what. -/
theorem exists_expands (toolsets : Dict String Toolset) (seen names : List String) :
    ∃ out seen', Expands toolsets seen names out seen' := by
  -- by induction along the recursion of the resolver
  induction seen, names using resolveToolsetTools.induct toolsets with
  | case1 seen => exact ⟨∅, seen, .nil⟩
  | case2 seen name todo h ih =>
    obtain ⟨out, seen', h_rest⟩ := ih
    exact ⟨_, seen', .again h h_rest⟩
  | case3 seen name todo h h_get ih =>
    obtain ⟨out, seen', h_rest⟩ := ih
    exact ⟨_, seen', .undefined h h_get h_rest⟩
  -- the children and the rest are one list there
  | case4 seen name todo h ts h_get ih =>
    obtain ⟨out, seen'', h_all⟩ := ih
    obtain ⟨out₁, seen', out₂, h_children, h_rest⟩ := h_all.of_append
    exact ⟨_, seen'', .defined h h_get h_children h_rest⟩

/-- One call returns what the search finds. -/
theorem Expands.eq_resolve {seen : List String} {name : String} {found : Finset String}
    (h : Expands toolsets [] [name] found seen) :
    found = resolveToolsetTools toolsets [] [name] := by
  have h_search := h.resolve []
  rw [List.append_nil] at h_search
  rw [h_search, resolveToolsetTools, Finset.union_empty]

/-! ### Reachable names -/

/-- The names a toolset includes. -/
def includesOf (toolsets : Dict String Toolset) (name : String) : List String :=
  ((Dict.get? toolsets name).map Toolset.includes).getD []

/-- What a name adds by itself: the tools of the toolset, or the name if it is none and has a
dot. -/
def ownTools (toolsets : Dict String Toolset) (name : String) : Finset String :=
  match Dict.get? toolsets name with
  | some ts => ts.tools.toFinset
  | none => undefinedTools name

/-- **What a search finds**: what the names add that are reached around those seen. -/
theorem mem_resolveToolsetTools {seen names : List String} {tool : String} :
    tool ∈ resolveToolsetTools toolsets seen names ↔
      ∃ name ∈ names, ∃ reached, Avoids (includesOf toolsets) seen name reached ∧
        tool ∈ ownTools toolsets reached := by
  induction seen, names using resolveToolsetTools.induct toolsets with
  | case1 seen => simp [resolveToolsetTools]
  -- a name seen before is skipped: no path that avoids the seen ones starts there
  | case2 seen name todo h ih =>
    rw [resolveToolsetTools, if_pos h, ih, List.exists_mem_cons_iff]
    refine (or_iff_right ?_).symm
    rintro ⟨reached, h_avoids, -⟩
    exact h_avoids.start h
  | case3 seen name todo h h_get ih =>
    have h_own : ownTools toolsets name = undefinedTools name := by simp [ownTools, h_get]
    have h_includes : includesOf toolsets name = [] := by simp [includesOf, h_get]
    rw [resolveToolsetTools_undefined h h_get, Finset.mem_union, ih, ← h_own]
    constructor
    · rintro (h_tool | ⟨x, h_x, reached, h_avoids, h_tool⟩)
      · exact ⟨name, List.mem_cons_self, name, .refl h, h_tool⟩
      · exact ⟨x, List.mem_cons_of_mem _ h_x, reached, h_avoids.of_cons, h_tool⟩
    · rintro ⟨x, h_x, reached, h_avoids, h_tool⟩
      -- a path goes around the name, ends at it, or leaves it by one of its includes
      rcases h_avoids.split name with h_around | rfl | ⟨c, h_c, -⟩
      · refine .inr ⟨x, ?_, reached, h_around, h_tool⟩
        exact (List.mem_cons.mp h_x).resolve_left fun h_eq =>
          h_around.start (h_eq ▸ List.mem_cons_self)
      · exact .inl h_tool
      · rw [h_includes] at h_c
        cases h_c
  -- the includes go in front of the names still to do
  | case4 seen name todo h ts h_get ih =>
    have h_own : ownTools toolsets name = ts.tools.toFinset := by simp [ownTools, h_get]
    have h_includes : includesOf toolsets name = ts.includes := by simp [includesOf, h_get]
    rw [resolveToolsetTools_defined h h_get, Finset.mem_union, ih, ← h_own, ← h_includes]
    constructor
    · rintro (h_tool | ⟨x, h_x, reached, h_avoids, h_tool⟩)
      · exact ⟨name, List.mem_cons_self, name, .refl h, h_tool⟩
      · rcases List.mem_append.mp h_x with h_child | h_todo
        · exact ⟨name, List.mem_cons_self, reached, h_avoids.of_cons.head h_child h, h_tool⟩
        · exact ⟨x, List.mem_cons_of_mem _ h_todo, reached, h_avoids.of_cons, h_tool⟩
    · rintro ⟨x, h_x, reached, h_avoids, h_tool⟩
      rcases h_avoids.split name with h_around | rfl | ⟨c, h_c, h_behind⟩
      · refine .inr ⟨x, List.mem_append_right _ ?_, reached, h_around, h_tool⟩
        exact (List.mem_cons.mp h_x).resolve_left fun h_eq =>
          h_around.start (h_eq ▸ List.mem_cons_self)
      · exact .inl h_tool
      · exact .inr ⟨c, List.mem_append_left _ h_c, reached, h_behind, h_tool⟩

/-- What one call finds: what is reached from its name. -/
theorem mem_resolve_single {name tool : String} :
    tool ∈ resolveToolsetTools toolsets [] [name] ↔
      ∃ reached, Reaches (includesOf toolsets) name reached ∧ tool ∈ ownTools toolsets reached := by
  rw [mem_resolveToolsetTools]
  simp only [List.mem_singleton, exists_eq_left, Avoids.nil_iff]

/-! ### Lists of names -/

/-- The tables differ only in the order of their includes and tools. -/
def SameToolsets (toolsets toolsets' : Dict String Toolset) : Prop :=
  ∀ name, Option.Rel (fun ts ts' => ts.includes.Perm ts'.includes ∧ ts.tools.Perm ts'.tools)
    (Dict.get? toolsets name) (Dict.get? toolsets' name)

/-- The same toolsets include the same ones. -/
theorem SameToolsets.includes {toolsets' : Dict String Toolset}
    (h : SameToolsets toolsets toolsets') (name child : String) :
    child ∈ includesOf toolsets name ↔ child ∈ includesOf toolsets' name := by
  have h_name := h name
  unfold includesOf
  revert h_name
  generalize Dict.get? toolsets name = found, Dict.get? toolsets' name = found'
  rintro (⟨h_includes, -⟩ | -)
  · exact h_includes.mem_iff
  · rfl

/-- And they have the same tools. -/
theorem SameToolsets.ownTools {toolsets' : Dict String Toolset}
    (h : SameToolsets toolsets toolsets') (name : String) :
    ownTools toolsets name = ownTools toolsets' name := by
  have h_name := h name
  unfold Nexus.ownTools
  revert h_name
  generalize Dict.get? toolsets name = found, Dict.get? toolsets' name = found'
  rintro (⟨-, h_tools⟩ | -)
  · exact List.toFinset_eq_of_perm _ _ h_tools
  · rfl

/-- The union over the names, by its members. -/
theorem mem_foldl_union {names : List String} {f : String → Finset String}
    {out : Finset String} {tool : String} :
    tool ∈ names.foldl (fun out name => out ∪ f name) out ↔
      tool ∈ out ∨ ∃ name ∈ names, tool ∈ f name := by
  induction names generalizing out with
  | nil => simp
  | cons name names ih =>
    rw [List.foldl_cons, ih, Finset.mem_union, List.exists_mem_cons_iff, or_assoc]

/-- **What a list of names resolves to**: what the names add that are reached from them. -/
theorem mem_resolveToolset (toolsets : Dict String Toolset) (names : List String) :
    ∃ out, resolveToolset toolsets (some names) = some out ∧ ∀ tool, tool ∈ out ↔
      ∃ name ∈ names, ∃ reached, Reaches (includesOf toolsets) name reached ∧
        tool ∈ ownTools toolsets reached := by
  refine ⟨_, rfl, fun tool => ?_⟩
  rw [mem_foldl_union, or_iff_right (Finset.notMem_empty _)]
  refine exists_congr fun name => and_congr_right fun _ => ?_
  exact mem_resolve_single

/-- **Resolving is reachability**: the recursion of the source ends on each of the names and the
result is the union of what it returns; that is the tools of the toolsets reached and the names
reached that are no toolsets and have a dot; and the order of names and includes does not
matter. -/
theorem resolveToolset_reaches (toolsets : Dict String Toolset) (names : List String) :
    ∃ out, resolveToolset toolsets (some names) = some out ∧
      (∀ name, ∃ found seen, Expands toolsets [] [name] found seen) ∧
      (∀ tool, tool ∈ out ↔ ∃ name ∈ names, ∃ found seen,
        Expands toolsets [] [name] found seen ∧ tool ∈ found) ∧
      (∀ tool, tool ∈ out ↔ ∃ name ∈ names, ∃ reached, Reaches (includesOf toolsets) name reached ∧
        tool ∈ ownTools toolsets reached) ∧
      ∀ toolsets' names', SameToolsets toolsets toolsets' → names.Perm names' →
        resolveToolset toolsets' (some names') = some out := by
  obtain ⟨out, h_out, h_mem⟩ := mem_resolveToolset toolsets names
  have h_ends : ∀ name, ∃ found seen, Expands toolsets [] [name] found seen :=
    fun name => exists_expands toolsets [] [name]
  refine ⟨out, h_out, h_ends, ?_, h_mem, ?_⟩
  · -- one call finds what is reached from its name
    intro tool
    rw [h_mem]
    refine exists_congr fun name => and_congr_right fun _ => ?_
    constructor
    · intro h_reached
      obtain ⟨found, seen, h_found⟩ := h_ends name
      refine ⟨found, seen, h_found, ?_⟩
      rw [h_found.eq_resolve]
      exact mem_resolve_single.mpr h_reached
    · rintro ⟨found, seen, h_found, h_tool⟩
      rw [h_found.eq_resolve] at h_tool
      exact mem_resolve_single.mp h_tool
  · intro toolsets' names' h_same h_perm
    obtain ⟨out', h_out', h_mem'⟩ := mem_resolveToolset toolsets' names'
    have h_eq : out' = out := by
      ext tool
      rw [h_mem, h_mem']
      constructor
      · rintro ⟨name, h_name, reached, h_reached, h_tool⟩
        exact ⟨name, h_perm.mem_iff.mpr h_name, reached,
          (Reaches.congr h_same.includes).mpr h_reached, h_same.ownTools reached ▸ h_tool⟩
      · rintro ⟨name, h_name, reached, h_reached, h_tool⟩
        exact ⟨name, h_perm.mem_iff.mp h_name, reached,
          (Reaches.congr h_same.includes).mp h_reached, h_same.ownTools reached ▸ h_tool⟩
    rw [h_out', h_eq]

end Nexus
