import NexusAgent.Orchestration.References

/-!
# Cycles of references

A group refers to the groups its entries name, at any depth of inline groups. The resolver finds a
cycle by the names on its stack, where the names of inline groups stand as well: a group inside a
group of its own name is reported as a cycle although no reference leads back.

* `Sound.acyclic`: what is resolved has no cycle.
* `raiseCycle_iff`: what is reported as a cycle.
* `resolveRoot_iff`: the manifests for which the report is right.
-/

open Lib Relation

namespace Nexus.Orchestration

variable {L A G : Type} {host : Host L A G} {schema : OrchestrationManifestSchema}

/-! ### The graph of references -/

/-- An entry names an agent or a group: by itself, or within inline groups. -/
inductive Mentions (schema : OrchestrationManifestSchema) : Json → String → Prop
  | ref (name : String) : Mentions schema (.str name) name
  | inline {fields : Dict String Json} {entries : List Json} {entry : Json} {name : String}
    (h_inline : isInlineGroup fields = true) (h_entries : membersSpec schema fields = .ok entries)
    (h_entry : entry ∈ entries) (h : Mentions schema entry name) :
    Mentions schema (.obj fields) name

/-- A name stands among the entries of a named group. -/
def Names (schema : OrchestrationManifestSchema) (group name : String) : Prop :=
  ∃ spec entries entry, Dict.get? schema.groups group = some spec ∧
    membersSpec schema spec = .ok entries ∧ entry ∈ entries ∧ Mentions schema entry name

/-- The name is that of a group; an agent of the name comes first. -/
def IsGroup (schema : OrchestrationManifestSchema) (name : String) : Prop :=
  Dict.has schema.agents name = false ∧ Dict.has schema.groups name = true

/-- A named group refers to another. -/
def Refers (schema : OrchestrationManifestSchema) (group group' : String) : Prop :=
  Names schema group group' ∧ IsGroup schema group'

/-- A named group that references lead to from the root. -/
def Reachable (schema : OrchestrationManifestSchema) (group : String) : Prop :=
  IsGroup schema schema.root ∧ ReflTransGen (Refers schema) schema.root group

/-- No named group that is reachable refers to itself through references. -/
def Acyclic (schema : OrchestrationManifestSchema) : Prop :=
  ∀ group, Reachable schema group → ¬ TransGen (Refers schema) group group

/-- All references from groups that are reachable exist. -/
def Complete (schema : OrchestrationManifestSchema) : Prop :=
  ∀ group name, Reachable schema group → Names schema group name →
    Dict.has schema.agents name = true ∨ Dict.has schema.groups name = true

/-! ### What a resolution meets -/

/-- Nothing is wrong with an agent or a group under the names on the stack. -/
inductive Sound (host : Host L A G) (schema : OrchestrationManifestSchema) : List Json → Target → Prop
  | agent {stack : List Json} {name : Json} {spec : Dict String Json} {config : A}
    (h : resolveAgent host schema name spec = .ok config) : Sound host schema stack (.agent name spec)
  | group {stack : List Json} {name : Json} {spec : Dict String Json} {entries : List Json}
    {targets : List Target} {config : G} (h_new : onStack host stack name = false)
    (h_pattern : checkPattern host schema name spec = .ok ())
    (h_entries : membersSpec schema spec = .ok entries)
    (h_targets : entries.mapM (target host schema name) = .ok targets)
    (h_members : ∀ t ∈ targets, Sound host schema (stack ++ [name]) t)
    (h_config : host.groupConfig (Dict.erase (mergedGroup schema name spec) "members") = some config) :
    Sound host schema stack (.group name spec)

/-- A group is met that lies in a group of its own name, and nothing is wrong with what comes before
it. -/
inductive Clashes (host : Host L A G) (schema : OrchestrationManifestSchema) :
    List Json → Target → Prop
  | here {stack : List Json} {name : Json} {spec : Dict String Json}
    (h_on : onStack host stack name = true) (h_names : ∀ n ∈ stack ++ [name], ∃ text, n = .str text) :
    Clashes host schema stack (.group name spec)
  | member {stack : List Json} {name : Json} {spec : Dict String Json} {before after : List Json}
    {entry : Json} {targets : List Target} {t : Target} (h_new : onStack host stack name = false)
    (h_pattern : checkPattern host schema name spec = .ok ())
    (h_entries : membersSpec schema spec = .ok (before ++ entry :: after))
    (h_before : before.mapM (target host schema name) = .ok targets)
    (h_sound : ∀ t ∈ targets, Sound host schema (stack ++ [name]) t)
    (h_entry : target host schema name entry = .ok t)
    (h : Clashes host schema (stack ++ [name]) t) : Clashes host schema stack (.group name spec)

/-- A tree has one member for each entry, in order. -/
inductive Mirrors (host : Host L A G) (schema : OrchestrationManifestSchema) :
    Target → MemberConfig A G → Prop
  | agent {name : Json} {spec : Dict String Json} {config : A}
    (h : resolveAgent host schema name spec = .ok config) :
    Mirrors host schema (.agent name spec) (.agent config)
  | group {name : Json} {spec : Dict String Json} {entries : List Json} {targets : List Target}
    {config : G} {members : List (MemberConfig A G)}
    (h_entries : membersSpec schema spec = .ok entries)
    (h_targets : entries.mapM (target host schema name) = .ok targets)
    (h_length : members.length = targets.length)
    (h_members : ∀ p ∈ targets.zip members, Mirrors host schema p.1 p.2)
    (h_config : host.groupConfig (Dict.erase (mergedGroup schema name spec) "members") = some config) :
    Mirrors host schema (.group name spec) (.group config members)

/-! ### The resolver -/

/-- The members of a group, in two steps: what they stand for, and what that is resolved to. -/
theorem mapM_resolveEntry_iff {limit : ℕ} {stack : List Json} {name : Json} {entries : List Json}
    {members : List (MemberConfig A G)} :
    entries.mapM (resolveEntry host schema limit stack name) = .ok members ↔
      ∃ targets, entries.mapM (target host schema name) = .ok targets ∧
        List.Forall₂ (fun t m => resolveTarget host schema limit stack t = .ok m) targets members := by
  induction entries generalizing members with
  | nil => simp [pure, Except.pure, eq_comm]
  | cons entry entries ih =>
    rw [mapM_ok_cons]
    constructor
    · -- an entry is resolved by finding its target and resolving this
      rintro ⟨member, rest, h_entry, h_rest, rfl⟩
      obtain ⟨t, h_t, h_member⟩ := bind_ok_iff.mp h_entry
      obtain ⟨targets, h_targets, h_all⟩ := ih.mp h_rest
      exact ⟨t :: targets, mapM_ok_cons.mpr ⟨t, targets, h_t, h_targets, rfl⟩, .cons h_member h_all⟩
    · rintro ⟨all, h_all, h_members⟩
      obtain ⟨t, targets, h_t, h_targets, rfl⟩ := mapM_ok_cons.mp h_all
      obtain ⟨member, rest, h_member, h_rest, rfl⟩ := List.forall₂_cons_left_iff.mp h_members
      exact ⟨member, rest, bind_ok_iff.mpr ⟨t, h_t, h_member⟩, ih.mpr ⟨targets, h_targets, h_rest⟩, rfl⟩

/-- **What is resolved** is sound, and the tree mirrors the entries. -/
theorem resolveTarget_ok {limit : ℕ} {stack : List Json} {t : Target} {tree : MemberConfig A G}
    (h : resolveTarget host schema limit stack t = .ok tree) :
    Sound host schema stack t ∧ Mirrors host schema t tree := by
  -- an agent has no members, so the depth left does not matter to it
  have h_agent : ∀ {stack : List Json} {name : Json} {spec : Dict String Json}
      {tree : MemberConfig A G}, (resolveAgent host schema name spec).map .agent = .ok tree →
        Sound host schema stack (.agent name spec) ∧ Mirrors host schema (.agent name spec) tree := by
    intro stack name spec tree h
    cases h_config : resolveAgent host schema name spec with
    | error e =>
      rw [h_config] at h
      cases h
    | ok config =>
      rw [h_config] at h
      cases h
      exact ⟨.agent h_config, .agent h_config⟩
  induction limit generalizing stack t tree with
  | zero => cases t with
    | agent name spec => exact h_agent h
    | group name spec => cases h
  | succ limit ih => cases t with
    | agent name spec => exact h_agent h
    | group name spec =>
      obtain ⟨h_new, h_pattern, entries, h_entries, members, h_members, config, h_config, rfl⟩ :=
        resolveGroup_ok_iff.mp h
      obtain ⟨targets, h_targets, h_all⟩ := mapM_resolveEntry_iff.mp h_members
      refine ⟨.group h_new h_pattern h_entries h_targets (fun t h_t => ?_) h_config,
        .group h_entries h_targets h_all.length_eq.symm (fun p h_p => ?_) h_config⟩
      · obtain ⟨member, -, h_member⟩ := forall₂_mem h_all h_t
        exact (ih h_member).1
      · exact (ih (List.forall₂_iff_zip.mp h_all |>.2 h_p)).2

/-- Targets that are resolved are resolved within one limit. -/
theorem forall₂_of_resolves {stack : List Json} {targets : List Target}
    (h : ∀ t ∈ targets, ∃ limit tree, resolveTarget host schema limit stack t = .ok tree) :
    ∃ limit members, ∀ limit', limit ≤ limit' →
      List.Forall₂ (fun t m => resolveTarget host schema limit' stack t = .ok m) targets members := by
  induction targets with
  | nil => exact ⟨0, [], fun _ _ => .nil⟩
  | cons t targets ih =>
    obtain ⟨limit, members, h_rest⟩ := ih fun t' h_t' => h t' (List.mem_cons_of_mem t h_t')
    obtain ⟨first, tree, h_tree⟩ := h t List.mem_cons_self
    refine ⟨max first limit, tree :: members, fun limit' h_le => .cons ?_ ?_⟩
    · -- the first target does not run into the limit
      have h_ne : resolveTarget host schema first stack t ≠ .error .recursion := by
        rw [h_tree]
        rintro ⟨⟩
      exact (resolveTarget_limit h_ne (le_of_max_le_left h_le)).trans h_tree
    · -- and the others need no more than the larger limit
      exact h_rest limit' (le_of_max_le_right h_le)

/-- **What is sound is resolved.** -/
theorem Sound.resolves {stack : List Json} {t : Target} (h : Sound host schema stack t) :
    ∃ limit tree, resolveTarget host schema limit stack t = .ok tree := by
  induction h with
  | @agent stack name spec config h_config =>
    refine ⟨0, .agent config, ?_⟩
    simp only [resolveTarget, h_config]
    rfl
  | group h_new h_pattern h_entries h_targets _ h_config ih =>
    obtain ⟨limit, members, h_members⟩ := forall₂_of_resolves ih
    exact ⟨limit + 1, _, resolveGroup_ok_iff.mpr ⟨h_new, h_pattern, _, h_entries, members,
      mapM_resolveEntry_iff.mpr ⟨_, h_targets, h_members limit le_rfl⟩, _, h_config, rfl⟩⟩

theorem not_mild_referenceCycle (path : List String) : ¬ Mild (.referenceCycle path) :=
  fun h => h.2 path rfl

/-- A cycle is reported if all names are texts. -/
theorem raiseCycle_iff {path : List Json} :
    (∃ names, raiseCycle path = .referenceCycle names) ↔ ∀ n ∈ path, ∃ text, n = .str text := by
  have h_text : ∀ n text, textOf n = some text ↔ n = .str text := fun n text => by
    cases n <;> simp [textOf]
  -- the path is joined to a text, which needs every name to be one
  have h_names : (∃ names, path.mapM textOf = some names) ↔ ∀ n ∈ path, ∃ text, n = .str text := by
    induction path with
    | nil => simp
    | cons n path ih =>
      simp only [List.mapM_cons, Option.bind_eq_bind, Option.pure_def, Option.bind_eq_some_iff,
        Option.some.injEq, h_text, List.forall_mem_cons, ← ih]
      constructor
      · rintro ⟨_, text, rfl, names, h_names, rfl⟩
        exact ⟨⟨text, rfl⟩, names, h_names⟩
      · rintro ⟨⟨text, rfl⟩, names, h_names⟩
        exact ⟨_, text, rfl, names, h_names, rfl⟩
  unfold raiseCycle
  rw [← h_names]
  constructor
  · rintro ⟨names, h⟩
    split at h
    · next names' h_path => exact ⟨names', h_path⟩
    · cases h
  · rintro ⟨names, h⟩
    exact ⟨names, by rw [h]⟩

theorem ne_recursion_of_cycle {x : Except ManifestError (MemberConfig A G)} {path : List String}
    (h : x = .error (.referenceCycle path)) : x ≠ .error .recursion := by
  rw [h]
  rintro ⟨⟩

/-- **What clashes is reported as a cycle.** -/
theorem Clashes.raises {stack : List Json} {t : Target} (h : Clashes host schema stack t) :
    ∃ limit path, resolveTarget host schema limit stack t = .error (.referenceCycle path) := by
  induction h with
  | here h_on h_names =>
    -- the name is on the stack: the cycle is raised with one call
    obtain ⟨names, h_raise⟩ := raiseCycle_iff.mpr h_names
    exact ⟨1, names,
      (resolveGroup_error_iff (not_mild_referenceCycle names)).mpr (.inl ⟨h_on, h_raise⟩)⟩
  | member h_new h_pattern h_entries h_before h_sound h_entry _ ih =>
    obtain ⟨below, path, h_cycle⟩ := ih
    obtain ⟨limit, members, h_members⟩ := forall₂_of_resolves fun t h_t => (h_sound t h_t).resolves
    -- a cycle is no recursion limit, so a larger limit does not change it
    have h_ne := ne_recursion_of_cycle h_cycle
    refine ⟨max below limit + 1, path, (resolveGroup_error_iff (not_mild_referenceCycle path)).mpr
      (.inr ⟨h_new, h_pattern, _, h_entries, mapM_error_iff.mpr ⟨_, _, _, members, rfl, ?_, ?_⟩⟩)⟩
    · -- the entries in front are resolved
      exact mapM_resolveEntry_iff.mpr ⟨_, h_before, h_members _ (le_max_right below limit)⟩
    · -- and the one with the cycle raises it
      refine bind_error_iff.mpr (.inr ⟨_, h_entry, ?_⟩)
      exact (resolveTarget_limit h_ne (le_max_left below limit)).trans h_cycle

/-- **What is reported as a cycle clashes.** -/
theorem clashes_of_raises {limit : ℕ} {stack : List Json} {t : Target} {path : List String}
    (h : resolveTarget host schema limit stack t = .error (.referenceCycle path)) :
    Clashes host schema stack t := by
  -- resolving an agent never raises a cycle
  have h_agent : ∀ name spec, (resolveAgent host schema name spec).map (MemberConfig.agent (G := G)) ≠
      .error (.referenceCycle path) := by
    intro name spec h
    cases h_config : resolveAgent host schema name spec with
    | ok config =>
      rw [h_config] at h
      cases h
    | error e =>
      rw [h_config] at h
      cases h
      exact not_mild_referenceCycle path (gentle_resolveAgent name spec _ h_config)
  induction limit generalizing stack t with
  | zero => cases t with
    | agent name spec => exact absurd h (h_agent name spec)
    | group name spec => cases h
  | succ limit ih => cases t with
    | agent name spec => exact absurd h (h_agent name spec)
    | group name spec =>
      rcases (resolveGroup_error_iff (not_mild_referenceCycle path)).mp h with
        ⟨h_on, h_raise⟩ | ⟨h_new, h_pattern, entries, h_entries, h_members⟩
      · exact .here h_on (raiseCycle_iff.mp ⟨path, h_raise⟩)
      · -- the members before the one that raises have been resolved
        obtain ⟨before, entry, after, members, rfl, h_before, h_entry⟩ := mapM_error_iff.mp h_members
        obtain ⟨targets, h_targets, h_all⟩ := mapM_resolveEntry_iff.mp h_before
        rcases bind_error_iff.mp h_entry with h_target | ⟨t, h_t, h_cycle⟩
        · exact absurd (gentle_target name entry _ h_target) (not_mild_referenceCycle path)
        · refine .member h_new h_pattern h_entries h_targets (fun t' h_t' => ?_) h_t (ih h_cycle)
          obtain ⟨member, -, h_member⟩ := forall₂_mem h_all h_t'
          exact (resolveTarget_ok h_member).1

/-! ### Cycles -/

theorem IsGroup.get? {name : String} (h : IsGroup schema name) :
    Dict.get? schema.agents name = none ∧ ∃ spec, Dict.get? schema.groups name = some spec :=
  ⟨Option.isNone_iff_eq_none.mp (Option.not_isSome _ ▸ (congrArg not h.1).trans rfl),
    Option.isSome_iff_exists.mp h.2⟩

/-- The group an entry names is sound under the names around it. -/
theorem Sound.mentions {entry groupName : Json} {name : String} {stack : List Json} {t : Target}
    {spec : Dict String Json} (h_mentions : Mentions schema entry name)
    (h_target : target host schema groupName entry = .ok t) (h : Sound host schema stack t)
    (h_group : IsGroup schema name) (h_spec : Dict.get? schema.groups name = some spec) :
    ∃ stack', stack ⊆ stack' ∧ Sound host schema stack' (.group (.str name) spec) := by
  induction h_mentions generalizing groupName stack t with
  | ref name =>
    -- a reference by name leads to the group of that name
    simp only [target, h_group.get?.1, h_spec] at h_target
    cases h_target
    exact ⟨stack, List.Subset.refl stack, h⟩
  | inline h_inline h_entries h_entry _ ih =>
    simp only [target] at h_target
    rw [if_pos h_inline] at h_target
    -- an inline group is resolved on its own, and the mention lies among its entries
    split_ifs at h_target
    cases h_target
    cases h with
    | group _ _ h_spec' h_targets h_members _ =>
      cases h_entries.symm.trans h_spec'
      obtain ⟨t', h_mem, h_t'⟩ := forall₂_mem (mapM_ok_iff.mp h_targets) h_entry
      obtain ⟨stack', h_sub, h_sound⟩ := ih h_t' (h_members t' h_mem) h_group h_spec
      exact ⟨stack', fun n h_n => h_sub (List.mem_append_left _ h_n), h_sound⟩

/-- A group that is referred to is sound under the name of the group that refers to it. -/
theorem Sound.refers {stack : List Json} {group group' : String} {spec : Dict String Json}
    (h : Sound host schema stack (.group (.str group) spec))
    (h_spec : Dict.get? schema.groups group = some spec) (h_refers : Refers schema group group') :
    ∃ stack' spec', stack ++ [.str group] ⊆ stack' ∧ Dict.get? schema.groups group' = some spec' ∧
      Sound host schema stack' (.group (.str group') spec') := by
  obtain ⟨⟨spec₀, entries, entry, h_spec₀, h_entries, h_entry, h_mentions⟩, h_group⟩ := h_refers
  cases h_spec.symm.trans h_spec₀
  -- the group that is referred to is there
  obtain ⟨spec', h_spec'⟩ := h_group.get?.2
  cases h with
  | group _ _ h_entries' h_targets h_members _ =>
    cases h_entries.symm.trans h_entries'
    -- its entry's target was resolved, on a stack with this group on it
    obtain ⟨t, h_mem, h_t⟩ := forall₂_mem (mapM_ok_iff.mp h_targets) h_entry
    obtain ⟨stack', h_sub, h_sound⟩ := (h_members t h_mem).mentions h_mentions h_t h_group h_spec'
    exact ⟨stack', spec', h_sub, h_spec', h_sound⟩

/-- A chain of references is resolved on a stack that has the whole way on it. -/
theorem Sound.transRefers {stack : List Json} {group group' : String} {spec : Dict String Json}
    (h : Sound host schema stack (.group (.str group) spec))
    (h_spec : Dict.get? schema.groups group = some spec)
    (h_refers : TransGen (Refers schema) group group') :
    ∃ stack' spec', stack ++ [.str group] ⊆ stack' ∧ Dict.get? schema.groups group' = some spec' ∧
      Sound host schema stack' (.group (.str group') spec') := by
  induction h_refers with
  | single h_one => exact h.refers h_spec h_one
  | tail _ h_last ih =>
    obtain ⟨stack', spec', h_sub, h_spec', h_sound⟩ := ih
    obtain ⟨stack₂, spec₂, h_sub₂, h_spec₂, h_sound₂⟩ := h_sound.refers h_spec' h_last
    -- the last group's stack has those before it
    exact ⟨stack₂, spec₂, fun n h_n => h_sub₂ (List.mem_append_left _ (h_sub h_n)), h_spec₂, h_sound₂⟩

/-- A sound group does not refer to itself: its name would be on the stack. -/
theorem Sound.not_transRefers {stack : List Json} {group : String} {spec : Dict String Json}
    (h : Sound host schema stack (.group (.str group) spec))
    (h_spec : Dict.get? schema.groups group = some spec) :
    ¬ TransGen (Refers schema) group group := by
  intro h_cycle
  obtain ⟨stack', spec', h_sub, -, h_sound⟩ := h.transRefers h_spec h_cycle
  -- on a cycle the group's name would be on its own stack
  have h_name : .str group ∈ stack' := h_sub (List.mem_append_right _ (List.mem_singleton.mpr rfl))
  cases h_sound with
  | group h_new _ _ _ _ _ =>
    -- and it would have been refused there
    have h_on : onStack host stack' (.str group) = true :=
      List.any_eq_true.mpr ⟨_, h_name, (host.eq_str group group).mpr rfl⟩
    rw [h_on] at h_new
    cases h_new

/-- **What is resolved has no cycle.** -/
theorem Sound.acyclic {t : Target} (h_root : rootTarget schema = some t)
    (h : Sound host schema [] t) : Acyclic schema := by
  rintro group ⟨h_group, h_reach⟩
  obtain ⟨h_agents, spec, h_spec⟩ := h_group.get?
  rw [rootTarget, h_agents, h_spec] at h_root
  cases h_root
  rcases reflTransGen_iff_eq_or_transGen.mp h_reach with rfl | h_trans
  · exact h.not_transRefers h_spec
  · obtain ⟨stack', spec', -, h_spec', h_sound⟩ := h.transRefers h_spec h_trans
    exact h_sound.not_transRefers h_spec'

/-- The resolution of a manifest is right: it comes to an end; what it returns has no cycle; and if
there is no cycle and nothing is missing, none is reported, and the tree has one member for each
entry, in order. -/
structure Resolves (host : Host L A G) (schema : OrchestrationManifestSchema) : Prop where
  terminates : ∃ needed, resolveRoot host schema needed ≠ .error .recursion ∧
    ∀ limit, needed ≤ limit → resolveRoot host schema limit = resolveRoot host schema needed
  acyclic : ∀ limit tree, resolveRoot host schema limit = .ok tree → Acyclic schema
  exact : Acyclic schema → Complete schema → ∀ limit,
    (∀ path, resolveRoot host schema limit ≠ .error (.referenceCycle path)) ∧
      ∀ tree, resolveRoot host schema limit = .ok tree →
        ∃ t, rootTarget schema = some t ∧ Mirrors host schema t tree

/-- **A manifest is resolved rightly** exactly if, where there is no cycle and nothing is missing, no
group that is met lies in a group of its own name. -/
theorem resolveRoot_iff (host : Host L A G) (schema : OrchestrationManifestSchema) :
    Resolves host schema ↔
      (Acyclic schema → Complete schema →
        ∀ t, rootTarget schema = some t → ¬ Clashes host schema [] t) := by
  constructor
  · intro h h_acyclic h_complete t h_root h_clash
    -- a clash raises a cycle error at some limit, which an acyclic manifest must not
    obtain ⟨limit, path, h_raises⟩ := h_clash.raises
    refine (h.exact h_acyclic h_complete limit).1 path ?_
    rw [resolveRoot_eq, h_root]
    exact h_raises
  · intro h
    cases h_root : rootTarget schema with
    | none =>
      -- without a root target every limit gives one and the same error
      have h_error : ∀ limit, resolveRoot host schema limit =
          .error (.manifestLoad (rootNotFound host schema)) := fun limit => by
        rw [resolveRoot_eq, h_root]
      refine ⟨⟨0, ?_, fun limit _ => (h_error limit).trans (h_error 0).symm⟩, ?_, ?_⟩
      · rw [h_error]
        rintro ⟨⟩
      · intro limit tree h_tree
        cases (h_error limit).symm.trans h_tree
      · refine fun _ _ limit => ⟨fun path h_path => ?_, fun tree h_tree => ?_⟩
        · cases (h_error limit).symm.trans h_path
        · cases (h_error limit).symm.trans h_tree
    | some t =>
      have h_eq : ∀ limit, resolveRoot host schema limit = resolveTarget host schema limit [] t :=
        fun limit => by rw [resolveRoot_eq, h_root]
      refine ⟨?_, ?_, ?_⟩
      · -- the recursion settles at a limit and keeps its result beyond it
        obtain ⟨limit, h_limit⟩ := @settles _ _ _ host schema [] t
        refine ⟨limit, fun h_e => h_limit ((h_eq limit).symm.trans h_e), fun limit' h_le => ?_⟩
        rw [h_eq, h_eq]
        exact resolveTarget_limit h_limit h_le
      · intro limit tree h_tree
        rw [h_eq] at h_tree
        exact (resolveTarget_ok h_tree).1.acyclic h_root
      · refine fun h_acyclic h_complete limit => ⟨fun path h_path => ?_, fun tree h_tree => ?_⟩
        · rw [h_eq] at h_path
          exact h h_acyclic h_complete t h_root (clashes_of_raises h_path)
        · rw [h_eq] at h_tree
          exact ⟨t, h_root, (resolveTarget_ok h_tree).2⟩

theorem eq_str_decide (a b : String) : decide (Json.str a = Json.str b) = true ↔ a = b := by
  rw [decide_eq_true_iff, Json.str.injEq]

/-- A host that accepts every configuration. -/
def lenientHost : Host Unit Unit Unit where
  eq a b := a = b
  eq_str := eq_str_decide
  repr := Json.dumps
  str := Json.dumps
  llmConfig _ := some ()
  agentConfig _ _ := some ()
  groupConfig _ := some ()

/-- A group with an inline group of its own name. -/
def teamInTeam : OrchestrationManifestSchema where
  root := "team"
  groups := [("team", [("members", .arr [
    .obj [("name", .str "team"), ("pattern", .str "pipeline"), ("members", .arr [])]])])]

/-- A group inside a group of its own name is reported as a cycle, and no group refers to any. -/
theorem resolveRoot_team : ¬ Resolves lenientHost teamInTeam := by
  intro h
  have h_names : ∀ group name, ¬ Names teamInTeam group name := by
    rintro group name ⟨spec, entries, entry, h_spec, h_entries, h_entry, h_mentions⟩
    have h_team : spec = [("members", .arr [
        .obj [("name", .str "team"), ("pattern", .str "pipeline"), ("members", .arr [])]])] := by
      simp only [teamInTeam, Dict.get?_cons, Dict.get?_nil] at h_spec
      split_ifs at h_spec
      exact (Option.some.inj h_spec).symm
    subst h_team
    cases h_entries
    cases List.mem_singleton.mp h_entry
    -- the one entry is a group spelled out in place, which names no other one
    cases h_mentions with
    | inline _ h_inside h_none _ =>
      cases h_inside
      cases h_none
  have h_acyclic : Acyclic teamInTeam := by
    intro group _ h_trans
    obtain ⟨other, ⟨h_first, -⟩, -⟩ := TransGen.head'_iff.mp h_trans
    exact h_names group other h_first
  have h_complete : Complete teamInTeam := fun group name _ h_name =>
    absurd h_name (h_names group name)
  exact (h.exact h_acyclic h_complete 2).1 ["team", "team"] rfl

end Nexus.Orchestration
