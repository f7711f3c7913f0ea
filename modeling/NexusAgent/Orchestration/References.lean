import Mathlib.Data.Finset.Card
import Mathlib.Logic.Relation
import NexusAgent.Lib.Traverse
import NexusAgent.Orchestration.Resolver

/-!
# The end of a resolution

What an entry of a group stands for, how one group is resolved, and that every resolution comes to
an end: a reference takes a name off the groups that were not visited, and an inline group is a part
of the group around it.

* `resolveGroup_ok_iff`, `resolveGroup_error_iff`: one group.
* `resolveTarget_limit`: more nested calls change nothing.
* `settles`: every resolution comes to an end.
-/

open Lib

namespace Nexus.Orchestration

/-! ### What an entry leads to -/

variable {L A G : Type} {host : Host L A G} {schema : OrchestrationManifestSchema}

/-- An agent or a group that is to be resolved. -/
inductive Target
  | agent (name : Json) (spec : Dict String Json)
  | group (name : Json) (spec : Dict String Json)

variable (host schema) in
/-- The agent or the group an entry stands for. -/
def target (groupName : Json) : Json → Except ManifestError Target
  | .str name =>
    match Dict.get? schema.agents name with
    -- agents are looked up first, so they hide groups of their name
    | some spec => .ok (.agent (.str name) spec)
    | none =>
      match Dict.get? schema.groups name with
      | some spec => .ok (.group (.str name) spec)
      | none => .error (.memberNotFound name groupName)
  | .obj fields =>
    if isInlineGroup fields then
      let inlineName := (Dict.get? fields "name").getD .null
      if jsonTruthy inlineName then .ok (.group inlineName fields)
      else .error (.manifestLoad
        ("Inline group in " ++ host.repr groupName ++ " must include a name"))
    else .ok (.agent ((Dict.get? fields "name").getD (.str (host.str groupName ++ "_member"))) fields)
  | _ => .error (.manifestLoad ("Invalid member entry in group " ++ host.repr groupName ++
      ": expected name ref or mapping"))

variable (host schema) in
/-- The resolution of an agent or a group under the names on the stack. -/
def resolveTarget (limit : ℕ) (stack : List Json) : Target → Except ManifestError (MemberConfig A G)
  | .agent name spec => (resolveAgent host schema name spec).map .agent
  | .group name spec => resolveGroup host schema limit name spec stack

/-- The source's two cases of an entry are the target and its resolution. -/
theorem resolveMemberEntry_eq (limit : ℕ) (entry groupName : Json) (stack : List Json) :
    resolveMemberEntry host schema (resolveGroup host schema limit) entry groupName stack =
      target host schema groupName entry >>= resolveTarget host schema limit stack := by
  cases entry with
  | str name =>
    simp only [resolveMemberEntry, resolveMemberRef, target]
    -- a name is that of an agent, or else of a group
    cases Dict.get? schema.agents name with
    | some spec => rfl
    | none => cases Dict.get? schema.groups name <;> rfl
  | obj fields =>
    simp only [resolveMemberEntry, target]
    -- an inline agent or group
    split_ifs <;> rfl
  | _ => rfl

variable (schema) in
/-- The agent or the group at the root. -/
def rootTarget : Option Target :=
  match Dict.get? schema.agents schema.root with
  | some spec => some (.agent (.str schema.root) spec)
  | none => (Dict.get? schema.groups schema.root).map (.group (.str schema.root))

/-- The root is resolved like a member, on an empty stack. -/
theorem resolveRoot_eq (limit : ℕ) :
    resolveRoot host schema limit =
      match rootTarget schema with
      | some t => resolveTarget host schema limit [] t
      | none => .error (.manifestLoad (rootNotFound host schema)) := by
  unfold resolveRoot rootTarget
  cases Dict.get? schema.agents schema.root with
  | some spec => rfl
  | none => cases Dict.get? schema.groups schema.root <;> rfl

/-! ### Errors -/

/-- An error that is neither a cycle nor the limit on nested calls. -/
def Mild (e : ManifestError) : Prop := e ≠ .recursion ∧ ∀ path, e ≠ .referenceCycle path

/-- A result whose error, if there is one, is mild. -/
def Gentle {α : Type} (x : Except ManifestError α) : Prop := ∀ e, x = .error e → Mild e

theorem Gentle.ok {α : Type} (x : α) : Gentle (.ok x) := fun _ h => by cases h

theorem Gentle.error {α : Type} {e : ManifestError} (h : Mild e) :
    Gentle (.error e : Except ManifestError α) := by
  rintro _ ⟨⟩
  exact h

/-- Gentle steps, one after the other, are gentle. -/
theorem Gentle.bind {α β : Type} {x : Except ManifestError α} {f : α → Except ManifestError β}
    (h : Gentle x) (h_f : ∀ a, Gentle (f a)) : Gentle (x >>= f) := by
  intro e h_e
  rcases bind_error_iff.mp h_e with h_x | ⟨a, -, h_a⟩
  · exact h e h_x
  · exact h_f a e h_a

theorem gentle_orRaise {α : Type} (what : String) (x : Option α) : Gentle (orRaise what x) := by
  cases x with
  | none => exact .error ⟨ManifestError.noConfusion, fun _ => ManifestError.noConfusion⟩
  | some x => exact .ok x

/-- No prompt raises a cycle or the recursion limit. -/
theorem gentle_resolvePromptTemplate (promptName : Json) (persona promptArgs : Dict String Json) :
    Gentle (resolvePromptTemplate host promptName persona promptArgs) := by
  have h_mild : ∀ name available, Mild (.promptNotFound name available) := fun _ _ =>
    ⟨ManifestError.noConfusion, fun _ => ManifestError.noConfusion⟩
  have h_raised : ∀ what, Mild (.raised what) := fun _ =>
    ⟨ManifestError.noConfusion, fun _ => ManifestError.noConfusion⟩
  unfold resolvePromptTemplate
  split
  · exact .error (h_raised _)
  · exact .error (h_raised _)
  · split
    · exact .error (h_mild _ _)
    · exact .ok _
    · exact gentle_orRaise _ _
  · exact .error (h_mild _ _)

/-- Resolving a persona is gentle. -/
theorem gentle_resolvePersonaConfig (personaData : Dict String Json) :
    Gentle (resolvePersonaConfig host personaData) := by
  unfold resolvePersonaConfig
  simp only
  split
  · exact .ok _
  · exact (gentle_resolvePromptTemplate _ _ _).bind fun _ => .ok _

/-- **An agent** is resolved, or fails with an error of its own. -/
theorem gentle_resolveAgent (name : Json) (spec : Dict String Json) :
    Gentle (resolveAgent host schema name spec) := by
  refine Gentle.bind ?_ fun _ => Gentle.bind ?_ fun _ => gentle_orRaise _ _
  · unfold withPersona
    split
    · exact (gentle_resolvePersonaConfig _).bind fun _ => .ok _
    · exact .ok _
  · unfold llmOf
    split
    · exact (gentle_orRaise _ _).bind fun _ => .ok _
    · exact .ok _

/-- Finding a target raises neither of them. -/
theorem gentle_target (groupName entry : Json) : Gentle (target host schema groupName entry) := by
  have h_load : ∀ message, Mild (.manifestLoad message) := fun _ =>
    ⟨ManifestError.noConfusion, fun _ => ManifestError.noConfusion⟩
  unfold target
  split
  · -- a name, an object, or anything else
    split
    · exact .ok _
    · split
      · exact .ok _
      · exact .error ⟨ManifestError.noConfusion, fun _ => ManifestError.noConfusion⟩
  · simp only
    split_ifs
    · exact .ok _
    · exact .error (h_load _)
    · exact .ok _
  · exact .error (h_load _)

/-- So is checking a pattern. -/
theorem gentle_checkPattern (name : Json) (spec : Dict String Json) :
    Gentle (checkPattern host schema name spec) := by
  unfold checkPattern
  simp only
  split_ifs
  · exact .ok _
  · exact .error ⟨ManifestError.noConfusion, fun _ => ManifestError.noConfusion⟩

/-- Reading the members of a group is gentle. -/
theorem gentle_membersSpec (spec : Dict String Json) : Gentle (membersSpec schema spec) := by
  unfold membersSpec
  split
  · exact .ok _
  · exact .error ⟨ManifestError.noConfusion, fun _ => ManifestError.noConfusion⟩

/-! ### One group -/

variable (host) in
/-- The name stands on the stack. -/
def onStack (stack : List Json) (name : Json) : Bool := stack.any fun other => host.eq other name

variable (host schema) in
/-- The resolution of an entry of a group. -/
def resolveEntry (limit : ℕ) (stack : List Json) (groupName entry : Json) :
    Except ManifestError (MemberConfig A G) :=
  target host schema groupName entry >>= resolveTarget host schema limit stack

/-- One call resolves the pattern, the entries and the configuration, in this order. -/
theorem resolveGroup_succ (limit : ℕ) (name : Json) (spec : Dict String Json) (stack : List Json) :
    resolveGroup host schema (limit + 1) name spec stack =
      if onStack host stack name then .error (raiseCycle (stack ++ [name]))
      else do
        checkPattern host schema name spec
        let entries ← membersSpec schema spec
        let members ← entries.mapM (resolveEntry host schema limit (stack ++ [name]) name)
        let config ← orRaise "ValidationError"
          (host.groupConfig (Dict.erase (mergedGroup schema name spec) "members"))
        return .group config members := by
  -- an entry is a target that is resolved with one call less
  have h_entry : ∀ entry, resolveMemberEntry host schema (resolveGroup host schema limit) entry name
      (stack ++ [name]) = resolveEntry host schema limit (stack ++ [name]) name entry := fun entry =>
    resolveMemberEntry_eq limit entry name (stack ++ [name])
  rw [resolveGroup]
  simp only [h_entry]
  rfl

/-- **What a group is resolved to.** -/
theorem resolveGroup_ok_iff {limit : ℕ} {name : Json} {spec : Dict String Json} {stack : List Json}
    {tree : MemberConfig A G} :
    resolveGroup host schema (limit + 1) name spec stack = .ok tree ↔
      onStack host stack name = false ∧ checkPattern host schema name spec = .ok () ∧
        ∃ entries, membersSpec schema spec = .ok entries ∧
          ∃ members,
            entries.mapM (resolveEntry host schema limit (stack ++ [name]) name) = .ok members ∧
            ∃ config, host.groupConfig (Dict.erase (mergedGroup schema name spec) "members") =
              some config ∧ tree = .group config members := by
  -- the validation error stands for a missing configuration
  have h_raise : ∀ (x : Option G) config, orRaise "ValidationError" x = .ok config ↔ x = some config := by
    intro x config
    cases x <;> simp [orRaise]
  rw [resolveGroup_succ]
  split_ifs with h_on
  · simp [h_on]
  · -- every step before returned something
    simp only [bind_ok_iff, h_raise, pure, Except.pure, Except.ok.injEq]
    constructor
    · rintro ⟨_, h_pattern, entries, h_entries, members, h_members, config, h_config, rfl⟩
      exact ⟨Bool.eq_false_iff.mpr h_on, h_pattern, entries, h_entries, members, h_members, config,
        h_config, rfl⟩
    · rintro ⟨-, h_pattern, entries, h_entries, members, h_members, config, h_config, rfl⟩
      exact ⟨(), h_pattern, entries, h_entries, members, h_members, config, h_config, rfl⟩

/-- **How a group fails**, if it does not with an error of its own. -/
theorem resolveGroup_error_iff {limit : ℕ} {name : Json} {spec : Dict String Json}
    {stack : List Json} {e : ManifestError} (h : ¬ Mild e) :
    resolveGroup host schema (limit + 1) name spec stack = .error e ↔
      onStack host stack name = true ∧ raiseCycle (stack ++ [name]) = e ∨
      onStack host stack name = false ∧ checkPattern host schema name spec = .ok () ∧
        ∃ entries, membersSpec schema spec = .ok entries ∧
          entries.mapM (resolveEntry host schema limit (stack ++ [name]) name) = .error e := by
  -- neither the pattern nor the list of members raises such an error
  have h_pattern : checkPattern host schema name spec ≠ .error e := fun h_e =>
    h (gentle_checkPattern name spec e h_e)
  have h_members : membersSpec schema spec ≠ .error e := fun h_e => h (gentle_membersSpec spec e h_e)
  have h_config : ∀ x : Option G, orRaise "ValidationError" x ≠ .error e := fun x h_e =>
    h (gentle_orRaise _ x e h_e)
  rw [resolveGroup_succ]
  split_ifs with h_on
  · simp [h_on]
  · -- so it is raised by one of the entries
    rw [Bool.not_eq_true] at h_on
    simp only [bind_error_iff, pure, Except.pure, h_pattern, h_members, h_config, h_on, false_or,
      false_and, reduceCtorEq, and_false, exists_false, or_false]
    constructor
    · rintro ⟨_, h_checked, entries, h_entries, h_e⟩
      exact ⟨trivial, h_checked, entries, h_entries, h_e⟩
    · rintro ⟨-, h_checked, entries, h_entries, h_e⟩
      exact ⟨(), h_checked, entries, h_entries, h_e⟩

/-! ### The limit on nested calls -/

theorem not_mild_recursion : ¬ Mild .recursion := fun h => h.1 rfl

theorem raiseCycle_ne_recursion (path : List Json) : raiseCycle path ≠ .recursion := by
  unfold raiseCycle
  split <;> exact ManifestError.noConfusion

/-- One more nested call changes nothing that came to an end. -/
theorem resolveGroup_limit {limit : ℕ} {name : Json} {spec : Dict String Json} {stack : List Json}
    (h : resolveGroup host schema limit name spec stack ≠ .error .recursion) :
    resolveGroup host schema (limit + 1) name spec stack =
      resolveGroup host schema limit name spec stack := by
  induction limit generalizing name spec stack with
  | zero => exact absurd rfl h
  | succ limit ih =>
    -- an entry that does not hit the limit does not hit the next one, with the same result
    have h_entry : ∀ entry,
        resolveEntry host schema limit (stack ++ [name]) name entry ≠ .error .recursion →
          resolveEntry host schema (limit + 1) (stack ++ [name]) name entry =
            resolveEntry host schema limit (stack ++ [name]) name entry := by
      intro entry h_ne
      unfold resolveEntry at h_ne ⊢
      cases h_target : target host schema name entry with
      | error e => rfl
      | ok t =>
        rw [h_target] at h_ne
        cases t with
        | agent n s => rfl
        | group n s => exact ih h_ne
    by_cases h_on : onStack host stack name = true
    · rw [resolveGroup_succ, resolveGroup_succ, if_pos h_on, if_pos h_on]
    · rw [resolveGroup_succ, resolveGroup_succ, if_neg h_on, if_neg h_on]
      cases h_pattern : checkPattern host schema name spec with
      | error e => rfl
      | ok u => cases h_entries : membersSpec schema spec with
        | error e => rfl
        | ok entries =>
          -- an entry that hit the limit would have made the group hit it
          have h_ne : entries.mapM (resolveEntry host schema limit (stack ++ [name]) name) ≠
              .error .recursion := by
            intro h_members
            refine h ((resolveGroup_error_iff not_mild_recursion).mpr (.inr ?_))
            exact ⟨Bool.eq_false_iff.mpr h_on, h_pattern, entries, h_entries, h_members⟩
          have h_members := mapM_congr_of_ne (fun entry _ => h_entry entry) h_ne
          simp only [bind, Except.bind, h_members]

/-- **More nested calls** change nothing that came to an end. -/
theorem resolveTarget_limit {limit limit' : ℕ} {stack : List Json} {t : Target}
    (h : resolveTarget host schema limit stack t ≠ .error .recursion) (h_le : limit ≤ limit') :
    resolveTarget host schema limit' stack t = resolveTarget host schema limit stack t := by
  cases t with
  | agent name spec => rfl
  | group name spec =>
    induction limit', h_le using Nat.le_induction with
    | base => rfl
    | succ limit' _ ih =>
      -- below the limit the recursion was not cut off
      have h_ne : resolveTarget host schema limit' stack (.group name spec) ≠ .error .recursion := by
        rw [ih]
        exact h
      exact (resolveGroup_limit h_ne).trans ih

/-! ### Every resolution comes to an end -/

variable (host schema) in
/-- The resolution comes to an end within some limit. -/
def Settles (stack : List Json) (t : Target) : Prop :=
  ∃ limit, resolveTarget host schema limit stack t ≠ .error .recursion

/-- An agent refers to nothing, so it is resolved with any limit. -/
theorem settles_agent (stack : List Json) (name : Json) (spec : Dict String Json) :
    Settles host schema stack (.agent name spec) := by
  refine ⟨0, fun h => ?_⟩
  simp only [resolveTarget] at h
  -- an agent's configuration raises no cycle
  cases h_agent : resolveAgent host schema name spec with
  | ok config =>
    rw [h_agent] at h
    cases h
  | error e =>
    rw [h_agent] at h
    cases h
    exact not_mild_recursion (gentle_resolveAgent name spec _ h_agent)

variable (host schema) in
/-- What an entry of a group leads to comes to an end. -/
def EntrySettles (stack : List Json) (groupName entry : Json) : Prop :=
  ∀ t, target host schema groupName entry = .ok t → Settles host schema stack t

/-- Entries that come to an end do so within one limit. -/
theorem settles_mapM {stack : List Json} {groupName : Json} {entries : List Json}
    (h : ∀ m ∈ entries, EntrySettles host schema stack groupName m) :
    ∃ limit, ∀ limit', limit ≤ limit' →
      entries.mapM (resolveEntry host schema limit' stack groupName) ≠ .error .recursion := by
  induction entries with
  | nil => exact ⟨0, fun _ _ h => by cases h⟩
  | cons m entries ih =>
    obtain ⟨limit, h_rest⟩ := ih fun m' h_m' => h m' (List.mem_cons_of_mem m h_m')
    have h_first : ∃ limit, ∀ limit', limit ≤ limit' →
        resolveEntry host schema limit' stack groupName m ≠ .error .recursion := by
      cases h_target : target host schema groupName m with
      | error e =>
        refine ⟨0, fun limit' _ h_e => ?_⟩
        unfold resolveEntry at h_e
        rw [h_target] at h_e
        cases h_e
        exact not_mild_recursion (gentle_target groupName m _ h_target)
      | ok t =>
        obtain ⟨limit, h_t⟩ := h m List.mem_cons_self t h_target
        refine ⟨limit, fun limit' h_le h_e => h_t ?_⟩
        unfold resolveEntry at h_e
        rw [h_target] at h_e
        exact (resolveTarget_limit h_t h_le).symm.trans h_e
    obtain ⟨first, h_first⟩ := h_first
    -- both limits are exceeded, and more depth never hurts
    refine ⟨max first limit, fun limit' h_le h_e => ?_⟩
    rcases mapM_error_cons.mp h_e with h_m | ⟨-, -, h_entries⟩
    · exact h_first limit' (le_of_max_le_left h_le) h_m
    · exact h_rest limit' (le_of_max_le_right h_le) h_entries

/-- A group comes to an end if its entries do. -/
theorem settles_group {stack : List Json} {name : Json} {spec : Dict String Json}
    (h : onStack host stack name = false → ∀ entries, membersSpec schema spec = .ok entries →
      ∀ m ∈ entries, EntrySettles host schema (stack ++ [name]) name m) :
    Settles host schema stack (.group name spec) := by
  have h_entries : ∃ limit, onStack host stack name = false → ∀ entries,
      membersSpec schema spec = .ok entries →
        entries.mapM (resolveEntry host schema limit (stack ++ [name]) name) ≠
          .error .recursion := by
    cases h_spec : membersSpec schema spec with
    | error e => exact ⟨0, fun _ _ h => by cases h⟩
    | ok entries =>
      cases h_on : onStack host stack name with
      | true => exact ⟨0, fun h => by cases h⟩
      | false =>
        obtain ⟨limit, h_limit⟩ := settles_mapM (h h_on entries h_spec)
        refine ⟨limit, ?_⟩
        rintro - _ ⟨⟩
        exact h_limit limit le_rfl
  -- the group itself takes one level
  obtain ⟨limit, h_limit⟩ := h_entries
  refine ⟨limit + 1, fun h_e => ?_⟩
  rcases (resolveGroup_error_iff not_mild_recursion).mp h_e with
    ⟨-, h_cycle⟩ | ⟨h_on, -, entries, h_spec, h_members⟩
  · exact raiseCycle_ne_recursion _ h_cycle
  · exact h_limit h_on entries h_spec h_members

theorem onStack_append (stack : List Json) (name other : Json) :
    onStack host (stack ++ [name]) other = (onStack host stack other || host.eq name other) := by
  simp [onStack]

variable (host schema) in
/-- The groups whose names are not on the stack. -/
def unvisited (stack : List Json) : Finset String :=
  (schema.groups.map Prod.fst).toFinset.filter fun name => onStack host stack (.str name) = false

/-- A longer stack leaves fewer references to visit. -/
theorem unvisited_append (stack : List Json) (name : Json) :
    unvisited host schema (stack ++ [name]) ⊆ unvisited host schema stack := by
  intro other h
  rw [unvisited, Finset.mem_filter] at h ⊢
  rw [onStack_append, Bool.or_eq_false_iff] at h
  exact ⟨h.1, h.2.1⟩

/-- A group that is met for the first time is unvisited no more. -/
theorem unvisited_append_lt {stack : List Json} {name : String} {spec : Dict String Json}
    (h : Dict.get? schema.groups name = some spec) (h_new : onStack host stack (.str name) = false) :
    (unvisited host schema (stack ++ [.str name])).card < (unvisited host schema stack).card := by
  refine Finset.card_lt_card ((Finset.ssubset_iff_of_subset (unvisited_append stack _)).mpr
    ⟨name, ?_, fun h_mem => ?_⟩)
  · have h_key : name ∈ schema.groups.map Prod.fst :=
      List.mem_map.mpr ⟨_, Dict.mem_of_get? h, rfl⟩
    exact Finset.mem_filter.mpr ⟨List.mem_toFinset.mpr h_key, h_new⟩
  · have h_off := (Finset.mem_filter.mp h_mem).2
    rw [onStack_append, (host.eq_str name name).mpr rfl, Bool.or_true] at h_off
    cases h_off

/-- An object is merged to an object. -/
theorem merged_obj (old : Option Json) (fields : Dict String Json) :
    ∃ fields', merged old (.obj fields) = .obj fields' := by
  rw [merged.eq_def]
  dsimp only
  split <;> exact ⟨_, rfl⟩

/-- A list in a merged mapping is one of the override, or of the base if the override has nothing
under the key. -/
theorem get?_deepMerge {base override : Dict String Json} {key : String} {xs : List Json}
    (h : Dict.get? (deepMerge base override) key = some (.arr xs)) :
    (key, .arr xs) ∈ override ∨
      key ∉ override.map Prod.fst ∧ Dict.get? base key = some (.arr xs) := by
  induction override generalizing base with
  | nil =>
    rw [deepMerge] at h
    exact .inr ⟨List.not_mem_nil, h⟩
  | cons p override ih =>
    obtain ⟨k, value⟩ := p
    rw [deepMerge] at h
    rcases ih h with h_mem | ⟨h_notMem, h_base⟩
    · exact .inl (List.mem_cons_of_mem _ h_mem)
    · rw [Dict.get?_set] at h_base
      split_ifs at h_base with h_key
      · -- a merge of mappings is a mapping, and any other value stands as it is
        subst h_key
        have h_value : value = .arr xs := by
          cases value with
          | obj fields =>
            obtain ⟨fields', h_merged⟩ := merged_obj (Dict.get? base k) fields
            rw [h_merged] at h_base
            cases h_base
          | _ => exact Option.some.inj h_base
        rw [h_value]
        exact .inl List.mem_cons_self
      · refine .inr ⟨?_, h_base⟩
        rw [List.map_cons, List.mem_cons, not_or]
        exact ⟨Ne.symm h_key, h_notMem⟩

/-- A mapping among the entries of an inline group is a part of it. -/
theorem sizeOf_entry_lt {fields fields' : Dict String Json} {entries : List Json}
    (h_inline : isInlineGroup fields = true) (h : membersSpec schema fields = .ok entries)
    (h_entry : .obj fields' ∈ entries) : sizeOf (Json.obj fields') < sizeOf (Json.obj fields) := by
  unfold membersSpec at h
  cases h_value : Dict.get? (deepMerge schema.defaults.group fields) "members" with
  | none =>
    rw [h_value] at h
    cases h
    cases h_entry
  | some value =>
    rw [h_value, Option.getD_some] at h
    cases value with
    | arr xs =>
      cases h
      -- an inline group has members of its own, so they are not those of the defaults
      have h_has : "members" ∈ fields.map Prod.fst := by
        unfold isInlineGroup at h_inline
        obtain ⟨v, h_v⟩ := Option.isSome_iff_exists.mp (Bool.and_eq_true_iff.mp h_inline).2
        exact List.mem_map.mpr ⟨_, Dict.mem_of_get? h_v, rfl⟩
      rcases get?_deepMerge h_value with h_mem | ⟨h_notMem, -⟩
      · have h_xs := List.sizeOf_lt_of_mem h_entry
        have h_fields := List.sizeOf_lt_of_mem h_mem
        simp only [Prod.mk.sizeOf_spec, Json.arr.sizeOf_spec] at h_fields
        rw [Json.obj.sizeOf_spec fields]
        omega
      · exact absurd h_has h_notMem
    | obj o =>
      cases h
      -- keys of a dictionary and letters of a text are texts, not dictionaries
      obtain ⟨f, -, h_f⟩ := List.mem_map.mp h_entry
      cases h_f
    | str t =>
      cases h
      obtain ⟨c, -, h_c⟩ := List.mem_map.mp h_entry
      cases h_c
    | _ => cases h

/-- **Every resolution comes to an end.** A reference takes a name off the unvisited ones, and an
inline group is a part of the group around it. -/
theorem settles (stack : List Json) (t : Target) : Settles host schema stack t := by
  -- a bound on the unvisited names inside the group
  suffices h_group : ∀ n stack name spec, (unvisited host schema (stack ++ [name])).card ≤ n →
      Settles host schema stack (.group name spec) by
    cases t with
    | agent name spec => exact settles_agent stack name spec
    | group name spec => exact h_group _ stack name spec le_rfl
  intro n
  induction n using Nat.strong_induction_on with
  | _ n ih =>
    have h_ref : ∀ stack groupName name, (unvisited host schema stack).card ≤ n →
        EntrySettles host schema stack groupName (.str name) := by
      intro stack groupName name h_n t h_t
      simp only [target] at h_t
      split at h_t
      · cases h_t
        exact settles_agent stack _ _
      · split at h_t
        · next spec h_spec =>
          cases h_t
          cases h_on : onStack host stack (.str name) with
          | true => exact settles_group fun h_off => by rw [h_on] at h_off; cases h_off
          | false =>
            have h_lt := unvisited_append_lt h_spec h_on
            exact ih _ (lt_of_lt_of_le h_lt h_n) stack _ spec le_rfl
        · cases h_t
    have h_entry : ∀ k entry, sizeOf entry ≤ k → ∀ stack groupName,
        (unvisited host schema stack).card ≤ n → EntrySettles host schema stack groupName entry := by
      intro k
      induction k using Nat.strong_induction_on with
      | _ k ih_k =>
        intro entry h_k stack groupName h_n
        cases entry with
        | str name => exact h_ref stack groupName name h_n
        | obj fields =>
          intro t h_t
          simp only [target] at h_t
          split_ifs at h_t with h_inline h_name
          · cases h_t
            refine settles_group fun h_on entries h_entries m h_m => ?_
            have h_inside := (Finset.card_le_card (unvisited_append stack
              ((Dict.get? fields "name").getD .null))).trans h_n
            -- only mappings are parts of the group
            cases m with
            | str name => exact h_ref _ _ name h_inside
            | obj fields' =>
              have h_lt := sizeOf_entry_lt h_inline h_entries h_m
              exact ih_k _ (lt_of_lt_of_le h_lt h_k) _ le_rfl _ _ h_inside
            | _ => exact fun t h_t => by cases h_t
          · cases h_t
            exact settles_agent stack _ _
        | _ => exact fun t h_t => by cases h_t
    intro stack name spec h_n
    exact settles_group fun _ entries _ m _ => h_entry _ m le_rfl _ _ h_n

end Nexus.Orchestration
