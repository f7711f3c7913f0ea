import NexusAgent.Skills.Buckets
import NexusAgent.Skills.Searches
import NexusAgent.Skills.Trees

/-!
# The skills of two scopes

A scope has a bucket in memory and a folder on disk, both spelled by the ids it names. Two scopes
may spell one folder, be handed one record, or make a folder in the place of the other's files, and
a folder may lead out of the root.

* `filesApart_iff`: scopes that do not see each other's files.
* `skillScopes_iff`: that, the same in memory, and that every file lies inside the root.
-/

open Lib

namespace Nexus.Skills

variable {table : CharTable} {store : FileSkillStore} {scope scope' : SessionScope}
  {who : Bool → SessionScope}

/-! ### On disk -/

/-- A call in one of two scopes: what it returns, or that it raises, and the tree after it. -/
def FileSkillStore.step (table : CharTable) (store : FileSkillStore) (who : Bool → SessionScope)
    (call : Bool × SkillOp SkillRecord) (t : Tree) : Except Unit (List SkillRecord) × Tree :=
  store.call table (who call.1) call.2 t

/-- Two scopes do not see each other's skills on disk: a call in one changes nothing that the other
looks at, and the calls in one return what they would return without those in the other. -/
structure FilesApart (table : CharTable) (store : FileSkillStore) (who : Bool → SessionScope) :
    Prop where
  changes : ∀ b op t, LooksSame table store (who !b) t (store.call table (who b) op t).2
  undisturbed : ∀ b t, Undisturbed (store.step table who) (fun call => call.1 = b) (fun _ => True) t

/-- A scope keeps clear of another one: the files of its skills are no places of the other and
stand on no folder's on its way, and no folder on its way stands at a place of the other. A path
that is on the way of every call of the scope itself is never one of its files, and one that is on
that of every call of the other is never one of the other's. -/
structure Clear (table : CharTable) (store : FileSkillStore) (scope scope' : SessionScope) :
    Prop where
  files : ∀ name, (store.skillPath table scope name).resolve ∉ trail (store.dir scope) →
    (store.skillPath table scope name).resolve ∉ trail (store.dir scope') ∧
      ¬ Place store scope' (store.skillPath table scope name).resolve
  folders : ∀ p ∈ trail (store.dir scope), Place store scope' p → p ∈ trail (store.dir scope')

/-- What a scope changes that keeps clear looks the same to the other. -/
theorem Clear.looksSame {s t : Tree} (h : Clear table store scope scope')
    (h_within : Within table store scope s t) : LooksSame table store scope' s t where
  files := by
    refine (h_within.files (fun p => decide (Place store scope' p)) fun name h_keep => ?_).symm
    by_contra h_not
    exact (h.files name h_not).2 (of_decide_eq_true h_keep)
  ways p h_p := by
    have h_get : ∀ files : Files, Dict.get? (files.filter fun f => decide (f.1 = p)) p =
        Dict.get? files p := by
      intro files
      rw [Dict.get?_filter files (fun q => decide (q = p)), if_pos (decide_eq_true rfl)]
    unfold Dict.has
    rw [← h_get s.files, ← h_get t.files, h_within.files (fun q => decide (q = p))]
    intro name h_keep
    by_contra h_not
    -- a folder on the other's way is not where a file is written
    obtain rfl := of_decide_eq_true h_keep
    have h_place : Place store scope (store.skillPath table scope name).resolve :=
      place_skillPath name
    exact (h.files name h_not).1 (h_p.mem_trail h_place.name)
  folders p h_p h_trail := by
    refine (h_within.folders p fun h_way => ?_).symm
    exact h_trail (h.folders p (h_way.mem_trail h_p.name) h_p)

/-- With clear ways both parties have files of their own. -/
theorem filesApart_of_clear (h : ∀ b, Clear table store (who b) (who !b)) :
    FilesApart table store who := by
  -- a call changes nothing that the other scope looks at
  have h_changes : ∀ b op t, LooksSame table store (who !b) t (store.call table (who b) op t).2 :=
    fun b op t => (h b).looksSame (within_call op t)
  refine ⟨h_changes, fun b t => ?_⟩
  refine undisturbed_of_related (LooksSame table store (who b)) ?_ ?_ (.refl t)
  · -- a call of the same party finds the same
    rintro ⟨c, op⟩ s t - h_mine h_same
    obtain rfl : c = b := of_decide_eq_true h_mine
    -- one of the other party changes nothing here
    exact h_same.call op
  · rintro ⟨c, op⟩ s t - h_other h_same
    have h_ne : c ≠ b := of_decide_eq_false h_other
    obtain rfl := Bool.eq_not_of_ne h_ne.symm
    exact (h_changes c op s).symm.trans h_same

/-! ### What calls leave in an empty tree -/

attribute [local irreducible] normalizeName

/-- On the empty tree only the folders of the scope are made. -/
theorem wp_makeDir_empty : Prog.wp (store.makeDir scope)
    (fun _ t => t.files = [] ∧ ∀ p, p ∈ t.folders ↔ p ∈ trail (store.dir scope))
    (fun _ _ => False) {} := by
  refine Prog.wp_mono (wp_mkdirs _ {}) ?_ ?_
  · rintro - t ⟨h_files, h_folders⟩
    exact ⟨h_files, fun p => (h_folders p).trans (or_iff_left List.not_mem_nil)⟩
  · rintro - t ⟨-, ⟨p, -, h_has⟩, -⟩
    cases h_has

/-- An upsert writes the file of its skill, unless a folder has to stand there. -/
theorem get?_upsert_empty {name : String}
    (h : (store.skillPath table scope name).resolve ∉ trail (store.dir scope)) :
    (Dict.get? (store.call table scope (.upsert { name }) {}).2.files
      (store.skillPath table scope name).resolve).isSome = true := by
  have h_same : store.skillPath table scope (normalizeName table name) =
      store.skillPath table scope name := by
    unfold FileSkillStore.skillPath FileSkillStore.skillFolder
    rw [normalizeName_normalizeName]
  have h_folder : store.skillFolder table scope (normalizeName table name) =
      store.skillFolder table scope name := by
    unfold FileSkillStore.skillFolder
    rw [normalizeName_normalizeName]
  -- the file is not a folder of the tree: neither on the way nor one the call has made
  have h_way : ¬ OnWay table store scope (store.skillPath table scope name).resolve :=
    fun h_way => h (h_way.mem_trail (place_skillPath name).name)
  suffices h_call : Prog.wp (store.call table scope (.upsert { name }))
      (fun _ t => (Dict.get? t.files (store.skillPath table scope name).resolve).isSome = true)
      (fun _ t => (Dict.get? t.files (store.skillPath table scope name).resolve).isSome = true) {}
    from Prog.wp_final.mp h_call
  unfold FileSkillStore.call FileSkillStore.upsertSkill FileSkillStore.writeSkill
  simp only [Prog.wp_bind]
  refine Prog.wp_mono wp_makeDir_empty ?_ fun _ _ h => h.elim
  -- from an empty tree the folders made are those on the way to the scope's own
  rintro - t ⟨h_files, h_folders⟩
  rw [h_folder, h_same]
  refine Prog.wp_mono (wp_mkdirs _ t) ?_ ?_
  · rintro - t' ⟨-, h_folders'⟩
    have h_free : (store.skillPath table scope name).resolve ∉ t'.folders := by
      rw [h_folders', h_folders, not_or]
      exact ⟨fun h_mem => h_way ⟨name, h_mem⟩, h⟩
    unfold Tree.writeText
    rw [Prog.wp_bind, Prog.wp_get, if_neg h_free, Prog.wp_modify, Prog.wp_pure, Prog.wp_pure,
      Dict.get?_set_self]
    rfl
  · rintro - t' ⟨-, ⟨p, -, h_has⟩, -⟩
    -- mkdirs can only fail at a file, and there is none yet
    rw [h_files] at h_has
    cases h_has

/-- A call that lists the skills makes the folders on its way. -/
theorem mem_folders_list_empty {p : Path} (h : p ∈ trail (store.dir scope)) :
    p ∈ (store.call table scope (.list true) {}).2.folders := by
  suffices h_call : Prog.wp (store.call table scope (.list true)) (fun _ t => p ∈ t.folders)
      (fun _ t => p ∈ t.folders) {} from Prog.wp_final.mp h_call
  -- the folder is made first, and listing makes no other one
  unfold FileSkillStore.call FileSkillStore.listSkills
  rw [Prog.wp_bind]
  refine Prog.wp_mono wp_makeDir_empty ?_ fun _ _ h => h.elim
  rintro - t ⟨-, h_folders⟩
  have h_mem : p ∈ t.folders := (h_folders p).mpr h
  rw [Prog.wp_bind, Prog.wp_get, Prog.wp_ite]
  refine ⟨fun _ => h_mem, fun _ => ?_⟩
  cases store.list table scope t.files true <;> exact h_mem

/-- Parties with files of their own have clear ways. -/
theorem FilesApart.clear (h : FilesApart table store who) (b : Bool) :
    Clear table store (who b) (who !b) where
  files name h_not := by
    have h_written := get?_upsert_empty h_not
    have h_same := h.changes b (.upsert { name }) {}
    refine ⟨fun h_trail => ?_, fun h_place => ?_⟩
    · -- a file in the way of the other's folders
      have h_ways := h_same.ways _ (onWay_of_mem h_trail)
      unfold Dict.has at h_ways
      rw [h_written] at h_ways
      cases h_ways
    · -- a file where the other looks for one
      rw [← h_same.get? h_place] at h_written
      cases h_written
  folders p h_p h_place := by
    by_contra h_not
    have h_folders := (h.changes b (.list true) {}).folders p h_place h_not
    exact List.not_mem_nil (h_folders.mpr (mem_folders_list_empty h_p))

/-- **Scopes that keep clear of each other** do not see each other's files, and no others. -/
theorem filesApart_iff : FilesApart table store who ↔ ∀ b, Clear table store (who b) (who !b) :=
  ⟨FilesApart.clear, filesApart_of_clear⟩

/-- Different folders, neither the parent of the other, keep clear if no folder on the way to them
has the name of a skill's file. -/
theorem clear_of_apart (h_ne : (store.dir scope).resolve ≠ (store.dir scope').resolve)
    (h_child : (store.dir scope').resolve.dropLast ≠ (store.dir scope).resolve)
    (h_parent : (store.dir scope).resolve.dropLast ≠ (store.dir scope').resolve)
    (h_names : ∀ p ∈ trail (store.dir scope) ++ trail (store.dir scope'), p.name ≠ "SKILL.md") :
    Clear table store scope scope' where
  -- two files of one path would be in one folder, or one folder inside the other
  files name _ := by
    have h_place : Place store scope (store.skillPath table scope name).resolve :=
      place_skillPath name
    refine ⟨fun h_trail => h_names _ (List.mem_append_right _ h_trail) h_place.name, fun h' => ?_⟩
    rw [place_iff] at h_place h'
    rcases h_place with h_p | ⟨c, h_p⟩ <;> rcases h' with h_q | ⟨d, h_q⟩
    · exact h_ne (List.append_cancel_right (h_p.symm.trans h_q))
    · rw [List.append_cons] at h_q
      exact h_parent (by rw [List.append_cancel_right (h_p.symm.trans h_q), List.dropLast_concat])
    · rw [List.append_cons] at h_p
      exact h_child (by rw [List.append_cancel_right (h_q.symm.trans h_p), List.dropLast_concat])
    · exact h_ne (List.append_inj' (h_p.symm.trans h_q) rfl).1
  folders p h_p h_place := absurd h_place.name (h_names p (List.mem_append_left _ h_p))

/-! ### Both -/

/-- The folder of a scope and every file of its skills lie inside the root. -/
def InsideRoot (table : CharTable) (store : FileSkillStore) (scope : SessionScope) : Prop :=
  store.root <+: (store.dir scope).resolve ∧
    ∀ name, store.root <+: (store.skillPath table scope name).resolve

/-- A store stays inside its root if the scope's folder lies there. -/
theorem insideRoot_iff :
    InsideRoot table store scope ↔ store.root <+: (store.dir scope).resolve := by
  unfold InsideRoot
  refine and_iff_left_of_imp fun h name => ?_
  have h_place : Place store scope (store.skillPath table scope name).resolve := place_skillPath name
  exact h.trans h_place.1

/-- Two scopes are isolated: in memory, where they are handed these records, on disk, and inside
the root. -/
structure Isolated (table : CharTable) (store : FileSkillStore) (who : Bool → SessionScope)
    (own : Bool → Set ℕ) : Prop where
  buckets : BucketsApart table who own
  files : FilesApart table store who
  inside : ∀ b, InsideRoot table store (who b)

/-- **Two scopes are isolated** exactly if no record is handed over in both and the folders they
spell are different, if one is handed over at all, if they keep clear of each other on disk, and if
their folders there lie inside the root. -/
theorem skillScopes_iff (table : CharTable) (store : FileSkillStore) (who : Bool → SessionScope)
    (own : Bool → Set ℕ) :
    Isolated table store who own ↔
      (∀ address ∈ own true, address ∉ own false) ∧
      ((∃ b, (own b).Nonempty) → folder (who true) ≠ folder (who false)) ∧
      (∀ b, Clear table store (who b) (who !b)) ∧
      ∀ b, store.root <+: (store.dir (who b)).resolve := by
  -- each part of the property is its part of the condition
  constructor
  · intro h
    obtain ⟨h_records, h_folders⟩ := bucketsApart_iff.mp h.buckets
    exact ⟨h_records, h_folders, filesApart_iff.mp h.files, fun b => insideRoot_iff.mp (h.inside b)⟩
  · rintro ⟨h_records, h_folders, h_clear, h_root⟩
    exact ⟨bucketsApart_iff.mpr ⟨h_records, h_folders⟩, filesApart_iff.mpr h_clear,
      fun b => insideRoot_iff.mpr (h_root b)⟩

/-- Two users of a tenant are isolated. -/
example : Isolated .ascii skillsRoot
    (fun b => { tenantId := some "acme", userId := some (if b then "kim" else "pat") })
    (fun b => if b then {1} else {2}) := by
  refine ⟨bucketsApart_iff.mpr ⟨by simp, fun _ => by decide⟩, filesApart_iff.mpr fun b => ?_,
    fun b => insideRoot_iff.mpr (by cases b <;> decide)⟩
  cases b <;> exact clear_of_apart (by decide) (by decide) (by decide) (by decide)

/-- A user and a company of one name share their skills. -/
theorem skillScopes_shared :
    ¬ Isolated .ascii skillsRoot
      (fun b => if b then { tenantId := some "acme", userId := some "kim" }
        else { tenantId := some "acme", companyId := some "kim" })
      (fun b => if b then {1} else {2}) := by
  intro h
  exact (bucketsApart_iff.mp h.buckets).2 ⟨true, 1, rfl⟩ (by decide)

end Nexus.Skills
