import Mathlib.Data.List.Infix
import NexusAgent.Lib.Lockstep
import NexusAgent.Skills.Folders

/-!
# Skills among folders

Every call of a file store makes the folders on its way before it looks at a file.

* `Place` are the files that a call in a scope may look at, `OnWay` the folders it may make.
* `Within`: what a call changes.
* `LooksSame.call`: what a call returns, and what it leaves for the next one, are a matter of what
  stands at its places and on its way.
* `call_eq_run`: in a tree without a folder in a file's place, or a file in a folder's, a call is
  one on the files alone.
-/

open Lib

namespace Nexus

namespace Skills

open FileSkillStore

variable {table : CharTable} {store : FileSkillStore} {scope : SessionScope}

/-! ### Places and ways -/

/-- A file that is looked at for a skill of a scope: `SKILL.md` in the folder of the scope, or in a
folder there. -/
def Place (store : FileSkillStore) (scope : SessionScope) (p : Path) : Prop :=
  (store.dir scope).resolve <+: p ∧ p.name = "SKILL.md" ∧
    (p.length = (store.dir scope).resolve.length + 1 ∨
      p.length = (store.dir scope).resolve.length + 2)

instance (p : Path) : Decidable (Place store scope p) := inferInstanceAs (Decidable (_ ∧ _))

/-- A folder that is made for a skill of a scope. -/
def OnWay (table : CharTable) (store : FileSkillStore) (scope : SessionScope) (p : Path) : Prop :=
  ∃ name, p ∈ trail (store.skillFolder table scope name)

/-- A place is the skill file of the scope's folder, or of one in it. -/
theorem place_iff {p : Path} : Place store scope p ↔
    p = (store.dir scope).resolve ++ ["SKILL.md"] ∨
      ∃ c, p = (store.dir scope).resolve ++ [c, "SKILL.md"] := by
  unfold Place
  generalize (store.dir scope).resolve = base
  constructor
  · -- by the length of what follows the folder
    rintro ⟨⟨rest, rfl⟩, h_name, h_length⟩
    rw [List.length_append] at h_length
    rcases rest with _ | ⟨c, _ | ⟨d, _ | ⟨e, rest⟩⟩⟩
    · simp at h_length
    · rw [Path.name_concat] at h_name
      exact .inl (by rw [h_name])
    · rw [List.append_cons, Path.name_concat] at h_name
      exact .inr ⟨c, by rw [h_name]⟩
    · simp at h_length
  · -- both lie there
    rintro (rfl | ⟨c, rfl⟩)
    · exact ⟨List.prefix_append _ _, Path.name_concat _ _, .inl (by simp)⟩
    · refine ⟨List.prefix_append _ _, ?_, .inr (by simp)⟩
      rw [List.append_cons, Path.name_concat]

theorem trail_concat (p : Path) (c : String) : trail (p ++ [c]) = trail p ++ [(p ++ [c]).resolve] := by
  unfold trail
  simp [List.inits_append]

theorem resolve_mem_trail (p : Path) : p.resolve ∈ trail p :=
  List.mem_map_of_mem ((List.mem_inits p p).mpr List.prefix_rfl)

/-- The folder of a skill is that of its scope, or one in it with a name of small letters. -/
theorem skillFolder_cases (table : CharTable) (store : FileSkillStore) (scope : SessionScope)
    (name : String) :
    store.skillFolder table scope name = store.dir scope ∨
      ∃ n, Component n ∧ n ≠ "SKILL.md" ∧ store.skillFolder table scope name = store.dir scope ++ [n] := by
  have h_chars := normalizeName_nameChar table name
  unfold skillFolder
  generalize normalizeName table name = n at h_chars
  -- an empty name leaves the folder of the scope
  by_cases h_n : n = ""
  · left
    rw [h_n, Path.join_empty]
  · -- the others have no capital letter
    have h_component := component_of_name h_chars h_n
    refine .inr ⟨n, h_component, ?_, Path.join_of_component h_component _⟩
    rintro rfl
    exact absurd (h_chars 'S' (by decide)) (by decide)

/-- The folders above a scope are above its skills. -/
theorem trail_dir_subset (name : String) {p : Path} (h : p ∈ trail (store.dir scope)) :
    p ∈ trail (store.skillFolder table scope name) := by
  rcases skillFolder_cases table store scope name with
    h_eq | ⟨n, -, -, h_eq⟩
  · rwa [h_eq]
  · rw [h_eq, trail_concat]
    exact List.mem_append_left _ h

/-- A folder on the way that has the name of a skill's file is on the way to the scope's folder. -/
theorem OnWay.mem_trail {p : Path} (h : OnWay table store scope p) (h_name : p.name = "SKILL.md") :
    p ∈ trail (store.dir scope) := by
  obtain ⟨name, h_p⟩ := h
  rcases skillFolder_cases table store scope name with
    h_eq | ⟨n, h_n, h_ne, h_eq⟩
  · rwa [h_eq] at h_p
  · rw [h_eq, trail_concat, List.mem_append, List.mem_singleton] at h_p
    refine h_p.resolve_right ?_
    rintro rfl
    rw [Path.resolve_append_component h_n, Path.name_concat] at h_name
    exact h_ne h_name

theorem onWay_of_mem {p : Path} (h : p ∈ trail (store.dir scope)) : OnWay table store scope p :=
  ⟨"", trail_dir_subset "" h⟩

/-- The file of a skill is a place of its scope. -/
theorem place_skillPath (name : String) :
    Place store scope (store.skillPath table scope name).resolve := by
  rw [place_iff, skillPath_resolve, fileAt]
  split_ifs
  · exact .inl rfl
  · exact .inr ⟨_, rfl⟩

theorem Place.name {p : Path} (h : Place store scope p) : p.name = "SKILL.md" := h.2.1

/-- The folder of a skill is no place of its scope, unless it is on the way to the scope's folder. -/
theorem mem_trail_of_place_folder {name : String}
    (h : Place store scope (store.skillFolder table scope name).resolve) :
    (store.skillFolder table scope name).resolve ∈ trail (store.dir scope) :=
  OnWay.mem_trail ⟨name, resolve_mem_trail _⟩ h.name

-- a step that looks into a call does not run it on the name
attribute [local irreducible] normalizeName

/-! ### Making folders -/

/-- A folder is made unless a file is in the way. -/
theorem wp_mkdir (p : Path) (t : Tree) :
    Prog.wp (Tree.mkdir p)
      (fun _ t' => ¬ Dict.has t.files p = true ∧ t' = { t with folders := List.insert p t.folders })
      (fun _ t' => Dict.has t.files p = true ∧ t' = t) t := by
  unfold Tree.mkdir
  rw [Prog.wp_bind, Prog.wp_get, Prog.wp_ite]
  exact ⟨fun h => ⟨h, rfl⟩, fun h => ⟨h, rfl⟩⟩

/-- **Making folders** changes no file. It stops at the first file in the way, and else all the
folders are there afterwards. -/
theorem wp_mkdirs (ps : List Path) (t : Tree) :
    Prog.wp (Tree.mkdirs ps)
      (fun _ t' => t'.files = t.files ∧ ∀ p, p ∈ t'.folders ↔ p ∈ ps ∨ p ∈ t.folders)
      (fun _ t' => t'.files = t.files ∧ (∃ p ∈ ps, Dict.has t.files p = true) ∧
        ∀ p, p ∉ ps → (p ∈ t'.folders ↔ p ∈ t.folders)) t := by
  -- by induction on the folders to be made
  induction ps generalizing t with
  | nil => exact ⟨rfl, fun p => by simp⟩
  | cons q ps ih =>
    unfold Tree.mkdirs
    rw [Prog.wp_bind]
    refine Prog.wp_mono (wp_mkdir q t) ?_ ?_
    · -- the folder is made: the others follow
      rintro - _ ⟨-, rfl⟩
      refine Prog.wp_mono (ih _) ?_ ?_
      · rintro - t' ⟨h_files, h_folders⟩
        refine ⟨h_files, fun p => ?_⟩
        rw [h_folders, List.mem_insert_iff, List.mem_cons]
        tauto
      · rintro - t' ⟨h_files, ⟨p, h_p, h_has⟩, h_folders⟩
        refine ⟨h_files, ⟨p, List.mem_cons_of_mem _ h_p, h_has⟩, fun p h_not => ?_⟩
        rw [List.mem_cons, not_or] at h_not
        rw [h_folders p h_not.2, List.mem_insert_iff, or_iff_right h_not.1]
    · -- a file is in the way
      rintro - _ ⟨h_has, rfl⟩
      exact ⟨rfl, ⟨q, List.mem_cons_self, h_has⟩, fun _ _ => Iff.rfl⟩

/-! ### What a call changes -/

/-- Two trees differ by calls in a scope: in files that its skills are written to, and in folders on
its way. No file is written in the place of a folder that every call makes. -/
structure Within (table : CharTable) (store : FileSkillStore) (scope : SessionScope)
    (s t : Tree) : Prop where
  files : ∀ keep : Path → Bool, (∀ name, keep (store.skillPath table scope name).resolve = true →
      (store.skillPath table scope name).resolve ∈ trail (store.dir scope)) →
    t.files.filter (fun f => keep f.1) = s.files.filter fun f => keep f.1
  folders : ∀ p, ¬ OnWay table store scope p → (p ∈ t.folders ↔ p ∈ s.folders)

theorem Within.refl (t : Tree) : Within table store scope t t := ⟨fun _ _ => rfl, fun _ _ => Iff.rfl⟩

/-- The folders on the way of every call are there. -/
def Made (store : FileSkillStore) (scope : SessionScope) (t : Tree) : Prop :=
  ∀ p ∈ trail (store.dir scope), p ∈ t.folders

/-- Making folders on the way stays within the scope. -/
theorem Within.folders_only {s t t' : Tree} (h : Within table store scope s t)
    (h_files : t'.files = t.files)
    (h_folders : ∀ p, ¬ OnWay table store scope p → (p ∈ t'.folders ↔ p ∈ t.folders)) :
    Within table store scope s t' where
  files keep h_keep := by rw [h_files]; exact h.files keep h_keep
  folders p h_p := (h_folders p h_p).trans (h.folders p h_p)

/-- Folders on the way are made within the scope. -/
theorem Within.wp_mkdirs {s t : Tree} (h : Within table store scope s t) {ps : List Path}
    (h_ps : ∀ p ∈ ps, OnWay table store scope p) :
    Prog.wp (Tree.mkdirs ps)
      (fun _ t' => Within table store scope s t' ∧ ∀ p, p ∈ t'.folders ↔ p ∈ ps ∨ p ∈ t.folders)
      (fun _ => Within table store scope s) t := by
  refine Prog.wp_mono (Skills.wp_mkdirs ps t) ?_ ?_
  · rintro - t' ⟨h_files, h_folders⟩
    refine ⟨h.folders_only h_files fun p h_p => ?_, h_folders⟩
    rw [h_folders, or_iff_right fun h_mem => h_p (h_ps p h_mem)]
  · rintro - t' ⟨h_files, -, h_folders⟩
    exact h.folders_only h_files fun p h_p => h_folders p fun h_mem => h_p (h_ps p h_mem)

/-- Making the folder of the scope stays within it. -/
theorem Within.wp_makeDir {s t : Tree} (h : Within table store scope s t) :
    Prog.wp (store.makeDir scope)
      (fun _ t' => Within table store scope s t' ∧ Made store scope t')
      (fun _ => Within table store scope s) t := by
  unfold makeDir
  refine Prog.wp_mono (h.wp_mkdirs fun p => onWay_of_mem) ?_ fun _ _ h => h
  rintro - t' ⟨h_within, h_folders⟩
  exact ⟨h_within, fun p h_p => (h_folders p).mpr (.inl h_p)⟩

/-- Writing a skill file stays within the scope. -/
theorem Within.wp_writeText {s t : Tree} (h : Within table store scope s t)
    (h_made : Made store scope t) (name text : String) :
    Prog.wp (Tree.writeText (store.skillPath table scope name).resolve text)
      (fun _ => Within table store scope s) (fun _ => Within table store scope s) t := by
  unfold Tree.writeText
  rw [Prog.wp_bind, Prog.wp_get, Prog.wp_ite]
  refine ⟨fun _ => h, fun h_free => ⟨fun keep h_keep => ?_, h.folders⟩⟩
  have h_not : ¬ keep (store.skillPath table scope name).resolve = true :=
    fun h_kept => h_free (h_made _ (h_keep name h_kept))
  rw [← h.files keep h_keep]
  exact Dict.filter_set_of_not t.files (f := keep) h_not text

/-- So does writing a skill. -/
theorem Within.wp_writeSkill {s t : Tree} (h : Within table store scope s t) (skill : SkillRecord) :
    Prog.wp (store.writeSkill table scope skill) (fun _ => Within table store scope s)
      (fun _ => Within table store scope s) t := by
  unfold writeSkill
  rw [Prog.wp_bind]
  -- first the folder of the scope
  refine Prog.wp_mono h.wp_makeDir ?_ fun _ _ h => h
  rintro - t ⟨h, h_made⟩
  rw [Prog.wp_bind]
  -- then that of the skill
  refine Prog.wp_mono (h.wp_mkdirs fun p h_p => ⟨_, h_p⟩) ?_ fun _ _ h => h
  rintro - t ⟨h, h_folders⟩
  -- the first folders are still there
  have h_made : Made store scope t := fun p h_p => (h_folders p).mpr (.inr (h_made p h_p))
  exact h.wp_writeText h_made skill.name (written skill)

/-- And writing several. -/
theorem Within.wp_writeAll {s t : Tree} (h : Within table store scope s t)
    (found : List SkillRecord) :
    Prog.wp (store.writeAll table scope found) (fun _ => Within table store scope s)
      (fun _ => Within table store scope s) t := by
  induction found generalizing t with
  | nil => exact h
  | cons skill found ih =>
    unfold writeAll
    rw [Prog.wp_bind]
    exact Prog.wp_mono (h.wp_writeSkill skill) (fun _ _ h => ih h) fun _ _ h => h

/-- Removing a skill file stays within the scope. -/
theorem Within.wp_unlink {s t : Tree} (h : Within table store scope s t)
    (h_made : Made store scope t) (name : String) :
    Prog.wp (Tree.unlink (store.skillPath table scope name).resolve
        (store.skillFolder table scope name).resolve)
      (fun _ => Within table store scope s) (fun _ => Within table store scope s) t := by
  unfold Tree.unlink
  rw [Prog.wp_bind, Prog.wp_get, Prog.wp_ite]
  refine ⟨fun _ => h, fun h_free => ?_⟩
  rw [Prog.wp_ite]
  refine ⟨fun _ => ?_, fun _ => h⟩
  have h_erased : Within table store scope s
      { t with files := Dict.erase t.files (store.skillPath table scope name).resolve } := by
    refine ⟨fun keep h_keep => ?_, h.folders⟩
    rw [← h.files keep h_keep]
    unfold Dict.erase
    rw [List.filter_filter]
    refine List.filter_congr fun f _ => ?_
    by_cases h_f : f.1 = (store.skillPath table scope name).resolve
    · -- the file that is taken out is not one that is kept
      have h_not : keep f.1 = false := by
        rw [Bool.eq_false_iff, h_f]
        exact fun h_kept => h_free (h_made _ (h_keep name h_kept))
      rw [h_not, Bool.false_and]
    · simp [h_f]
  rw [Prog.wp_modify]
  refine h_erased.folders_only ?_ fun p h_p => ?_
  · unfold Tree.rmdir
    split_ifs <;> rfl
  · have h_ne : p ≠ (store.skillFolder table scope name).resolve := by
      rintro rfl
      exact h_p ⟨name, resolve_mem_trail _⟩
    unfold Tree.rmdir
    split_ifs <;> simp [h_ne]

/-- Listing the skills stays within the scope. -/
theorem Within.wp_listSkills {s t : Tree} (h : Within table store scope s t)
    (includeDisabled : Bool) :
    Prog.wp (store.listSkills table scope includeDisabled) (fun _ => Within table store scope s)
      (fun _ => Within table store scope s) t := by
  unfold listSkills
  rw [Prog.wp_bind]
  refine Prog.wp_mono h.wp_makeDir ?_ fun _ _ h => h
  rintro - t ⟨h, -⟩
  rw [Prog.wp_bind, Prog.wp_get, Prog.wp_ite]
  refine ⟨fun _ => h, fun _ => ?_⟩
  cases store.list table scope t.files includeDisabled <;> exact h

/-- So does getting one. -/
theorem Within.wp_getSkill {s t : Tree} (h : Within table store scope s t) (name : String) :
    Prog.wp (store.getSkill table scope name) (fun _ => Within table store scope s)
      (fun _ => Within table store scope s) t := by
  unfold getSkill
  rw [Prog.wp_bind]
  -- the folder of the scope is made first
  refine Prog.wp_mono h.wp_makeDir ?_ fun _ _ h => h
  rintro - t ⟨h, -⟩
  rw [Prog.wp_bind]
  unfold Tree.readText
  rw [Prog.wp_bind, Prog.wp_get, Prog.wp_ite]
  -- reading changes nothing
  refine ⟨fun _ => h, fun _ => ?_⟩
  rw [Prog.wp_pure]
  cases Dict.get? t.files (store.skillPath table scope name).resolve with
  | none => exact h
  | some file =>
    cases h_skill : parse table (store.skillFolder table scope name).name file <;>
      simp only [h_skill] <;> exact h

/-- **A call** changes files and folders of its scope only. -/
theorem within_call (op : SkillOp SkillRecord) (t : Tree) :
    Within table store scope t (store.call table scope op t).2 := by
  refine Prog.wp_final.mp ?_
  have h : Within table store scope t t := Within.refl t
  -- upsert and disable both end in this write
  have h_upsert : ∀ skill t', Within table store scope t t' →
      Prog.wp (store.upsertSkill table scope skill) (fun _ => Within table store scope t)
        (fun _ => Within table store scope t) t' := by
    intro skill t' h
    unfold upsertSkill
    rw [Prog.wp_bind]
    exact Prog.wp_mono (h.wp_writeSkill _) (fun _ _ h => h) fun _ _ h => h
  cases op with
  | search query k =>
    unfold call
    rw [Prog.wp_bind]
    refine Prog.wp_mono (h.wp_listSkills false) (fun skills t h => ?_) fun _ _ h => h
    rw [Prog.wp_bind]
    exact Prog.wp_mono (h.wp_writeAll _) (fun _ _ h => h) fun _ _ h => h
  | upsert skill =>
    unfold call
    rw [Prog.wp_bind]
    exact Prog.wp_mono (h_upsert skill t h) (fun _ _ h => h) fun _ _ h => h
  | list includeDisabled => exact h.wp_listSkills includeDisabled
  -- unlink is within bounds because makeDir has made the folder it looks in
  | delete name =>
    unfold call
    rw [Prog.wp_bind]
    refine Prog.wp_mono h.wp_makeDir ?_ fun _ _ h => h
    rintro - t ⟨h, h_made⟩
    rw [Prog.wp_bind]
    exact Prog.wp_mono (h.wp_unlink h_made name) (fun _ _ h => h) fun _ _ h => h
  | disable name =>
    unfold call
    rw [Prog.wp_bind]
    refine Prog.wp_mono (h.wp_getSkill name) (fun skill t h => ?_) fun _ _ h => h
    cases skill with
    | none => exact h
    | some skill =>
      rw [Prog.wp_bind]
      exact Prog.wp_mono (h_upsert _ t h) (fun _ _ h => h) fun _ _ h => h
  | get name =>
    unfold call
    rw [Prog.wp_bind]
    exact Prog.wp_mono (h.wp_getSkill name) (fun _ _ h => h) fun _ _ h => h

/-! ### What a call is a matter of -/

/-- Two trees look the same to a scope: the same files stand at its places, files stand in the way
of the same folders, and folders in the places of the same files. The folders that every call makes
may be there or not. -/
structure LooksSame (table : CharTable) (store : FileSkillStore) (scope : SessionScope)
    (s t : Tree) : Prop where
  files : s.files.filter (fun f => Place store scope f.1) =
    t.files.filter fun f => Place store scope f.1
  ways : ∀ p, OnWay table store scope p → Dict.has s.files p = Dict.has t.files p
  folders : ∀ p, Place store scope p → p ∉ trail (store.dir scope) →
    (p ∈ s.folders ↔ p ∈ t.folders)

namespace LooksSame

variable {s t : Tree}

theorem refl (t : Tree) : LooksSame table store scope t t :=
  ⟨rfl, fun _ _ => rfl, fun _ _ _ => Iff.rfl⟩

theorem symm (h : LooksSame table store scope s t) : LooksSame table store scope t s :=
  ⟨h.files.symm, fun p h_p => (h.ways p h_p).symm, fun p h_p h_trail => (h.folders p h_p h_trail).symm⟩

/-- Looking the same is transitive. -/
theorem trans {u : Tree} (h : LooksSame table store scope s t) (h' : LooksSame table store scope t u) :
    LooksSame table store scope s u where
  files := h.files.trans h'.files
  ways p h_p := (h.ways p h_p).trans (h'.ways p h_p)
  folders p h_p h_trail := (h.folders p h_p h_trail).trans (h'.folders p h_p h_trail)

/-- A file in a place of the scope is the same in both trees. -/
theorem get? (h : LooksSame table store scope s t) {p : Path} (h_p : Place store scope p) :
    Dict.get? s.files p = Dict.get? t.files p := by
  have h_kept : ∀ files : Files, Dict.get? (files.filter fun f => Place store scope f.1) p =
      Dict.get? files p := by
    intro files
    rw [Dict.get?_filter files (fun q => decide (Place store scope q)), if_pos (decide_eq_true h_p)]
  rw [← h_kept, h.files, h_kept]

theorem has (h : LooksSame table store scope s t) {p : Path} (h_p : Place store scope p) :
    Dict.has s.files p = Dict.has t.files p := by
  unfold Dict.has
  rw [h.get? h_p]

/-- Where every call's folders are made, folders stand in the places of the same files. -/
theorem mem_folders (h : LooksSame table store scope s t) (h_s : Made store scope s)
    (h_t : Made store scope t) {p : Path} (h_p : Place store scope p) :
    p ∈ s.folders ↔ p ∈ t.folders := by
  by_cases h_trail : p ∈ trail (store.dir scope)
  · exact iff_of_true (h_s p h_trail) (h_t p h_trail)
  · exact h.folders p h_p h_trail

/-- Making folders on the way is in step. -/
theorem mkdirs (h : LooksSame table store scope s t) {ps : List Path}
    (h_ps : ∀ p ∈ ps, OnWay table store scope p) :
    Prog.InStep (LooksSame table store scope) (Tree.mkdirs ps) (Tree.mkdirs ps) s t := by
  -- by induction on the folders
  induction ps generalizing s t with
  | nil => exact Prog.inStep_pure _ h
  | cons p ps ih =>
    rw [List.forall_mem_cons] at h_ps
    unfold Tree.mkdirs
    refine Prog.InStep.bind ?_ fun _ s' t' _ h' => ih h' h_ps.2
    unfold Tree.mkdir
    -- the same files are in the way in both trees
    refine Prog.inStep_get ?_
    rw [h.ways p h_ps.1]
    refine Prog.inStep_ite (fun _ => Prog.inStep_throw _ h) fun _ => Prog.inStep_modify ?_
    -- the folder is in both, or in neither
    refine ⟨h.files, h.ways, fun q h_q h_trail => ?_⟩
    rw [List.mem_insert_iff, List.mem_insert_iff, h.folders q h_q h_trail]

/-- What comes after the folders of every call. -/
theorem makeDir {α : Type} {f g : Unit → FileProg α} (h : LooksSame table store scope s t)
    (h_rest : ∀ s t, LooksSame table store scope s t → Made store scope s → Made store scope t →
      Prog.InStep (LooksSame table store scope) (f ()) (g ()) s t) :
    Prog.InStep (LooksSame table store scope) (store.makeDir scope >>= f) (store.makeDir scope >>= g)
      s t := by
  refine (h.mkdirs fun p => onWay_of_mem).bind_both fun _ s' t' h_x h_y h' => ?_
  have h_made : ∀ {u u' : Tree} {v : Unit}, store.makeDir scope u = (.ok v, u') →
      Made store scope u' := by
    intro u u' v h_u p h_p
    exact ((Prog.wp_ok (Skills.wp_mkdirs _ u) h_u).2 p).mpr (.inl h_p)
  exact h_rest s' t' h' (h_made h_x) (h_made h_y)

/-- Writing a skill file is in step. -/
theorem writeText (h : LooksSame table store scope s t) (h_s : Made store scope s)
    (h_t : Made store scope t) {p : Path} (h_p : Place store scope p) (text : String) :
    Prog.InStep (LooksSame table store scope) (Tree.writeText p text) (Tree.writeText p text) s t := by
  unfold Tree.writeText
  refine Prog.inStep_get ?_
  simp only [h.mem_folders h_s h_t h_p]
  -- the file is written in both trees, or in neither
  refine Prog.inStep_ite (fun _ => Prog.inStep_throw _ h) fun _ => Prog.inStep_modify ?_
  refine ⟨?_, fun q h_q => ?_, h.folders⟩
  · -- in a place of the scope both write the same
    have h_set := fun files : Files =>
      Dict.filter_set files (f := fun q => decide (Place store scope q)) (decide_eq_true h_p) text
    rw [h_set, h_set, h.files]
  · -- and the ways stay as they are
    have h_ways := h.ways q h_q
    unfold Dict.has at h_ways ⊢
    rw [Dict.get?_set, Dict.get?_set]
    split_ifs
    · rfl
    · exact h_ways

/-- Writing a skill is in step. -/
theorem writeSkill (h : LooksSame table store scope s t) (skill : SkillRecord) :
    Prog.InStep (LooksSame table store scope) (store.writeSkill table scope skill)
      (store.writeSkill table scope skill) s t := by
  unfold FileSkillStore.writeSkill
  refine h.makeDir fun s t h h_s h_t => ?_
  refine (h.mkdirs fun p h_p => ⟨_, h_p⟩).bind_both fun _ s' t' h_x h_y h' => ?_
  -- the folders that were there still are
  have h_made : ∀ {u u' : Tree} {v : Unit}, Made store scope u →
      Tree.mkdirs (trail (store.skillFolder table scope skill.name)) u = (.ok v, u') →
      Made store scope u' := by
    intro u u' v h_u h_eq p h_p
    exact ((Prog.wp_ok (Skills.wp_mkdirs _ u) h_eq).2 p).mpr (.inr (h_u p h_p))
  exact h'.writeText (h_made h_s h_x) (h_made h_t h_y) (place_skillPath _) _

/-- And so is writing several. -/
theorem writeAll (h : LooksSame table store scope s t) (found : List SkillRecord) :
    Prog.InStep (LooksSame table store scope) (store.writeAll table scope found)
      (store.writeAll table scope found) s t := by
  induction found generalizing s t with
  | nil => exact Prog.inStep_pure _ h
  | cons skill found ih =>
    unfold FileSkillStore.writeAll
    exact (h.writeSkill skill).bind fun _ s' t' _ h' => ih h'

/-- The same files are found. -/
theorem globbed (h : LooksSame table store scope s t) :
    store.globbed scope s.files = store.globbed scope t.files := by
  have h_kept : ∀ files : Files,
      store.globbed scope (files.filter fun f => Place store scope f.1) =
        store.globbed scope files := by
    intro files
    unfold FileSkillStore.globbed
    rw [Dict.items_filter files fun q => decide (Place store scope q), List.filterMap_filter]
    refine List.filterMap_congr fun f _ => ?_
    split_ifs with h_f
    · rfl
    · -- a file that is no place is not found
      symm
      split
      · next file c base h_path =>
        rw [if_neg]
        rintro ⟨rfl, h_base⟩
        have h_eq : f.1 = (store.dir scope).resolve ++ [c, "SKILL.md"] := by
          rw [← List.reverse_reverse f.1, h_path, ← h_base]
          simp
        exact h_f (decide_eq_true (place_iff.mpr (.inr ⟨c, h_eq⟩)))
      · rfl
  rw [← h_kept s.files, h.files, h_kept]

/-- Listing the skills is in step. -/
theorem listSkills (h : LooksSame table store scope s t) (includeDisabled : Bool) :
    Prog.InStep (LooksSame table store scope) (store.listSkills table scope includeDisabled)
      (store.listSkills table scope includeDisabled) s t := by
  unfold FileSkillStore.listSkills
  refine h.makeDir fun s t h h_s h_t => ?_
  refine Prog.inStep_get ?_
  -- a folder in the place of a skill file makes the glob's read raise
  have h_folder : ∀ p : Path, (p.length = (store.dir scope).resolve.length + 2 ∧
      (store.dir scope).resolve <+: p ∧ p.name = "SKILL.md") → Place store scope p :=
    fun p h_p => ⟨h_p.2.1, h_p.2.2, .inr h_p.1⟩
  have h_any : (s.folders.any fun p => p.length = (store.dir scope).resolve.length + 2 ∧
      (store.dir scope).resolve <+: p ∧ p.name = "SKILL.md") =
        t.folders.any fun p => p.length = (store.dir scope).resolve.length + 2 ∧
          (store.dir scope).resolve <+: p ∧ p.name = "SKILL.md" := by
    rw [Bool.eq_iff_iff, List.any_eq_true, List.any_eq_true]
    simp only [decide_eq_true_eq]
    exact exists_congr fun p =>
      and_congr_left fun h_p => h.mem_folders h_s h_t (h_folder p h_p)
  have h_list : store.list table scope s.files includeDisabled =
      store.list table scope t.files includeDisabled := by
    unfold FileSkillStore.list
    rw [h.globbed]
  rw [h_any, h_list]
  refine Prog.inStep_ite (fun _ => Prog.inStep_throw _ h) fun _ => ?_
  cases store.list table scope t.files includeDisabled with
  | none => exact Prog.inStep_throw _ h
  | some skills => exact Prog.inStep_pure _ h

/-- Getting a skill is in step. -/
theorem getSkill (h : LooksSame table store scope s t) (name : String) :
    Prog.InStep (LooksSame table store scope) (store.getSkill table scope name)
      (store.getSkill table scope name) s t := by
  unfold FileSkillStore.getSkill
  refine h.makeDir fun s t h h_s h_t => ?_
  -- its file is in a place of the scope
  have h_place : Place store scope (store.skillPath table scope name).resolve := place_skillPath name
  refine Prog.InStep.bind ?_ fun file s' t' _ h' => ?_
  · -- the same text is read
    unfold Tree.readText
    refine Prog.inStep_get ?_
    simp only [h.mem_folders h_s h_t h_place, h.get? h_place]
    exact Prog.inStep_ite (fun _ => Prog.inStep_throw _ h) fun _ => Prog.inStep_pure _ h
  · -- and the same text is parsed
    cases file with
    | none => exact Prog.inStep_pure _ h'
    | some file =>
      dsimp only
      cases parse table (store.skillFolder table scope name).name file with
      | none => exact Prog.inStep_throw _ h'
      | some skill => exact Prog.inStep_pure _ h'

/-- Removing a skill file is in step. -/
theorem unlink (h : LooksSame table store scope s t) (h_s : Made store scope s)
    (h_t : Made store scope t) (name : String) :
    Prog.InStep (LooksSame table store scope)
      (Tree.unlink (store.skillPath table scope name).resolve
        (store.skillFolder table scope name).resolve)
      (Tree.unlink (store.skillPath table scope name).resolve
        (store.skillFolder table scope name).resolve) s t := by
  have h_place : Place store scope (store.skillPath table scope name).resolve := place_skillPath name
  unfold Tree.unlink
  refine Prog.inStep_get ?_
  simp only [h.mem_folders h_s h_t h_place, h.has h_place]
  refine Prog.inStep_ite (fun _ => Prog.inStep_throw _ h) fun _ => ?_
  refine Prog.inStep_ite (fun _ => Prog.inStep_modify ?_) fun _ => Prog.inStep_pure _ h
  -- the folder may be taken away in one tree only: it is no place
  have h_rmdir : ∀ u : Tree, (Tree.rmdir (store.skillFolder table scope name).resolve u).files =
      u.files ∧ ∀ p, Place store scope p → p ∉ trail (store.dir scope) →
        (p ∈ (Tree.rmdir (store.skillFolder table scope name).resolve u).folders ↔ p ∈ u.folders) := by
    intro u
    unfold Tree.rmdir
    split_ifs
    · refine ⟨rfl, fun p h_p h_trail => ?_⟩
      have h_ne : p ≠ (store.skillFolder table scope name).resolve := by
        rintro rfl
        exact h_trail (mem_trail_of_place_folder h_p)
      simp [h_ne]
    · exact ⟨rfl, fun _ _ _ => Iff.rfl⟩
  refine ⟨?_, fun q h_q => ?_, fun p h_p h_trail => ?_⟩
  · rw [(h_rmdir _).1, (h_rmdir _).1]
    unfold Dict.erase
    rw [List.filter_comm, h.files, List.filter_comm]
  · rw [(h_rmdir _).1, (h_rmdir _).1]
    have h_ways := h.ways q h_q
    unfold Dict.has at h_ways ⊢
    rw [Dict.get?_erase, Dict.get?_erase]
    split_ifs
    · rfl
    · exact h_ways
  · rw [(h_rmdir _).2 p h_p h_trail, (h_rmdir _).2 p h_p h_trail]
    exact h.folders p h_p h_trail

/-- **What a call returns**, and what it leaves to the calls after it, are a matter of what the
tree looks like to its scope. -/
theorem call (h : LooksSame table store scope s t) (op : SkillOp SkillRecord) :
    Prog.InStep (LooksSame table store scope) (store.call table scope op)
      (store.call table scope op) s t := by
  -- upsert and disable both end in this write
  have h_upsert : ∀ skill s t, LooksSame table store scope s t →
      Prog.InStep (LooksSame table store scope) (store.upsertSkill table scope skill)
        (store.upsertSkill table scope skill) s t := by
    intro skill s t h
    unfold FileSkillStore.upsertSkill
    exact (h.writeSkill _).bind fun _ _ _ _ h => Prog.inStep_pure _ h
  cases op with
  | search query k =>
    unfold FileSkillStore.call
    refine (h.listSkills false).bind fun skills s t _ h => ?_
    exact (h.writeAll _).bind fun _ _ _ _ h => Prog.inStep_pure _ h
  | upsert skill =>
    unfold FileSkillStore.call
    exact (h_upsert skill s t h).bind fun _ _ _ _ h => Prog.inStep_pure _ h
  | list includeDisabled => exact h.listSkills includeDisabled
  | delete name =>
    unfold FileSkillStore.call
    refine h.makeDir fun s t h h_s h_t => ?_
    exact (h.unlink h_s h_t name).bind fun _ _ _ _ h => Prog.inStep_pure _ h
  | disable name =>
    unfold FileSkillStore.call
    refine (h.getSkill name).bind fun skill s t _ h => ?_
    cases skill with
    | none => exact Prog.inStep_pure _ h
    | some skill => exact (h_upsert _ s t h).bind fun _ _ _ _ h => Prog.inStep_pure _ h
  | get name =>
    unfold FileSkillStore.call
    exact (h.getSkill name).bind fun _ _ _ _ h => Prog.inStep_pure _ h

end LooksSame

/-! ### Calls on the files alone -/

/-- No folder stands in the place of a file, and no file in that of a folder. -/
structure Tidy (table : CharTable) (store : FileSkillStore) (scope : SessionScope) (t : Tree) :
    Prop where
  ways : ∀ p, OnWay table store scope p → Dict.has t.files p = false
  folders : ∀ p, Place store scope p → p ∉ t.folders ∧ p ∉ trail (store.dir scope)

namespace Tidy

variable {t : Tree}

/-- A place is not on the way. -/
theorem not_onWay (h : Tidy table store scope t) {p : Path} (h_p : Place store scope p) :
    ¬ OnWay table store scope p :=
  fun h_way => (h.folders p h_p).2 (h_way.mem_trail h_p.name)

/-- Files may change at places, and folders on the way. -/
theorem next (h : Tidy table store scope t) {t' : Tree}
    (h_files : ∀ p, ¬ Place store scope p → Dict.get? t'.files p = Dict.get? t.files p)
    (h_folders : ∀ p, ¬ OnWay table store scope p → (p ∈ t'.folders ↔ p ∈ t.folders)) :
    Tidy table store scope t' where
  ways p h_p := by
    -- no file on the way is in a place
    have h_place : ¬ Place store scope p := fun h_place => h.not_onWay h_place h_p
    unfold Dict.has
    rw [h_files p h_place]
    exact h.ways p h_p
  -- no folder is put into a place
  folders p h_p := by
    rw [h_folders p (h.not_onWay h_p)]
    exact h.folders p h_p

/-- In a tidy tree folders on the way are always made. -/
theorem wp_mkdirs (h : Tidy table store scope t) {ps : List Path}
    (h_ps : ∀ p ∈ ps, OnWay table store scope p) :
    Prog.wp (Tree.mkdirs ps) (fun _ t' => t'.files = t.files ∧ Tidy table store scope t')
      (fun _ _ => False) t := by
  refine Prog.wp_mono (Skills.wp_mkdirs ps t) ?_ ?_
  · rintro - t' ⟨h_files, h_folders⟩
    refine ⟨h_files, h.next (fun p _ => by rw [h_files]) fun p h_p => ?_⟩
    rw [h_folders, or_iff_right fun h_mem => h_p (h_ps p h_mem)]
  · rintro - t' ⟨-, ⟨p, h_p, h_has⟩, -⟩
    simp [h.ways p (h_ps p h_p)] at h_has

theorem wp_makeDir (h : Tidy table store scope t) :
    Prog.wp (store.makeDir scope) (fun _ t' => t'.files = t.files ∧ Tidy table store scope t')
      (fun _ _ => False) t :=
  h.wp_mkdirs fun _ => onWay_of_mem

/-- In a tidy tree a skill is always written. -/
theorem wp_writeSkill (h : Tidy table store scope t) (skill : SkillRecord) :
    Prog.wp (store.writeSkill table scope skill)
      (fun _ t' => t'.files = store.write table scope t.files skill ∧ Tidy table store scope t')
      (fun _ _ => False) t := by
  unfold writeSkill
  rw [Prog.wp_bind]
  -- the folder of the scope
  refine Prog.wp_mono h.wp_makeDir ?_ fun _ _ h => h
  rintro - t₁ ⟨h_files₁, h₁⟩
  rw [Prog.wp_bind]
  -- that of the skill
  refine Prog.wp_mono (h₁.wp_mkdirs fun p h_p => ⟨_, h_p⟩) ?_ fun _ _ h => h
  rintro - t₂ ⟨h_files₂, h₂⟩
  have h_place : Place store scope (store.skillPath table scope skill.name).resolve :=
    place_skillPath skill.name
  unfold Tree.writeText
  -- no folder is in the way of the file
  rw [Prog.wp_bind, Prog.wp_get, if_neg (h₂.folders _ h_place).1, Prog.wp_modify]
  refine ⟨?_, h₂.next (fun p h_p => ?_) fun _ _ => Iff.rfl⟩
  · rw [h_files₂, h_files₁]
    rfl
  · -- other files stay as they are
    exact Dict.get?_set_ne _ _ (ne_of_mem_of_not_mem (s := {q | Place store scope q}) h_place h_p)

/-- And so are several. -/
theorem wp_writeAll (h : Tidy table store scope t) (found : List SkillRecord) :
    Prog.wp (store.writeAll table scope found)
      (fun _ t' => t'.files = found.foldl (store.write table scope) t.files ∧
        Tidy table store scope t') (fun _ _ => False) t := by
  -- by induction on the skills
  induction found generalizing t with
  | nil => exact ⟨rfl, h⟩
  | cons skill found ih =>
    unfold writeAll
    rw [Prog.wp_bind]
    refine Prog.wp_mono (h.wp_writeSkill skill) ?_ fun _ _ h => h
    rintro - t₁ ⟨h_files, h₁⟩
    rw [List.foldl_cons, ← h_files]
    exact ih h₁

/-- In a tidy tree the listing is that of its files. -/
theorem wp_listSkills (h : Tidy table store scope t) (includeDisabled : Bool) :
    Prog.wp (store.listSkills table scope includeDisabled)
      (fun skills t' => store.list table scope t.files includeDisabled = some skills ∧
        t'.files = t.files ∧ Tidy table store scope t')
      (fun _ t' => store.list table scope t.files includeDisabled = none ∧
        t'.files = t.files ∧ Tidy table store scope t') t := by
  unfold listSkills
  rw [Prog.wp_bind]
  -- the folder of the scope is made first
  refine Prog.wp_mono h.wp_makeDir ?_ fun _ _ h => h.elim
  rintro - t₁ ⟨h_files, h₁⟩
  -- no folder has the name of a skill file
  have h_none : ¬ (t₁.folders.any fun p => p.length = (store.dir scope).resolve.length + 2 ∧
      (store.dir scope).resolve <+: p ∧ p.name = "SKILL.md") = true := by
    rw [List.any_eq_true]
    rintro ⟨p, h_mem, h_p⟩
    obtain ⟨h_length, h_inside, h_name⟩ := of_decide_eq_true h_p
    exact (h₁.folders p ⟨h_inside, h_name, .inr h_length⟩).1 h_mem
  rw [Prog.wp_bind, Prog.wp_get, if_neg h_none, ← h_files]
  -- so the listing is decided by the files
  cases h_list : store.list table scope t₁.files includeDisabled with
  | none => exact ⟨rfl, rfl, h₁⟩
  | some skills => exact ⟨rfl, rfl, h₁⟩

/-- In a tidy tree a skill is got from its files. -/
theorem wp_getSkill (h : Tidy table store scope t) (name : String) :
    Prog.wp (store.getSkill table scope name)
      (fun skill t' => store.get table scope t.files name = some skill ∧
        t'.files = t.files ∧ Tidy table store scope t')
      (fun _ t' => store.get table scope t.files name = none ∧
        t'.files = t.files ∧ Tidy table store scope t') t := by
  unfold getSkill
  rw [Prog.wp_bind]
  -- the folder of the scope is made first
  refine Prog.wp_mono h.wp_makeDir ?_ fun _ _ h => h.elim
  rintro - t₁ ⟨h_files, h₁⟩
  have h_place : Place store scope (store.skillPath table scope name).resolve := place_skillPath name
  -- no folder is in the way of the file
  have h_free := (h₁.folders _ h_place).1
  unfold Tree.readText
  rw [Prog.wp_bind, Prog.wp_bind, Prog.wp_get, if_neg h_free, Prog.wp_pure, ← h_files]
  unfold FileSkillStore.get
  -- so the answer is decided by the files
  cases Dict.get? t₁.files (store.skillPath table scope name).resolve with
  | none => exact ⟨rfl, rfl, h₁⟩
  | some file =>
    dsimp only
    cases parse table (store.skillFolder table scope name).name file with
    | none => exact ⟨rfl, rfl, h₁⟩
    | some skill => exact ⟨rfl, rfl, h₁⟩

/-- In a tidy tree a skill is put into its files. -/
theorem wp_upsertSkill (h : Tidy table store scope t) (skill : SkillRecord) :
    Prog.wp (store.upsertSkill table scope skill)
      (fun skill' t' => skill' = (store.upsert table scope t.files skill).1 ∧
        t'.files = (store.upsert table scope t.files skill).2 ∧ Tidy table store scope t')
      (fun _ _ => False) t := by
  unfold upsertSkill
  rw [Prog.wp_bind]
  refine Prog.wp_mono (h.wp_writeSkill _) ?_ fun _ _ h => h
  rintro - t' ⟨h_files, h'⟩
  exact ⟨rfl, h_files, h'⟩

/-- In a tidy tree a file is always removed. -/
theorem wp_unlink (h : Tidy table store scope t) (name : String) :
    Prog.wp (Tree.unlink (store.skillPath table scope name).resolve
        (store.skillFolder table scope name).resolve)
      (fun _ t' => t'.files = Dict.erase t.files (store.skillPath table scope name).resolve ∧
        Tidy table store scope t') (fun _ _ => False) t := by
  have h_place : Place store scope (store.skillPath table scope name).resolve := place_skillPath name
  unfold Tree.unlink
  rw [Prog.wp_bind, Prog.wp_get, if_neg (h.folders _ h_place).1, Prog.wp_ite]
  refine ⟨fun _ => ?_, fun h_none => ⟨?_, h⟩⟩
  · rw [Prog.wp_modify]
    -- the folder removed is one that the calls of the scope pass, no place of a file
    have h_rmdir : ∀ u : Tree, (Tree.rmdir (store.skillFolder table scope name).resolve u).files =
        u.files ∧ ∀ p, ¬ OnWay table store scope p →
          (p ∈ (Tree.rmdir (store.skillFolder table scope name).resolve u).folders ↔
            p ∈ u.folders) := by
      intro u
      unfold Tree.rmdir
      split_ifs
      · refine ⟨rfl, fun p h_p => ?_⟩
        have h_ne : p ≠ (store.skillFolder table scope name).resolve := by
          rintro rfl
          exact h_p ⟨name, resolve_mem_trail _⟩
        simp [h_ne]
      · exact ⟨rfl, fun _ _ => Iff.rfl⟩
    refine ⟨(h_rmdir _).1, h.next (fun p h_p => ?_) fun p h_p => (h_rmdir _).2 p h_p⟩
    rw [(h_rmdir _).1, Dict.get?_erase, if_neg]
    rintro rfl
    exact h_p h_place
  · exact (Dict.erase_eq_self_iff.mpr (Option.not_isSome_iff_eq_none.mp h_none)).symm

/-- What a call on the files alone returns, or that it raises, and the files it leaves. -/
def Agrees (table : CharTable) (store : FileSkillStore) (scope : SessionScope)
    (run : Option (List SkillRecord) × Files) (skills : Option (List SkillRecord)) (t : Tree) : Prop :=
  run.1 = skills ∧ run.2 = t.files ∧ Tidy table store scope t

/-- In a tidy tree each call agrees with that on the files. -/
theorem wp_call (h : Tidy table store scope t) (op : SkillOp SkillRecord) :
    Prog.wp (store.call table scope op)
      (fun skills => Agrees table store scope
        (store.run table scope t.files op) (some skills))
      (fun _ => Agrees table store scope
        (store.run table scope t.files op) none) t := by
  cases op with
  -- search lists and then writes every skill back, so a failing list writes nothing
  | search query k =>
    unfold call FileSkillStore.run
    rw [Prog.wp_bind]
    refine Prog.wp_mono (h.wp_listSkills false) ?_ ?_
    · rintro skills t₁ ⟨h_list, h_files, h₁⟩
      rw [Prog.wp_bind]
      refine Prog.wp_mono (h₁.wp_writeAll _) ?_ fun _ _ h => h.elim
      rintro - t₂ ⟨h_files₂, h₂⟩
      simp only [h_list]
      exact ⟨rfl, by rw [h_files₂, h_files]; rfl, h₂⟩
    · rintro - t₁ ⟨h_list, h_files, h₁⟩
      simp only [h_list]
      exact ⟨rfl, h_files.symm, h₁⟩
  | upsert skill =>
    unfold call FileSkillStore.run
    rw [Prog.wp_bind]
    refine Prog.wp_mono (h.wp_upsertSkill skill) ?_ fun _ _ h => h.elim
    rintro skill' t₁ ⟨rfl, h_files, h₁⟩
    exact ⟨rfl, h_files.symm, h₁⟩
  | list includeDisabled =>
    refine Prog.wp_mono (h.wp_listSkills includeDisabled) ?_ ?_
    · rintro skills t₁ ⟨h_list, h_files, h₁⟩
      exact ⟨h_list, h_files.symm, h₁⟩
    · rintro - t₁ ⟨h_list, h_files, h₁⟩
      exact ⟨h_list, h_files.symm, h₁⟩
  | delete name =>
    unfold call FileSkillStore.run
    rw [Prog.wp_bind]
    refine Prog.wp_mono h.wp_makeDir ?_ fun _ _ h => h.elim
    rintro - t₁ ⟨h_files, h₁⟩
    rw [Prog.wp_bind]
    refine Prog.wp_mono (h₁.wp_unlink name) ?_ fun _ _ h => h.elim
    rintro - t₂ ⟨h_files₂, h₂⟩
    exact ⟨rfl, by rw [h_files₂, h_files], h₂⟩
  -- disable does nothing where the skill is missing, and otherwise is get and upsert
  | disable name =>
    unfold call FileSkillStore.run
    rw [Prog.wp_bind]
    refine Prog.wp_mono (h.wp_getSkill name) ?_ ?_
    · rintro (_ | skill) t₁ ⟨h_get, h_files, h₁⟩
      · simp only [h_get]
        exact ⟨rfl, h_files.symm, h₁⟩
      · simp only [h_get]
        rw [Prog.wp_bind]
        refine Prog.wp_mono (h₁.wp_upsertSkill _) ?_ fun _ _ h => h.elim
        rintro - t₂ ⟨-, h_files₂, h₂⟩
        exact ⟨rfl, by rw [h_files₂, h_files], h₂⟩
    · rintro - t₁ ⟨h_get, h_files, h₁⟩
      simp only [h_get]
      exact ⟨rfl, h_files.symm, h₁⟩
  | get name =>
    unfold call FileSkillStore.run
    rw [Prog.wp_bind]
    refine Prog.wp_mono (h.wp_getSkill name) ?_ ?_
    · rintro skill t₁ ⟨h_get, h_files, h₁⟩
      exact ⟨congrArg (Option.map Option.toList) h_get, h_files.symm, h₁⟩
    · rintro - t₁ ⟨h_get, h_files, h₁⟩
      exact ⟨congrArg (Option.map Option.toList) h_get, h_files.symm, h₁⟩

end Tidy

/-- **In a tidy tree** a call is one on the files alone, and leaves the tree tidy. -/
theorem call_eq_run {t : Tree} (h : Tidy table store scope t) (op : SkillOp SkillRecord) :
    store.run table scope t.files op =
        ((store.call table scope op t).1.toOption, (store.call table scope op t).2.files) ∧
      Tidy table store scope (store.call table scope op t).2 := by
  have h_call := h.wp_call op
  unfold Prog.wp at h_call
  rcases h_eq : store.call table scope op t with ⟨_ | skills, t'⟩ <;> rw [h_eq] at h_call
  · exact ⟨Prod.ext h_call.1 h_call.2.1, h_call.2.2⟩
  · exact ⟨Prod.ext h_call.1 h_call.2.1, h_call.2.2⟩

end Skills
end Nexus
