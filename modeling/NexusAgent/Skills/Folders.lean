import NexusAgent.Skills.RoundTrip

/-!
# Where skills lie

The folder of a scope as the operating system resolves it, and the files in it that a skill store
writes and finds.

* `skillPath_resolve`: the file of a skill, by its normalized name.
* `mem_globbed`: the files a scope lists.
-/

open Lib

namespace Nexus

namespace Skills

variable {table : CharTable} {store : FileSkillStore} {scope : SessionScope}

/-- A name is a component if it is not empty. -/
theorem component_of_name {name : String} (h : ∀ c ∈ name.toList, nameChar c = true)
    (h_name : name ≠ "") : Component name := by
  refine ⟨h_name, ?_, ?_⟩
  · rintro rfl
    exact absurd (h '.' (by decide)) (by decide)
  · rintro rfl
    exact absurd (h '.' (by decide)) (by decide)

theorem component_skillMd : Component "SKILL.md" := by decide

namespace FileSkillStore

/-- The folder of a scope is made of components that are not left out. -/
theorem dir_component (store : FileSkillStore) (scope : SessionScope) :
    ∀ c ∈ store.dir scope, c ≠ "" := by
  -- joining one segment: an empty one is passed over
  have h_join : ∀ (p : Path) (c : String), (∀ d ∈ p, d ≠ "") → ∀ d ∈ p.join c, d ≠ "" := by
    intro p c h
    unfold Path.join
    split_ifs with h_c
    · exact h
    · exact List.forall_mem_append.mpr ⟨h, List.forall_mem_singleton.mpr (not_or.mp h_c).1⟩
  have h_root : ∀ c ∈ store.root, c ≠ "" := fun c h_c => (store.root_resolved c h_c).1
  -- and so joining all of them
  have h_fold : ∀ (segments : List String) (p : Path), (∀ d ∈ p, d ≠ "") →
      ∀ d ∈ segments.foldl Path.join p, d ≠ "" := by
    intro segments
    induction segments with
    | nil => exact fun p h => h
    | cons c segments ih => exact fun p h => ih _ (h_join p c h)
  unfold dir
  simp only
  split_ifs
  · exact h_join _ _ h_root
  · exact h_fold _ _ h_root

/-- The name of a skill's folder is the skill's, if the skill has one. -/
theorem skillFolder_name_iff {name : String} :
    (store.skillFolder table scope name).name = normalizeName table name ↔
      normalizeName table name ≠ "" ∨ store.dir scope = [] := by
  -- the name itself is opaque from here on
  have h_chars := normalizeName_nameChar table name
  unfold skillFolder
  generalize normalizeName table name = n at h_chars
  -- an empty name leaves the folder of the scope
  by_cases h_n : n = ""
  · subst h_n
    rw [Path.join_empty, or_iff_right (not_not_intro rfl)]
    constructor
    · intro h_name
      rcases List.eq_nil_or_concat (store.dir scope) with h_nil | ⟨p, c, h_eq⟩
      · exact h_nil
      · have h_c : c ≠ "" := store.dir_component scope c (by simp [h_eq])
        rw [h_eq, List.concat_eq_append, Path.name_concat] at h_name
        exact absurd h_name h_c
    · intro h_nil
      rw [h_nil]
      rfl
  · -- another one is the last component
    rw [Path.join_of_component (component_of_name h_chars h_n), Path.name_concat]
    exact iff_of_true rfl (.inl h_n)

/-- The file of a name in a folder. -/
def fileAt (base : Path) (name : String) : Path :=
  if name = "" then base ++ ["SKILL.md"] else base ++ [name, "SKILL.md"]

/-- The folder of a file is its name. -/
theorem folder_of_fileAt {base base' : Path} {name folder : String} (h_name : name ≠ "")
    (h : fileAt base name = base' ++ [folder, "SKILL.md"]) : name = folder := by
  rw [fileAt, if_neg h_name] at h
  obtain ⟨-, h_last⟩ := List.append_inj' h rfl
  exact (List.cons.inj h_last).1

/-- **The file of a skill**, by its normalized name. -/
theorem skillPath_resolve (name : String) :
    (store.skillPath table scope name).resolve =
      fileAt (store.dir scope).resolve (normalizeName table name) := by
  -- the name itself is opaque from here on
  have h_chars := normalizeName_nameChar table name
  unfold skillPath skillFolder fileAt
  generalize normalizeName table name = n at h_chars
  rw [Path.join_of_component component_skillMd, Path.resolve_append_component component_skillMd]
  split_ifs with h_n
  · rw [h_n, Path.join_empty]
  · have h_component := component_of_name h_chars h_n
    rw [Path.join_of_component h_component, Path.resolve_append_component h_component,
      List.append_assoc]
    rfl

/-- **The files a scope lists.** -/
theorem mem_globbed {files : Files} {folder text : String} :
    (folder, text) ∈ store.globbed scope files ↔
      Dict.get? files ((store.dir scope).resolve ++ [folder, "SKILL.md"]) = some text := by
  unfold globbed
  rw [List.mem_filterMap]
  constructor
  · -- what is found lies in the file of a folder in the scope's own
    rintro ⟨⟨path, text'⟩, h_mem, h_found⟩
    rw [Dict.mem_items] at h_mem
    simp only at h_found
    split at h_found
    · next file folder' base h_path =>
      split_ifs at h_found with h_here
      obtain ⟨rfl, rfl⟩ := Prod.mk.inj (Option.some.inj h_found)
      obtain ⟨rfl, h_base⟩ := h_here
      have h_eq : path = ("SKILL.md" :: folder' :: base).reverse := by
        rw [← h_path, List.reverse_reverse]
      rw [← h_base, ← h_mem, h_eq]
      simp
    · cases h_found
  · -- and such a file is found
    intro h_get
    refine ⟨(_, text), Dict.mem_items.mpr h_get, ?_⟩
    simp

end FileSkillStore
end Skills
end Nexus
