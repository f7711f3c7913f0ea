import NexusAgent.Skills.Folders

/-!
# What searches change

A search reads every skill of a scope and writes those it finds again, with one more use. What was
not read back as it was written is written back as it was read.

* `Sound`: every file is that of a plain skill in the folder of its name.
* `Sound.search`: then a search changes the counts of skills only.
* `skillFiles_iff`: the skills that a store gives back, before and after searches.
-/

open Lib

namespace Nexus.Skills

variable {table : CharTable} {store : FileSkillStore}

/-! ### Skills up to their counts -/

/-- A skill but for its count. -/
def SkillRecord.uncounted (s : SkillRecord) : SkillRecord := { s with useCount := 0 }

/-- What a file says in a folder, but for the count. -/
def readAs (table : CharTable) (file folder : String) : Option SkillRecord :=
  (parse table folder file).map SkillRecord.uncounted

/-- The files say the same, but for counts. -/
def SameSkills (table : CharTable) (files files' : Files) : Prop :=
  ∀ path, (Dict.get? files path).map (readAs table) = (Dict.get? files' path).map (readAs table)

/-- A skill that is read back in its folder: its name is normalized, and it is plain. -/
structure Kept (table : CharTable) (s : SkillRecord) : Prop where
  name_chars : ∀ c ∈ s.name.toList, nameChar c = true
  name_normal : normalizeName table s.name = s.name
  plain : Plain s

/-- Every file is that of a kept skill, in the folder of its name. -/
def Sound (table : CharTable) (files : Files) : Prop :=
  ∀ path file, Dict.get? files path = some file → ∃ s, file = written s ∧ Kept table s ∧
    ∀ base folder, path = base ++ [folder, "SKILL.md"] → s.name = folder ∧ folder ≠ ""

theorem strip_strip (v : String) : PyStr.strip (PyStr.strip v) = PyStr.strip v := by
  rw [PyStr.strip_eq_stripBy (PyStr.strip v), PyStr.stripBy_eq_self (stripped_strip v),
    String.ofList_toList]

/-- A skill as it is read and counted. -/
def SkillRecord.counted (s : SkillRecord) : SkillRecord :=
  { s with content := PyStr.strip s.content, useCount := s.useCount + 1 }

/-- Counting a use of a skill that is kept gives one that is kept. -/
theorem Kept.counted {s : SkillRecord} (h : Kept table s) : Kept table s.counted where
  name_chars := h.name_chars
  name_normal := h.name_normal
  plain := {
    name_fence := h.plain.name_fence
    trigger_fence := h.plain.trigger_fence
    trigger_plain := h.plain.trigger_plain
    trigger_ends := h.plain.trigger_ends
    -- the content was stripped already
    no_return := by
      show '\r' ∉ (PyStr.strip (PyStr.strip s.content)).toList
      rw [strip_strip]
      exact h.plain.no_return }

/-- Counting a skill changes nothing else in its file. -/
theorem Kept.readAs_counted {s : SkillRecord} (h : Kept table s) :
    readAs table (written s.counted) = readAs table (written s) := by
  funext folder
  unfold readAs
  rw [h.plain.parse_written h.name_chars, h.counted.plain.parse_written h.counted.name_chars]
  simp [SkillRecord.uncounted, SkillRecord.counted, strip_strip]

/-! ### One search -/

/-- A skill read from its file. -/
def Listed (table : CharTable) (store : FileSkillStore) (scope : SessionScope) (files : Files)
    (t : SkillRecord) : Prop :=
  ∃ s, Kept table s ∧ t = { s with content := PyStr.strip s.content } ∧ s.name ≠ "" ∧
    Dict.get? files (store.skillPath table scope s.name).resolve = some (written s)

/-- Each file that is found is parsed, and its skill is listed. -/
theorem Sound.parse_globbed {files : Files} (h : Sound table files) {scope : SessionScope}
    {f : String × String} (h_f : f ∈ store.globbed scope files) :
    ∃ t, parse table f.1 f.2 = some t ∧ Listed table store scope files t := by
  obtain ⟨folder, file⟩ := f
  have h_get := FileSkillStore.mem_globbed.mp h_f
  -- the file was written for a skill that is kept
  obtain ⟨s, rfl, h_kept, h_place⟩ := h _ _ h_get
  obtain ⟨h_name, h_folder⟩ := h_place _ _ rfl
  subst h_name
  refine ⟨_, (parse_written_iff h_kept.name_chars fun _ => rfl).mpr ⟨rfl, h_kept.plain⟩,
    s, h_kept, rfl, h_folder, ?_⟩
  -- whose path leads back to this file
  rw [FileSkillStore.skillPath_resolve, h_kept.name_normal, FileSkillStore.fileAt, if_neg h_folder]
  exact h_get

/-- **What a scope lists of sound files**: skills as they were written, in their folders. -/
theorem Sound.list {files : Files} (h : Sound table files) (scope : SessionScope)
    (includeDisabled : Bool) :
    ∃ skills, store.list table scope files includeDisabled = some skills ∧
      ∀ t ∈ skills, Listed table store scope files t := by
  -- one folder after the other: each file found is read without an error
  have h_all : ∀ found : List (String × String), (∀ f ∈ found, f ∈ store.globbed scope files) →
      ∃ skills, found.mapM (fun f => parse table f.1 f.2) = some skills ∧
        ∀ t ∈ skills, Listed table store scope files t := by
    intro found
    induction found with
    | nil => exact fun _ => ⟨[], rfl, List.forall_mem_nil _⟩
    | cons f found ih =>
      intro h_found
      rw [List.forall_mem_cons] at h_found
      obtain ⟨skills, h_rest, h_each⟩ := ih h_found.2
      obtain ⟨t, h_t, h_listed⟩ := h.parse_globbed h_found.1
      refine ⟨t :: skills, ?_, List.forall_mem_cons.mpr ⟨h_listed, h_each⟩⟩
      rw [List.mapM_cons, h_t, h_rest]
      rfl
  obtain ⟨skills, h_skills, h_each⟩ := h_all _ fun _ h_f => h_f
  refine ⟨skills.filter fun s => includeDisabled || s.enabled, ?_,
    fun t h_t => h_each t (List.mem_filter.mp h_t).1⟩
  unfold FileSkillStore.list
  rw [h_skills]
  rfl

theorem SameSkills.refl (files : Files) : SameSkills table files files := fun _ => rfl

theorem SameSkills.trans {files files' files'' : Files} (h : SameSkills table files files')
    (h' : SameSkills table files' files'') : SameSkills table files files'' := fun path =>
  (h path).trans (h' path)

/-- A file written with the same in it, but for counts. -/
theorem SameSkills.set {files : Files} {path : Path} {file file' : String}
    (h_get : Dict.get? files path = some file) (h : readAs table file' = readAs table file) :
    SameSkills table files (Dict.set files path file') := by
  intro path'
  rw [Dict.get?_set]
  split_ifs with h_path
  · subst h_path
    rw [h_get, Option.map_some, Option.map_some, h]
  · rfl

/-- A kept skill written in its folder. -/
theorem Sound.set {files : Files} (h : Sound table files) {path : Path} {s : SkillRecord}
    (h_s : Kept table s)
    (h_place : ∀ base folder, path = base ++ [folder, "SKILL.md"] → s.name = folder ∧ folder ≠ "") :
    Sound table (Dict.set files path (written s)) := by
  intro path' file h_get
  rw [Dict.get?_set] at h_get
  split_ifs at h_get with h_path
  · subst h_path
    exact ⟨s, (Option.some.inj h_get).symm, h_s, h_place⟩
  · exact h path' file h_get

/-- A skill that a loop is about to write: what is in its file says the same. -/
def Pending (table : CharTable) (store : FileSkillStore) (scope : SessionScope) (files : Files)
    (s : SkillRecord) : Prop :=
  Kept table s ∧ s.name ≠ "" ∧
    (Dict.get? files (store.skillPath table scope s.name).resolve).map (readAs table) =
      some (readAs table (written s))

/-- **The loop of a search** writes skills again that say the same. -/
theorem Sound.writes {files : Files} (h : Sound table files) {scope : SessionScope}
    {found : List SkillRecord} (h_found : ∀ s ∈ found, Pending table store scope files s) :
    Sound table (found.foldl (store.write table scope) files) ∧
      SameSkills table files (found.foldl (store.write table scope) files) := by
  -- by induction on the skills to be written
  induction found generalizing files with
  | nil => exact ⟨h, .refl files⟩
  | cons s found ih =>
    rw [List.forall_mem_cons] at h_found
    obtain ⟨⟨h_kept, h_name, h_file⟩, h_rest⟩ := h_found
    obtain ⟨file, h_get, h_same⟩ := Option.map_eq_some_iff.mp h_file
    -- the skill is written to its own file
    have h_sound : Sound table (store.write table scope files s) := by
      refine h.set h_kept fun base folder h_path => ?_
      rw [FileSkillStore.skillPath_resolve, h_kept.name_normal] at h_path
      have h_folder := FileSkillStore.folder_of_fileAt h_name h_path
      exact ⟨h_folder, h_folder ▸ h_name⟩
    -- which held the same skill but for its count
    have h_step : SameSkills table files (store.write table scope files s) :=
      .set h_get h_same.symm
    -- the other ones still have theirs
    have h_next : ∀ t ∈ found, Pending table store scope (store.write table scope files s) t := by
      intro t h_t
      obtain ⟨t_kept, t_name, t_file⟩ := h_rest t h_t
      exact ⟨t_kept, t_name, (h_step _).symm.trans t_file⟩
    obtain ⟨h_end, h_all⟩ := ih h_sound h_next
    exact ⟨h_end, h_step.trans h_all⟩

/-- **A search** changes the counts of skills only. -/
theorem Sound.search {files : Files} (h : Sound table files) (scope : SessionScope) (query : String)
    (k : ℤ) :
    Sound table (store.run table scope files (.search query k)).2 ∧
      SameSkills table files (store.run table scope files (.search query k)).2 := by
  -- the skills that match are those listed
  obtain ⟨skills, h_list, h_each⟩ := @Sound.list table store files h scope false
  unfold FileSkillStore.run
  simp only [h_list]
  refine h.writes fun t h_t => ?_
  -- each of them is counted, and written over itself
  obtain ⟨t', h_t', rfl⟩ := List.mem_map.mp h_t
  obtain ⟨s, h_kept, rfl, h_name, h_get⟩ := h_each t' (List.mem_filter.mp h_t').1
  refine ⟨h_kept.counted, h_name, ?_⟩
  have h_file : Dict.get? files (store.skillPath table scope s.counted.name).resolve =
      some (written s) := h_get
  exact (congrArg (Option.map (readAs table)) h_file).trans
    (congrArg some h_kept.readAs_counted.symm)

/-! ### Runs -/

/-- The files after searches in any scopes. -/
def searched (table : CharTable) (store : FileSkillStore) (files : Files)
    (searches : List (SessionScope × String × ℤ)) : Files :=
  searches.foldl (fun files q => (store.run table q.1 files (.search q.2.1 q.2.2)).2) files

/-- So do any number of searches. -/
theorem Sound.searched {files : Files} (h : Sound table files)
    (searches : List (SessionScope × String × ℤ)) :
    SameSkills table files (searched table store files searches) := by
  induction searches generalizing files with
  | nil => exact .refl files
  | cons q searches ih =>
    obtain ⟨h_sound, h_same⟩ := @Sound.search table store files h q.1 q.2.1 q.2.2
    exact h_same.trans (ih h_sound)

/-- A skill as an upsert stores it. -/
def stored (table : CharTable) (skill : SkillRecord) : SkillRecord :=
  { skill with name := normalizeName table skill.name }

@[simp] theorem stored_name (table : CharTable) (skill : SkillRecord) :
    (stored table skill).name = normalizeName table skill.name := rfl

@[simp] theorem stored_content (table : CharTable) (skill : SkillRecord) :
    (stored table skill).content = skill.content := by
  simp only [stored]

theorem stored_chars (table : CharTable) (skill : SkillRecord) :
    ∀ c ∈ (stored table skill).name.toList, nameChar c = true := by
  rw [stored_name]
  exact normalizeName_nameChar table skill.name

theorem stored_normal (table : CharTable) (skill : SkillRecord) :
    normalizeName table (stored table skill).name = (stored table skill).name := by
  rw [stored_name, normalizeName_normalizeName]

/-- An upsert writes the stored skill to its file. -/
theorem upsert_files (files : Files) (scope : SessionScope) (skill : SkillRecord) :
    (store.upsert table scope files skill).2 =
      Dict.set files (store.skillPath table scope (stored table skill).name).resolve
        (written (stored table skill)) := by
  simp only [FileSkillStore.upsert, FileSkillStore.write, stored]

/-- The files after upserts in any scopes. -/
def upserted (table : CharTable) (store : FileSkillStore)
    (upserts : List (SessionScope × SkillRecord)) : Files :=
  upserts.foldl (fun files u => (store.upsert table u.1 files u.2).2) []

/-- A skill is read back from the file an upsert writes: with its name normalized, its content
stripped, and nothing else changed. -/
def ReadsBack (table : CharTable) (store : FileSkillStore) (scope : SessionScope)
    (skill : SkillRecord) : Prop :=
  parse table (store.skillFolder table scope skill.name).name (written (stored table skill)) =
    some { stored table skill with content := PyStr.strip skill.content }

/-- The skills that are read back. -/
theorem readsBack_iff {scope : SessionScope} {skill : SkillRecord} :
    ReadsBack table store scope skill ↔
      (normalizeName table skill.name ≠ "" ∨ store.dir scope = []) ∧ Plain (stored table skill) := by
  have h_folder : (stored table skill).name ≠ "" →
      (store.skillFolder table scope skill.name).name = (stored table skill).name := by
    rw [stored_name]
    exact fun h_name => FileSkillStore.skillFolder_name_iff.mpr (.inl h_name)
  have h_iff := @parse_written_iff table _ _ (stored_chars table skill) h_folder
  rw [stored_name, FileSkillStore.skillFolder_name_iff, stored_content] at h_iff
  exact h_iff

/-- Upserts of skills that are read back leave sound files. -/
theorem sound_upserted {upserts : List (SessionScope × SkillRecord)}
    (h : ∀ u ∈ upserts, (normalizeName table u.2.name ≠ "" ∨ store.dir u.1 = []) ∧
      Plain (stored table u.2)) : Sound table (upserted table store upserts) := by
  have h_step : ∀ (us : List (SessionScope × SkillRecord)) (files : Files),
      (∀ u ∈ us, u ∈ upserts) → Sound table files →
        Sound table (us.foldl (fun files u => (store.upsert table u.1 files u.2).2) files) := by
    intro us
    induction us with
    | nil => exact fun files _ h_files => h_files
    | cons u us ih =>
      intro files h_us h_files
      rw [List.forall_mem_cons] at h_us
      obtain ⟨h_name, h_plain⟩ := h u h_us.1
      have h_kept : Kept table (stored table u.2) :=
        ⟨stored_chars table u.2, stored_normal table u.2, h_plain⟩
      rw [List.foldl_cons, upsert_files]
      refine ih _ h_us.2 (h_files.set h_kept fun base folder h_path => ?_)
      rw [FileSkillStore.skillPath_resolve, h_kept.name_normal] at h_path
      by_cases h_empty : (stored table u.2).name = ""
      · -- the file of a skill without a name lies at the root
        rw [FileSkillStore.fileAt, if_pos h_empty] at h_path
        rw [stored_name] at h_empty
        rw [h_name.resolve_left (not_not_intro h_empty)] at h_path
        have h_length := congrArg List.length h_path
        simp [Path.resolve] at h_length
      · have h_folder := FileSkillStore.folder_of_fileAt h_empty h_path
        exact ⟨h_folder, h_folder ▸ h_empty⟩
  exact h_step upserts [] (fun _ h_u => h_u) fun path file h_get => by cases h_get

/-- **Skill files give the skills back** exactly if every skill upserted has a name that is not
empty, and is plain: then each is read back as it was, and searches change counts only. -/
theorem skillFiles_iff (table : CharTable) (store : FileSkillStore)
    (upserts : List (SessionScope × SkillRecord)) :
    ((∀ u ∈ upserts, ReadsBack table store u.1 u.2) ∧
      ∀ searches scope name,
        (store.get table scope (upserted table store upserts) name).map
            (Option.map SkillRecord.uncounted) =
          (store.get table scope (searched table store (upserted table store upserts) searches)
            name).map (Option.map SkillRecord.uncounted)) ↔
      ∀ u ∈ upserts, (normalizeName table u.2.name ≠ "" ∨ store.dir u.1 = []) ∧
        Plain (stored table u.2) := by
  constructor
  · exact fun h u h_u => readsBack_iff.mp (h.1 u h_u)
  · intro h
    refine ⟨fun u h_u => readsBack_iff.mpr (h u h_u), fun searches scope name => ?_⟩
    have h_same := @Sound.searched table store _ (sound_upserted h) searches
      (store.skillPath table scope name).resolve
    unfold FileSkillStore.get
    generalize Dict.get? (upserted table store upserts) _ = before at h_same ⊢
    generalize Dict.get? (searched table store _ searches) _ = after at h_same ⊢
    cases before with
    | none => cases after with
      | none => rfl
      | some file => cases h_same
    | some file => cases after with
      | none => cases h_same
      | some file' =>
        have h_read := congrFun (Option.some.inj h_same) (store.skillFolder table scope name).name
        unfold readAs at h_read
        simp only [Option.map_map]
        -- the file is there before and after, and reads the same but for its count
        have h_map : ∀ parsed parsed' : Option SkillRecord,
            parsed.map SkillRecord.uncounted = parsed'.map SkillRecord.uncounted →
              parsed.map (Option.map SkillRecord.uncounted ∘ some) =
                parsed'.map (Option.map SkillRecord.uncounted ∘ some) := by
          intro parsed parsed' h_eq
          have h_some := congrArg (Option.map some) h_eq
          rw [Option.map_map, Option.map_map] at h_some
          exact h_some
        exact h_map _ _ h_read

theorem skillsRoot_resolved : ∀ c ∈ ["skills"], c ≠ "" ∧ c ≠ "." ∧ c ≠ ".." := by decide

/-- A store in a folder at the root. -/
def skillsRoot : FileSkillStore where
  root := ["skills"]
  root_resolved := skillsRoot_resolved

/-- A trigger with a quotation in it comes back with its escapes. -/
theorem skillFiles_quotation :
    ¬ ((∀ u ∈ [(({} : SessionScope), ({ name := "greet", trigger := "\"hi\" x" } : SkillRecord))],
        ReadsBack .ascii skillsRoot u.1 u.2) ∧
      ∀ searches scope name,
        (skillsRoot.get .ascii scope (upserted .ascii skillsRoot
          [({}, { name := "greet", trigger := "\"hi\" x" })]) name).map
            (Option.map SkillRecord.uncounted) =
          (skillsRoot.get .ascii scope (searched .ascii skillsRoot (upserted .ascii skillsRoot
            [({}, { name := "greet", trigger := "\"hi\" x" })]) searches) name).map
              (Option.map SkillRecord.uncounted)) := by
  rintro ⟨h_all, -⟩
  -- a trigger that is read back is plain
  have h_plain := (readsBack_iff.mp (h_all _ List.mem_cons_self)).2
  -- this one has a quote
  have h_quote : '"' ∈ (stored .ascii
      { name := "greet", trigger := "\"hi\" x" }).trigger.toList := by
    simp [stored]
  exact absurd (h_plain.trigger_plain '"' h_quote) (by decide)

end Nexus.Skills
