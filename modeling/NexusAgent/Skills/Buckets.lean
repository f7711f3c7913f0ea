import Mathlib.Data.Set.Insert
import NexusAgent.Lib.Delimited
import NexusAgent.Lib.NonInterference
import NexusAgent.Skills.Store

/-!
# The buckets of two scopes

A scope has a bucket in memory, named by the ids of the scope: ids that are missing are left out, a
slash becomes an underscore, and nothing else is changed. The store keeps the record objects that it
is handed, so two scopes may share a record as well as a bucket.

* `bucket_inj`: scopes that spell one folder have one bucket, and no others.
* `bucketsApart_iff`: scopes that do not disturb each other in memory.
-/

open Lib

namespace Nexus.Skills

variable {table : CharTable} {scope scope' : SessionScope}

/-! ### Folders -/

/-- The folder a scope spells: its segments, or the one for scopes that name nothing. -/
def folder (scope : SessionScope) : List String :=
  let parts := scope.pathSegments []
  if parts = [] then ["_global"] else parts

/-- The bucket is the folder, joined by slashes. -/
theorem bucket_eq_join (scope : SessionScope) :
    InMemorySkillStore.bucket scope = PyStr.join "/" (folder scope) := by
  unfold InMemorySkillStore.bucket folder
  simp only
  split_ifs <;> rfl

/-- A slash, replaced. -/
theorem replace_slash (s : String) : '/' ∉ (PyStr.replace "/" "_" s).toList := by
  -- by induction on the characters: each slash becomes an underscore
  have h_chars : ∀ cs : List Char, '/' ∉ PyStr.replaceFrom ['/'] ['_'] 0 cs := by
    intro cs
    induction cs with
    | nil => exact List.not_mem_nil
    | cons c cs ih =>
      rw [PyStr.replaceFrom]
      split_ifs with h_c
      · simpa using ih
      · rw [List.mem_cons, not_or]
        refine ⟨?_, ih⟩
        rintro rfl
        simp at h_c
  unfold PyStr.replace
  rw [String.toList_ofList]
  exact h_chars s.toList

/-- No segment has a slash in it. -/
theorem slash_notMem_folder : ∀ segment ∈ folder scope, '/' ∉ segment.toList := by
  intro segment h
  unfold folder at h
  simp only at h
  split_ifs at h
  · obtain rfl := List.mem_singleton.mp h
    decide
  · obtain ⟨key, -, h_key⟩ := List.mem_filterMap.mp h
    obtain ⟨value, -, rfl⟩ := Option.map_eq_some_iff.mp h_key
    exact replace_slash value

/-- A scope has at least one segment. -/
theorem folder_ne_nil (scope : SessionScope) : folder scope ≠ [] := by
  unfold folder
  simp only
  split_ifs with h
  · exact List.cons_ne_nil _ _
  · exact h

/-- **The bucket** of a scope is its folder. -/
theorem bucket_inj :
    InMemorySkillStore.bucket scope = InMemorySkillStore.bucket scope' ↔
      folder scope = folder scope' := by
  -- no segment of a folder contains a slash, so splitting gives them back
  have h_split : ∀ scope : SessionScope,
      PyStr.split '/' (InMemorySkillStore.bucket scope) = folder scope := by
    intro scope
    have h_pieces := PyStr.split_join '/' (folder_ne_nil scope)
    rw [bucket_eq_join]
    refine h_pieces.trans ?_
    have h_one : ∀ segment ∈ folder scope, PyStr.split '/' segment = [segment] :=
      fun segment h_segment => PyStr.split_eq_singleton (slash_notMem_folder segment h_segment)
    rw [List.flatMap_congr h_one]
    simp
  constructor
  · intro h
    rw [← h_split scope, h, h_split scope']
  · intro h
    rw [bucket_eq_join, bucket_eq_join, h]

/-! ### Calls -/

/-- What a call is handed. -/
def SkillOp.handed {ρ : Type} : SkillOp ρ → List ρ
  | .upsert skill => [skill]
  | _ => []

namespace InMemorySkillStore

/-- A call in one of two scopes: the records it returns with what they hold then, and the memory
after it. -/
def step (table : CharTable) (who : Bool → SessionScope) (call : Bool × SkillOp ℕ)
    (m : SkillMemory) : List (ℕ × SkillRecord) × SkillMemory :=
  let (found, m) := run table (who call.1) m call.2
  (found.map fun address => (address, m.records address), m)

end InMemorySkillStore

open InMemorySkillStore

/-- The bucket of a scope holds these records only. -/
def Owned (own : Set ℕ) (scope : SessionScope) (m : SkillMemory) : Prop :=
  ∀ e ∈ skills m scope, e.2 ∈ own

/-- What is listed is owned. -/
theorem mem_own_of_list {own : Set ℕ} {m : SkillMemory} (h : Owned own scope m)
    {includeDisabled : Bool} {address : ℕ} (h_mem : address ∈ list m scope includeDisabled) :
    address ∈ own := by
  obtain ⟨e, h_e, rfl⟩ := List.mem_map.mp (List.mem_filter.mp h_mem).1
  exact h e h_e

/-- Setting a bucket sets the skills of its scope. -/
theorem skills_set (m : SkillMemory) (kept : Dict String ℕ) :
    skills { m with data := Dict.set m.data (bucket scope) kept } scope = kept := by
  unfold skills
  rw [Dict.get?_set_self]
  rfl

theorem skills_set_ne (m : SkillMemory) (kept : Dict String ℕ) (h : bucket scope ≠ bucket scope') :
    skills { m with data := Dict.set m.data (bucket scope) kept } scope' = skills m scope' := by
  unfold skills
  rw [Dict.get?_set_ne m.data kept h]

/-- A scope without a bucket has no skills. -/
theorem skills_eq_nil {m : SkillMemory} (h : ¬ Dict.has m.data (bucket scope) = true) :
    skills m scope = [] := by
  unfold skills
  rw [Option.not_isSome_iff_eq_none.mp h]
  rfl

/-! ### Counting uses -/

/-- The uses of the records are counted, one after the other. -/
def countAll (m : SkillMemory) (found : List ℕ) : SkillMemory :=
  found.foldl (fun m address => m.edit address SkillRecord.countUse) m

theorem countAll_data (m : SkillMemory) (found : List ℕ) : (countAll m found).data = m.data := by
  induction found generalizing m with
  | nil => rfl
  | cons address found ih => exact ih _

theorem countAll_skills (m : SkillMemory) (found : List ℕ) (scope : SessionScope) :
    skills (countAll m found) scope = skills m scope := by
  unfold skills
  rw [countAll_data]

/-- Counting leaves the other records. -/
theorem countAll_records_ne {m : SkillMemory} {found : List ℕ} {address : ℕ}
    (h : address ∉ found) : (countAll m found).records address = m.records address := by
  induction found generalizing m with
  | nil => rfl
  | cons a found ih =>
    rw [List.mem_cons, not_or] at h
    exact (ih h.2).trans (Function.update_of_ne h.1 _ _)

/-- Edits of one record agree where the records do. -/
theorem edit_records_eq {own : Set ℕ} {m m' : SkillMemory}
    (h : ∀ a ∈ own, m.records a = m'.records a) {address : ℕ} (h_address : address ∈ own)
    (f : SkillRecord → SkillRecord) :
    ∀ a ∈ own, (m.edit address f).records a = (m'.edit address f).records a := by
  intro a h_a
  unfold SkillMemory.edit
  simp only [Function.update_apply, h address h_address, h a h_a]

/-- Counting what one party owns reads the records of that party only. -/
theorem countAll_records_eq {own : Set ℕ} {found : List ℕ} (h_found : ∀ a ∈ found, a ∈ own) :
    ∀ {m m' : SkillMemory}, (∀ a ∈ own, m.records a = m'.records a) →
      ∀ a ∈ own, (countAll m found).records a = (countAll m' found).records a := by
  induction found with
  | nil => exact fun h => h
  | cons address found ih =>
    intro m m' h
    rw [List.forall_mem_cons] at h_found
    exact ih h_found.2 (edit_records_eq h h_found.1 _)

/-! ### What a call changes -/

/-- **A call** changes the bucket of its scope only, and of the records only those in it and the
one it is handed. -/
theorem run_frame {own : Set ℕ} {m : SkillMemory} (h : Owned own scope m) {op : SkillOp ℕ}
    (h_handed : ∀ address ∈ op.handed, address ∈ own) :
    (∀ address, address ∉ own →
      (run table scope m op).2.records address = m.records address) ∧
    ∀ scope', bucket scope ≠ bucket scope' →
      skills (run table scope m op).2 scope' = skills m scope' := by
  -- an edit changes the record at its address, which is one of the scope's own
  have h_edit : ∀ {address : ℕ} (f : SkillRecord → SkillRecord), address ∈ own → ∀ a, a ∉ own →
      Function.update m.records address (f (m.records address)) a = m.records a :=
    fun f h_address a h_a => Function.update_of_ne (ne_of_mem_of_not_mem h_address h_a).symm _ _
  cases op with
  | search query k =>
    refine ⟨fun address h_address => countAll_records_ne fun h_mem => ?_,
      fun scope' _ => countAll_skills m _ scope'⟩
    exact h_address (mem_own_of_list h (List.mem_filter.mp h_mem).1)
  | upsert address =>
    have h_address := h_handed address (List.mem_singleton_self _)
    exact ⟨h_edit (fun s => { s with name := normalizeName table s.name }) h_address,
      fun scope' h_ne => skills_set_ne (m.edit address _) _ h_ne⟩
  | list includeDisabled => exact ⟨fun _ _ => rfl, fun _ _ => rfl⟩
  | delete name =>
    simp only [run]
    split_ifs
    · exact ⟨fun _ _ => rfl, fun scope' h_ne => skills_set_ne m _ h_ne⟩
    · exact ⟨fun _ _ => rfl, fun _ _ => rfl⟩
  | disable name =>
    simp only [run]
    split
    · exact ⟨fun _ _ => rfl, fun _ _ => rfl⟩
    · next address h_found =>
      have h_address : address ∈ own := h _ (Dict.mem_of_get? h_found)
      exact ⟨h_edit (fun s => { s with enabled := false }) h_address, fun _ _ => rfl⟩
  | get name => exact ⟨fun _ _ => rfl, fun _ _ => rfl⟩

/-- A call keeps the bucket of its scope to its own records. -/
theorem Owned.run {own : Set ℕ} {m : SkillMemory} (h : Owned own scope m) {op : SkillOp ℕ}
    (h_handed : ∀ address ∈ op.handed, address ∈ own) :
    Owned own scope (InMemorySkillStore.run table scope m op).2 := by
  cases op with
  | search query k =>
    have h_skills : skills (InMemorySkillStore.run table scope m (.search query k)).2 scope =
        skills m scope := countAll_skills m _ scope
    intro e h_e
    rw [h_skills] at h_e
    exact h e h_e
  -- the address handed over is the only one that comes in
  | upsert address =>
    intro e h_e
    rw [InMemorySkillStore.run, skills_set] at h_e
    rcases Dict.mem_set h_e with h_new | h_old
    · exact h_new.2 ▸ h_handed address (List.mem_singleton_self _)
    · exact h e h_old
  | list includeDisabled => exact h
  | delete name =>
    intro e h_e
    simp only [InMemorySkillStore.run] at h_e
    split_ifs at h_e
    · rw [skills_set] at h_e
      exact h e (List.mem_filter.mp h_e).1
    · exact h e h_e
  | disable name =>
    simp only [InMemorySkillStore.run]
    split
    · exact h
    · exact h
  | get name => exact h

/-- Two memories are the same to a scope and its records. -/
structure SameBucket (own : Set ℕ) (scope : SessionScope) (m m' : SkillMemory) : Prop where
  skills : skills m scope = skills m' scope
  records : ∀ address ∈ own, m.records address = m'.records address

/-- **What a call returns** and what it leaves in its scope are a matter of the bucket and of the
scope's own records. -/
theorem SameBucket.run {own : Set ℕ} {m m' : SkillMemory} (h : SameBucket own scope m m')
    (h_owned : Owned own scope m) {op : SkillOp ℕ} (h_handed : ∀ address ∈ op.handed, address ∈ own) :
    (InMemorySkillStore.run table scope m op).1 = (InMemorySkillStore.run table scope m' op).1 ∧
      (∀ address ∈ (InMemorySkillStore.run table scope m op).1, address ∈ own) ∧
      SameBucket own scope (InMemorySkillStore.run table scope m op).2
        (InMemorySkillStore.run table scope m' op).2 := by
  have h_list : ∀ includeDisabled, list m scope includeDisabled = list m' scope includeDisabled := by
    intro includeDisabled
    unfold list
    rw [← h.skills]
    refine List.filter_congr fun address h_mem => ?_
    obtain ⟨e, h_e, rfl⟩ := List.mem_map.mp h_mem
    rw [h.records _ (h_owned e h_e)]
  cases op with
  | search query k =>
    have h_found : ((list m scope false).filter fun address =>
        (m.records address).matchesQuery table (table.lower query)) =
          (list m' scope false).filter fun address =>
            (m'.records address).matchesQuery table (table.lower query) := by
      rw [← h_list]
      refine List.filter_congr fun address h_mem => ?_
      rw [h.records address (mem_own_of_list h_owned h_mem)]
    have h_own : ∀ address ∈ (list m scope false).filter fun address =>
        (m.records address).matchesQuery table (table.lower query), address ∈ own :=
      fun address h_mem => mem_own_of_list h_owned (List.mem_filter.mp h_mem).1
    refine ⟨congrArg (upTo k) h_found, fun address h_mem => h_own _ (List.mem_of_mem_take h_mem), ?_⟩
    simp only [InMemorySkillStore.run]
    rw [← h_found]
    refine ⟨?_, countAll_records_eq h_own h.records⟩
    exact (countAll_skills m _ scope).trans (h.skills.trans (countAll_skills m' _ scope).symm)
  | upsert address =>
    have h_address := h_handed address (List.mem_singleton_self _)
    have h_records := edit_records_eq h.records h_address
      fun s => { s with name := normalizeName table s.name }
    refine ⟨rfl, fun a h_a => List.mem_singleton.mp h_a ▸ h_address, ?_, h_records⟩
    simp only [InMemorySkillStore.run, skills_set]
    have h_kept : ∀ f, InMemorySkillStore.skills (m.edit address f) scope =
        InMemorySkillStore.skills (m'.edit address f) scope := fun _ => h.skills
    rw [h_kept, h_records address h_address]
  | list includeDisabled =>
    exact ⟨h_list includeDisabled, fun _ h_mem => mem_own_of_list h_owned h_mem, h⟩
  | delete name =>
    refine ⟨rfl, List.forall_mem_nil _, ?_, fun address h_address => ?_⟩
    · -- a bucket that is not there is empty
      have h_after : ∀ m : SkillMemory, InMemorySkillStore.skills
          (InMemorySkillStore.run table scope m (.delete name)).2 scope =
            Dict.erase (InMemorySkillStore.skills m scope) (normalizeName table name) := by
        intro m
        simp only [InMemorySkillStore.run]
        split_ifs with h_has
        · exact skills_set m _
        · rw [skills_eq_nil h_has]
          rfl
      rw [h_after, h_after, h.skills]
    · simp only [InMemorySkillStore.run]
      split_ifs <;> exact h.records address h_address
  | disable name =>
    simp only [InMemorySkillStore.run, ← h.skills]
    split
    · exact ⟨rfl, List.forall_mem_nil _, h⟩
    · next address h_found =>
      have h_address : address ∈ own := h_owned _ (Dict.mem_of_get? h_found)
      exact ⟨rfl, List.forall_mem_nil _, h.skills,
        edit_records_eq h.records h_address fun s => { s with enabled := false }⟩
  | get name =>
    refine ⟨?_, fun address h_mem => ?_, h⟩
    · simp only [InMemorySkillStore.run, h.skills]
    · exact h_owned _ (Dict.mem_of_get? (Option.mem_toList.mp h_mem))

/-! ### Two scopes -/

/-- A call is handed a record of its scope's own. -/
def HandsOwn (own : Bool → Set ℕ) (call : Bool × SkillOp ℕ) : Prop :=
  ∀ address ∈ call.2.handed, address ∈ own call.1

/-- Two scopes do not disturb each other in memory: from an empty store on, whatever the records
hold, the calls in one return what they would return without those in the other. -/
def BucketsApart (table : CharTable) (who : Bool → SessionScope) (own : Bool → Set ℕ) : Prop :=
  ∀ records b, Undisturbed (step table who) (fun call => call.1 = b) (HandsOwn own) { records }

variable {who : Bool → SessionScope} {own : Bool → Set ℕ}

theorem Owned.skills_eq_nil {own : Set ℕ} {m : SkillMemory} (h : Owned own scope m)
    (h_none : ¬ own.Nonempty) : skills m scope = [] :=
  List.eq_nil_iff_forall_not_mem.mpr fun e h_e => h_none ⟨e.2, h e h_e⟩

theorem skills_congr (h : bucket scope = bucket scope') (m : SkillMemory) :
    skills m scope = skills m scope' := by
  unfold skills
  rw [h]

/-- A call leaves the bucket of the other scope alone. -/
theorem skills_run_other (h_folders : (∃ b, (own b).Nonempty) → folder (who true) ≠ folder (who false))
    {m : SkillMemory} {c d : Bool} (h_owned : Owned (own c) (who c) m) {op : SkillOp ℕ}
    (h_handed : ∀ address ∈ op.handed, address ∈ own c) (h_ne : c ≠ d) :
    skills (run table (who c) m op).2 (who d) = skills m (who d) := by
  by_cases h_bucket : bucket (who c) = bucket (who d)
  · -- then no record is handed over at all, and the bucket stays empty
    have h_folder : folder (who true) = folder (who false) := by
      have h_same := bucket_inj.mp h_bucket
      cases c <;> cases d <;> simp_all
    have h_none : ¬ (own c).Nonempty := fun h_some => h_folders ⟨c, h_some⟩ h_folder
    rw [← skills_congr h_bucket, ← skills_congr h_bucket, h_owned.skills_eq_nil h_none,
      (h_owned.run h_handed).skills_eq_nil h_none]
  · exact (run_frame h_owned h_handed).2 (who d) h_bucket

/-- Parties with records and folders of their own have buckets of their own. -/
theorem bucketsApart_of_apart (h_records : ∀ address ∈ own true, address ∉ own false)
    (h_folders : (∃ b, (own b).Nonempty) → folder (who true) ≠ folder (who false)) :
    BucketsApart table who own := by
  intro records b
  have h_disjoint : ∀ c, c ≠ b → ∀ address ∈ own b, address ∉ own c := by
    intro c h_ne address h_own h_own'
    cases b <;> cases c <;> simp_all
  have h_owned_next : ∀ {m : SkillMemory} {c : Bool} {op : SkillOp ℕ},
      (∀ d, Owned (own d) (who d) m) → (∀ address ∈ op.handed, address ∈ own c) →
      ∀ d, Owned (own d) (who d) (run table (who c) m op).2 := by
    intro m c op h_owned h_handed d
    by_cases h_ne : c = d
    · subst h_ne
      exact (h_owned c).run h_handed
    · unfold Owned
      rw [skills_run_other h_folders (h_owned c) h_handed h_ne]
      exact h_owned d
  -- the buckets hold the records of their own scopes, and the one looks the same
  refine undisturbed_of_related
    (fun m m' => SameBucket (own b) (who b) m m' ∧ ∀ c, Owned (own c) (who c) m) ?_ ?_
    ⟨⟨rfl, fun _ _ => rfl⟩, fun c e h_e => by cases h_e⟩
  · rintro ⟨c, op⟩ m m' h_handed h_mine ⟨h_same, h_owned⟩
    obtain rfl : c = b := of_decide_eq_true h_mine
    obtain ⟨h_found, h_in, h_next⟩ := h_same.run (h_owned c) h_handed
    refine ⟨?_, h_next, h_owned_next h_owned h_handed⟩
    simp only [step]
    rw [← h_found]
    exact List.map_congr_left fun address h_mem => by rw [h_next.records address (h_in _ h_mem)]
  · rintro ⟨c, op⟩ m m' h_handed h_other ⟨h_same, h_owned⟩
    have h_ne : c ≠ b := of_decide_eq_false h_other
    refine ⟨⟨?_, fun address h_own => ?_⟩, h_owned_next h_owned h_handed⟩
    · exact (skills_run_other h_folders (h_owned c) h_handed h_ne).trans h_same.skills
    · have h_not := h_disjoint c h_ne address h_own
      exact ((run_frame (h_owned c) h_handed).1 address h_not).trans (h_same.records address h_own)

/-- **Two scopes do not disturb each other in memory** exactly if no record is handed over in both
and, if one is handed over at all, they spell different folders. -/
theorem bucketsApart_iff : BucketsApart table who own ↔
    (∀ address ∈ own true, address ∉ own false) ∧
      ((∃ b, (own b).Nonempty) → folder (who true) ≠ folder (who false)) := by
  refine ⟨fun h => ⟨fun address h_own h_own' => ?_, ?_⟩,
    fun h => bucketsApart_of_apart h.1 h.2⟩
  · -- the record is counted in one scope, and has the count in the other
    have h_heard := h (fun _ => { name := "" }) false
      [(true, .upsert address), (true, .search "" 0), (false, .upsert address)] (by
        simp [HandsOwn, SkillOp.handed, h_own, h_own'])
    have h_lower : table.lower "" = "" := table.lower_ascii "" (List.forall_mem_nil _)
    simp [heard, step, run, SkillMemory.edit, list, skills, Dict.set, Dict.get?, h_lower,
      SkillRecord.matchesQuery, SkillRecord.countUse] at h_heard
  · rintro ⟨b, address, h_own⟩ h_folder
    have h_bucket : bucket (who true) = bucket (who false) := bucket_inj.mpr h_folder
    have h_heard := h (fun _ => { name := "" }) (!b) [(b, .upsert address), (!b, .list true)] (by
      simp [HandsOwn, SkillOp.handed, h_own])
    cases b <;>
      simp [heard, step, run, SkillMemory.edit, list, skills, Dict.set, Dict.get?, h_bucket] at h_heard

end Nexus.Skills
