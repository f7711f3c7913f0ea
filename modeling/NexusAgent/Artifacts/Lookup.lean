import NexusAgent.Artifacts.Store
import NexusAgent.Lib.Split
import NexusAgent.Storage.Containment

/-!
# The lookup of artifacts

Which artifacts an id leads to in the folder of a scope. The id is a part of a shell pattern, so it
need not be one that was returned, and scopes whose keys have the same pieces once these are
sanitized share a folder.

* `put_eq`, `get_eq`: the calls in the folder of a scope.
* `Sound.run`: the files are those of the artifacts that were put.
* `artifacts_exact_iff`: the histories in which an id finds its own artifact, and no other.
-/

open Lib

namespace Nexus.Artifacts

namespace LocalArtifactStore

variable (store : LocalArtifactStore)

/-! ### Folders -/

theorem safe_underscore : SafeSegment "_" :=
  ⟨fun c h_c => by rw [List.mem_singleton.mp h_c]; decide, by decide⟩

/-- A folder below one inside the root is inside the root, whatever the segment was. -/
theorem below_spec {path : Path} (segment : String) (h_root : store.root <+: path)
    (h : ∀ c ∈ path, Component c) :
    store.root <+: below path segment ∧ ∀ c ∈ below path segment, Component c := by
  have h_safe := safe_sanitizeSegment (some segment) safe_underscore
  unfold below Path.join
  split_ifs with h_c
  · exact ⟨h_root, h⟩
  · rw [not_or] at h_c
    exact ⟨h_root.trans (List.prefix_append _ _), List.forall_mem_append.mpr
      ⟨h, List.forall_mem_singleton.mpr ⟨h_c.1, h_c.2, h_safe.not_parent⟩⟩⟩

/-- The folder of a scope lies inside the root. -/
theorem folder_spec (ctx : RunContext) :
    store.root <+: store.folder ctx ∧ ∀ c ∈ store.folder ctx, Component c := by
  -- each segment is sanitized before it is joined, so the fold stays below the root
  have h_fold : ∀ (segments : List String) (p : Path), store.root <+: p → (∀ c ∈ p, Component c) →
      store.root <+: segments.foldl below p ∧ ∀ c ∈ segments.foldl below p, Component c := by
    intro segments
    induction segments with
    | nil => exact fun p h_root h_p => ⟨h_root, h_p⟩
    | cons segment segments ih =>
      intro p h_root h_p
      have h_step := store.below_spec segment h_root h_p
      exact ih _ h_step.1 h_step.2
  exact h_fold _ store.root List.prefix_rfl store.root_resolved

/-- A path of names below the root is inside it. -/
theorem ensureInside_eq {path : Path} (h_root : store.root <+: path)
    (h : ∀ c ∈ path, Component c) : store.ensureInside path = some path := by
  unfold ensureInside
  rw [Path.resolve_eq_self h, if_pos h_root]

/-- The directory of a context is made before it is used. -/
theorem dir_eq (tree : FileTree) (ctx : RunContext) :
    store.dir tree ctx = (tree.mkdir (store.folder ctx)).map fun tree => (store.folder ctx, tree) := by
  have h := store.folder_spec ctx
  unfold dir
  rw [store.ensureInside_eq h.1 h.2]
  simp only [Option.bind_eq_bind, Option.bind_some]
  cases tree.mkdir (store.folder ctx) <;> rfl

/-- The uuid and its underscore keep a file name from being empty, a dot or two. -/
theorem component_fileName (aid : Uuid) (filename : String) : Component (fileName aid filename) := by
  have h_mem : '_' ∈ (fileName aid filename).toList := by
    unfold fileName
    rw [String.toList_append, String.toList_append]
    exact List.mem_append_left _ (List.mem_append_right _ (by decide))
  refine ⟨?_, ?_, ?_⟩ <;>
  · intro h_eq
    rw [h_eq] at h_mem
    exact absurd h_mem (by decide)

/-- **A put**, in the folder of its scope. -/
theorem put_eq (tree : FileTree) (ctx : RunContext) (data : Bytes) (filename contentType : String)
    (aid : Uuid) :
    store.put tree ctx data filename contentType aid =
      match tree.mkdir (store.folder ctx) with
      | none => (none, tree)
      | some tree =>
        if store.folder ctx ++ [fileName aid filename] ∈ tree.folders then (none, tree)
        else
          (some {
            id := aid.text
            filename := filename
            contentType := contentType
            sizeBytes := data.length },
          { tree with
            files := Dict.set tree.files (store.folder ctx ++ [fileName aid filename]) data }) := by
  -- the path is a resolved one inside the root, so the guard lets it through unchanged
  have h := store.folder_spec ctx
  have h_name := component_fileName aid filename
  have h_path := store.ensureInside_eq (h.1.trans (List.prefix_append _ [fileName aid filename]))
    (List.forall_mem_append.mpr ⟨h.2, List.forall_mem_singleton.mpr h_name⟩)
  unfold put
  rw [dir_eq]
  cases tree.mkdir (store.folder ctx) with
  | none => rfl
  | some tree =>
    simp only [Option.map_some, Path.join_of_component h_name, h_path]

end LocalArtifactStore

/-! ### Names -/

/-- A folder is listed with the names of its files and of its folders. -/
theorem FileTree.mem_names {tree : FileTree} {folder : Path} {name : String} :
    name ∈ tree.names folder ↔
      folder ++ [name] ∈ tree.files.map Prod.fst ∨ folder ++ [name] ∈ tree.folders := by
  unfold FileTree.names
  rw [List.mem_dedup, List.mem_filterMap, ← List.mem_append]
  constructor
  · -- a listed name is the last component of a path whose parent is the folder
    rintro ⟨p, h_p, h_name⟩
    split at h_name
    · next last parent h_rev =>
      split_ifs at h_name with h_parent
      obtain rfl := Option.some.inj h_name
      rw [← h_parent, ← List.reverse_cons, ← h_rev, List.reverse_reverse]
      exact h_p
    · cases h_name
  · -- and such a path gives its last component back
    intro h_mem
    refine ⟨folder ++ [name], h_mem, ?_⟩
    rw [List.reverse_append]
    simp

/-- A file of the tree. -/
theorem mem_keys_iff {files : Dict Path Bytes} {path : Path} :
    path ∈ files.map Prod.fst ↔ ∃ data, Dict.get? files path = some data := by
  constructor
  · intro h
    obtain ⟨⟨p, data⟩, h_mem, rfl⟩ := List.mem_map.mp h
    exact Dict.exists_get?_of_mem h_mem
  · rintro ⟨data, h⟩
    exact List.mem_map.mpr ⟨_, Dict.mem_of_get? h, rfl⟩

/-- The name is one that the pattern of an id stands for. -/
def Matches (artifactId name : String) : Prop :=
  let safeId := sanitizeSegment (some artifactId) ""
  safeId ≠ "" ∧ ¬ PyStr.Within "**" (safeId ++ "_*") ∧
    Glob.fnmatch (safeId ++ "_*").toList name.toList = true

theorem Uuid.ne_of_mem (aid : Uuid) {c d : Char} (h : c ∈ aid.text.toList)
    (h_d : d ∉ "0123456789abcdef-".toList) : c ≠ d := by
  rintro rfl
  exact h_d (aid.digits c h)

/-- An id that was made up is a component as it stands. -/
theorem Uuid.plain (aid : Uuid) : Nexus.Plain aid.text := by
  have h_digits : ∀ c ∈ "0123456789abcdef-".toList,
      PyStr.isSpace c = false ∧ unsafeChar c = false ∧ c ≠ '.' := by decide
  -- 36 characters are neither none nor a dot nor the default name
  have h_length : ∀ s : String, s.toList.length ≠ 36 → aid.text ≠ s := by
    rintro s h_s rfl
    exact h_s aid.length_text
  refine ⟨?_, ?_, h_length "" (by decide), h_length "." (by decide)⟩
  · have h_spaces := PyStr.stripped_of_forall fun c h_c => (h_digits c (aid.digits c h_c)).1
    rw [PyStr.strip_eq_stripBy, PyStr.stripBy_eq_self h_spaces, String.ofList_toList]
  · -- no digit and no hyphen is a character that the sanitizer replaces
    have h_clean : ∀ cs : List Char, (∀ c ∈ cs, unsafeChar c = false ∧ c ≠ '.') →
        replaceUnsafe cs = cs := by
      intro cs
      induction cs with
      | nil => exact fun _ => rfl
      | cons c cs ih =>
        intro h
        rw [List.forall_mem_cons] at h
        have h_pair : ∀ cs', c = '.' → cs = '.' :: cs' → False := fun _ h_dot _ => h.1.2 h_dot
        rw [replaceUnsafe.eq_3 c cs h_pair, if_neg (Bool.eq_false_iff.mp h.1.1), ih h.2]
    exact h_clean _ fun c h_c => (h_digits c (aid.digits c h_c)).2

/-- **An id that was made up** stands for the names that begin with it and an underscore. -/
theorem matches_uuid (aid : Uuid) {name : String} :
    Matches aid.text name ↔ (aid.text ++ "_").toList <+: name.toList := by
  -- an id of digits and dashes has no wildcard of its own
  have h_star : '*' ∉ (aid.text ++ "_").toList := by
    rw [String.toList_append, List.mem_append]
    rintro (h_mem | h_mem)
    · exact aid.ne_of_mem h_mem (by decide) rfl
    · exact absurd h_mem (by decide)
  have h_pattern : (aid.text ++ "_*").toList = (aid.text ++ "_").toList ++ ['*'] := by
    simp
  -- the one star of the pattern cannot be two
  have h_within : ¬ PyStr.Within "**" (aid.text ++ "_*") := by
    unfold PyStr.Within
    rw [h_pattern]
    intro h_in
    have h_count := h_in.sublist.count_le '*'
    rw [List.count_append, List.count_eq_zero_of_not_mem h_star] at h_count
    exact absurd h_count (by decide)
  unfold Matches
  simp only [aid.plain.sanitize]
  rw [and_iff_right aid.plain.nonempty, and_iff_right h_within, h_pattern, Glob.fnmatch_star_iff]
  intro c h_c
  rw [String.toList_append, List.mem_append] at h_c
  rcases h_c with h_c | h_c
  · exact ⟨aid.ne_of_mem h_c (by decide), aid.ne_of_mem h_c (by decide),
      aid.ne_of_mem h_c (by decide)⟩
  · rw [List.mem_singleton.mp h_c]
    decide

/-- A file name begins with one id. -/
theorem eq_of_begins {aid aid' : Uuid} {filename : String}
    (h : (aid.text ++ "_").toList <+: (LocalArtifactStore.fileName aid' filename).toList) :
    aid.text = aid'.text := by
  -- both file names begin with a uuid of the same length and its underscore
  have h_begins : (aid'.text ++ "_").toList <+:
      (LocalArtifactStore.fileName aid' filename).toList :=
    ⟨(sanitizeSegment (some filename) "artifact").toList, String.toList_append.symm⟩
  have h_length : ∀ aid : Uuid, (aid.text ++ "_").toList.length = 37 := fun aid => by
    rw [String.toList_append, List.length_append, aid.length_text]
    rfl
  have h_both := List.prefix_of_prefix_length_le h h_begins (by rw [h_length, h_length])
  have h_eq := h_both.eq_of_length (by rw [h_length, h_length])
  rw [String.toList_append, String.toList_append] at h_eq
  exact String.toList_inj.mp (List.append_cancel_right h_eq)

/-! ### Histories -/

variable {store : LocalArtifactStore} {history : History}

/-- The name of an artifact's file. -/
def Artifact.name (a : Artifact) : String := LocalArtifactStore.fileName a.aid a.filename

/-- The file of an artifact. -/
def Artifact.file (store : LocalArtifactStore) (a : Artifact) : Path :=
  store.folder a.ctx ++ [a.name]

theorem Artifact.name_begins (a : Artifact) : (a.aid.text ++ "_").toList <+: a.name.toList :=
  ⟨(sanitizeSegment (some a.filename) "artifact").toList, String.toList_append.symm⟩

/-- Files of one name are those of one id. -/
theorem Artifact.aid_eq {a b : Artifact} (h : a.name = b.name) : a.aid.text = b.aid.text := by
  have h_begins := a.name_begins
  rw [h] at h_begins
  exact eq_of_begins h_begins

/-- What the files are after some calls: those of the artifacts, each in a folder that was made. -/
structure Sound (store : LocalArtifactStore) (history : History) : Prop where
  files : ∀ path data, Dict.get? history.tree.files path = some data ↔
    ∃ a ∈ history.artifacts, a.file store = path ∧ a.data = data
  folders : ∀ a ∈ history.artifacts, ∀ p, p <+: store.folder a.ctx → p ∈ history.tree.folders
  apart : ∀ p ∈ history.tree.folders, Dict.get? history.tree.files p = none

theorem Sound.nil : Sound store {} where
  files path data := by simp
  folders a h_a := by cases h_a
  apart p h_p := by cases h_p

/-- A `mkdir` that works finds no file on the way, and adds only folders. -/
theorem mkdir_some {tree tree' : FileTree} {path : Path} (h : tree.mkdir path = some tree') :
    (∀ p, p <+: path → Dict.get? tree.files p = none) ∧
      tree' = { tree with folders := tree.folders ++ path.inits } := by
  unfold FileTree.mkdir at h
  split_ifs at h with h_file
  refine ⟨fun p h_p => ?_, (Option.some.inj h).symm⟩
  cases h_get : Dict.get? tree.files p with
  | none => rfl
  | some data => exact absurd ⟨p, mem_keys_iff.mpr ⟨data, h_get⟩, h_p⟩ h_file

/-- Making a directory fails only where a file is in the way. -/
theorem mkdir_none {tree : FileTree} {path : Path} (h : tree.mkdir path = none) :
    ∃ p data, p <+: path ∧ Dict.get? tree.files p = some data := by
  unfold FileTree.mkdir at h
  split_ifs at h with h_file
  obtain ⟨p, h_p, h_prefix⟩ := h_file
  obtain ⟨data, h_get⟩ := mem_keys_iff.mp h_p
  exact ⟨p, data, h_prefix, h_get⟩

/-- Folders that are made leave the files alone. -/
theorem Sound.mkdir (h : Sound store history) {path : Path} {tree : FileTree}
    (h_mkdir : history.tree.mkdir path = some tree) : Sound store { history with tree := tree } := by
  obtain ⟨h_free, rfl⟩ := mkdir_some h_mkdir
  refine ⟨h.files, fun a h_a p h_p => List.mem_append_left _ (h.folders a h_a p h_p), ?_⟩
  intro p h_p
  rcases List.mem_append.mp h_p with h_old | h_new
  · exact h.apart p h_old
  · exact h_free p (List.mem_inits p path |>.mp h_new)

/-- **A put** adds a file. -/
theorem Sound.put (h : Sound store history) {ctx : RunContext} {data : Bytes}
    {filename contentType : String} {aid : Uuid}
    (h_fresh : ∀ a ∈ history.artifacts, a.aid.text ≠ aid.text) :
    Sound store ((Call.put ctx data filename contentType aid).run store history) := by
  simp only [Call.run, LocalArtifactStore.put_eq]
  cases h_mkdir : history.tree.mkdir (store.folder ctx) with
  | none => simpa using h
  | some tree =>
    have h_made := h.mkdir h_mkdir
    obtain ⟨-, h_tree⟩ := mkdir_some h_mkdir
    by_cases h_folder : store.folder ctx ++ [LocalArtifactStore.fileName aid filename] ∈ tree.folders
    · simpa [h_folder] using h_made
    · simp only [h_folder, if_false, Option.map_some, Option.toList_some]
      refine ⟨fun path data' => ?_, ?_, ?_⟩
      · rw [Dict.get?_set]
        split_ifs with h_path
        · -- no other artifact has a file of this name
          constructor
          · intro h_data
            exact ⟨⟨ctx, data, filename, aid⟩, by simp, h_path, Option.some.inj h_data⟩
          · rintro ⟨a, h_a, h_file, h_data⟩
            rcases List.mem_append.mp h_a with h_old | h_new
            · have h_name := (List.append_inj' (h_file.trans h_path.symm) rfl).2
              exact absurd (@Artifact.aid_eq _ ⟨ctx, data, filename, aid⟩
                (List.cons.inj h_name).1) (h_fresh a h_old)
            · obtain rfl := List.mem_singleton.mp h_new
              rw [← h_data]
        · have h_files := h_made.files path data'
          rw [h_files]
          constructor
          · rintro ⟨a, h_a, h_rest⟩
            exact ⟨a, List.mem_append_left _ h_a, h_rest⟩
          · rintro ⟨a, h_a, h_file, h_data⟩
            rcases List.mem_append.mp h_a with h_old | h_new
            · exact ⟨a, h_old, h_file, h_data⟩
            · obtain rfl := List.mem_singleton.mp h_new
              exact absurd h_file h_path
      · intro a h_a p h_p
        rcases List.mem_append.mp h_a with h_old | h_new
        · exact h_made.folders a h_old p h_p
        · obtain rfl := List.mem_singleton.mp h_new
          rw [h_tree]
          exact List.mem_append_right _ ((List.mem_inits p _).mpr h_p)
      · intro p h_p
        rw [Dict.get?_set_ne]
        · exact h_made.apart p h_p
        · rintro rfl
          exact h_folder h_p

/-- A get makes the folder of its scope at most. -/
theorem get_tree (order : List String → List String) (tree : FileTree) (ctx : RunContext)
    (artifactId : String) :
    (store.get order tree ctx artifactId).2 = tree ∨
      tree.mkdir (store.folder ctx) = some (store.get order tree ctx artifactId).2 := by
  unfold LocalArtifactStore.get
  simp only [LocalArtifactStore.dir_eq]
  split_ifs
  · exact .inl rfl
  · -- the lookup makes the folder first, and reads nothing if that fails
    cases h_mkdir : tree.mkdir (store.folder ctx) with
    | none => exact .inl rfl
    | some made =>
      refine .inr ?_
      simp only [Option.map_some]
      split <;> rfl

/-- Getting an artifact keeps the store in step with its history. -/
theorem Sound.get (h : Sound store history) (ctx : RunContext) (artifactId : String) :
    Sound store ((Call.get ctx artifactId).run store history) := by
  rcases @get_tree store id history.tree ctx artifactId with h_same | h_made
  · simp only [Call.run, h_same]
    exact h
  · exact h.mkdir h_made

theorem aids_append (calls calls' : List Call) : aids (calls ++ calls') = aids calls ++ aids calls' :=
  List.filterMap_append

/-- **The history of some calls**: every artifact has an id made up for one of them, and the files
are sound. -/
theorem sound_runAll {calls : List Call} (h : (aids calls).Nodup) :
    ((runAll store calls).artifacts.map fun a => a.aid.text).Sublist (aids calls) ∧
      Sound store (runAll store calls) := by
  induction calls using List.reverseRecOn with
  | nil => exact ⟨List.Sublist.slnil, Sound.nil⟩
  | append_singleton calls call ih =>
    rw [aids_append, List.nodup_append] at h
    obtain ⟨h_sub, h_sound⟩ := ih h.1
    have h_run : runAll store (calls ++ [call]) = call.run store (runAll store calls) := by
      unfold runAll
      rw [List.foldl_append]
      rfl
    rw [h_run, aids_append]
    cases call with
    | get ctx artifactId => exact ⟨h_sub.trans (List.sublist_append_left _ _), h_sound.get ctx artifactId⟩
    | put ctx data filename contentType aid =>
      refine ⟨?_, h_sound.put fun a h_a h_eq => ?_⟩
      · simp only [Call.run, List.map_append]
        refine h_sub.append ?_
        generalize (store.put _ ctx data filename contentType aid).1 = returned
        cases returned with
        | none => exact List.nil_sublist _
        | some _ => exact List.Sublist.refl _
      · -- the id of an artifact that is there was drawn before, so not by this put
        have h_old : a.aid.text ∈ aids calls := h_sub.subset (List.mem_map.mpr ⟨a, h_a, rfl⟩)
        exact h.2.2 _ h_old _ (List.mem_singleton.mpr rfl) h_eq

/-! ### The lookup -/

instance (artifactId name : String) : Decidable (Matches artifactId name) :=
  inferInstanceAs (Decidable (_ ∧ _ ∧ _))

/-- **What a get returns**: the file that is listed first of those the pattern stands for. -/
theorem get_data_iff {order : List String → List String} {tree : FileTree} {ctx : RunContext}
    {artifactId : String} {data : Bytes} :
    (store.get order tree ctx artifactId).1 = some (some data) ↔
      ∃ made name rest, tree.mkdir (store.folder ctx) = some made ∧
        (order (made.names (store.folder ctx))).filter (fun name => Matches artifactId name) =
          name :: rest ∧
        Dict.get? made.files (store.folder ctx ++ [name]) = some data := by
  have h_none : ∀ names : List String, (∀ name, ¬ Matches artifactId name) →
      names.filter (fun name => Matches artifactId name) = [] := fun names h_no =>
    List.filter_eq_nil_iff.mpr fun name _ => by simpa using h_no name
  unfold LocalArtifactStore.get
  simp only [LocalArtifactStore.dir_eq]
  by_cases h_empty : sanitizeSegment (some artifactId) "" = ""
  · rw [if_pos h_empty]
    refine iff_of_false (by simp) ?_
    rintro ⟨made, name, rest, -, h_names, -⟩
    rw [h_none _ fun name h => h.1 h_empty] at h_names
    cases h_names
  · rw [if_neg h_empty]
    cases h_mkdir : tree.mkdir (store.folder ctx) with
    | none => simp
    | some made =>
      simp only [Option.map_some, Option.some.injEq, exists_and_left, exists_eq_left']
      unfold globNames
      split_ifs with h_stars
      · -- two stars in a row stand for nothing
        refine iff_of_false (by simp) ?_
        rintro ⟨name, rest, h_names, -⟩
        rw [h_none _ fun name h => h.2.1 h_stars] at h_names
        cases h_names
      · have h_same : ∀ names : List String, names.filter (fun name => Matches artifactId name) =
            names.filter fun name => Glob.fnmatch
              (sanitizeSegment (some artifactId) "" ++ "_*").toList name.toList := by
          intro names
          refine List.filter_congr fun name _ => ?_
          simp [Matches, h_empty, h_stars]
        rw [h_same]
        generalize List.filter _ _ = hits
        cases hits with
        | nil => simp
        | cons name rest => simp

/-- A listing that begins with a name, if it is there. -/
def bring (name : String) (names : List String) : List String :=
  if name ∈ names then name :: names.erase name else names

/-- Bringing a name to the front keeps the names. -/
theorem bring_perm (name : String) (names : List String) : (bring name names).Perm names := by
  unfold bring
  split_ifs with h
  · exact (List.perm_cons_erase h).symm
  · exact List.Perm.refl _

/-- The first of the names a pattern stands for, if the listing begins with it. -/
theorem filter_bring {name : String} {names : List String} {p : String → Bool} (h : name ∈ names)
    (h_p : p name = true) : ∃ rest, (bring name names).filter p = name :: rest := by
  unfold bring
  rw [if_pos h, List.filter_cons_of_pos h_p]
  exact ⟨_, rfl⟩

/-- An id finds its own artifact, and no other: in whatever order folders are listed, a get returns
some bytes exactly if they were put under the same scope with that id. -/
def Exact (store : LocalArtifactStore) (history : History) (ctx : RunContext) (artifactId : String) :
    Prop :=
  ∀ order : List String → List String, (∀ names, (order names).Perm names) → ∀ data,
    (store.get order history.tree ctx artifactId).1 = some (some data) ↔
      ∃ a ∈ history.artifacts, Agree .user a.ctx ctx ∧ a.aid.text = artifactId ∧ a.data = data

/-- Nothing else in the scope's folder is taken for the artifact of an id. -/
structure Unmistaken (store : LocalArtifactStore) (history : History) (ctx : RunContext)
    (artifactId : String) : Prop where
  /-- An artifact whose name the pattern stands for was put under the same scope with the id. -/
  artifacts : ∀ a ∈ history.artifacts, store.folder a.ctx = store.folder ctx →
    Matches artifactId a.name → Agree .user a.ctx ctx ∧ a.aid.text = artifactId
  /-- Beside an artifact with the id there is no folder with such a name. -/
  folders : (∃ a ∈ history.artifacts, Agree .user a.ctx ctx ∧ a.aid.text = artifactId) →
    ∀ name, store.folder ctx ++ [name] ∈ history.tree.folders → ¬ Matches artifactId name

/-- Contexts of one user share their folder. -/
theorem folder_of_agree {ctx ctx' : RunContext} (h : Agree .user ctx ctx') :
    store.folder ctx = store.folder ctx' := by
  have h_key : scopeKey ctx .user "artifacts" = scopeKey ctx' .user "artifacts" := by
    unfold scopeKey
    rw [h.base]
  unfold LocalArtifactStore.folder
  rw [h_key]

/-- The folder of an artifact is there. -/
theorem Sound.mkdir_of_mem (h : Sound store history) {a : Artifact} (h_a : a ∈ history.artifacts)
    {path : Path} (h_path : store.folder a.ctx = path) :
    ∃ made, history.tree.mkdir path = some made := by
  cases h_mkdir : history.tree.mkdir path with
  | some made => exact ⟨made, rfl⟩
  | none =>
    obtain ⟨p, data, h_prefix, h_file⟩ := mkdir_none h_mkdir
    have h_free := h.apart p (h.folders a h_a p (h_path ▸ h_prefix))
    rw [h_free] at h_file
    cases h_file

/-- What is in a folder that was made again: its files, and the folders in it. -/
theorem mem_names_mkdir {tree made : FileTree} {path : Path} (h : tree.mkdir path = some made)
    {name : String} :
    name ∈ made.names path ↔
      (∃ data, Dict.get? tree.files (path ++ [name]) = some data) ∨ path ++ [name] ∈ tree.folders := by
  obtain ⟨-, rfl⟩ := mkdir_some h
  rw [FileTree.mem_names, mem_keys_iff, List.mem_append, List.mem_inits]
  have h_longer : ¬ path ++ [name] <+: path := fun h_prefix => by
    have h_length := h_prefix.length_le
    rw [List.length_append, List.length_singleton] at h_length
    omega
  simp only [h_longer, or_false]

section Lookup

variable {ctx : RunContext} {artifactId : String}

/-- The file of an artifact in the scope's folder. -/
theorem Sound.file_of_mem (h : Sound store history) {a : Artifact} (h_a : a ∈ history.artifacts)
    (h_folder : store.folder a.ctx = store.folder ctx) :
    Dict.get? history.tree.files (store.folder ctx ++ [a.name]) = some a.data := by
  refine (h.files _ _).mpr ⟨a, h_a, ?_, rfl⟩
  unfold Artifact.file
  rw [h_folder]

/-- An artifact whose name the pattern stands for is returned if it is listed first. -/
theorem Sound.get_bring (h : Sound store history) {a : Artifact} (h_a : a ∈ history.artifacts)
    (h_folder : store.folder a.ctx = store.folder ctx) (h_matches : Matches artifactId a.name) :
    (store.get (bring a.name) history.tree ctx artifactId).1 = some (some a.data) := by
  obtain ⟨made, h_mkdir⟩ := h.mkdir_of_mem h_a h_folder
  have h_file := h.file_of_mem h_a h_folder
  obtain ⟨rest, h_first⟩ := @filter_bring a.name _ (fun name => Matches artifactId name)
    ((mem_names_mkdir h_mkdir).mpr (.inl ⟨_, h_file⟩)) (decide_eq_true h_matches)
  refine get_data_iff.mpr ⟨made, a.name, rest, h_mkdir, h_first, ?_⟩
  obtain ⟨-, rfl⟩ := mkdir_some h_mkdir
  exact h_file

/-- A folder whose name the pattern stands for hides everything if it is listed first. -/
theorem Sound.get_bring_folder (h : Sound store history) {name : String}
    (h_name : store.folder ctx ++ [name] ∈ history.tree.folders)
    (h_matches : Matches artifactId name) (data : Bytes) :
    (store.get (bring name) history.tree ctx artifactId).1 ≠ some (some data) := by
  intro h_get
  obtain ⟨made, first, rest, h_mkdir, h_first, h_file⟩ := get_data_iff.mp h_get
  -- the folder comes first in the listing, and is read as a file
  obtain ⟨rest', h_brought⟩ := @filter_bring name _ (fun name => Matches artifactId name)
    ((mem_names_mkdir h_mkdir).mpr (.inr h_name)) (decide_eq_true h_matches)
  obtain ⟨rfl, -⟩ := List.cons.inj (h_first.symm.trans h_brought)
  obtain ⟨-, rfl⟩ := mkdir_some h_mkdir
  -- but no file has the path of a folder
  have h_free : Dict.get? history.tree.files (store.folder ctx ++ [first]) = none :=
    h.apart _ h_name
  have h_some : Dict.get? history.tree.files (store.folder ctx ++ [first]) = some data := h_file
  rw [h_free] at h_some
  cases h_some

/-- **An id finds its own artifact, and no other**, exactly if nothing else in the scope's folder is
taken for it. -/
theorem Sound.exact_iff (h : Sound store history)
    (h_aids : (history.artifacts.map fun a => a.aid.text).Nodup) :
    Exact store history ctx artifactId ↔ Unmistaken store history ctx artifactId := by
  have h_unique : ∀ a ∈ history.artifacts, ∀ b ∈ history.artifacts, a.aid.text = b.aid.text → a = b :=
    fun a h_a b h_b h_eq => List.inj_on_of_nodup_map h_aids h_a h_b h_eq
  constructor
  · intro h_exact
    constructor
    · intro a h_a h_folder h_matches
      have h_got := h.get_bring h_a h_folder h_matches
      obtain ⟨q, h_q, h_agree, h_id, -⟩ := (h_exact _ (bring_perm a.name) a.data).mp h_got
      -- the id was made up, so it stands for names of its own only
      rw [← h_id, matches_uuid] at h_matches
      obtain rfl := h_unique q h_q a h_a (eq_of_begins h_matches)
      exact ⟨h_agree, h_id⟩
    · rintro ⟨a, h_a, h_agree, h_id⟩ name h_name h_matches
      have h_got := (h_exact _ (bring_perm name) a.data).mpr ⟨a, h_a, h_agree, h_id, rfl⟩
      exact h.get_bring_folder h_name h_matches a.data h_got
  · intro h_clear order h_order data
    have h_listed : ∀ {made : FileTree} {name : String} {rest : List String},
        (order (made.names (store.folder ctx))).filter (fun name => Matches artifactId name) =
          name :: rest →
        name ∈ made.names (store.folder ctx) ∧ Matches artifactId name := by
      intro made name rest h_first
      have h_mem : name ∈ (order (made.names (store.folder ctx))).filter
          (fun name => Matches artifactId name) := by
        rw [h_first]
        exact List.mem_cons_self
      obtain ⟨h_in, h_matches⟩ := List.mem_filter.mp h_mem
      exact ⟨(h_order _).mem_iff.mp h_in, of_decide_eq_true h_matches⟩
    have h_own : ∀ {name : String} {data : Bytes},
        Dict.get? history.tree.files (store.folder ctx ++ [name]) = some data →
        Matches artifactId name → ∃ a ∈ history.artifacts,
          Agree .user a.ctx ctx ∧ a.aid.text = artifactId ∧ a.data = data := by
      intro name data h_file h_matches
      obtain ⟨a, h_a, h_path, h_data⟩ := (h.files _ _).mp h_file
      obtain ⟨h_folder, h_last⟩ := List.append_inj' h_path rfl
      obtain ⟨h_name, -⟩ := List.cons.inj h_last
      obtain ⟨h_agree, h_id⟩ := h_clear.artifacts a h_a h_folder (h_name ▸ h_matches)
      exact ⟨a, h_a, h_agree, h_id, h_data⟩
    rw [get_data_iff]
    constructor
    · rintro ⟨made, name, rest, h_mkdir, h_first, h_file⟩
      obtain ⟨-, h_matches⟩ := h_listed h_first
      obtain ⟨-, rfl⟩ := mkdir_some h_mkdir
      exact h_own h_file h_matches
    · rintro ⟨a, h_a, h_agree, h_id, h_data⟩
      have h_folder := @folder_of_agree store _ _ h_agree
      obtain ⟨made, h_mkdir⟩ := h.mkdir_of_mem h_a h_folder
      have h_file := h.file_of_mem h_a h_folder
      have h_matches : Matches artifactId a.name := by
        rw [← h_id, matches_uuid]
        exact a.name_begins
      -- the listing has the artifact, so it has a first name that the pattern stands for
      have h_in : a.name ∈ (order (made.names (store.folder ctx))).filter
          (fun name => Matches artifactId name) := by
        refine List.mem_filter.mpr ⟨(h_order _).mem_iff.mpr ?_, decide_eq_true h_matches⟩
        exact (mem_names_mkdir h_mkdir).mpr (.inl ⟨_, h_file⟩)
      obtain ⟨name, rest, h_first⟩ := List.exists_cons_of_ne_nil (List.ne_nil_of_mem h_in)
      obtain ⟨h_name, h_name_matches⟩ := h_listed h_first
      refine ⟨made, name, rest, h_mkdir, h_first, ?_⟩
      rcases (mem_names_mkdir h_mkdir).mp h_name with ⟨data', h_file'⟩ | h_sub
      · obtain ⟨b, h_b, -, h_id', h_data'⟩ := h_own h_file' h_name_matches
        obtain rfl := h_unique a h_a b h_b (h_id.trans h_id'.symm)
        obtain ⟨-, rfl⟩ := mkdir_some h_mkdir
        rw [← h_data, h_data']
        exact h_file'
      · exact absurd h_name_matches (h_clear.folders ⟨a, h_a, h_agree, h_id⟩ name h_sub)

end Lookup

/-- **In every history of calls** with ids of their own, an id finds its own artifact, and no other,
exactly if nothing else in the scope's folder is taken for it. -/
theorem artifacts_exact_iff (store : LocalArtifactStore) (calls : List Call) (h : (aids calls).Nodup)
    (ctx : RunContext) (artifactId : String) :
    Exact store (runAll store calls) ctx artifactId ↔
      Unmistaken store (runAll store calls) ctx artifactId := by
  obtain ⟨h_sub, h_sound⟩ := @sound_runAll store calls h
  exact h_sound.exact_iff (h_sub.nodup h)

theorem artifactsRoot_resolved : ∀ c ∈ ["artifacts"], Component c := by decide

/-- A store in a folder at the root. -/
def artifactsRoot : LocalArtifactStore where
  root := ["artifacts"]
  root_resolved := artifactsRoot_resolved

theorem zeroUuid_length : "00000000-0000-4000-8000-000000000000".toList.length = 36 := by decide

theorem zeroUuid_digits :
    ∀ c ∈ "00000000-0000-4000-8000-000000000000".toList, c ∈ "0123456789abcdef-".toList := by decide

/-- An id that may be made up. -/
def zeroUuid : Uuid where
  text := "00000000-0000-4000-8000-000000000000"
  length_text := zeroUuid_length
  digits := zeroUuid_digits

theorem oneUuid_length : "10000000-0000-4000-8000-000000000000".toList.length = 36 := by decide

theorem oneUuid_digits :
    ∀ c ∈ "10000000-0000-4000-8000-000000000000".toList, c ∈ "0123456789abcdef-".toList := by decide

def oneUuid : Uuid where
  text := "10000000-0000-4000-8000-000000000000"
  length_text := oneUuid_length
  digits := oneUuid_digits

theorem twoUuid_length : "20000000-0000-4000-8000-000000000000".toList.length = 36 := by decide

theorem twoUuid_digits :
    ∀ c ∈ "20000000-0000-4000-8000-000000000000".toList, c ∈ "0123456789abcdef-".toList := by decide

def twoUuid : Uuid where
  text := "20000000-0000-4000-8000-000000000000"
  length_text := twoUuid_length
  digits := twoUuid_digits

def acmeContext : RunContext := { tenantId := some "acme" }

/-- Two artifacts of one tenant, and one of another. -/
def threePuts : List Call :=
  [.put acmeContext [1] "a.txt" "text/plain" zeroUuid,
    .put acmeContext [2] "b.txt" "text/plain" oneUuid,
    .put { tenantId := some "other" } [3] "c.txt" "text/plain" twoUuid]

theorem aids_threePuts : (aids threePuts).Nodup := by decide

/-- Who has put what into the tenant's folder. -/
theorem agree_threePuts : ∀ a ∈ (runAll artifactsRoot threePuts).artifacts,
    artifactsRoot.folder a.ctx = artifactsRoot.folder acmeContext → Agree .user a.ctx acmeContext := by
  decide +kernel

/-- No folder lies in the tenant's. -/
theorem folders_threePuts : ∀ p ∈ (runAll artifactsRoot threePuts).tree.folders,
    p.length ≤ (artifactsRoot.folder acmeContext).length := by
  decide +kernel

/-- No listing order of these puts confuses the first one's artifact. -/
theorem unmistaken_threePuts :
    Unmistaken artifactsRoot (runAll artifactsRoot threePuts) acmeContext zeroUuid.text where
  artifacts a h_a h_folder h_matches :=
    ⟨agree_threePuts a h_a h_folder, (eq_of_begins ((matches_uuid zeroUuid).mp h_matches)).symm⟩
  folders _ name h_name := by
    have h_length := folders_threePuts _ h_name
    rw [List.length_append, List.length_singleton] at h_length
    omega

/-- Among three artifacts the id finds its own. -/
theorem artifacts_exact_threePuts :
    Exact artifactsRoot (runAll artifactsRoot threePuts) acmeContext zeroUuid.text :=
  (artifacts_exact_iff artifactsRoot threePuts aids_threePuts acmeContext zeroUuid.text).mpr
    unmistaken_threePuts

/-- The first put into an empty store returns. -/
theorem artifacts_put (store : LocalArtifactStore) (ctx : RunContext) (data : Bytes)
    (filename contentType : String) (aid : Uuid) :
    (runAll store [.put ctx data filename contentType aid]).artifacts =
      [⟨ctx, data, filename, aid⟩] := by
  -- nothing is stored yet, so no file is in the way
  have h_mkdir : FileTree.mkdir {} (store.folder ctx) =
      some { folders := (store.folder ctx).inits } := by
    unfold FileTree.mkdir
    rw [if_neg]
    · rfl
    · rintro ⟨p, h_p, -⟩
      cases h_p
  -- a path below the folder is none of the folders that lead to it
  have h_folder : store.folder ctx ++ [LocalArtifactStore.fileName aid filename] ∉
      (store.folder ctx).inits := by
    rw [List.mem_inits]
    intro h_prefix
    have h_length := h_prefix.length_le
    rw [List.length_append, List.length_singleton] at h_length
    omega
  simp only [runAll, List.foldl_cons, List.foldl_nil, Call.run, LocalArtifactStore.put_eq, h_mkdir]
  rw [if_neg h_folder]
  rfl

/-- A star finds an artifact whose id it is not. -/
theorem artifacts_star :
    ¬ Exact artifactsRoot
      (runAll artifactsRoot [.put { tenantId := some "acme" } [] "a.txt" "text/plain" zeroUuid])
      { tenantId := some "acme" } "*" := by
  -- one put, so its uuid is its own
  have h_aids : (aids [.put { tenantId := some "acme" } [] "a.txt" "text/plain" zeroUuid]).Nodup :=
    List.nodup_singleton _
  obtain ⟨h_sub, h_sound⟩ := @sound_runAll artifactsRoot _ h_aids
  rw [h_sound.exact_iff (h_sub.nodup h_aids)]
  intro h
  -- the id is a pattern that every file name matches, and no uuid
  have h_mem := artifacts_put artifactsRoot { tenantId := some "acme" } [] "a.txt" "text/plain" zeroUuid
  have h_found := h.artifacts ⟨{ tenantId := some "acme" }, [], "a.txt", zeroUuid⟩
    (h_mem ▸ List.mem_singleton.mpr rfl) rfl (by decide +kernel)
  exact absurd h_found.2 (by decide)

end Nexus.Artifacts
