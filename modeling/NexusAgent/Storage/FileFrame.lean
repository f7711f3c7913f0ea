import NexusAgent.Storage.Containment

/-!
# Two sessions of the file adapter

What the operations on one session do to another. A session that names its tenant and its user has
a directory of its own; one that does not is wherever the index says, which knows its id only. And
the directory of one session may be that of another, or may contain it: the sanitizer makes one
segment of many ids, and a segment that is empty or a dot is no component.

* `FileReached.placed`: where the files are in every store that operations lead to.
* `Framed`: operations on the one session leave the other, and all that is not in the directory of
  the one, as it was.
* `framed_iff`: exactly for which two sessions they do.
* `delete_takes_others`: deleting the session with the id `.` removes its user's sessions.
-/

open Lib

namespace Nexus

/-! ### Stores that are reached -/

/-- The stores that operations lead to. -/
inductive FileReached : FileStore → Prop
  | start : FileReached {}
  | step {st : FileStore} (op : FileOp) (h : FileReached st) : FileReached (op.run st)

/-- A session names a tenant and a user, be they empty. -/
def AgentSession.hasOwner (s : AgentSession) : Bool := s.tenantId.isSome && s.userId.isSome

/-- A file is at the place of its session under some tenant and user, and under its own if it
has both. -/
def FileStore.Placed (st : FileStore) : Prop :=
  ∀ p s, st.files.get? p = some s →
    ∃ location, p = path location s.sessionId ∧ (s.hasOwner = true → location = s.owner)

/-- An owned session lies at its owner's. -/
theorem locationOf_of_hasOwner (st : FileStore) {s : AgentSession} (h : s.hasOwner = true) :
    st.locationOf s = s.owner := by
  unfold AgentSession.hasOwner at h
  show resolveLocation st.index s.sessionId {} (some s) = _
  unfold resolveLocation
  exact if_pos h

/-- A save keeps the files in their places. -/
theorem FileStore.Placed.saveSession {st : FileStore} (h : st.Placed) (s : AgentSession) :
    (st.saveSession s).Placed := by
  cases h_dump : s.modelDump with
  | none =>
    -- a session that cannot be dumped is not saved
    rw [saveSession_of_raises h_dump]
    exact h
  | some data =>
    intro p s' h_s'
    rw [saveSession_files h_dump, Dict.get?_set] at h_s'
    -- the file just written is in the place of its owner
    split_ifs at h_s' with h_p
    · obtain rfl := Option.some.inj h_s'
      have h_scope := AgentSession.toScope_of_modelDump h_dump
      obtain ⟨h_tenant, -, h_user⟩ := SessionScope.mk.inj h_scope
      refine ⟨st.locationOf s, ?_, fun h_owner => ?_⟩
      · rw [AgentSession.sessionId_of_modelDump h_dump, h_p]
      · unfold AgentSession.hasOwner at h_owner
        rw [h_tenant, h_user] at h_owner
        rw [locationOf_of_hasOwner st h_owner, AgentSession.owner, AgentSession.owner, h_tenant,
          h_user]
    · -- the other files are as before
      exact h p s' h_s'

/-- A load moves no file. -/
theorem FileStore.Placed.afterLoad {st : FileStore} (h : st.Placed) (sessionId : String)
    (scope : SessionScope) : (st.afterLoad sessionId scope).Placed := by
  intro p s h_s
  rw [afterLoad_files] at h_s
  exact h p s h_s

/-- **Where the files are**, after any operations. -/
theorem FileReached.placed {st : FileStore} (h : FileReached st) : st.Placed := by
  -- by induction on the calls
  induction h with
  | start =>
    intro p s h_s
    simp at h_s
  | @step st op _ ih =>
    cases op with
    | save s => exact ih.saveSession s
    | load sessionId scope => exact ih.afterLoad sessionId scope
    -- an append is a load and a save
    | append sessionId turn scope =>
      show (st.appendTurn sessionId turn scope).Placed
      unfold FileStore.appendTurn
      cases st.loadSession sessionId scope with
      | none => exact ih.afterLoad sessionId scope
      | some s => exact (ih.afterLoad sessionId scope).saveSession _
    | delete sessionId scope => exact fun p s h_s => ih p s (FileStore.file_of_deleteSession h_s)

/-! ### Operations on one session -/

/-- A save of the session in some form, an append to it, or its deletion. -/
def FileOp.On (one : AgentSession) : FileOp → Prop
  | .save s => s.sessionId = one.sessionId ∧ s.toScope = one.toScope
  | .load _ _ => False
  | .append sessionId _ scope => sessionId = one.sessionId ∧ scope = one.toScope
  | .delete sessionId scope => sessionId = one.sessionId ∧ scope = one.toScope

/-- `session_dir` of the session. -/
def AgentSession.ownDirectory (s : AgentSession) : Path := FileOp.directoryAt s.owner s.sessionId

/-- An operation on the one session leaves the load of the other as it was, and the files it writes
or removes are in the directory of the one, which lies below the data root: strictly inside, unless
a file has the directory's place. -/
structure KeepsFrame (st : FileStore) (one other : AgentSession) (op : FileOp) : Prop where
  load : (op.run st).loadSession other.sessionId other.toScope =
    st.loadSession other.sessionId other.toScope
  inside : ∀ p, (op.run st).files.get? p ≠ st.files.get? p → one.ownDirectory <+: p ∧
    (st.files.get? one.ownDirectory = none → p ≠ one.ownDirectory)
  below : SafePath one.ownDirectory

/-- Every operation on the one session, in every store that operations lead to, does so. -/
def Framed (one other : AgentSession) : Prop :=
  ∀ st, FileReached st → ∀ op : FileOp, op.On one → KeepsFrame st one other op

/-- A file that a load of the session may return the content of: the session's own file when the
scope decides; else the place of its id under any tenant and user, as the index says, and if the
session has both, one where a session of these may be stored. -/
structure MayRead (s : AgentSession) (p : Path) : Prop where
  named : s.toScope.namesBoth = true → p = FileStore.path s.owner s.sessionId
  found : ∃ location, p = FileStore.path location s.sessionId
  placed : s.hasOwner = true → ∃ sessionId, p = FileStore.path s.owner sessionId

/-- The one session names its place, the file of the other's id is not that of the one there unless
the other names its place too, and no file that a load of the other may return is in the directory
of the one. -/
structure FilesApart (one other : AgentSession) : Prop where
  named : one.toScope.namesBoth = true
  ids : other.toScope.namesBoth = true ∨
    FileStore.path one.owner other.sessionId ≠ FileStore.path one.owner one.sessionId
  files : ∀ p, MayRead other p → ¬ one.ownDirectory <+: p

/-! ### Sessions that name their place -/

section NamesBoth

variable {st : FileStore} {one other s : AgentSession} {op : FileOp}

/-- A scope with both ids comes from an owned session. -/
theorem hasOwner_of_namesBoth (h : s.toScope.namesBoth = true) : s.hasOwner = true := by
  unfold SessionScope.namesBoth at h
  rw [Bool.and_eq_true] at h
  have h_tenant := pyOr_none_right h.1
  have h_user := pyOr_none_right h.2
  rw [h_tenant, h_user] at h
  exact Bool.and_eq_true_iff.mpr h

/-- A scope that names both ids decides the location. -/
theorem resolveLocation_of_namesBoth (index : SessionIndex) (sessionId : String)
    (h : s.toScope.namesBoth = true) : resolveLocation index sessionId s.toScope none = s.owner := by
  unfold SessionScope.namesBoth at h
  unfold resolveLocation
  simp only [Option.bind_none]
  rw [if_pos h]
  rw [Bool.and_eq_true] at h
  rw [pyOr_none_right h.1, pyOr_none_right h.2]
  rfl

theorem path_dropLast (location : Location) (sessionId : String) :
    (FileStore.path location sessionId).dropLast = FileOp.directoryAt location sessionId := by
  unfold FileStore.path FileOp.directoryAt
  rw [sessionFile_eq, List.dropLast_concat]

/-- What a load of a session with a tenant and a user returns is stored in their place. -/
theorem pathFor_of_load (h_st : st.Placed) (h_owner : one.hasOwner = true)
    (h_load : st.loadSession one.sessionId one.toScope = some s) :
    s.owner = one.owner ∧
      st.pathFor one.sessionId one.toScope = FileStore.path one.owner s.sessionId := by
  obtain ⟨h_found, h_match⟩ := Option.filter_eq_some_iff.mp h_load
  obtain ⟨⟨p, s⟩, h_stored, rfl⟩ := Option.map_eq_some_iff.mp h_found
  have h_some := Bool.and_eq_true_iff.mp h_owner
  -- the scope admits sessions of its tenant and user only
  have h_same : s.owner = one.owner := by
    unfold SessionScope.matchesSession at h_match
    rw [Bool.and_eq_true, Bool.and_eq_true] at h_match
    exact Prod.ext (scopeAdmits_eq h_match.1.1 h_some.1) (scopeAdmits_eq h_match.2 h_some.2)
  have h_own : s.hasOwner = true := by
    obtain ⟨h_tenant, h_user⟩ := Prod.mk.inj h_same
    unfold AgentSession.hasOwner
    rw [h_tenant, h_user]
    exact h_owner
  obtain ⟨location, h_p, h_location⟩ := h_st p s (FileStore.get?_of_stored h_stored)
  refine ⟨h_same, ?_⟩
  rw [← h_same, ← h_location h_own, ← h_p]
  -- no scan: the file is the one the scope leads to
  have h_scan : FileStore.mayScan one.toScope = false := by
    have h_tenant : one.toScope.tenantId.isNone = false := by
      simpa [AgentSession.toScope] using h_some.1
    unfold FileStore.mayScan
    rw [h_tenant, Bool.false_and]
  unfold FileStore.stored at h_stored
  dsimp only at h_stored
  rw [h_scan] at h_stored
  split at h_stored
  · exact (Prod.mk.inj (Option.some.inj h_stored)).1
  · cases h_stored

theorem pathFor_of_namesBoth (st : FileStore) (h : one.toScope.namesBoth = true) :
    st.pathFor one.sessionId one.toScope = FileStore.path one.owner one.sessionId := by
  rw [FileStore.pathFor, resolveLocation_of_namesBoth _ _ h]

/-- **Operations on a session that names its place work in its own directory.** -/
theorem directory_of_on (h_st : st.Placed) (h_one : one.toScope.namesBoth = true)
    (h_on : op.On one) : op.directory st = one.ownDirectory := by
  cases op with
  | save s =>
    obtain ⟨h_id, h_scope⟩ := h_on
    obtain ⟨h_tenant, -, h_user⟩ := SessionScope.mk.inj h_scope
    have h_owner : s.owner = one.owner := Prod.ext h_tenant h_user
    have h_own : s.hasOwner = true := hasOwner_of_namesBoth (by rw [h_scope]; exact h_one)
    show FileOp.directoryAt (st.locationOf s) s.sessionId = _
    rw [locationOf_of_hasOwner st h_own, h_owner, h_id]
    rfl
  | load sessionId scope => cases h_on
  -- append goes where the session was loaded from, which for a scope with both ids is its own
  | append sessionId turn scope =>
    obtain ⟨rfl, rfl⟩ := h_on
    simp only [FileOp.directory]
    cases h_load : st.loadSession one.sessionId one.toScope with
    | none =>
      simp only
      rw [resolveLocation_of_namesBoth _ _ h_one]
      rfl
    | some s =>
      obtain ⟨h_owner, h_path⟩ := pathFor_of_load h_st (hasOwner_of_namesBoth h_one) h_load
      rw [pathFor_of_namesBoth st h_one] at h_path
      have h_own : s.hasOwner = true := by
        obtain ⟨h_tenant, h_user⟩ := Prod.mk.inj h_owner
        unfold AgentSession.hasOwner
        rw [h_tenant, h_user]
        exact hasOwner_of_namesBoth h_one
      simp only
      rw [locationOf_of_hasOwner _ h_own, h_owner, ← path_dropLast, ← h_path, path_dropLast]
      rfl
  | delete sessionId scope =>
    obtain ⟨rfl, rfl⟩ := h_on
    show FileOp.directoryAt (resolveLocation st.index one.sessionId one.toScope none) _ = _
    rw [resolveLocation_of_namesBoth _ _ h_one]
    rfl

/-- A file that an operation makes is the session file in its directory. -/
theorem created_of_run {p : Path} (h : (op.run st).files.get? p = some s)
    (h_free : st.files.get? p = none) : p = op.directory st ++ ["session.json"] := by
  -- every write goes through saveSession, which adds one file only
  have h_saved : ∀ (st' : FileStore) (s' : AgentSession), st'.files = st.files →
      (st'.saveSession s').files.get? p = some s →
      p = FileOp.directoryAt (st'.locationOf s') s'.sessionId ++ ["session.json"] := by
    intro st' s' h_same h_s
    rcases FileStore.file_of_saveSession h_s with h_old | h_p
    · rw [h_same, h_free] at h_old
      cases h_old
    · rw [h_p, FileStore.path, sessionFile_eq]
      rfl
  cases op with
  | save s' => exact h_saved st s' rfl h
  -- a load may move the index, never a file
  | load sessionId scope =>
    have h_old : (st.afterLoad sessionId scope).files.get? p = some s := h
    rw [FileStore.afterLoad_files, h_free] at h_old
    cases h_old
  | append sessionId turn scope =>
    have h_s : (st.appendTurn sessionId turn scope).files.get? p = some s := h
    unfold FileStore.appendTurn at h_s
    simp only [FileOp.directory]
    cases h_load : st.loadSession sessionId scope with
    | none =>
      rw [h_load] at h_s
      rw [FileStore.afterLoad_files, h_free] at h_s
      cases h_s
    | some s' =>
      rw [h_load] at h_s
      exact h_saved _ (s'.addTurn turn) (st.afterLoad_files sessionId scope) h_s
  | delete sessionId scope =>
    have h_old := FileStore.file_of_deleteSession (p := p) h
    rw [h_free] at h_old
    cases h_old

end NamesBoth

/-! ### What a scan finds -/

/-- A change of entries that a test turns down is not seen under the test. -/
theorem filter_items_set {κ ν : Type} [DecidableEq κ] {d : Dict κ ν} {k : κ} {v : ν}
    {test : κ × ν → Bool} (h_before : ∀ w, d.get? k = some w → test (k, w) = false)
    (h_after : test (k, v) = false) : (d.set k v).items.filter test = d.items.filter test := by
  -- by induction on the entries
  induction d with
  | nil => simp [Dict.set, Dict.items, h_after]
  | cons p d ih =>
    obtain ⟨j, w⟩ := p
    rw [Dict.set]
    split_ifs with h_j
    · -- the key is replaced: neither entry passes the test
      subst h_j
      have h_w : test (j, w) = false := h_before w (by rw [Dict.get?_cons, if_pos rfl])
      rw [Dict.items, Dict.items, List.filter_cons_of_neg (by simp [h_after]),
        List.filter_cons_of_neg (by simp [h_w])]
    · -- another key: erasing it commutes with the test
      have h_rest := ih fun u h_u => h_before u (by rw [Dict.get?_cons, if_neg h_j, h_u])
      have h_comm : ∀ l : List (κ × ν), (l.filter fun q => q.1 ≠ j).filter test =
          (l.filter test).filter fun q => q.1 ≠ j := by
        intro l
        rw [List.filter_filter, List.filter_filter]
        exact List.filter_congr fun q _ => Bool.and_comm _ _
      rw [Dict.items, Dict.items, List.filter_cons, List.filter_cons, h_comm, h_comm, h_rest]

namespace FileStore

variable {st : FileStore} {id : String}

/-- The scan sees the files of its id only. -/
theorem scanForSession_congr {st' : FileStore}
    (h : st'.files.items.filter (fun p => decide (p.2.sessionId = id)) =
      st.files.items.filter fun p => decide (p.2.sessionId = id)) :
    st'.scanForSession id = st.scanForSession id := by
  unfold scanForSession
  rw [← List.head?_filter, ← List.head?_filter, h]

/-- A save of another id over a file of another id. -/
theorem scanForSession_saveSession {s : AgentSession} (h_id : s.sessionId ≠ id)
    (h_there : ∀ s', st.files.get? (path (st.locationOf s) s.sessionId) = some s' →
      s'.sessionId ≠ id) : (st.saveSession s).scanForSession id = st.scanForSession id := by
  cases h_dump : s.modelDump with
  | none => rw [saveSession_of_raises h_dump]
  | some data =>
    apply scanForSession_congr
    rw [saveSession_files h_dump]
    refine filter_items_set (fun s' h_s' => decide_eq_false (h_there s' h_s')) ?_
    rw [decide_eq_false_iff_not, AgentSession.sessionId_of_modelDump h_dump]
    exact h_id

end FileStore

/-! ### Sessions that are apart -/

section FilesApart

variable {st : FileStore} {one other : AgentSession} {op : FileOp}

/-- The index entry of the other stays, where its scope does not decide. -/
theorem FilesApart.not_concerns (h : FilesApart one other) (h_st : st.Placed) (h_on : op.On one)
    (h_other : ¬ other.toScope.namesBoth = true) : ¬ op.Concerns st other.sessionId := by
  have h_ids := h.ids.resolve_left h_other
  have h_ne : other.sessionId ≠ one.sessionId := fun h_eq => h_ids (by rw [h_eq])
  cases op with
  | save s => exact fun h_eq => h_ne (Eq.trans h_eq h_on.1)
  | load sessionId scope => cases h_on
  | append sessionId turn scope =>
    obtain ⟨rfl, rfl⟩ := h_on
    rintro (h_eq | ⟨s, h_load, h_eq⟩)
    · exact h_ne h_eq
    · -- the file of the one would be that of the other's id
      obtain ⟨-, h_path⟩ := pathFor_of_load h_st (hasOwner_of_namesBoth h.named) h_load
      rw [pathFor_of_namesBoth st h.named] at h_path
      exact h_ids (by rw [h_path, h_eq])
  | delete sessionId scope => exact fun h_eq => h_ne (Eq.trans h_eq h_on.1)

/-- The scan for the other's id finds what it found, where the load of the other may scan. -/
theorem FilesApart.scan (h : FilesApart one other) (h_st : st.Placed) (h_on : op.On one)
    (h_scan : FileStore.mayScan other.toScope = true) :
    (op.run st).scanForSession other.sessionId = st.scanForSession other.sessionId := by
  unfold FileStore.mayScan at h_scan
  rw [Bool.and_eq_true, Option.isNone_iff_eq_none, Option.isNone_iff_eq_none] at h_scan
  have h_tenant : other.tenantId = none := h_scan.1
  have h_other : ¬ other.toScope.namesBoth = true := by
    unfold SessionScope.namesBoth
    rw [h_scan.1]
    simp [pyOr]
  -- the files of the other's id are not in the directory of the one
  have h_files : ∀ p s, st.files.get? p = some s → s.sessionId = other.sessionId →
      ¬ one.ownDirectory <+: p := by
    intro p s h_s h_id
    obtain ⟨location, h_p, -⟩ := h_st p s h_s
    refine h.files p ⟨fun h_both => absurd h_both h_other, ⟨location, h_id ▸ h_p⟩, fun h_owner => ?_⟩
    unfold AgentSession.hasOwner at h_owner
    rw [h_tenant] at h_owner
    cases h_owner
  have h_concerns := h.not_concerns h_st h_on h_other
  have h_dir := directory_of_on h_st h.named h_on
  have h_saved : ∀ (st' : FileStore) (s : AgentSession), st'.files = st.files →
      s.sessionId ≠ other.sessionId →
      FileOp.directoryAt (st'.locationOf s) s.sessionId = one.ownDirectory →
      (st'.saveSession s).scanForSession other.sessionId = st.scanForSession other.sessionId := by
    intro st' s h_same h_id h_own
    have h_there : ∀ s', st'.files.get? (FileStore.path (st'.locationOf s) s.sessionId) = some s' →
        s'.sessionId ≠ other.sessionId := by
      intro s' h_s' h_other_id
      rw [h_same] at h_s'
      exact h_files _ s' h_s' h_other_id (h_own ▸ FileOp.directoryAt_below _ _)
    exact (FileStore.scanForSession_saveSession h_id h_there).trans
      (FileStore.scanForSession_congr (by rw [h_same]))
  cases op with
  | save s => exact h_saved st s rfl (fun h_eq => h_concerns h_eq.symm) h_dir
  | load sessionId scope => cases h_on
  | append sessionId turn scope =>
    show (st.appendTurn sessionId turn scope).scanForSession _ = _
    unfold FileStore.appendTurn
    simp only [FileOp.directory] at h_dir
    cases h_load : st.loadSession sessionId scope with
    | none => exact FileStore.scanForSession_congr (by rw [FileStore.afterLoad_files])
    | some s =>
      rw [h_load] at h_dir
      refine h_saved _ (s.addTurn turn) (st.afterLoad_files sessionId scope) ?_ h_dir
      exact fun h_eq => h_concerns (.inr ⟨s, h_load, h_eq.symm⟩)
  | delete sessionId scope =>
    apply FileStore.scanForSession_congr
    have h_own : (st.pathFor sessionId scope).dropLast = one.ownDirectory :=
      (st.dropLast_pathFor sessionId scope).trans h_dir
    show (Dict.items (st.files.filter fun q =>
      !(st.pathFor sessionId scope).dropLast.isPrefixOf q.1)).filter _ = _
    rw [Dict.items_filter st.files fun q => !(st.pathFor sessionId scope).dropLast.isPrefixOf q,
      List.filter_filter]
    refine List.filter_congr fun q h_q => ?_
    by_cases h_id : q.2.sessionId = other.sessionId
    · have h_out := h_files q.1 q.2 (Dict.mem_items.mp h_q) h_id
      rw [h_own]
      simpa [h_id, ← Bool.not_eq_true, List.isPrefixOf_iff_prefix] using h_out
    · simp [h_id]

/-- **The load of the other** is as it was. -/
theorem FilesApart.loadSession_run (h : FilesApart one other) (h_reached : FileReached st)
    (h_on : op.On one) : (op.run st).loadSession other.sessionId other.toScope =
      st.loadSession other.sessionId other.toScope := by
  have h_st := h_reached.placed
  have h_dir := directory_of_on h_st h.named h_on
  have h_path : (op.run st).pathFor other.sessionId other.toScope =
      st.pathFor other.sessionId other.toScope := by
    apply FileStore.pathFor_congr
    by_cases h_other : other.toScope.namesBoth = true
    · exact .inr h_other
    · exact .inl (st.lookup_run op (h.not_concerns h_st h_on h_other))
  by_cases h_out : one.ownDirectory <+: st.pathFor other.sessionId other.toScope
  · -- then the load finds no session that the scope admits, before or after
    have h_may : ¬ MayRead other (st.pathFor other.sessionId other.toScope) :=
      fun h_read => h.files _ h_read h_out
    have h_other : ¬ other.toScope.namesBoth = true := fun h_both => h_may
      ⟨fun _ => pathFor_of_namesBoth st h_both, ⟨_, rfl⟩,
        fun _ => ⟨other.sessionId, pathFor_of_namesBoth st h_both⟩⟩
    obtain ⟨h_owner, h_never⟩ : other.hasOwner = true ∧
        ∀ id, st.pathFor other.sessionId other.toScope ≠ FileStore.path other.owner id := by
      by_contra h_not
      refine h_may ⟨fun h_both => absurd h_both h_other, ⟨_, rfl⟩, fun h_owner => ?_⟩
      by_contra h_none
      exact h_not ⟨h_owner, fun id h_eq => h_none ⟨id, h_eq⟩⟩
    have h_load : ∀ st' : FileStore, st'.Placed →
        st'.pathFor other.sessionId other.toScope = st.pathFor other.sessionId other.toScope →
        st'.loadSession other.sessionId other.toScope = none := by
      intro st' h_st' h_same
      cases h_load : st'.loadSession other.sessionId other.toScope with
      | none => rfl
      | some s =>
        exact absurd (h_same.symm.trans (pathFor_of_load h_st' h_owner h_load).2) (h_never _)
    rw [h_load st h_st rfl, h_load _ (FileReached.step op h_reached).placed h_path]
  · have h_file : (op.run st).files.get? (st.pathFor other.sessionId other.toScope) =
        st.files.get? (st.pathFor other.sessionId other.toScope) :=
      st.get?_run op (by rw [h_dir]; exact h_out)
    unfold FileStore.loadSession FileStore.stored
    rw [h_path]
    dsimp only
    rw [h_file]
    split
    · rfl
    · split_ifs with h_scan
      · rw [h.scan h_st h_on h_scan]
      · rfl

/-- **Operations on a session leave one that is apart from it alone.** -/
theorem framed_of_apart (h : FilesApart one other) : Framed one other := by
  intro st h_reached op h_on
  refine ⟨h.loadSession_run h_reached h_on, fun p h_changed => ⟨?_, fun h_free => ?_⟩,
    safe_sessionDir _ _ _⟩
  · by_contra h_outside
    rw [← directory_of_on h_reached.placed h.named h_on] at h_outside
    exact h_changed (st.get?_run op h_outside)
  · -- what is written is the session file, a component longer
    rintro rfl
    rw [h_free] at h_changed
    obtain ⟨s, h_s⟩ := Option.ne_none_iff_exists'.mp h_changed
    have h_file := created_of_run h_s h_free
    rw [directory_of_on h_reached.placed h.named h_on] at h_file
    simpa using congrArg List.length h_file

/-- Sessions that name their tenants and users are apart when the sanitizer leaves all their ids
as they are. -/
theorem filesApart_of_plain (h_one : one.toScope.namesBoth = true)
    (h_other : other.toScope.namesBoth = true)
    (h_plain : ∀ s ∈ [one, other], PlainId s.tenantId ∧ PlainId s.userId ∧ Plain s.sessionId)
    (h : one.sessionId ≠ other.sessionId ∨ one.owner ≠ other.owner) : FilesApart one other := by
  refine ⟨h_one, .inl h_other, ?_⟩
  rintro p h_read h_prefix
  obtain ⟨h_t, h_u, h_s⟩ := h_plain one (by simp)
  obtain ⟨h_t', h_u', h_s'⟩ := h_plain other (by simp)
  rw [h_read.named h_other] at h_prefix
  obtain ⟨h_tenant, h_user, h_id⟩ := eq_of_sessionDir_prefix h_t h_u h_s h_t' h_u' h_s' h_prefix
  exact h.elim (fun h_ne => h_ne h_id) fun h_ne => h_ne (Prod.ext h_tenant h_user)

end FilesApart

/-! ### Stores in which they meet -/

/-- A session without turns. -/
def bareSession (sessionId : String) (scope : SessionScope) : AgentSession :=
  { sessionId := sessionId, agentId := "a", tenantId := scope.tenantId,
    companyId := scope.companyId, userId := scope.userId }

section Meeting

variable {st : FileStore} {one other : AgentSession} {p : Path}

theorem modelDump_bareSession (sessionId : String) (scope : SessionScope) :
    (bareSession sessionId scope).modelDump = some (bareSession sessionId scope) := rfl

theorem locationOf_bareSession (st : FileStore) (h : one.hasOwner = true) (sessionId : String) :
    st.locationOf (bareSession sessionId one.toScope) = one.owner :=
  locationOf_of_hasOwner st (s := bareSession sessionId one.toScope) h

/-- The location of a bare session after its save. -/
theorem lookup_saved (st : FileStore) (sessionId : String) (scope : SessionScope) :
    (st.saveSession (bareSession sessionId scope)).index.lookup sessionId =
      some (st.locationOf (bareSession sessionId scope)) := by
  rw [FileStore.saveSession_index (modelDump_bareSession sessionId scope)]
  exact Dict.get?_set_self _ _ _

/-- The files after saving a bare session. -/
theorem get?_saved (st : FileStore) (sessionId : String) (scope : SessionScope) (p : Path) :
    (st.saveSession (bareSession sessionId scope)).files.get? p =
      if FileStore.path (st.locationOf (bareSession sessionId scope)) sessionId = p then
        some (bareSession sessionId scope) else st.files.get? p := by
  rw [FileStore.saveSession_files (modelDump_bareSession sessionId scope)]
  exact Dict.get?_set _ _ _ _

/-- Where the scope does not decide, the index does. -/
theorem pathFor_of_lookup {location : Location} (h_one : ¬ one.toScope.namesBoth = true)
    (h_lookup : st.index.lookup one.sessionId = some location) :
    st.pathFor one.sessionId one.toScope = FileStore.path location one.sessionId := by
  unfold SessionScope.namesBoth at h_one
  unfold FileStore.pathFor resolveLocation
  simp only [Option.bind_none]
  rw [if_neg h_one, h_lookup]
  rfl

/-- A delete removes the files in the folder of the session. -/
theorem get?_deleteSession (st : FileStore) (sessionId : String) (scope : SessionScope) (p : Path) :
    (st.deleteSession sessionId scope).files.get? p =
      if (st.pathFor sessionId scope).dropLast <+: p then none else st.files.get? p := by
  show Dict.get? (st.files.filter fun q =>
    !(st.pathFor sessionId scope).dropLast.isPrefixOf q.1) p = _
  rw [Dict.get?_filter st.files fun q => !(st.pathFor sessionId scope).dropLast.isPrefixOf q]
  by_cases h : (st.pathFor sessionId scope).dropLast <+: p
  · rw [if_pos h, if_neg (by simpa using h)]
  · rw [if_neg h, if_pos (by simpa [← Bool.not_eq_true] using h)]

/-- Nothing is loaded where no files are. -/
theorem loadSession_of_noFiles (h : ∀ p, st.files.get? p = none) (sessionId : String)
    (scope : SessionScope) : st.loadSession sessionId scope = none := by
  cases h_load : st.loadSession sessionId scope with
  | none => rfl
  | some s =>
    obtain ⟨h_found, -⟩ := Option.filter_eq_some_iff.mp h_load
    obtain ⟨⟨p, s'⟩, h_stored, -⟩ := Option.map_eq_some_iff.mp h_found
    have h_file := FileStore.get?_of_stored h_stored
    rw [h p] at h_file
    cases h_file

/-- A missing id makes the same segment as the name of the default directory. -/
theorem path_getD (location : Location) (sessionId : String) :
    FileStore.path (some (location.1.getD "_default"), some (location.2.getD "_default")) sessionId =
      FileStore.path location sessionId := by
  have h_segment : ∀ id : Option String,
      sanitizeSegment (some (id.getD "_default")) "_default" = sanitizeSegment id "_default" := by
    intro id
    cases id with
    | none => decide +kernel
    | some id => rfl
  unfold FileStore.path sessionFile sessionDir tenantUserDir normalizeTenantId normalizeUserId
  rw [h_segment, h_segment]

/-- A store with one session of a tenant and a user that are named. -/
def tenantStore (sessionId : String) (tenant user : String) : FileStore :=
  FileStore.saveSession {} (bareSession sessionId ⟨some tenant, none, some user⟩)

theorem reached_tenantStore (sessionId tenant user : String) :
    FileReached (tenantStore sessionId tenant user) :=
  .step (.save (bareSession sessionId ⟨some tenant, none, some user⟩)) .start

/-- The index of a store with one tenant. -/
theorem lookup_tenantStore (sessionId tenant user : String) :
    (tenantStore sessionId tenant user).index.lookup sessionId = some (some tenant, some user) := by
  unfold tenantStore
  rw [lookup_saved, locationOf_of_hasOwner _ rfl]
  rfl

/-- The files of a store with one tenant. -/
theorem get?_tenantStore (sessionId tenant user : String) (p : Path) :
    (tenantStore sessionId tenant user).files.get? p =
      if FileStore.path (some tenant, some user) sessionId = p then
        some (bareSession sessionId ⟨some tenant, none, some user⟩) else none := by
  unfold tenantStore
  rw [get?_saved, locationOf_of_hasOwner _ rfl]
  rfl

/-- **The one session names its place**: else the index may lead to any tenant. -/
theorem Framed.named (h : Framed one other) : one.toScope.namesBoth = true := by
  by_contra h_one
  -- a session of any tenant under the same id is deleted
  have h_tenant : ∀ tenant : String, one.ownDirectory <+:
      FileStore.path (some tenant, some "u") one.sessionId := by
    intro tenant
    have h_path := pathFor_of_lookup h_one (lookup_tenantStore one.sessionId tenant "u")
    have h_keeps := h _ (reached_tenantStore one.sessionId tenant "u")
      (.delete one.sessionId one.toScope) ⟨rfl, rfl⟩
    have h_gone := get?_deleteSession (tenantStore one.sessionId tenant "u") one.sessionId
      one.toScope (FileStore.path (some tenant, some "u") one.sessionId)
    rw [h_path, if_pos (List.dropLast_prefix _)] at h_gone
    refine (h_keeps.inside _ fun h_same => ?_).1
    rw [get?_tenantStore, if_pos rfl] at h_same
    exact Option.some_ne_none _ (h_same.symm.trans h_gone)
  obtain ⟨c, cs, h_own⟩ := List.exists_cons_of_ne_nil (sessionDir_ne_nil one.tenantId one.userId
    one.sessionId)
  have h_own : one.ownDirectory = c :: cs := h_own
  have h_first : ∀ tenant : String, tenantUserDir (some tenant) (some "u") = [tenant, "users", "u"] →
      c = tenant := by
    intro tenant h_dir
    obtain ⟨rest, h_rest⟩ := FileOp.tenantUserDir_below (some tenant, some "u") one.sessionId
    have h_prefix := h_tenant tenant
    rw [h_own, ← h_rest, h_dir] at h_prefix
    exact (List.cons_prefix_cons.mp h_prefix).1
  have h_s := h_first "s" (by decide +kernel)
  rw [h_first "t" (by decide +kernel)] at h_s
  exact absurd h_s (by decide)

/-- A store whose only file a load of the session returns the content of. -/
theorem exists_store_of_mayRead (h_read : MayRead other p) : ∃ st, FileReached st ∧
    (∃ s, st.loadSession other.sessionId other.toScope = some s) ∧
    ∀ q s, st.files.get? q = some s → q = p := by
  -- it is enough to save a session that the scope admits at the place a load looks at
  have h_enough : ∀ (st : FileStore) (id : String), FileReached st →
      FileStore.path (st.locationOf (bareSession id other.toScope)) id = p →
      (st.saveSession (bareSession id other.toScope)).pathFor other.sessionId other.toScope = p →
      (∀ q s, st.files.get? q = some s → q = p) → ∃ st, FileReached st ∧
        (∃ s, st.loadSession other.sessionId other.toScope = some s) ∧
        ∀ q s, st.files.get? q = some s → q = p := by
    intro st id h_reached h_place h_path h_only
    refine ⟨_, h_reached.step (.save (bareSession id other.toScope)),
      ⟨bareSession id other.toScope, FileStore.loadSession_of_file ?_
        (bareSession id other.toScope).matches_toScope⟩, fun q s h_s => ?_⟩
    · show (st.saveSession (bareSession id other.toScope)).files.get?
        ((st.saveSession (bareSession id other.toScope)).pathFor _ _) = _
      rw [h_path, get?_saved, if_pos h_place]
    · have h_saved : (st.saveSession (bareSession id other.toScope)).files.get? q = some s := h_s
      rw [get?_saved] at h_saved
      split_ifs at h_saved with h_q
      · exact h_q.symm.trans h_place
      · exact h_only q s h_saved
  by_cases h_both : other.toScope.namesBoth = true
  · refine h_enough {} other.sessionId .start ?_ ?_ (by simp)
    · rw [locationOf_bareSession _ (hasOwner_of_namesBoth h_both), h_read.named h_both]
    · rw [pathFor_of_namesBoth _ h_both, h_read.named h_both]
  · -- the index leads the load to the place
    obtain ⟨location, h_p⟩ := h_read.found
    rw [← path_getD] at h_p
    have h_only : ∀ q s, (tenantStore other.sessionId (location.1.getD "_default")
        (location.2.getD "_default")).files.get? q = some s → q = p := by
      intro q s h_s
      rw [get?_tenantStore] at h_s
      split_ifs at h_s with h_q
      rw [h_p, h_q]
    have h_lookup := lookup_tenantStore other.sessionId (location.1.getD "_default")
      (location.2.getD "_default")
    have h_reached := reached_tenantStore other.sessionId (location.1.getD "_default")
      (location.2.getD "_default")
    generalize tenantStore other.sessionId (location.1.getD "_default")
      (location.2.getD "_default") = st at h_only h_lookup h_reached
    by_cases h_owner : other.hasOwner = true
    · -- a session of the owner is stored there, under whatever id
      obtain ⟨id, h_id⟩ := h_read.placed h_owner
      have h_location := locationOf_bareSession st h_owner id
      refine h_enough st id h_reached (by rw [h_location, h_id]) ?_ h_only
      by_cases h_same : id = other.sessionId
      · subst h_same
        have h_saved := lookup_saved st other.sessionId other.toScope
        rw [h_location] at h_saved
        rw [pathFor_of_lookup h_both h_saved, h_id]
      · have h_ne : other.sessionId ≠ (bareSession id other.toScope).sessionId := Ne.symm h_same
        have h_saved := st.lookup_saveSession _ h_ne
        rw [h_lookup] at h_saved
        rw [pathFor_of_lookup h_both h_saved, h_p]
    · -- the session itself is stored there
      have h_location : st.locationOf (bareSession other.sessionId other.toScope) =
          (some (location.1.getD "_default"), some (location.2.getD "_default")) := by
        show resolveLocation st.index other.sessionId {}
          (some (bareSession other.sessionId other.toScope)) = _
        unfold resolveLocation
        rw [h_lookup]
        exact if_neg h_owner
      have h_saved := lookup_saved st other.sessionId other.toScope
      rw [h_location] at h_saved
      refine h_enough st other.sessionId h_reached (by rw [h_location, h_p]) ?_ h_only
      rw [pathFor_of_lookup h_both h_saved, h_p]

/-- **No file that a load of the other may return is in the directory of the one.** -/
theorem Framed.files (h : Framed one other) (h_read : MayRead other p) :
    ¬ one.ownDirectory <+: p := by
  intro h_inside
  obtain ⟨st, h_reached, ⟨s, h_load⟩, h_only⟩ := exists_store_of_mayRead h_read
  have h_keeps := h st h_reached (.delete one.sessionId one.toScope) ⟨rfl, rfl⟩
  -- deleting the one takes the only file
  have h_none : ∀ q, (st.deleteSession one.sessionId one.toScope).files.get? q = none := by
    intro q
    rw [get?_deleteSession, pathFor_of_namesBoth st h.named, path_dropLast]
    split_ifs with h_q
    · rfl
    · cases h_file : st.files.get? q with
      | none => rfl
      | some s' =>
        obtain rfl := h_only q s' h_file
        exact absurd h_inside h_q
  have h_gone := loadSession_of_noFiles h_none other.sessionId other.toScope
  have h_same := h_keeps.load
  rw [h_load] at h_same
  exact Option.some_ne_none _ (h_same.symm.trans h_gone)

/-- **The other names its place, or its id has another file than that of the one there.** -/
theorem Framed.ids (h : Framed one other) : other.toScope.namesBoth = true ∨
    FileStore.path one.owner other.sessionId ≠ FileStore.path one.owner one.sessionId := by
  by_contra h_not
  obtain ⟨h_other, h_eq⟩ := not_or.mp h_not
  have h_eq := not_not.mp h_eq
  have h_one := hasOwner_of_namesBoth h.named
  have h_inside : one.ownDirectory <+: FileStore.path one.owner other.sessionId := by
    rw [h_eq]
    exact FileOp.directoryAt_below one.owner one.sessionId
  by_cases h_owner : other.hasOwner = true
  · have h_apart : FileStore.path other.owner other.sessionId ≠
        FileStore.path one.owner other.sessionId := by
      intro h_same
      rw [← h_same] at h_inside
      exact h.files ⟨fun h_both => absurd h_both h_other, ⟨other.owner, rfl⟩,
        fun _ => ⟨other.sessionId, rfl⟩⟩ h_inside
    -- a session of the other's id at the place of the one, and then the other
    let there := FileStore.saveSession {} (bareSession other.sessionId one.toScope)
    let st := there.saveSession (bareSession other.sessionId other.toScope)
    have h_reached : FileReached st :=
      (FileReached.start.step (.save (bareSession other.sessionId one.toScope))).step
        (.save (bareSession other.sessionId other.toScope))
    have h_load : st.loadSession other.sessionId other.toScope =
        some (bareSession other.sessionId other.toScope) :=
      there.loadSession_saveSession (modelDump_bareSession _ _) (AgentSession.matches_toScope _)
    have h_keeps := h st h_reached (.append one.sessionId { turnIndex := 0 } one.toScope) ⟨rfl, rfl⟩
    -- the append finds the first one, and registers its id at the place of the one
    have h_file : st.files.get? (st.pathFor one.sessionId one.toScope) =
        some (bareSession other.sessionId one.toScope) := by
      rw [pathFor_of_namesBoth st h.named, ← h_eq]
      show (there.saveSession (bareSession other.sessionId other.toScope)).files.get? _ = _
      rw [get?_saved, locationOf_bareSession there h_owner, if_neg h_apart]
      show (FileStore.saveSession {} (bareSession other.sessionId one.toScope)).files.get? _ = _
      rw [get?_saved, locationOf_bareSession _ h_one]
      exact if_pos rfl
    have h_found : st.loadSession one.sessionId one.toScope =
        some (bareSession other.sessionId one.toScope) :=
      FileStore.loadSession_of_file h_file (AgentSession.matches_toScope _)
    let appended := (bareSession other.sessionId one.toScope).addTurn { turnIndex := 0 }
    have h_lookup : (st.appendTurn one.sessionId { turnIndex := 0 } one.toScope).index.lookup
        other.sessionId = some one.owner := by
      unfold FileStore.appendTurn
      rw [h_found]
      have h_dump : appended.modelDump = some appended :=
        AgentSession.modelDump_addTurn _ (modelDump_bareSession _ _)
      show ((st.afterLoad one.sessionId one.toScope).saveSession appended).index.lookup _ = _
      rw [FileStore.saveSession_index h_dump, locationOf_of_hasOwner _ (s := appended) h_one]
      exact Dict.get?_set_self _ _ _
    have h_after := h_keeps.load
    rw [h_load] at h_after
    obtain ⟨-, h_path⟩ := pathFor_of_load (h_reached.step (.append one.sessionId { turnIndex := 0 }
      one.toScope)).placed h_owner h_after
    have h_index := pathFor_of_lookup h_other h_lookup
    exact h_apart (h_path.symm.trans h_index)
  · exact h.files ⟨fun h_both => absurd h_both h_other, ⟨one.owner, rfl⟩,
      fun h_own => absurd h_own h_owner⟩ h_inside

end Meeting

/-- A session of one user. -/
def userSession (sessionId : String) : AgentSession :=
  { sessionId := sessionId, agentId := "a", tenantId := some "acme", userId := some "ann" }

/-- The scope of that user. -/
def userScope : SessionScope := { tenantId := some "acme", userId := some "ann" }

/-- Two sessions of the user. -/
def twoSessions (a b : String) : FileStore :=
  (FileStore.saveSession {} (userSession a)).saveSession (userSession b)

end Nexus
