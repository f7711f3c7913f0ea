import Mathlib.Data.List.Chain
import Mathlib.Data.List.TakeWhile
import NexusAgent.Storage.Placement

/-!
# What an operation of the file adapter touches

An operation of the file adapter works in one directory, which it resolves from the session
it is about. The sanitizer keeps every component free of separators and parent references,
so the directory lies below the data root; it does not keep two sessions apart whatever
their ids are.

* `safe_sessionDir`: the components of a session's directory.
* `FileStore.get?_run`, `FileStore.lookup_run`: the files and the index entries that an operation
  leaves alone.
* `eq_of_sessionDir_prefix`: sessions whose ids the sanitizer leaves alone are apart.
-/

open Lib

namespace Nexus

/-! ### The sanitizer -/

/-- No character that separates components. -/
def Separated (cs : List Char) : Prop := ∀ c ∈ cs, unsafeChar c = false

/-- No two dots in a row. -/
def NoDotPair (cs : List Char) : Prop := cs.IsChain fun a b => ¬ (a = '.' ∧ b = '.')

/-- What is replaced contains no separator. -/
theorem replaceUnsafe_separated (cs : List Char) : Separated (replaceUnsafe cs) := by
  induction cs using replaceUnsafe.induct with
  | case1 => simp [replaceUnsafe, Separated]
  -- a pair of dots becomes an underscore
  | case2 cs ih =>
    rw [replaceUnsafe]
    intro c hc
    rcases List.mem_cons.mp hc with rfl | hc
    · decide
    · exact ih c hc
  -- any other character is kept, unless it is unsafe
  | case3 c cs h_pair ih =>
    rw [replaceUnsafe.eq_3 c cs h_pair]
    intro d hd
    rcases List.mem_cons.mp hd with rfl | hd
    · by_cases h : unsafeChar c = true
      · rw [if_pos h]
        decide
      · rw [if_neg h]
        simpa using h
    · exact ih d hd

/-- A dot at the front was there before. -/
theorem head_replaceUnsafe {cs : List Char} (h : (replaceUnsafe cs).head? = some '.') :
    cs.head? = some '.' := by
  unfold replaceUnsafe at h
  split at h
  · cases h
  · cases h
  · -- a character that is replaced is no dot
    next c cs _ =>
    have h_c : (if unsafeChar c then '_' else c) = '.' := Option.some.inj h
    split_ifs at h_c
    · cases h_c
    · rw [h_c]
      rfl

/-- Nor does it contain a pair of dots. -/
theorem replaceUnsafe_noDotPair (cs : List Char) : NoDotPair (replaceUnsafe cs) := by
  unfold NoDotPair
  induction cs using replaceUnsafe.induct with
  | case1 => simp [replaceUnsafe]
  | case2 cs ih =>
    rw [replaceUnsafe, List.isChain_cons]
    exact ⟨fun b _ h => absurd h.1 (by decide), ih⟩
  | case3 c cs h_pair ih =>
    rw [replaceUnsafe.eq_3 c cs h_pair, List.isChain_cons]
    refine ⟨fun b h_b h_dots => ?_, ih⟩
    -- two dots in the result were two dots before, and those were replaced
    have h_c : c = '.' := by
      have h_first := h_dots.1
      split_ifs at h_first
      · cases h_first
      · exact h_first
    have h_head := head_replaceUnsafe (h_dots.2 ▸ h_b)
    cases cs with
    | nil => cases h_head
    | cons d cs =>
      have h_d : d = '.' := Option.some.inj h_head
      exact h_pair cs h_c (by rw [h_d])

/-- A component that stays where it is put: no separator in it, and not the parent. -/
structure SafeSegment (s : String) : Prop where
  separated : Separated s.toList
  not_parent : s ≠ ".."

/-- A segment without separators and pairs of dots is safe. -/
theorem SafeSegment.of_chars {s : String} (h : Separated s.toList) (h_dots : NoDotPair s.toList) :
    SafeSegment s where
  separated := h
  not_parent := by
    rintro rfl
    revert h_dots
    unfold NoDotPair
    decide

/-- What the sanitizer makes of a text is safe. -/
theorem safe_cleaned (cs : List Char) : SafeSegment (String.ofList (replaceUnsafe cs)) := by
  apply SafeSegment.of_chars
  · rw [String.toList_ofList]
    exact replaceUnsafe_separated cs
  · rw [String.toList_ofList]
    exact replaceUnsafe_noDotPair cs

/-- With a safe fallback the sanitizer returns a safe segment. -/
theorem safe_sanitizeSegment (value : Option String) {fallback : String}
    (h : SafeSegment fallback) : SafeSegment (sanitizeSegment value fallback) := by
  unfold sanitizeSegment
  cases value with
  | none => exact h
  | some s =>
    simp only
    split_ifs
    · exact h
    · exact h
    · exact safe_cleaned _

/-- White space does not separate. -/
theorem unsafeChar_of_isSpace {c : Char} (h : PyStr.isSpace c = true) : unsafeChar c = false := by
  unfold unsafeChar
  rw [Bool.or_eq_false_iff, Bool.or_eq_false_iff, Bool.or_eq_false_iff]
  refine ⟨⟨⟨?_, ?_⟩, ?_⟩, ?_⟩ <;>
  · rw [decide_eq_false_iff_not]
    rintro rfl
    revert h
    decide

/-- Nothing is replaced by nothing. -/
theorem replaceUnsafe_eq_nil {cs : List Char} (h : replaceUnsafe cs = []) : cs = [] := by
  unfold replaceUnsafe at h
  split at h
  · rfl
  · cases h
  · cases h

/-- The segment of a session, whose fallback is the id itself, is safe whatever the id. -/
theorem safe_sessionSegment (sessionId : String) :
    SafeSegment (sanitizeSegment (some sessionId) sessionId) := by
  unfold sanitizeSegment
  simp only
  split_ifs with h_blank h_empty
  · -- a blank id is taken as it is
    have h_space := PyStr.isBlank_iff.mp h_blank
    refine ⟨fun c hc => unsafeChar_of_isSpace (h_space c hc), ?_⟩
    rintro rfl
    revert h_blank
    decide
  · -- what is left of an id that is not blank is not empty
    have h_nil : replaceUnsafe (PyStr.strip sessionId).toList = [] := by
      have h_list := congrArg String.toList h_empty
      simpa using h_list
    have h_strip : PyStr.strip sessionId = "" := by
      have h_list := replaceUnsafe_eq_nil h_nil
      exact String.toList_eq_nil_iff.mp h_list
    exact absurd (by simpa [PyStr.isBlank] using h_strip) h_blank
  · exact safe_cleaned _

/-! ### Directories -/

/-- A path of safe components. -/
def SafePath (p : Path) : Prop := ∀ segment ∈ p, SafeSegment segment

/-- Joining a safe segment gives a safe path. -/
theorem SafePath.join {p : Path} {segment : String} (h : SafePath p) (h_s : SafeSegment segment) :
    SafePath (p.join segment) := by
  unfold Path.join
  split_ifs
  · exact h
  · intro s hs
    rcases List.mem_append.mp hs with hs | hs
    · exact h s hs
    · obtain rfl := List.mem_singleton.mp hs
      exact h_s

/-- The folder of a user is a safe path. -/
theorem safe_tenantUserDir (tenantId userId : Option String) :
    SafePath (tenantUserDir tenantId userId) := by
  have h_default : SafeSegment "_default" := ⟨by simp [Separated, unsafeChar], by decide⟩
  have h_users : SafeSegment "users" := ⟨by simp [Separated, unsafeChar], by decide⟩
  have h_root : SafePath [] := fun s hs => by cases hs
  exact ((h_root.join (safe_sanitizeSegment tenantId h_default)).join h_users).join
    (safe_sanitizeSegment userId h_default)

/-- **The directory of a session lies below the data root**, whatever the ids: no component
has a separator in it or is a parent reference. -/
theorem safe_sessionDir (tenantId userId : Option String) (sessionId : String) :
    SafePath (sessionDir tenantId userId sessionId) :=
  (safe_tenantUserDir tenantId userId).join (safe_sessionSegment sessionId)

/-- The session file lies in the session's directory. -/
theorem sessionFile_eq (tenantId userId : Option String) (sessionId : String) :
    sessionFile tenantId userId sessionId =
      sessionDir tenantId userId sessionId ++ ["session.json"] := by
  unfold sessionFile Path.join
  rw [if_neg (by decide)]

/-- Joining goes on from the path. -/
theorem Path.prefix_join (p : Path) (segment : String) : p <+: p.join segment := by
  unfold Path.join
  split_ifs
  · exact List.prefix_refl p
  · exact List.prefix_append p _

/-- No session's directory is the data root. -/
theorem sessionDir_ne_nil (tenantId userId : Option String) (sessionId : String) :
    sessionDir tenantId userId sessionId ≠ [] := by
  -- the folder of the users is never the root itself
  have h_users : (Path.join [] (normalizeTenantId tenantId)).join "users" ≠ [] := by
    unfold Path.join
    rw [if_neg (by decide : ¬ ("users" = "" ∨ "users" = "."))]
    exact List.append_ne_nil_of_right_ne_nil _ (List.cons_ne_nil _ _)
  intro h_nil
  unfold sessionDir tenantUserDir at h_nil
  generalize (Path.join [] (normalizeTenantId tenantId)).join "users" = dir at h_users h_nil
  -- and joining only makes a path longer
  have h_prefix := (dir.prefix_join (normalizeUserId userId)).trans
    (Path.prefix_join _ (sanitizeSegment (some sessionId) sessionId))
  rw [h_nil] at h_prefix
  exact h_users (List.prefix_nil.mp h_prefix)

/-! ### Operations -/

/-- An operation of the file adapter. -/
inductive FileOp
  | save (s : AgentSession)
  | load (sessionId : String) (scope : SessionScope)
  | append (sessionId : String) (turn : TurnRecord) (scope : SessionScope)
  | delete (sessionId : String) (scope : SessionScope)

namespace FileOp

/-- The store after an operation. -/
def run (st : FileStore) : FileOp → FileStore
  | .save s => st.saveSession s
  | .load sessionId scope => st.afterLoad sessionId scope
  | .append sessionId turn scope => st.appendTurn sessionId turn scope
  | .delete sessionId scope => st.deleteSession sessionId scope

/-- The directory of a session at a location. -/
def directoryAt (location : Location) (sessionId : String) : Path :=
  sessionDir location.1 location.2 sessionId

/-- The file of a session lies in its directory. -/
theorem directoryAt_below (location : Location) (sessionId : String) :
    directoryAt location sessionId <+: FileStore.path location sessionId := by
  unfold FileStore.path directoryAt
  rw [sessionFile_eq]
  exact List.prefix_append _ _

/-- And in the folder of its user. -/
theorem tenantUserDir_below (location : Location) (sessionId : String) :
    tenantUserDir location.1 location.2 <+: FileStore.path location sessionId := by
  refine List.IsPrefix.trans ?_ (directoryAt_below location sessionId)
  unfold directoryAt sessionDir
  exact Path.prefix_join _ _

/-- The directory an operation resolves the session to; an append resolves it for the session
it loaded. -/
def directory (st : FileStore) : FileOp → Path
  | .save s => directoryAt (st.locationOf s) s.sessionId
  | .load sessionId scope => directoryAt (resolveLocation st.index sessionId scope none) sessionId
  | .append sessionId _ scope =>
    match st.loadSession sessionId scope with
    | some s => directoryAt ((st.afterLoad sessionId scope).locationOf s) s.sessionId
    | none => directoryAt (resolveLocation st.index sessionId scope none) sessionId
  | .delete sessionId scope => directoryAt (resolveLocation st.index sessionId scope none) sessionId

/-- The session ids an operation is about. -/
def Concerns (st : FileStore) (id : String) : FileOp → Prop
  | .save s => id = s.sessionId
  | .load sessionId _ => id = sessionId
  | .append sessionId _ scope =>
    id = sessionId ∨ ∃ s, st.loadSession sessionId scope = some s ∧ id = s.sessionId
  | .delete sessionId _ => id = sessionId

end FileOp

/-- A scope that names a tenant and a user, so that the index is not asked. -/
def SessionScope.namesBoth (scope : SessionScope) : Bool :=
  (pyOr scope.tenantId none).isSome && (pyOr scope.userId none).isSome

namespace FileStore

/-- A save changes the files in the session's directory only. -/
theorem get?_saveSession (st : FileStore) (s : AgentSession) {p : Path}
    (h : ¬ FileOp.directoryAt (st.locationOf s) s.sessionId <+: p) :
    (st.saveSession s).files.get? p = st.files.get? p := by
  cases h_dump : s.modelDump with
  | none => rw [saveSession_of_raises h_dump]
  | some data =>
    rw [saveSession_files h_dump]
    apply Dict.get?_set_ne
    rintro rfl
    exact h (FileOp.directoryAt_below _ _)

/-- A load leaves the files alone. -/
theorem afterLoad_files (st : FileStore) (sessionId : String) (scope : SessionScope) :
    (st.afterLoad sessionId scope).files = st.files := by
  unfold afterLoad
  split <;> rfl

/-- A load changes the index entry of its id at most. -/
theorem lookup_afterLoad (st : FileStore) {sessionId id : String} (scope : SessionScope)
    (h : id ≠ sessionId) :
    (st.afterLoad sessionId scope).index.lookup id = st.index.lookup id := by
  unfold afterLoad
  split
  · exact Dict.get?_set_ne _ _ (Ne.symm h)
  · rfl

/-- Saving registers its own id only. -/
theorem lookup_saveSession (st : FileStore) (s : AgentSession) {id : String}
    (h : id ≠ s.sessionId) : (st.saveSession s).index.lookup id = st.index.lookup id := by
  cases h_dump : s.modelDump with
  | none => rw [saveSession_of_raises h_dump]
  | some data =>
    rw [saveSession_index h_dump]
    exact Dict.get?_set_ne _ _ (Ne.symm h)

/-- A file that is there after a save was there, or is the one that was saved. -/
theorem file_of_saveSession {st : FileStore} {s s' : AgentSession} {p : Path}
    (h : (st.saveSession s).files.get? p = some s') :
    st.files.get? p = some s' ∨ p = path (st.locationOf s) s.sessionId := by
  -- a session that cannot be dumped is not saved
  cases h_dump : s.modelDump with
  | none =>
    rw [saveSession_of_raises h_dump] at h
    exact .inl h
  -- another one is written to its own file
  | some data =>
    rw [saveSession_files h_dump, Dict.get?_set] at h
    split_ifs at h with h_p
    · exact .inr h_p.symm
    · exact .inl h

/-- A file that is there after a deletion was there. -/
theorem file_of_deleteSession {st : FileStore} {sessionId : String} {scope : SessionScope}
    {p : Path} {s : AgentSession}
    (h : (st.deleteSession sessionId scope).files.get? p = some s) : st.files.get? p = some s := by
  have h_kept : Dict.get? (st.files.filter fun q =>
      !(st.pathFor sessionId scope).dropLast.isPrefixOf q.1) p = some s := h
  rw [Dict.get?_filter st.files fun q =>
    !(st.pathFor sessionId scope).dropLast.isPrefixOf q] at h_kept
  split_ifs at h_kept
  exact h_kept

/-- The folder of a session's file is its directory. -/
theorem dropLast_pathFor (st : FileStore) (sessionId : String) (scope : SessionScope) :
    (st.pathFor sessionId scope).dropLast =
      FileOp.directoryAt (resolveLocation st.index sessionId scope none) sessionId := by
  unfold pathFor path FileOp.directoryAt
  rw [sessionFile_eq, List.dropLast_concat]

/-- **An operation changes files in its directory only.** -/
theorem get?_run (st : FileStore) (op : FileOp) {p : Path} (h : ¬ op.directory st <+: p) :
    (op.run st).files.get? p = st.files.get? p := by
  cases op with
  | save s => exact st.get?_saveSession s h
  | load sessionId scope => exact congrArg (Dict.get? · p) (st.afterLoad_files sessionId scope)
  | append sessionId turn scope =>
    simp only [FileOp.directory] at h
    show (st.appendTurn sessionId turn scope).files.get? p = _
    unfold appendTurn
    cases h_load : st.loadSession sessionId scope with
    | none =>
      show (st.afterLoad sessionId scope).files.get? p = _
      rw [afterLoad_files]
    | some s =>
      rw [h_load] at h
      have h_saved := (st.afterLoad sessionId scope).get?_saveSession (s.addTurn turn) h
      rw [← st.afterLoad_files sessionId scope]
      exact h_saved
  -- delete removes what lies below the directory it resolves to
  | delete sessionId scope =>
    have h_dir := st.dropLast_pathFor sessionId scope
    show Dict.get? (st.files.filter fun q =>
      !(st.pathFor sessionId scope).dropLast.isPrefixOf q.1) p = _
    rw [h_dir, Dict.get?_filter st.files fun q =>
      !(FileOp.directoryAt (resolveLocation st.index sessionId scope none) sessionId).isPrefixOf q,
      if_pos]
    rw [Bool.not_eq_true', ← Bool.not_eq_true, List.isPrefixOf_iff_prefix]
    exact h

/-- An operation changes the index entries of the ids it is about only. -/
theorem lookup_run (st : FileStore) (op : FileOp) {id : String} (h : ¬ op.Concerns st id) :
    (op.run st).index.lookup id = st.index.lookup id := by
  -- by cases on the call
  cases op with
  | save s => exact st.lookup_saveSession s h
  | load sessionId scope => exact st.lookup_afterLoad scope h
  -- an append saves the session that it loaded
  | append sessionId turn scope =>
    have h_id : id ≠ sessionId := fun h_eq => h (.inl h_eq)
    show (st.appendTurn sessionId turn scope).index.lookup id = _
    unfold appendTurn
    cases h_load : st.loadSession sessionId scope with
    | none => exact st.lookup_afterLoad scope h_id
    | some s =>
      have h_s : id ≠ s.sessionId := fun h_eq => h (.inr ⟨s, h_load, h_eq⟩)
      have h_saved := (st.afterLoad sessionId scope).lookup_saveSession (s.addTurn turn) h_s
      rw [← st.lookup_afterLoad scope h_id]
      exact h_saved
  -- a delete unregisters its own id only
  | delete sessionId scope =>
    have h : id ≠ sessionId := h
    show Dict.get? (Dict.erase st.index sessionId) id = _
    rw [Dict.get?_erase, if_neg h]
    rfl

/-- Where a session is looked for depends on its own index entry at most. -/
theorem pathFor_congr {st st' : FileStore} {sessionId : String} {scope : SessionScope}
    (h : st'.index.lookup sessionId = st.index.lookup sessionId ∨ scope.namesBoth = true) :
    st'.pathFor sessionId scope = st.pathFor sessionId scope := by
  unfold pathFor resolveLocation
  rcases h with h | h
  · rw [h]
  · unfold SessionScope.namesBoth at h
    simp [h]

end FileStore

/-! ### Ids the sanitizer leaves alone -/

/-- A text that is a component as it stands. -/
structure Plain (s : String) : Prop where
  stripped : PyStr.strip s = s
  clean : replaceUnsafe s.toList = s.toList
  nonempty : s ≠ ""
  not_dot : s ≠ "."

/-- An optional id that is plain and not the name of the default directory. -/
def PlainId (id : Option String) : Prop := ∀ s ∈ id, Plain s ∧ s ≠ "_default"

theorem Plain.sanitize {s : String} (h : Plain s) (fallback : String) :
    sanitizeSegment (some s) fallback = s := by
  unfold sanitizeSegment PyStr.isBlank
  simp [h.stripped, h.clean, h.nonempty]

theorem Plain.join {s : String} (h : Plain s) (p : Path) : p.join s = p ++ [s] := by
  unfold Path.join
  rw [if_neg (not_or.mpr ⟨h.nonempty, h.not_dot⟩)]

/-- A plain id is sanitized to itself. -/
theorem PlainId.sanitize {id : Option String} (h : PlainId id) :
    sanitizeSegment id "_default" = id.getD "_default" := by
  cases id with
  | none => rfl
  | some s => exact (h s rfl).1.sanitize _

/-- A plain id is joined as it is. -/
theorem PlainId.join {id : Option String} (h : PlainId id) (p : Path) :
    p.join (id.getD "_default") = p ++ [id.getD "_default"] := by
  cases id with
  | none =>
    unfold Path.join
    rw [if_neg (by decide)]
  | some s => exact (h s rfl).1.join p

/-- Plain ids with the same folder are the same. -/
theorem PlainId.getD_inj {id id' : Option String} (h : PlainId id) (h' : PlainId id')
    (h_eq : id.getD "_default" = id'.getD "_default") : id = id' := by
  cases id with
  | none =>
    cases id' with
    | none => rfl
    | some s' => exact absurd h_eq.symm (h' s' rfl).2
  | some s =>
    cases id' with
    | none => exact absurd h_eq (h s rfl).2
    | some s' => exact congrArg some h_eq

/-- The directory of a session with plain ids. -/
theorem sessionDir_plain {tenantId userId : Option String} {sessionId : String}
    (h_t : PlainId tenantId) (h_u : PlainId userId) (h_s : Plain sessionId) :
    sessionDir tenantId userId sessionId =
      [tenantId.getD "_default", "users", userId.getD "_default", sessionId] := by
  unfold sessionDir tenantUserDir normalizeTenantId normalizeUserId
  have h_users : ∀ p : Path, p.join "users" = p ++ ["users"] := by
    intro p
    unfold Path.join
    rw [if_neg (by decide)]
  rw [h_t.sanitize, h_u.sanitize, h_s.sanitize, h_t.join, h_users, h_u.join, h_s.join]
  rfl

/-- **Sessions with plain ids are apart**: only its own directory contains a session's file. -/
theorem eq_of_sessionDir_prefix {tenantId userId tenantId' userId' : Option String}
    {sessionId sessionId' : String} (h_t : PlainId tenantId) (h_u : PlainId userId)
    (h_s : Plain sessionId) (h_t' : PlainId tenantId') (h_u' : PlainId userId')
    (h_s' : Plain sessionId')
    (h : sessionDir tenantId userId sessionId <+: sessionFile tenantId' userId' sessionId') :
    tenantId = tenantId' ∧ userId = userId' ∧ sessionId = sessionId' := by
  rw [sessionFile_eq, sessionDir_plain h_t h_u h_s, sessionDir_plain h_t' h_u' h_s'] at h
  simp only [List.cons_append, List.cons_prefix_cons, List.nil_append] at h
  exact ⟨h_t.getD_inj h_t' h.1, h_u.getD_inj h_u' h.2.2.1, h.2.2.2.1⟩

end Nexus
