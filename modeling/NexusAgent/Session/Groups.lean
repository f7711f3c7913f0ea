import NexusAgent.Session.Aggregate

/-!
# Which sessions a group view shows

A view is asked for by the root id alone, and the sessions of the group are found by reading
ids: a session is shown as the member `x` of a root when its id is the root's, an underscore
and `x`. The underscore may occur in roots and in names.

* `mem_memberSessions_loadSessionGroup` says which sessions a view shows as members', under
  every pattern.
* `sessionGroups_separate_iff`: views show the member sessions of their own root, all of them,
  and ids name one member each, exactly when no name is among the few that ids do not keep and
  no session of the scope can be read as the member of a root it does not belong to.
-/

open Lib

namespace Nexus

/-! ### What trees show -/

/-- The nodes of a tree. -/
def treeNodes (tops : List TopNode) : List SessionNode :=
  tops.flatMap fun top => top.toSessionNode :: top.children

/-- The sessions a tree shows as members', with the names. -/
def memberSessionsOf (tops : List TopNode) : List (String × String) :=
  (treeNodes tops).filterMap fun node => node.memberName.map (·, node.sessionId)

/-- The sessions a view shows as members'. -/
def SessionGroupView.memberSessions (view : SessionGroupView) : List (String × String) :=
  memberSessionsOf view.sessions

/-- A tree shows the member sessions in `d`. -/
def Shows (d : Dict String TimedSession) (tops : List TopNode) : Prop :=
  ∀ name id, (name, id) ∈ memberSessionsOf tops ↔ ∃ s, (name, s) ∈ d ∧ s.sessionId = id

/-- The pairs listed are the member names and ids of the nodes. -/
theorem mem_memberSessionsOf {tops : List TopNode} {name id : String} :
    (name, id) ∈ memberSessionsOf tops ↔ ∃ top ∈ tops, ∃ node : SessionNode,
      (node = top.toSessionNode ∨ node ∈ top.children) ∧ node.memberName = some name ∧
        node.sessionId = id := by
  simp only [memberSessionsOf, treeNodes, List.mem_filterMap, List.mem_flatMap, List.mem_cons,
    Option.map_eq_some_iff, Prod.mk.injEq]
  constructor
  · rintro ⟨node, ⟨top, h_top, h_node⟩, _, h_name, rfl, rfl⟩
    exact ⟨top, h_top, node, h_node, h_name, rfl⟩
  · rintro ⟨top, h_top, node, h_node, h_name, rfl⟩
    exact ⟨node, ⟨top, h_top, h_node⟩, name, h_name, rfl, rfl⟩

/-- The chronological tree shows every session. -/
theorem shows_chronological (d : Dict String TimedSession) :
    Shows d (buildChronologicalTree d) := by
  intro name id
  rw [mem_memberSessionsOf]
  simp only [buildChronologicalTree, List.mem_insertionSort, List.mem_map]
  constructor
  · -- a node of the tree stands for a session
    rintro ⟨_, ⟨⟨key, s⟩, h_mem, rfl⟩, node, rfl | h_child, h_name, rfl⟩
    · obtain rfl := Option.some.inj h_name
      exact ⟨s, h_mem, rfl⟩
    · cases h_child
  · -- and each session has its node
    rintro ⟨s, h_mem, rfl⟩
    exact ⟨_, ⟨(name, s), h_mem, rfl⟩, _, .inl rfl, rfl, rfl⟩

/-! ### Groups whose ids tell the names -/

variable {d : Dict String TimedSession} {idOf : String → String}

/-- So does the pipeline tree, if the ids are those of the names. -/
theorem shows_pipeline (h_ids : ∀ p ∈ d, p.2.sessionId = idOf p.1) :
    Shows d (buildPipelineTree d (d.map Prod.fst)) := by
  intro name id
  rw [mem_memberSessionsOf]
  simp only [buildPipelineTree, List.mem_filterMap, List.mem_map, Option.map_eq_some_iff]
  constructor
  · -- a node of the tree stands for a session
    rintro ⟨_, ⟨key, -, s, h_get, rfl⟩, node, rfl | h_child, h_name, rfl⟩
    · obtain rfl := Option.some.inj h_name
      exact ⟨s, Dict.mem_of_get? h_get, rfl⟩
    · cases h_child
  · -- and each session has a node, under the name that is looked up
    rintro ⟨s, h_mem, rfl⟩
    obtain ⟨s', h_get⟩ := Dict.exists_get?_of_mem h_mem
    refine ⟨_, ⟨name, ⟨_, h_mem, rfl⟩, s', h_get, rfl⟩, _, .inl rfl, rfl, ?_⟩
    exact (h_ids _ (Dict.mem_of_get? h_get)).trans (h_ids _ h_mem).symm

/-- The children of the supervisor belong to the known members called. -/
theorem mem_delegationChildren (cursors : Dict String ℕ) (calls : List (String × ℤ)) :
    (∀ node ∈ delegationChildren d cursors calls, ∃ name s, Dict.get? d name = some s ∧
        node.memberName = some name ∧ node.sessionId = s.sessionId) ∧
      ∀ name ∈ calls.map Prod.fst, ∀ s, Dict.get? d name = some s →
        ∃ node ∈ delegationChildren d cursors calls,
          node.memberName = some name ∧ node.sessionId = s.sessionId := by
  -- by induction on the calls
  induction calls generalizing cursors with
  | nil => exact ⟨by simp [delegationChildren], by simp⟩
  | cons call calls ih =>
    obtain ⟨name, start⟩ := call
    simp only [delegationChildren, List.map_cons, List.forall_mem_cons]
    cases h_get : Dict.get? d name with
    -- a call of an unknown member has no node
    | none => exact ⟨(ih _).1, by simp, (ih _).2⟩
    | some s =>
      -- the node of this call, or one of the others
      refine ⟨List.forall_mem_cons.mpr ⟨⟨name, s, h_get, rfl, rfl⟩, (ih _).1⟩, ?_, ?_⟩
      · rintro _ h_some
        obtain rfl := Option.some.inj h_some
        exact ⟨_, List.mem_cons_self, rfl, rfl⟩
      · intro name' h_name' s' h_get'
        obtain ⟨node, h_node, h_eq⟩ := (ih _).2 name' h_name' s' h_get'
        exact ⟨node, List.mem_cons_of_mem _ h_node, h_eq⟩

/-- So does the supervisor tree. -/
theorem shows_supervisor (h_ids : ∀ p ∈ d, p.2.sessionId = idOf p.1) (supervisorName : Option String) :
    Shows d (buildSupervisorTree d supervisorName) := by
  unfold buildSupervisorTree
  cases pyOr supervisorName (findSupervisorName d) with
  | none => exact shows_chronological d
  | some supervisor =>
    cases h_get : Dict.get? d supervisor with
    | none => simpa only [h_get] using shows_chronological d
    | some s =>
      obtain ⟨h_known, h_called⟩ := mem_delegationChildren (d := d) [] (collectDelegateCalls s)
      intro name id
      simp only [h_get, mem_memberSessionsOf, supervisorTree, List.mem_cons, List.mem_map,
        List.mem_filter]
      constructor
      · -- what is shown is the supervisor, a delegation of it, or a member it never called
        rintro ⟨top, rfl | ⟨⟨key, s'⟩, ⟨h_mem, -⟩, rfl⟩, node, rfl | h_child, h_name, rfl⟩
        · obtain rfl := Option.some.inj h_name
          exact ⟨s, Dict.mem_of_get? h_get, rfl⟩
        · obtain ⟨name', s', h_get', h_name', h_id⟩ := h_known node h_child
          obtain rfl := Option.some.inj (h_name.symm.trans h_name')
          exact ⟨s', Dict.mem_of_get? h_get', h_id.symm⟩
        · obtain rfl := Option.some.inj h_name
          exact ⟨s', h_mem, rfl⟩
        · cases h_child
      · rintro ⟨s', h_mem, rfl⟩
        obtain ⟨s'', h_get'⟩ := Dict.exists_get?_of_mem h_mem
        have h_id : s''.sessionId = s'.sessionId :=
          (h_ids _ (Dict.mem_of_get? h_get')).trans (h_ids _ h_mem).symm
        -- and each session that is there is one of the three
        by_cases h_sup : name = supervisor
        · subst h_sup
          obtain rfl := Option.some.inj (h_get.symm.trans h_get')
          exact ⟨_, .inl rfl, _, .inl rfl, rfl, h_id⟩
        · by_cases h_call : name ∈ (collectDelegateCalls s).map Prod.fst
          · obtain ⟨node, h_node, h_name, h_node_id⟩ := h_called name h_call s'' h_get'
            exact ⟨_, .inl rfl, node, .inr h_node, h_name, h_node_id.trans h_id⟩
          · refine ⟨_, .inr ⟨(name, s'), ⟨h_mem, ?_⟩, rfl⟩, _, .inl rfl, rfl, rfl⟩
            simpa [h_sup] using h_call

/-! ### What a view shows -/

/-- A session id read as the member `name` of a root, in a view. -/
structure ReadAs (root pre id name : String) : Prop where
  eq : id = memberSessionId root name pre
  named : name ≠ ""
  notRoot : name ≠ rootKey
  visible : PyStr.endsWith id internalSessionSuffix = false

/-- The id of an internal session ends as its name does. -/
theorem endsWith_memberSessionId {root name pre : String}
    (h : PyStr.endsWith name internalSessionSuffix = true) :
    PyStr.endsWith (memberSessionId root name pre) internalSessionSuffix = true := by
  rw [PyStr.endsWith, List.isSuffixOf_iff_suffix] at h ⊢
  rw [memberSessionId_eq, String.toList_append]
  exact h.trans (List.suffix_append _ _)

/-- Adding sessions under the names their ids are read as. -/
def addMembers (root pre : String) (d : Dict String TimedSession) (s : TimedSession) :
    Dict String TimedSession :=
  match parseMemberName s.sessionId root pre with
  | some name => Dict.set d name s
  | none => d

theorem sessionsByMember_eq (rootSession : Option TimedSession) (members : List TimedSession)
    (root pre : String) : sessionsByMember rootSession members root pre =
      members.foldl (addMembers root pre) (rootSession.toList.map (rootKey, ·)) := rfl

/-- A folded entry was there before, or is a member whose name is parsed. -/
theorem mem_foldl_addMembers {root pre : String} {members : List TimedSession}
    {d : Dict String TimedSession} {p : String × TimedSession}
    (h : p ∈ members.foldl (addMembers root pre) d) :
    p ∈ d ∨ p.2 ∈ members ∧ parseMemberName p.2.sessionId root pre = some p.1 := by
  -- by induction on the members
  induction members generalizing d with
  | nil => exact .inl h
  | cons s members ih =>
    rcases ih h with h_old | ⟨h_mem, h_parse⟩
    · unfold addMembers at h_old
      cases h_name : parseMemberName s.sessionId root pre with
      -- an unparsed id adds nothing
      | none =>
        rw [h_name] at h_old
        exact .inl h_old
      -- a parsed one is set under its name
      | some name =>
        rw [h_name] at h_old
        rcases Dict.mem_set h_old with ⟨h_key, h_val⟩ | h_old
        · exact .inr ⟨h_val ▸ List.mem_cons_self, by rw [h_val, h_key, h_name]⟩
        · exact .inl h_old
    · exact .inr ⟨List.mem_cons_of_mem _ h_mem, h_parse⟩

/-- A key stays, and the name of a member becomes one. -/
theorem get?_foldl_addMembers {root pre : String} {members : List TimedSession}
    {d : Dict String TimedSession} {name : String}
    (h : (∃ s, Dict.get? d name = some s) ∨
      ∃ s ∈ members, parseMemberName s.sessionId root pre = some name) :
    ∃ s, Dict.get? (members.foldl (addMembers root pre) d) name = some s := by
  -- by induction on the members
  induction members generalizing d with
  | nil => exact h.resolve_right (by simp)
  | cons s members ih =>
    refine ih ?_
    -- an entry is kept, or put in for this member
    have h_set : (∃ s', Dict.get? d name = some s') ∨
        parseMemberName s.sessionId root pre = some name →
        ∃ s', Dict.get? (addMembers root pre d s) name = some s' := by
      unfold addMembers
      cases h_name : parseMemberName s.sessionId root pre with
      | none => simp
      | some name' =>
        rw [Dict.get?_set]
        by_cases h_eq : name' = name <;> simp [h_eq]
    -- a later member may set the name again
    rcases h with h_old | ⟨s', h_mem, h_parse⟩
    · exact .inl (h_set (.inl h_old))
    · rcases List.mem_cons.mp h_mem with rfl | h_mem
      · exact .inl (h_set (.inr h_parse))
      · exact .inr ⟨s', h_mem, h_parse⟩

/-- **The members of a group by name**: the sessions found, under what their ids are read as. -/
theorem mem_withoutRoot {rootSession : Option TimedSession} {members : List TimedSession}
    {root pre name : String} :
    (∃ s, (name, s) ∈ withoutRoot (sessionsByMember rootSession members root pre)) ↔
      name ≠ rootKey ∧ ∃ s ∈ members, parseMemberName s.sessionId root pre = some name := by
  -- the entries but the root's are those of the fold
  simp only [withoutRoot, Dict.erase, List.mem_filter, decide_eq_true_eq, sessionsByMember_eq]
  constructor
  · -- an entry is that of a member
    rintro ⟨s, h_mem, h_root⟩
    rcases mem_foldl_addMembers h_mem with h_old | ⟨h_member, h_parse⟩
    · obtain ⟨s', -, h_eq⟩ := List.mem_map.mp h_old
      exact absurd (congrArg Prod.fst h_eq).symm h_root
    · exact ⟨h_root, s, h_member, h_parse⟩
  · -- and each member has an entry
    rintro ⟨h_root, s, h_member, h_parse⟩
    obtain ⟨s', h_get⟩ := get?_foldl_addMembers (d := rootSession.toList.map (rootKey, ·))
      (.inr ⟨s, h_member, h_parse⟩)
    exact ⟨s', Dict.mem_of_get? h_get, h_root⟩

/-- The ids of the members tell their names. -/
theorem sessionId_withoutRoot {rootSession : Option TimedSession} {members : List TimedSession}
    {root pre : String} :
    ∀ p ∈ withoutRoot (sessionsByMember rootSession members root pre),
      p.2.sessionId = memberSessionId root p.1 pre := by
  intro p h
  obtain ⟨h_mem, h_root⟩ := List.mem_filter.mp h
  rcases mem_foldl_addMembers h_mem with h_old | ⟨-, h_parse⟩
  · obtain ⟨s', -, rfl⟩ := List.mem_map.mp h_old
    simp at h_root
  · exact eq_of_parseMemberName h_parse

/-- A single session is shown, the root's apart. -/
theorem shows_single (d : Dict String TimedSession) : Shows (withoutRoot d) (singleNodes d) := by
  unfold singleNodes
  split
  · -- one session: its own node
    rename_i name s
    intro name' id
    rw [mem_memberSessionsOf]
    by_cases h_root : name = rootKey
    · simp [sessionToNode, TimedSession.node, withoutRoot, Dict.erase, h_root]
    · simp only [withoutRoot, Dict.erase, h_root, List.mem_singleton, exists_eq_left,
        sessionToNode, TimedSession.node]
      constructor
      · rintro ⟨node, rfl | h_child, h_name, rfl⟩
        · obtain rfl := Option.some.inj h_name
          exact ⟨s, by simp [h_root], rfl⟩
        · cases h_child
      · rintro ⟨s', h_mem, rfl⟩
        obtain ⟨rfl, rfl⟩ := Prod.mk.inj (List.mem_singleton.mp (List.mem_of_mem_filter h_mem))
        exact ⟨_, .inl rfl, rfl, rfl⟩
  · -- several: the chronological tree
    exact shows_chronological _

/-- Under every pattern a view shows the members. -/
theorem shows_viewNodes (rootSession : Option TimedSession) (members : List TimedSession)
    (root pre : String) (pattern : ViewPattern) :
    Shows (withoutRoot (sessionsByMember rootSession members root pre))
      (viewNodes pattern none rootSession members
        (sessionsByMember rootSession members root pre)) := by
  cases pattern with
  | single =>
    cases rootSession with
    | none => exact shows_single _
    | some s =>
      cases members with
      | nil =>
        -- the root session alone: no member is found, and none is shown
        intro name id
        simp [mem_memberSessionsOf, viewNodes, sessionToNode, TimedSession.node, withoutRoot,
          sessionsByMember, Dict.erase]
      | cons => exact shows_single _
  | pipeline => exact shows_pipeline sessionId_withoutRoot
  | supervisor => exact shows_supervisor sessionId_withoutRoot none
  | unknown => exact shows_chronological _

/-- A session that is listed without the internal ones and read as a member. -/
theorem readAs_iff {root pre id name : String} :
    ReadAs root pre id name ↔ name ≠ rootKey ∧ isInternalSession id root pre = false ∧
      parseMemberName id root pre = some name := by
  rw [isInternalSession_eq]
  -- the id determines the name, as the name does the id
  constructor
  · -- an id that is made of the name
    rintro ⟨rfl, h_named, h_root, h_visible⟩
    refine ⟨h_root, h_visible, ?_⟩
    rw [parse_memberSessionId, if_neg]
    rintro (h_empty | h_internal)
    · exact h_named h_empty
    · rw [endsWith_memberSessionId h_internal] at h_visible
      cases h_visible
  · -- an id that is parsed to the name
    rintro ⟨h_root, h_visible, h_parse⟩
    obtain rfl := eq_of_parseMemberName h_parse
    refine ⟨rfl, ?_, h_root, h_visible⟩
    rintro rfl
    simp [parse_memberSessionId] at h_parse

/-- **The member sessions a view shows**: those of the scope that can be read as members. -/
theorem mem_memberSessions_loadSessionGroup {store : List TimedSession} {scope : SessionScope}
    {root pre name id : String} {pattern : PatternKind} :
    (name, id) ∈ (loadSessionGroup store scope root pre pattern none false).memberSessions ↔
      ReadAs root pre id name ∧ ∃ s ∈ store, scope.admits s = true ∧ s.sessionId = id := by
  set members := foundMembers store scope root pre false with h_members
  -- the view shows the sessions by their members, without the root
  have h_shown : (name, id) ∈
      (loadSessionGroup store scope root pre pattern none false).memberSessions ↔
      ∃ s, (name, s) ∈ withoutRoot (sessionsByMember (loadTimed store scope root) members root pre) ∧
        s.sessionId = id := by
    have h_view := shows_viewNodes (loadTimed store scope root) members root pre
    unfold loadSessionGroup SessionGroupView.memberSessions
    simp only [← h_members]
    split
    · rename_i h_empty
      simp [h_empty, withoutRoot, Dict.erase, memberSessionsOf, treeNodes]
    · exact h_view _ name id
  -- and they are the sessions that are found, and not internal
  have h_member : ∀ s, s ∈ members ↔ (s ∈ store ∧ scope.admits s = true ∧
      ∃ x, s.sessionId = memberSessionId root x pre) ∧
      isInternalSession s.sessionId root pre = false := by
    intro s
    simp only [h_members, foundMembers, Bool.false_eq_true, if_false, listSessionsByPrefix,
      List.mem_filter, List.mem_insertionSort,
      Bool.and_eq_true, startsWith_groupSessionPrefix, Bool.not_eq_true']
    tauto
  rw [h_shown, readAs_iff]
  constructor
  · rintro ⟨s, h_mem, rfl⟩
    obtain ⟨h_root, s', h_s', h_parse⟩ := mem_withoutRoot.mp ⟨s, h_mem⟩
    have h_id : s.sessionId = s'.sessionId :=
      (sessionId_withoutRoot _ h_mem).trans (eq_of_parseMemberName h_parse).symm
    obtain ⟨⟨h_store, h_admits, -⟩, h_visible⟩ := (h_member s').mp h_s'
    rw [h_id]
    exact ⟨⟨h_root, h_visible, h_parse⟩, s', h_store, h_admits, rfl⟩
  · rintro ⟨⟨h_root, h_visible, h_parse⟩, s, h_store, h_admits, rfl⟩
    have h_eq := eq_of_parseMemberName h_parse
    have h_s := (h_member s).mpr ⟨⟨h_store, h_admits, name, h_eq⟩, h_visible⟩
    obtain ⟨s', h_mem⟩ := mem_withoutRoot.mpr ⟨h_root, s, h_s, h_parse⟩
    exact ⟨s', h_mem, (sessionId_withoutRoot _ h_mem).trans h_eq.symm⟩

/-! ### When views keep groups apart -/

/-- **Groups are kept apart.** For the pairs of a root and a member whose sessions orchestrators
created: the view of a root shows the member sessions created for it and no others, and an id
is that of one pair, whose member is read from it. -/
structure GroupsSeparate (created : List (String × String)) (store : List TimedSession)
    (scope : SessionScope) (pre : String) (pattern : PatternKind) : Prop where
  shown : ∀ p ∈ created, ∀ name id,
    (name, id) ∈ (loadSessionGroup store scope p.1 pre pattern none false).memberSessions ↔
      (p.1, name) ∈ created ∧ id = memberSessionId p.1 name pre
  parsed : ∀ p ∈ created, parseMemberName (memberSessionId p.1 p.2 pre) p.1 pre = some p.2
  unique : ∀ p ∈ created, ∀ q ∈ created,
    memberSessionId p.1 p.2 pre = memberSessionId q.1 q.2 pre → p = q

/-- The condition: no member has a name that its id does not keep; the id of a member of
another root does not go on from a root, an underscore and a name, the empty one and the key of
the root apart; nor does that of any other session of the scope, unless it ends like the id of a
curator. -/
structure IdsSeparate (created : List (String × String)) (store : List TimedSession)
    (scope : SessionScope) (pre : String) : Prop where
  names : ∀ p ∈ created, p.2 ≠ "" ∧ p.2 ≠ rootKey ∧
    PyStr.endsWith (memberSessionId p.1 p.2 pre) internalSessionSuffix = false
  members : ∀ p ∈ created, ∀ q ∈ created, p.1 ≠ q.1 →
    ∀ x, memberSessionId q.1 q.2 pre = memberSessionId p.1 x pre → x = "" ∨ x = rootKey
  others : ∀ p ∈ created, ∀ s ∈ store, scope.admits s = true →
    (∀ q ∈ created, s.sessionId ≠ memberSessionId q.1 q.2 pre) →
    ∀ x, s.sessionId = memberSessionId p.1 x pre →
      x = "" ∨ x = rootKey ∨ PyStr.endsWith s.sessionId internalSessionSuffix = true

variable {created : List (String × String)} {store : List TimedSession} {scope : SessionScope}
  {pre : String} {pattern : PatternKind}

theorem IdsSeparate.readAs (h : IdsSeparate created store scope pre) {p : String × String}
    (h_mem : p ∈ created) : ReadAs p.1 pre (memberSessionId p.1 p.2 pre) p.2 :=
  ⟨rfl, (h.names p h_mem).1, (h.names p h_mem).2.1, (h.names p h_mem).2.2⟩

/-- **Views keep groups apart** exactly when the ids do. -/
theorem sessionGroups_separate_iff
    (h_stored : ∀ p ∈ created, ∃ s ∈ store, scope.admits s = true ∧
      s.sessionId = memberSessionId p.1 p.2 pre) :
    GroupsSeparate created store scope pre pattern ↔ IdsSeparate created store scope pre := by
  constructor
  · intro h
    -- each created session is shown as itself, so it is read so
    have h_reads : ∀ p ∈ created, ReadAs p.1 pre (memberSessionId p.1 p.2 pre) p.2 := fun p hp =>
      (mem_memberSessions_loadSessionGroup.mp ((h.shown p hp p.2 _).mpr ⟨hp, rfl⟩)).1
    refine ⟨fun p hp => ?_, fun p hp q hq h_ne x h_eq => ?_, fun p hp s hs h_admits h_other x h_eq => ?_⟩
    · exact ⟨(h_reads p hp).named, (h_reads p hp).notRoot, (h_reads p hp).visible⟩
    · by_contra h_x
      rw [not_or] at h_x
      have h_read : ReadAs p.1 pre (memberSessionId q.1 q.2 pre) x :=
        ⟨h_eq, h_x.1, h_x.2, (h_reads q hq).visible⟩
      have h_shown := (h.shown p hp x _).mp
        (mem_memberSessions_loadSessionGroup.mpr ⟨h_read, h_stored q hq⟩)
      -- a session of another root that is read here would be shown here as well
      have h_pair : (p.1, x) = q := h.unique _ h_shown.1 q hq h_shown.2.symm
      exact h_ne (by rw [← h_pair])
    · by_contra h_x
      simp only [not_or, Bool.not_eq_true] at h_x
      have h_read : ReadAs p.1 pre s.sessionId x := ⟨h_eq, h_x.1, h_x.2.1, h_x.2.2⟩
      have h_shown := (h.shown p hp x _).mp
        (mem_memberSessions_loadSessionGroup.mpr ⟨h_read, s, hs, h_admits, rfl⟩)
      exact h_other _ h_shown.1 h_shown.2
  · intro h
    -- two created sessions of one id are one
    have h_unique : ∀ p ∈ created, ∀ q ∈ created,
        memberSessionId p.1 p.2 pre = memberSessionId q.1 q.2 pre → p = q := by
      intro p hp q hq h_eq
      by_cases h_root : p.1 = q.1
      · rw [← h_root] at h_eq
        exact Prod.ext h_root (memberSessionId_inj.mp h_eq)
      · obtain ⟨h_named, h_key, -⟩ := h.names p hp
        rcases h.members p hp q hq h_root p.2 h_eq.symm with h_empty | h_rootKey
        · exact absurd h_empty h_named
        · exact absurd h_rootKey h_key
    refine ⟨fun p hp name id => ?_, fun p hp => (readAs_iff.mp (h.readAs hp)).2.2, h_unique⟩
    rw [mem_memberSessions_loadSessionGroup]
    constructor
    · rintro ⟨h_read, s, hs, h_admits, rfl⟩
      refine ⟨?_, h_read.eq⟩
      -- a session that is read here was created here, or else has no name to be read by
      by_cases h_other : ∀ q ∈ created, s.sessionId ≠ memberSessionId q.1 q.2 pre
      · rcases h.others p hp s hs h_admits h_other name h_read.eq with h_x | h_x | h_x
        · exact absurd h_x h_read.named
        · exact absurd h_x h_read.notRoot
        · exact absurd h_x (by simp [h_read.visible])
      · push Not at h_other
        obtain ⟨q, hq, h_id⟩ := h_other
        have h_eq := h_id.symm.trans h_read.eq
        by_cases h_root : p.1 = q.1
        · rw [← h_root] at h_eq
          rw [← memberSessionId_inj.mp h_eq, h_root]
          exact hq
        · rcases h.members p hp q hq h_root name h_eq with h_x | h_x
          · exact absurd h_x h_read.named
          · exact absurd h_x h_read.notRoot
    · rintro ⟨h_mem, rfl⟩
      exact ⟨h.readAs h_mem, h_stored _ h_mem⟩

/-- A store of member sessions. -/
def memberStore (created : List (String × String)) : List TimedSession :=
  created.map fun p => { sessionId := memberSessionId p.1 p.2 "" }

/-- The members of the roots `chat` and `talk`. -/
def talkMembers : List (String × String) := [("chat", "a"), ("chat", "b"), ("talk", "a")]

/-- Two groups that talk at the same time are kept apart. -/
theorem sessionGroups_separate_talk :
    GroupsSeparate talkMembers (memberStore talkMembers) {} "" .auto := by
  refine (sessionGroups_separate_iff ?_).mpr ⟨by decide +kernel, ?_, ?_⟩
  · decide +kernel
  · -- no id of one group starts with the prefix of the other
    have h_apart : ∀ p ∈ talkMembers, ∀ q ∈ talkMembers, p.1 ≠ q.1 →
        PyStr.startsWith (memberSessionId q.1 q.2 "") (groupSessionPrefix p.1 "") = false := by
      decide +kernel
    intro p hp q hq h_ne x h_eq
    have h_starts := startsWith_groupSessionPrefix.mpr ⟨x, h_eq⟩
    rw [h_apart p hp q hq h_ne] at h_starts
    cases h_starts
  · -- each stored session is that of a member
    have h_created : ∀ s ∈ memberStore talkMembers, ∃ q ∈ talkMembers,
        s.sessionId = memberSessionId q.1 q.2 "" := by decide +kernel
    intro p _ s hs _ h_other
    obtain ⟨q, hq, h_id⟩ := h_created s hs
    exact absurd h_id (h_other q hq)

/-- The root `chat_1` goes on from the root `chat`: its member is shown as one of `chat`. -/
theorem sessionGroups_mixed :
    ¬GroupsSeparate [("chat", "a"), ("chat_1", "b")] (memberStore [("chat", "a"), ("chat_1", "b")])
      {} "" .auto := by
  intro h
  have h_shown := (h.shown ("chat", "a") (by simp) "1_b" "chat_1_b").mp (by decide +kernel)
  exact absurd h_shown.1 (by decide)

end Nexus
