import NexusAgent.Multiagent.Orchestrator

/-!
# Root chats and member sessions

A call of a group on behalf of a root chat is to run the group's members on the member
sessions of this root. The session ids are fixed when the group is built, so they are those
of the root it was built with, whatever root a call names; and a group built without a root
has runners that go on with the session of their first run.

* `Anchored`: the runners of a group hold the member ids of one root, or none but fresh ids.
* `RunsOn`: a member run works under one session id, and touches no entry but this one's and
  that of its curator.
* `roots_bound_iff`: the member runs of a sequence of calls are bound to the roots of their
  calls exactly when these are the root the group was built with.
* `roots_mixed`: a call with another root.
-/

open Lib

namespace Nexus

variable {a : StoreAdapter}

/-! ### Member ids -/

/-- Different groups give a member different sessions. -/
theorem memberSessionId_injective (memberName pre : String) :
    Function.Injective (memberSessionId · memberName pre) := by
  intro r r' h
  have h_chars := congrArg String.toList h
  simpa [memberSessionId, String.toList_inj] using h_chars

theorem underscore_memberSessionId (root memberName pre : String) :
    '_' ∈ (memberSessionId root memberName pre).toList := by
  simp [memberSessionId]

/-- A member's session id is not empty. -/
theorem truthy_memberSessionId (root memberName pre : String) :
    truthy (some (memberSessionId root memberName pre)) =
      some (memberSessionId root memberName pre) := by
  have h_some : memberSessionId root memberName pre ≠ "" := by
    intro h
    have h_mem := underscore_memberSessionId root memberName pre
    rw [h] at h_mem
    simp at h_mem
  simp [truthy, h_some]

/-- A true text is the text itself. -/
theorem of_truthy {field : Option String} {s : String} (h : truthy field = some s) :
    field = some s := by
  unfold truthy at h
  split at h
  · split_ifs at h
    exact h
  · cases h

/-- Every runner of a group has a member session for every root. -/
theorem sessionOf_isSome {m : Member} {path : List String} {sid : Option String}
    (h : m.runnerAt path = some sid) (root : String) : ∃ s, m.sessionOf root path = some s := by
  induction path generalizing m root with
  | nil =>
    cases m with
    | runner => exact ⟨root, rfl⟩
    | orchestrator => cases h
  -- the path leads through a member
  | cons name path ih =>
    cases m with
    | runner => cases h
    | orchestrator pre ctx members =>
      obtain ⟨member, h_get, h_member⟩ := Option.bind_eq_some_iff.mp h
      -- whose session hangs on the session of this group
      obtain ⟨s, h_s⟩ := ih h_member (memberSessionId root name pre)
      exact ⟨s, Option.bind_eq_some_iff.mpr ⟨member, h_get, h_s⟩⟩

/-- **Different roots have different member sessions.** -/
theorem root_of_sessionOf {m : Member} {path : List String} {root root' s : String}
    (h : m.sessionOf root path = some s) (h' : m.sessionOf root' path = some s) : root = root' := by
  induction path generalizing m root root' with
  | nil =>
    cases m with
    | runner => exact (Option.some.inj h).trans (Option.some.inj h').symm
    | orchestrator => cases h
  | cons name path ih =>
    cases m with
    | runner => cases h
    | orchestrator pre ctx members =>
      -- both sessions are found through the same member
      obtain ⟨member, h_get, h_member⟩ := Option.bind_eq_some_iff.mp h
      obtain ⟨member', h_get', h_member'⟩ := Option.bind_eq_some_iff.mp h'
      obtain rfl := Option.some.inj (h_get.symm.trans h_get')
      -- whose session id tells the root
      exact memberSessionId_injective name pre (ih h_member h_member')

/-- A group is a group for every root: the id of a member below it is made of its name. -/
theorem underscore_sessionOf {pre : String} {ctx : Option String} {members : List (String × Member)}
    {path : List String} {root s : String}
    (h : (Member.orchestrator pre ctx members).sessionOf root path = some s) : '_' ∈ s.toList := by
  -- an id below has the id of its parent as a part
  have h_deep : ∀ (path : List String) (m : Member) (root : String), '_' ∈ root.toList →
      ∀ s, m.sessionOf root path = some s → '_' ∈ s.toList := by
    intro path
    induction path with
    | nil =>
      intro m root h_root s h
      cases m with
      | runner =>
        obtain rfl := Option.some.inj h
        exact h_root
      | orchestrator => cases h
    | cons name path ih =>
      intro m root _ s h
      cases m with
      | runner => cases h
      | orchestrator pre ctx members =>
        obtain ⟨member, -, h_member⟩ := Option.bind_eq_some_iff.mp h
        exact ih member _ (underscore_memberSessionId root name pre) s h_member
  cases path with
  | nil => cases h
  | cons name path =>
    obtain ⟨member, -, h_member⟩ := Option.bind_eq_some_iff.mp h
    exact h_deep path member _ (underscore_memberSessionId root name pre) s h_member

/-! ### Adopting an id -/

/-- Adopting a session id leaves the ids that a root leads to. -/
theorem sessionOf_adopt (m : Member) (sid root : String) (path path' : List String) :
    (m.adopt sid path).sessionOf root path' = m.sessionOf root path' := by
  induction path generalizing m root path' with
  | nil =>
    cases m with
    | runner => cases path' <;> rfl
    | orchestrator => rfl
  | cons name path ih =>
    cases m with
    | runner => rfl
    | orchestrator pre ctx members =>
      unfold Member.adopt
      cases h_get : Dict.get? members name with
      | none => rfl
      | some member =>
        cases path' with
        | nil => rfl
        | cons name' path' =>
          simp only [Member.sessionOf]
          -- only the member on the way is changed, and by induction not in its sessions
          rw [Dict.get?_set]
          by_cases h_name : name = name'
          · subst h_name
            rw [if_pos rfl, h_get]
            exact ih member _ path'
          · rw [if_neg h_name]

/-- Only the runner at the path takes the id. -/
theorem runnerAt_adopt {m : Member} {sid : String} {path path' : List String}
    {sid' : Option String} (h : (m.adopt sid path).runnerAt path' = some sid') :
    sid' = some sid ∧ path' = path ∨ m.runnerAt path' = some sid' := by
  induction path generalizing m path' with
  | nil =>
    cases m with
    | runner =>
      cases path' with
      | nil => exact .inl ⟨(Option.some.inj h).symm, rfl⟩
      | cons => cases h
    | orchestrator => exact .inr h
  | cons name path ih =>
    cases m with
    | runner => exact .inr h
    | orchestrator pre ctx members =>
      unfold Member.adopt at h
      cases h_get : Dict.get? members name with
      | none =>
        rw [h_get] at h
        exact .inr h
      | some member =>
        rw [h_get] at h
        cases path' with
        | nil => cases h
        | cons name' path' =>
          simp only [Member.runnerAt] at h ⊢
          rw [Dict.get?_set] at h
          -- only the member of the name that is gone down to is replaced
          by_cases h_name : name = name'
          · subst h_name
            rw [if_pos rfl] at h
            rw [h_get]
            rcases ih h with ⟨h_sid, rfl⟩ | h_old
            · exact .inl ⟨h_sid, rfl⟩
            · exact .inr h_old
          · rw [if_neg h_name] at h
            exact .inr h

/-! ### Anchored groups -/

/-- The runners of a group hold the ids of the root it was built with; built without one, they
hold no id or a fresh one. -/
structure Anchored (root : Option String) (m : Member) : Prop where
  bound : ∀ r, truthy root = some r → ∀ path sid, m.runnerAt path = some sid →
    m.sessionOf r path = sid
  free : truthy root = none → ∀ path s, m.runnerAt path = some (some s) → '_' ∉ s.toList

/-- What `_init_members` puts under a name is a member built with the child's id. -/
theorem get?_initMembers {pre : String} {ctx : Option String} {configs : List MemberConfig}
    {built : Dict String Member} {name : String} {m : Member}
    (h : Dict.get? (initMembers pre ctx built configs) name = some m) :
    Dict.get? built name = some m ∨
      ∃ config, m = initMember (childSessionId pre ctx name) config := by
  induction configs generalizing built with
  | nil => exact .inl (by simpa [initMembers] using h)
  | cons config configs ih =>
    rw [initMembers] at h
    rcases ih h with h_built | h_config
    · -- a member of the same name replaces the one that was built
      rw [Dict.get?_set] at h_built
      split_ifs at h_built with h_name
      · subst h_name
        exact .inr ⟨config, (Option.some.inj h_built).symm⟩
      · exact .inl h_built
    · exact .inr h_config

/-- A runner below a member has the session of the root it was built with. -/
theorem runnerAt_initMember {path : List String} {config : MemberConfig} {ctx sid : Option String}
    (h : (initMember ctx config).runnerAt path = some sid) :
    (∀ r, truthy ctx = some r → path ≠ [] → (initMember ctx config).sessionOf r path = sid) ∧
      (truthy ctx = none → path ≠ [] → sid = none) ∧ (path = [] → sid = ctx) := by
  induction path generalizing config ctx with
  | nil =>
    refine ⟨fun _ _ h_path => absurd rfl h_path, fun _ h_path => absurd rfl h_path, fun _ => ?_⟩
    cases config with
    | agent => rw [initMember] at h; exact (Option.some.inj h).symm
    | group => rw [initMember] at h; cases h
  | cons name path ih =>
    cases config with
    | agent => rw [initMember] at h; cases h
    | group name' pre members =>
      rw [initMember] at h
      obtain ⟨member, h_get, h_member⟩ := Option.bind_eq_some_iff.mp h
      -- members are made of their configurations one by one, from no members at all
      rcases get?_initMembers h_get with h_none | ⟨config, rfl⟩
      · cases h_none
      obtain ⟨h_bound, h_free, h_here⟩ := ih h_member
      -- a root with a session names the sessions of its members, one without names none
      refine ⟨fun r h_r _ => ?_, fun h_none _ => ?_, fun h_path => by cases h_path⟩
      · have h_child : childSessionId pre ctx name = some (memberSessionId r name pre) := by
          rw [childSessionId, h_r]
          rfl
        rw [initMember]
        show (Dict.get? (initMembers pre ctx [] members) name).bind _ = sid
        rw [h_get, Option.bind_some]
        by_cases h_path : path = []
        · rw [h_here h_path, h_child]
          subst h_path
          cases config with
          | agent => rw [initMember]; rfl
          | group => rw [initMember] at h_member; cases h_member
        · exact h_bound _ (by rw [h_child, truthy_memberSessionId]) h_path
      · have h_child : childSessionId pre ctx name = none := by
          rw [childSessionId, h_none]
          rfl
        by_cases h_path : path = []
        · rw [h_here h_path, h_child]
        · exact h_free (by rw [h_child]; rfl) h_path

/-- **A group is built anchored** to the root of its context. -/
theorem anchored_init (root : Option String) (name pre : String) (members : List MemberConfig) :
    Anchored root (initMember root (.group name pre members)) := by
  -- the group itself is no runner
  have h_path : ∀ path sid, (initMember root (.group name pre members)).runnerAt path = some sid →
      path ≠ [] := by
    rintro path sid h rfl
    rw [initMember] at h
    cases h
  constructor
  · intro r h_r path sid h
    exact (runnerAt_initMember h).1 r h_r (h_path path sid h)
  · intro h_none path s h
    cases (runnerAt_initMember h).2.1 h_none (h_path path _ h)

/-- The context of the group itself plays no part. -/
theorem Anchored.withSessionId {root : Option String} {m : Member} (h : Anchored root m)
    (sid : Option String) : Anchored root (m.withSessionId sid) := by
  -- the id of a group is none of its runners' ids
  have h_runner : ∀ path, (m.withSessionId sid).runnerAt path = m.runnerAt path := by
    intro path
    cases m <;> cases path <;> rfl
  have h_session : ∀ r path, (m.withSessionId sid).sessionOf r path = m.sessionOf r path := by
    intro r path
    cases m <;> cases path <;> rfl
  constructor
  · intro r h_r path sid' h_at
    rw [h_runner] at h_at
    rw [h_session]
    exact h.bound r h_r path sid' h_at
  · intro h_none path s h_at
    rw [h_runner] at h_at
    exact h.free h_none path s h_at

/-- A runner keeps the id it worked under: its own, or a fresh one. -/
theorem Anchored.adopt {root : Option String} {m : Member} (h : Anchored root m) {sid : String}
    {path : List String} {old : Option String} (h_at : m.runnerAt path = some old)
    (h_bound : ∀ r, truthy root = some r → m.sessionOf r path = some sid)
    (h_free : truthy root = none → '_' ∉ sid.toList) : Anchored root (m.adopt sid path) := by
  constructor
  · intro r h_r path' sid' h_at'
    rw [sessionOf_adopt]
    -- the runner that adopted the id, or another one
    rcases runnerAt_adopt h_at' with ⟨rfl, rfl⟩ | h_old
    · exact h_bound r h_r
    · exact h.bound r h_r path' sid' h_old
  · intro h_none path' s h_at'
    -- likewise without a root
    rcases runnerAt_adopt h_at' with ⟨h_s, -⟩ | h_old
    · obtain rfl := Option.some.inj h_s
      exact h_free h_none
    · exact h.free h_none path' s h_old

/-! ### Member runs -/

/-- A member run works on the session `sid` and on no other, save its curator's. -/
structure RunsOn (r : MemberRunRecord a) (sid : String) : Prop where
  session : r.sessionId = sid
  others : ∀ other, other ≠ sid → other ≠ curatorId sid →
    r.after.find? other = r.before.find? other

/-- A member run of a call with a root is bound to the member session of this root. -/
def BoundToRoot (group : Member) (r : MemberRunRecord a) : Prop :=
  ∀ root, r.root = some root → ∃ sid, group.sessionOf root r.path = some sid ∧ RunsOn r sid

/-- What is true of every member run of a group that was built with `root`: it works on one
session, which is the member session of `root`, or one of a fresh id. -/
structure MemberRan (root : Option String) (group : Member) (r : MemberRunRecord a) : Prop where
  runsOn : RunsOn r r.sessionId
  bound : ∀ r', truthy root = some r' → group.sessionOf r' r.path = some r.sessionId
  free : truthy root = none → '_' ∉ r.sessionId.toList
  exists_session : ∀ r', ∃ s, group.sessionOf r' r.path = some s ∧ '_' ∈ s.toList

/-- Only the root the group was built with has the session a member ran on. -/
theorem MemberRan.boundToRoot_iff {root : Option String} {group : Member} {r : MemberRunRecord a}
    (h : MemberRan root group r) :
    BoundToRoot group r ↔ ∀ r', r.root = some r' → truthy root = some r' := by
  constructor
  · intro h_bound r' h_root
    obtain ⟨sid, h_sid, h_runs⟩ := h_bound r' h_root
    -- the runner ran on the session it had
    obtain rfl := h_runs.session
    cases h_built : truthy root with
    -- without a root its id has no underscore, so no root leads to it
    | none =>
      obtain ⟨s, h_s, h_underscore⟩ := h.exists_session r'
      obtain rfl := Option.some.inj (h_s.symm.trans h_sid)
      exact absurd h_underscore (h.free h_built)
    -- a root that leads to it is the one it was built with
    | some r'' => rw [root_of_sessionOf (h.bound r'' h_built) h_sid]
  · intro h_same r' h_root
    exact ⟨r.sessionId, h.bound r' (h_same r' h_root), h.runsOn⟩

/-- A group as it was built, but for the ids its runners adopted and that of its own context. -/
structure BuiltAs (root : Option String) (built m : Member) : Prop where
  anchored : Anchored root m
  sessions : ∀ r path, m.sessionOf r path = built.sessionOf r path

section Calls

variable {root : Option String} {name pre : String} {members : List MemberConfig}
  {g : GroupState a}

/-- A session id does not change what was built. -/
theorem BuiltAs.withSessionId {built m : Member} (h : BuiltAs root built m) (sid : Option String) :
    BuiltAs root built (m.withSessionId sid) where
  anchored := h.anchored.withSessionId sid
  sessions r path := by
    rw [← h.sessions r path]
    cases m <;> cases path <;> rfl

/-- The session of a group's member has an underscore. -/
theorem underscore_built {r s : String} {path : List String}
    (h : (initMember root (.group name pre members)).sessionOf r path = some s) :
    '_' ∈ s.toList := by
  rw [initMember] at h
  exact underscore_sessionOf h

/-- **One member run.** -/
theorem runMember_ran (run : MemberRun a)
    (h : BuiltAs root (initMember root (.group name pre members)) g.group) :
    (∀ r, (g.runMember run).1 = some r →
      MemberRan root (initMember root (.group name pre members)) r) ∧
    BuiltAs root (initMember root (.group name pre members)) (g.runMember run).2.group := by
  unfold GroupState.runMember
  cases h_at : g.group.runnerAt run.path with
  | none => exact ⟨nofun, h⟩
  | some old =>
    -- a root with a session gave the runner one, and the run keeps it
    have h_bound : ∀ r, truthy root = some r → g.group.sessionOf r run.path =
        some ((truthy old).getD run.env.freshId) := by
      intro r h_r
      have h_old := h.anchored.bound r h_r run.path old h_at
      obtain ⟨s, h_s⟩ := sessionOf_isSome h_at r
      obtain rfl : some s = old := h_s.symm.trans h_old
      have h_underscore := underscore_built ((h.sessions r run.path).symm.trans h_s)
      have h_ne : s ≠ "" := by
        rintro rfl
        simp at h_underscore
      rw [h_s]
      simp [truthy, h_ne]
    -- under a root without one the id is fresh, or one adopted before
    have h_free : truthy root = none → '_' ∉ ((truthy old).getD run.env.freshId).toList := by
      intro h_none
      cases h_old : truthy old with
      | none => exact run.fresh
      | some s =>
        exact h.anchored.free h_none run.path s (h_at.trans (congrArg some (of_truthy h_old)))
    refine ⟨fun r h_r => ?_, ⟨?_, fun r path => ?_⟩⟩
    · obtain rfl := Option.some.inj h_r
      refine ⟨⟨rfl, fun other h_other h_curator => ?_⟩, fun r h_r => ?_, h_free, fun r => ?_⟩
      · exact find?_run_others _ run.stream run.memberArgs g.store (curatorWrites_derived _ _)
          h_other (by simpa using h_curator)
      · exact (h.sessions r run.path).symm.trans (h_bound r h_r)
      · obtain ⟨s, h_s⟩ := sessionOf_isSome h_at r
        have h_built := (h.sessions r run.path).symm.trans h_s
        exact ⟨s, h_built, underscore_built h_built⟩
    · exact h.anchored.adopt h_at h_bound h_free
    · exact (sessionOf_adopt _ _ r run.path path).trans (h.sessions r path)

/-- The member runs of a call. -/
theorem runMembers_ran (runs : List (MemberRun a))
    (h : BuiltAs root (initMember root (.group name pre members)) g.group) :
    (∀ r ∈ (g.runMembers runs).1,
      MemberRan root (initMember root (.group name pre members)) r) ∧
    BuiltAs root (initMember root (.group name pre members)) (g.runMembers runs).2.group := by
  induction runs generalizing g with
  | nil => exact ⟨nofun, h⟩
  | cons run runs ih =>
    obtain ⟨h_record, h_built⟩ := runMember_ran run h
    obtain ⟨h_records, h_end⟩ := ih h_built
    refine ⟨fun r h_r => ?_, h_end⟩
    -- the record of the first run, or a later one
    rcases List.mem_append.mp h_r with h_first | h_rest
    · exact h_record r (Option.mem_toList.mp h_first)
    · exact h_records r h_rest

/-- The member runs of a sequence of calls. -/
theorem records_ran (calls : List (GroupCall a))
    (h : BuiltAs root (initMember root (.group name pre members)) g.group) :
    ∀ r ∈ g.records calls, MemberRan root (initMember root (.group name pre members)) r := by
  induction calls generalizing g with
  | nil => nofun
  | cons c calls ih =>
    -- a call sets the group's own id and leaves its members
    obtain ⟨h_records, h_end⟩ := runMembers_ran (g := { g with
      group := g.group.withSessionId (pyOr c.sessionId g.group.contextSessionId) })
      c.runs (h.withSessionId _)
    intro r h_r
    rcases List.mem_append.mp h_r with h_first | h_rest
    · exact h_records r h_first
    · exact ih h_end r h_rest

end Calls

/-- The group `name` with the store `st`, built with the root id `root`. -/
def GroupState.init (root : Option String) (name pre : String) (members : List MemberConfig)
    (st : Store a) : GroupState a :=
  ⟨initMember root (.group name pre members), st⟩

/-- **The member runs of a group are bound to the roots of their calls** exactly when every
call that runs a member is one for the root the group was built with. -/
theorem roots_bound_iff (root : Option String) (name pre : String) (members : List MemberConfig)
    (st : Store a) (calls : List (GroupCall a)) :
    (∀ r ∈ (GroupState.init root name pre members st).records calls,
        BoundToRoot (initMember root (.group name pre members)) r) ↔
      ∀ r ∈ (GroupState.init root name pre members st).records calls,
        ∀ r', r.root = some r' → truthy root = some r' := by
  have h_built : BuiltAs root (initMember root (.group name pre members))
      (GroupState.init root name pre members st).group :=
    ⟨anchored_init root name pre members, fun _ _ => rfl⟩
  have h_ran := records_ran calls h_built
  exact forall₂_congr fun r h_r => (h_ran r h_r).boundToRoot_iff

/-- A run of the member `helper`. -/
def helperRun : MemberRun .memory where
  path := ["helper"]
  env := { proxy := .scripted [{ content := some "Done." }] }
  args := { userMessage := "Go on." }
  fresh := by decide

/-- **A call for the chat `b` of a group built for the chat `a` runs its member on the member
session of `a`.** -/
theorem roots_mixed :
    ¬∀ r ∈ (GroupState.init (some "a") "team" "" [.agent "helper"] (.empty .memory)).records
        [{ sessionId := some "b", runs := [helperRun] }],
      BoundToRoot (initMember (some "a") (.group "team" "" [.agent "helper"])) r := by
  intro h
  -- the one record: root `b`, session `a_helper`
  have h_records : ((GroupState.init (some "a") "team" "" [.agent "helper"] (.empty .memory)).records
      [{ sessionId := some "b", runs := [helperRun] }]).map
        (fun r => (r.root, r.path, r.sessionId)) = [(some "b", ["helper"], "a_helper")] := by
    decide +kernel
  -- `b` leads the helper to `b_helper`
  have h_target : (initMember (some "a") (.group "team" "" [.agent "helper"])).sessionOf "b"
      ["helper"] = some "b_helper" := by decide +kernel
  obtain ⟨r, h_r, h_eq⟩ := List.mem_map.mp (h_records ▸ List.mem_singleton_self _)
  obtain ⟨h_root, h_rest⟩ := Prod.mk.inj h_eq
  obtain ⟨h_path, h_session⟩ := Prod.mk.inj h_rest
  -- but it ran on the other one
  obtain ⟨sid, h_sid, h_runs⟩ := h r h_r "b" h_root
  rw [h_path, h_target] at h_sid
  rw [← Option.some.inj h_sid] at h_runs
  exact absurd (h_session.symm.trans h_runs.session) (by decide)

end Nexus
