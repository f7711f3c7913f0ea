import NexusAgent.Runner.Runs
import NexusAgent.Session.Groups

/-!
# Delegations and the tree of their group

The supervisor of a group calls a member by a tool registered under the plugin `supervisor`,
and its records hold the name the model emitted. The reader of the group's sessions takes a
record for a delegate call when its tool name starts with `delegate_to_`.

* `not_startsWith_of_reachedKey`: a name starts with the plugin of the key it reaches, so no name
  the reader looks for reaches a delegate tool.
* `nestsRuns_iff`: the view of a group nests the turns of every delegated run under the record
  that caused it only when no delegated run stored a turn.
-/

open Lib

namespace Nexus

/-! ### Names that reach a delegate tool -/

/-- The name a delegate tool is registered under: the plugin and the name of the tool. -/
def delegateToolName (memberName : String) : String :=
  "supervisor" ++ "." ++ ("delegate_to_" ++ memberName)

/-- A key that is executed starts with the plugin it was looked up under. -/
theorem prefix_of_executeKey {reg : ToolRegistry} {plugin tool key : String}
    (h : reg.executeKey plugin tool = some key) : plugin.toList <+: key.toList := by
  simp only [ToolRegistry.executeKey] at h
  split_ifs at h
  · obtain rfl := Option.some.inj h
    simp only [String.toList_append, List.append_assoc]
    exact List.prefix_append _ _
  · obtain rfl := Option.some.inj h
    exact List.prefix_rfl

/-- **A name starts like the key it reaches**: with the same plugin. -/
theorem reachedKey_plugin {reg : ToolRegistry} {name key : String}
    (h : reg.reachedKey name = some key) :
    ∃ plugin tool : String, plugin.toList <+: name.toList ∧ reg.executeKey plugin tool = some key := by
  unfold ToolRegistry.reachedKey at h
  split at h
  · exact ⟨_, _, PyStr.prefix_of_split ‹_›, h⟩
  · exact ⟨_, _, PyStr.prefix_of_split ‹_›, h⟩
  · cases h

/-- A key that is executed under the empty plugin starts with a dot, or is empty. -/
theorem executeKey_empty {reg : ToolRegistry} {tool key : String}
    (h : reg.executeKey "" tool = some key) : key = "" ∨ key.toList.head? = some '.' := by
  simp only [ToolRegistry.executeKey] at h
  split_ifs at h
  · obtain rfl := Option.some.inj h
    exact .inr (by simp)
  · obtain rfl := Option.some.inj h
    exact .inl rfl

/-- No name that the reader looks for reaches a delegate tool. -/
theorem not_startsWith_of_reachedKey {reg : ToolRegistry} {name memberName : String}
    (h : reg.reachedKey name = some (delegateToolName memberName)) :
    PyStr.startsWith name delegatePrefix = false := by
  obtain ⟨plugin, tool, ⟨rest, h_name⟩, h_exec⟩ := reachedKey_plugin h
  have h_chars : (delegateToolName memberName).toList =
      's' :: ("upervisor.delegate_to_".toList ++ memberName.toList) := by
    simp [delegateToolName]
  obtain ⟨keyRest, h_key⟩ := prefix_of_executeKey h_exec
  rw [h_chars] at h_key
  cases h_plugin : plugin.toList with
  | nil =>
    obtain rfl : plugin = "" := String.toList_inj.mp (by simpa using h_plugin)
    rcases executeKey_empty h_exec with h_empty | h_dot
    · rw [h_empty] at h_chars
      cases h_chars
    · rw [h_chars] at h_dot
      cases h_dot
  | cons c cs =>
    -- the plugin is not empty, so the name starts with the letter the key starts with
    rw [h_plugin] at h_key h_name
    obtain ⟨rfl, -⟩ := List.cons.inj h_key
    rw [PyStr.startsWith, ← h_name]
    rfl

/-! ### Group runs -/

/-- The run of a member that a delegate call caused: the call, the member, and the turns the
run stored in the member's session. -/
structure DelegatedRun where
  tcId : String
  toolName : String
  memberName : String
  turns : List TimedTurn
  deriving DecidableEq, Repr

/-- The execution that caused a delegated run. -/
def DelegatedRun.cause (run : DelegatedRun) : Obs :=
  .executed run.tcId run.toolName (delegateToolName run.memberName)

/-- The execution of a delegate tool. -/
def Obs.isDelegation : Obs → Bool
  | .executed _ _ key => PyStr.startsWith key (delegateToolName "")
  | _ => false

/-- What a stored turn and its timed record have in common. -/
def TurnRecord.outline (turn : TurnRecord) : ℕ × List (String × ℕ × String) :=
  (turn.turnIndex, turn.toolCalls.map fun tc => (tc.tcId, tc.tcIndex, tc.toolName))

/-- The same of a timed record. -/
def TimedTurn.outline (turn : TimedTurn) : ℕ × List (String × ℕ × String) :=
  (turn.turnIndex, turn.toolCalls.map fun tc => (tc.tcId, tc.tcIndex, tc.toolName))

/-- A supervisor run of a group with the runs it delegated, and the store afterwards. -/
structure GroupRun (a : StoreAdapter) where
  env : Env a
  stream : Bool
  args : RunArgs
  before : Store a
  root : String
  pre : String
  runs : List DelegatedRun
  /-- One run for every execution of a delegate tool, in their order. -/
  caused : runs.map DelegatedRun.cause =
    (execRun env stream args before).trace.filter Obs.isDelegation
  store : List TimedSession
  supervisor : TimedSession
  mem_store : supervisor ∈ store
  /-- The supervisor's session is the one its run leaves. -/
  stored : (((execRun env stream args before).live.contents).find? supervisor.sessionId).map
    (fun s => s.turns.map TurnRecord.outline) = some (supervisor.turns.map TimedTurn.outline)
  /-- The turns of a delegated run are in the session of its member. -/
  delegated : ∀ run ∈ runs, ∃ s ∈ store,
    s.sessionId = memberSessionId root run.memberName pre ∧ run.turns.Sublist s.turns

namespace GroupRun

variable {a : StoreAdapter}

/-- The members of the group as its view has them. -/
def members (g : GroupRun a) (scope : SessionScope) (includeInternal : Bool) :
    Dict String TimedSession :=
  withoutRoot (sessionsByMember (loadTimed g.store scope g.root)
    (foundMembers g.store scope g.root g.pre includeInternal) g.root g.pre)

/-- The records of the supervisor that a tree has a child for: delegate calls to known members. -/
def nestedRecords (g : GroupRun a) (d : Dict String TimedSession) : List TimedCall :=
  (delegateRecords g.supervisor).filter fun tc =>
    Dict.has d (PyStr.dropFirst delegatePrefix.length tc.toolName)

/-- The turns of every delegated run are nested under the record of the supervisor that caused
it, and are in no other node of the member. -/
def NestsRuns (g : GroupRun a) (d : Dict String TimedSession) (tops : List TopNode) : Prop :=
  ∀ run ∈ g.runs, ∀ turn ∈ run.turns, ∃ top ∈ tops, top.sessionId = g.supervisor.sessionId ∧
    ∃ nested ∈ (g.nestedRecords d).zip top.children,
      nested.1.tcId = run.tcId ∧ nested.1.toolName = run.toolName ∧ turn ∈ nested.2.turns ∧
        ∀ node ∈ treeNodes tops, node.memberName = some run.memberName → turn ∈ node.turns →
          node = nested.2

/-- A delegated run was reached under the key of its tool. -/
theorem reachedKey_of_mem_runs (g : GroupRun a) {run : DelegatedRun} (h : run ∈ g.runs) :
    g.env.registry.reachedKey run.toolName = some (delegateToolName run.memberName) := by
  -- its call is one the run reports
  have h_trace : run.cause ∈ (execRun g.env g.stream g.args g.before).trace := by
    refine List.mem_of_mem_filter (p := Obs.isDelegation) ?_
    rw [← g.caused]
    exact List.mem_map_of_mem h
  rw [execRun_trace] at h_trace
  rcases runLoop_observed g.env g.stream _ (startRun_retries g.env g.stream g.args g.before) _
    h_trace with h_start | ⟨k, h_pass⟩
  · -- not at the start of the run
    simp [startRun, DelegatedRun.cause] at h_start
  · -- so in a turn, where the registry led to the tool
    obtain ⟨raw, -, tc, -, h_name, -, h_key⟩ := h_pass
    exact h_key

/-- A record that the tree has a child for caused no delegated run. -/
theorem toolName_ne_of_mem_nestedRecords (g : GroupRun a) {d : Dict String TimedSession}
    {tc : TimedCall} (h : tc ∈ g.nestedRecords d) {run : DelegatedRun} (h_run : run ∈ g.runs) :
    tc.toolName ≠ run.toolName := by
  intro h_eq
  have h_not := not_startsWith_of_reachedKey (g.reachedKey_of_mem_runs h_run)
  obtain ⟨turn, -, h_call⟩ := List.mem_flatMap.mp (List.mem_of_mem_filter h)
  rw [← h_eq, (List.mem_filter.mp h_call).2] at h_not
  cases h_not

/-- **The view of a group nests its delegated runs** only when none of them stored a turn. -/
theorem nestsRuns_iff (g : GroupRun a) (scope : SessionScope) (pattern : PatternKind)
    (memberOrder : Option (List String)) (includeInternal : Bool) :
    g.NestsRuns (g.members scope includeInternal)
        (loadSessionGroup g.store scope g.root g.pre pattern memberOrder includeInternal).sessions ↔
      ∀ run ∈ g.runs, run.turns = [] := by
  constructor
  · intro h run h_run
    -- a recorded name with the prefix belongs to no delegated run
    refine List.eq_nil_iff_forall_not_mem.mpr fun turn h_turn => ?_
    obtain ⟨top, -, -, nested, h_nested, -, h_name, -⟩ := h run h_run turn h_turn
    exact g.toolName_ne_of_mem_nestedRecords (List.of_mem_zip h_nested).1 h_run h_name
  · intro h run h_run turn h_turn
    rw [h run h_run] at h_turn
    cases h_turn

end GroupRun

/-- A supervisor that delegates to the member `a` once. -/
def leadEnv : Env .memory where
  registry := [(delegateToolName "a", {})]
  proxy := .scripted
    [{ toolCalls := [⟨"c1", delegateToolName "a", []⟩] }, { content := some "done" }]

def leadArgs : RunArgs := { userMessage := "hi", sessionId := some "g_supervisor" }

/-- The session of the supervisor; the record of the call is stamped when the member is done. -/
def leadSession : TimedSession where
  sessionId := "g_supervisor"
  turns := [⟨0, 4, [⟨"TC1", 1, delegateToolName "a", 3⟩]⟩, ⟨1, 5, []⟩]

/-- The session of the member. -/
def helperSession : TimedSession where
  sessionId := "g_a"
  turns := [⟨0, 2, []⟩]

/-- The run of the member. -/
def delegateRun : DelegatedRun := ⟨"TC1", delegateToolName "a", "a", [⟨0, 2, []⟩]⟩

theorem caused_helperRun : [delegateRun].map DelegatedRun.cause =
    (execRun leadEnv false leadArgs (.empty .memory)).trace.filter Obs.isDelegation := by
  decide +kernel

theorem stored_leadSession :
    (((execRun leadEnv false leadArgs (.empty .memory)).live.contents).find? "g_supervisor").map
      (fun s => s.turns.map TurnRecord.outline) = some (leadSession.turns.map TimedTurn.outline) := by
  decide +kernel

/-- The delegated run is in the session of its member. -/
theorem delegated_helperRun : ∀ run ∈ [delegateRun], ∃ s ∈ [leadSession, helperSession],
    s.sessionId = memberSessionId "g" run.memberName "" ∧ run.turns.Sublist s.turns := by
  intro run h_run
  obtain rfl := List.mem_singleton.mp h_run
  exact ⟨helperSession, by simp, by decide, List.Sublist.refl _⟩

/-- A group run with one delegation, persisted. -/
def leadRun : GroupRun .memory where
  env := leadEnv
  stream := false
  args := leadArgs
  before := .empty .memory
  root := "g"
  pre := ""
  runs := [delegateRun]
  caused := caused_helperRun
  store := [leadSession, helperSession]
  supervisor := leadSession
  mem_store := List.mem_cons_self
  stored := stored_leadSession
  delegated := delegated_helperRun

/-- The turn of the member is not nested under the record of the call that caused it. -/
theorem leadRun_not_nested :
    ¬leadRun.NestsRuns (leadRun.members {} false)
      (loadSessionGroup leadRun.store {} leadRun.root leadRun.pre .supervisor none false).sessions := by
  intro h
  obtain ⟨top, h_top, -, nested, h_nested, -⟩ := h delegateRun (by simp [leadRun]) ⟨0, 2, []⟩
    (by simp [delegateRun])
  have h_none : leadRun.nestedRecords (leadRun.members {} false) = [] := by decide +kernel
  rw [h_none] at h_nested
  cases h_nested

end Nexus
