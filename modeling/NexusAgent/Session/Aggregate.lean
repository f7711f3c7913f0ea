import Mathlib.Data.List.Sort
import NexusAgent.Session.Ids
import NexusAgent.Session.Store

/-!
# Session groups

`nexus/session/aggregate.py`: the sessions of a group, found by the prefix of their ids and
put together in a view.

Here the records carry their times, which the other modules leave out, and of a turn and a
tool call only what the view reads. A time is an integer. The sessions are those of the
in-memory store, in insertion order.

* `loadSessionGroup` is the whole of it; with the pattern `auto` a group with a supervisor
  that calls delegate tools is shown as a tree (`buildSupervisorTree`), any other one in the
  order of first turns.
* In the tree, the turns of a member are dealt out to the delegate calls of the supervisor by
  time: `windowTurns` takes the turns from a call on up to the next call of any member.
-/

open Lib

namespace Nexus

/-! ### Records with times -/

/-- `ToolCallRecord`, as the view reads it. -/
structure TimedCall where
  tcId : String := ""
  tcIndex : ℕ
  toolName : String
  timestamp : ℤ
  deriving DecidableEq, Repr

/-- `TurnRecord`, as the view reads it. -/
structure TimedTurn where
  turnIndex : ℕ
  timestamp : ℤ
  toolCalls : List TimedCall := []
  deriving DecidableEq, Repr

/-- `AgentSession`, as listings and the view read it. -/
structure TimedSession where
  sessionId : String
  agentId : String := ""
  tenantId : Option String := none
  companyId : Option String := none
  userId : Option String := none
  turns : List TimedTurn := []
  createdAt : ℤ := 0
  updatedAt : ℤ := 0
  deriving DecidableEq, Repr

/-- `SessionScope.matches_session`. -/
def SessionScope.admits (scope : SessionScope) (s : TimedSession) : Bool :=
  scopeAdmits scope.tenantId s.tenantId && scopeAdmits scope.companyId s.companyId &&
    scopeAdmits scope.userId s.userId

/-! ### The store -/

/-- `load_session` of the in-memory adapter. -/
def loadTimed (store : List TimedSession) (scope : SessionScope) (sessionId : String) :
    Option TimedSession :=
  (store.find? (·.sessionId = sessionId)).filter scope.admits

/-- `list_sessions_by_prefix` of the in-memory adapter. -/
def listSessionsByPrefix (store : List TimedSession) (scope : SessionScope) (pre : String) :
    List TimedSession :=
  (store.filter fun s => PyStr.startsWith s.sessionId pre && scope.admits s).insertionSort
    fun s s' => s.createdAt ≤ s'.createdAt

/-! ### Nodes -/

/-- `SessionNode` without its children. -/
structure SessionNode where
  sessionId : String
  agentId : String
  memberName : Option String
  turns : List TimedTurn
  createdAt : ℤ
  updatedAt : ℤ
  deriving DecidableEq, Repr

/-- A `SessionNode` at the top. Only such a node ever has children, and they have none. -/
structure TopNode extends SessionNode where
  children : List SessionNode := []
  deriving DecidableEq, Repr

/-- The node of a session with some of its turns. -/
def TimedSession.node (s : TimedSession) (memberName : Option String) (turns : List TimedTurn) :
    SessionNode where
  sessionId := s.sessionId
  agentId := s.agentId
  memberName := memberName
  turns := turns
  createdAt := s.createdAt
  updatedAt := s.updatedAt

/-- `session_to_node`. -/
def sessionToNode (s : TimedSession) (memberName : Option String) : TopNode :=
  { s.node memberName s.turns with }

/-! ### Delegations -/

/-- `_find_supervisor_name`. Lowering a letter outside ASCII never completes the word. -/
def findSupervisorName (sessionsByMember : Dict String TimedSession) : Option String :=
  if Dict.has sessionsByMember "supervisor" then some "supervisor"
  else (sessionsByMember.map Prod.fst).find? fun name =>
    "supervisor".toList <:+: name.toList.map Char.toLower

/-- The prefix of the names of delegate tools, as the reader has it. -/
def delegatePrefix : String := "delegate_to_"

/-- `_has_delegate_tools`. -/
def hasDelegateTools (s : TimedSession) : Bool :=
  s.turns.any fun turn => turn.toolCalls.any fun tc => PyStr.startsWith tc.toolName delegatePrefix

/-- `sorted(turns, key=lambda t: t.turn_index)`. -/
def sortTurns (turns : List TimedTurn) : List TimedTurn :=
  turns.insertionSort fun t t' => t.turnIndex ≤ t'.turnIndex

/-- The records of the delegate calls of a session, in order. -/
def delegateRecords (s : TimedSession) : List TimedCall :=
  (sortTurns s.turns).flatMap fun turn =>
    (turn.toolCalls.insertionSort fun tc tc' => tc.tcIndex ≤ tc'.tcIndex).filter
      fun tc => PyStr.startsWith tc.toolName delegatePrefix

/-- `_collect_delegate_calls`. -/
def collectDelegateCalls (s : TimedSession) : List (String × ℤ) :=
  (delegateRecords s).map fun tc =>
    (PyStr.dropFirst delegatePrefix.length tc.toolName, tc.timestamp)

/-- The turns from `start` on, up to the first that is not before `stop`. -/
def windowTurns (start : ℤ) (stop : Option ℤ) : List TimedTurn → List TimedTurn
  | [] => []
  | turn :: turns =>
    if turn.timestamp < start then windowTurns start stop turns
    else if stop.any (· ≤ turn.timestamp) then []
    else turn :: windowTurns start stop turns

/-- `_slice_turns_by_timestamp`. -/
def sliceTurnsByTimestamp (turns : List TimedTurn) (start : ℤ) (stop : Option ℤ) :
    List TimedTurn :=
  windowTurns start stop (sortTurns turns)

/-- The turns of a member from its cursor on that a call gets. -/
def childTurns (turns : List TimedTurn) (start : ℤ) (stop : Option ℤ) : List TimedTurn :=
  let child := windowTurns start stop turns
  if child = [] then sliceTurnsByTimestamp turns start stop else child

/-- The children of the supervisor: one for each delegate call to a known member. -/
def delegationChildren (sessionsByMember : Dict String TimedSession) (cursors : Dict String ℕ) :
    List (String × ℤ) → List SessionNode
  | [] => []
  | (memberName, start) :: calls =>
    match Dict.get? sessionsByMember memberName with
    | none => delegationChildren sessionsByMember cursors calls
    | some s =>
      let cursor := (Dict.get? cursors memberName).getD 0
      let turns := childTurns ((sortTurns s.turns).drop cursor) start (calls.head?.map Prod.snd)
      s.node (some memberName) turns ::
        delegationChildren sessionsByMember (Dict.set cursors memberName (cursor + turns.length)) calls

/-! ### Trees -/

/-- `build_pipeline_tree`. -/
def buildPipelineTree (sessionsByMember : Dict String TimedSession) (memberOrder : List String) :
    List TopNode :=
  memberOrder.filterMap fun name =>
    (Dict.get? sessionsByMember name).map (sessionToNode · (some name))

/-- `build_chronological_tree`. -/
def buildChronologicalTree (sessionsByMember : Dict String TimedSession) : List TopNode :=
  (sessionsByMember.map fun p => sessionToNode p.2 (some p.1)).insertionSort fun n n' =>
    (n.turns.head?.map TimedTurn.timestamp).getD n.createdAt ≤
      (n'.turns.head?.map TimedTurn.timestamp).getD n'.createdAt

/-- The tree of a group under its supervisor. -/
def supervisorTree (sessionsByMember : Dict String TimedSession) (supervisor : String)
    (s : TimedSession) : List TopNode :=
  let calls := collectDelegateCalls s
  let referenced := supervisor :: calls.map Prod.fst
  { sessionToNode s (some supervisor) with
    children := delegationChildren sessionsByMember [] calls } ::
  (sessionsByMember.filter fun p => p.1 ∉ referenced).map fun p => sessionToNode p.2 (some p.1)

/-- `build_supervisor_tree`. -/
def buildSupervisorTree (sessionsByMember : Dict String TimedSession)
    (supervisorName : Option String) : List TopNode :=
  match pyOr supervisorName (findSupervisorName sessionsByMember) with
  | none => buildChronologicalTree sessionsByMember
  | some supervisor =>
    match Dict.get? sessionsByMember supervisor with
    | none => buildChronologicalTree sessionsByMember
    | some s => supervisorTree sessionsByMember supervisor s

/-! ### The view -/

/-- `PatternKind`. -/
inductive PatternKind
  | auto
  | pipeline
  | supervisor
  | single
  deriving DecidableEq, Repr

/-- The pattern of a view. -/
inductive ViewPattern
  | single
  | pipeline
  | supervisor
  | unknown
  deriving DecidableEq, Repr

/-- `resolve_pattern`. -/
def resolvePattern (pattern : PatternKind) (memberOrder : Option (List String))
    (sessionsByMember : Dict String TimedSession) : ViewPattern :=
  match pattern with
  | .single => .single
  | .pipeline => .pipeline
  | .supervisor => .supervisor
  | .auto =>
    if memberOrder.any (1 < ·.length) then .pipeline
    else if ((findSupervisorName sessionsByMember).bind (Dict.get? sessionsByMember)).any
        hasDelegateTools then .supervisor
    else if sessionsByMember.length ≤ 1 then .single
    else .unknown

/-- `SessionGroupView`. -/
structure SessionGroupView where
  rootSessionId : String
  sessionIdPrefix : String
  pattern : ViewPattern
  sessions : List TopNode
  deriving DecidableEq, Repr

/-- The key of the root session among the members. -/
def rootKey : String := "__root__"

/-- The root session and the member sessions by name. -/
def sessionsByMember (root : Option TimedSession) (members : List TimedSession)
    (rootSessionId pre : String) : Dict String TimedSession :=
  members.foldl
    (fun d s =>
      match parseMemberName s.sessionId rootSessionId pre with
      | some name => Dict.set d name s
      | none => d)
    (root.toList.map (rootKey, ·))

/-- The members without the root session. -/
def withoutRoot (d : Dict String TimedSession) : Dict String TimedSession :=
  Dict.erase d rootKey

/-- The nodes of a group that is shown as one session: of a member, or of the root under the
key kept for it. -/
def singleNodes (d : Dict String TimedSession) : List TopNode :=
  match d with
  | [(name, s)] => [sessionToNode s (if name = rootKey then none else some name)]
  | _ => buildChronologicalTree (withoutRoot d)

/-- The nodes of a view with the pattern. -/
def viewNodes (pattern : ViewPattern) (memberOrder : Option (List String))
    (root : Option TimedSession) (members : List TimedSession) (d : Dict String TimedSession) :
    List TopNode :=
  match pattern with
  | .single =>
    match root, members with
    | some s, [] => [sessionToNode s none]
    | _, _ => singleNodes d
  | .pipeline =>
    let order := match memberOrder with
      | some (name :: names) => name :: names
      | _ => (withoutRoot d).map Prod.fst
    buildPipelineTree (withoutRoot d) order
  | .supervisor => buildSupervisorTree (withoutRoot d) none
  | .unknown => buildChronologicalTree (withoutRoot d)

/-- The sessions a view of the root finds by their ids. -/
def foundMembers (store : List TimedSession) (scope : SessionScope) (rootSessionId pre : String)
    (includeInternal : Bool) : List TimedSession :=
  let found := listSessionsByPrefix store scope (groupSessionPrefix rootSessionId pre)
  if includeInternal then found
  else found.filter fun s => !isInternalSession s.sessionId rootSessionId pre

/-- `load_session_group`. -/
def loadSessionGroup (store : List TimedSession) (scope : SessionScope) (rootSessionId pre : String)
    (pattern : PatternKind) (memberOrder : Option (List String)) (includeInternal : Bool) :
    SessionGroupView :=
  let root := loadTimed store scope rootSessionId
  let members := foundMembers store scope rootSessionId pre includeInternal
  let d := sessionsByMember root members rootSessionId pre
  match d with
  | [] => ⟨rootSessionId, pre, .single, []⟩
  | _ :: _ =>
    let resolved := resolvePattern pattern memberOrder (withoutRoot d)
    ⟨rootSessionId, pre, resolved, viewNodes resolved memberOrder root members d⟩

end Nexus
