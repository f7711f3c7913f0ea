import NexusAgent.Runner.History
import NexusAgent.Session.Ids

/-!
# Groups of agents and the sessions of their members

`AgentOrchestrator` of `nexus/multiagent/orchestrator.py`, as far as the session ids go.
Building a group builds a runner or a nested orchestrator for every member, with a run context
whose session id is made from the id of the group's own context. A call of the group may set
the id of the group's context; the contexts of its members stay as they were built, and a
runner without an id keeps the one its first run draws.

* `Member` is what a group is built into, `initMember` builds it.
* `GroupCall` is one call of `run` or `run_stream` with the member runs it executes. Which
  members run, how often and in which order is up to the pattern and to the models, so a
  call has any list of them.
* `GroupState.records` tells of every member run: the root id of its call, the session id it
  works under, and the store before and after.
-/

open Lib

namespace Nexus

/-! ### Building a group -/

/-- A member of a group: an `AgentConfig`, or an `AgentGroupConfig` with a prefix for the
session ids of its own members. -/
inductive MemberConfig where
  | agent (name : String)
  | group (name sessionIdPrefix : String) (members : List MemberConfig)

/-- The name of a member. -/
def MemberConfig.name : MemberConfig → String
  | .agent name => name
  | .group name _ _ => name

/-- A built member, with the session id of its run context: an `AgentRunner`, or an
`AgentOrchestrator` with its own members by name. -/
inductive Member where
  | runner (sessionId : Option String)
  | orchestrator (sessionIdPrefix : String) (sessionId : Option String)
      (members : List (String × Member))

/-- The session id of a member's context. -/
def childSessionId (pre : String) (sessionId : Option String) (name : String) : Option String :=
  (truthy sessionId).map (memberSessionId · name pre)

mutual

/-- Build a member whose context has the session id. -/
def initMember (sessionId : Option String) : MemberConfig → Member
  | .agent _ => .runner sessionId
  | .group _ pre members => .orchestrator pre sessionId (initMembers pre sessionId [] members)

/-- `_init_members`: a later member of the same name takes the place of an earlier one. -/
def initMembers (pre : String) (sessionId : Option String) :
    Dict String Member → List MemberConfig → Dict String Member
  | built, [] => built
  | built, config :: configs =>
    let member := initMember (childSessionId pre sessionId config.name) config
    initMembers pre sessionId (Dict.set built config.name member) configs

end

/-! ### The runners of a group -/

/-- The session id in the context of the runner at a path of member names; `none` when there
is no runner at the path. -/
def Member.runnerAt : List String → Member → Option (Option String)
  | [], .runner sessionId => some sessionId
  | name :: path, .orchestrator _ _ members => (Dict.get? members name).bind (runnerAt path)
  | _, _ => none

/-- The runner at a path keeps a session id. -/
def Member.adopt (sessionId : String) : List String → Member → Member
  | [], .runner _ => .runner (some sessionId)
  | name :: path, .orchestrator pre sid members =>
    match Dict.get? members name with
    | some member => .orchestrator pre sid (Dict.set members name (adopt sessionId path member))
    | none => .orchestrator pre sid members
  | _, member => member

/-- The member session of a root id at a path: its id is made at every level from the one
above. -/
def Member.sessionOf (root : String) : List String → Member → Option String
  | [], .runner _ => some root
  | name :: path, .orchestrator pre _ members =>
    (Dict.get? members name).bind (sessionOf (memberSessionId root name pre) path)
  | _, _ => none

/-- The session id of the context of a member. -/
def Member.contextSessionId : Member → Option String
  | .runner sessionId => sessionId
  | .orchestrator _ sessionId _ => sessionId

/-- Set the session id of the context of a group. -/
def Member.withSessionId (sessionId : Option String) : Member → Member
  | .orchestrator pre _ members => .orchestrator pre sessionId members
  | member => member

/-! ### Calls -/

variable {a : StoreAdapter}

/-- One run of the member at a path, with its surroundings. The id `create_session` draws
(`uuid4`) has no underscore. -/
structure MemberRun (a : StoreAdapter) where
  path : List String
  env : Env a
  stream : Bool := false
  args : RunArgs
  fresh : '_' ∉ env.freshId.toList

/-- The surroundings of the run, with the session id of the member's context. -/
def MemberRun.envAt (run : MemberRun a) (sessionId : Option String) : Env a :=
  { run.env with context := { run.env.context with sessionId := sessionId } }

/-- A member is run without a session id of the call. -/
def MemberRun.memberArgs (run : MemberRun a) : RunArgs := { run.args with sessionId := none }

/-- One call of `run` or `run_stream` of a group, with the member runs it executes. -/
structure GroupCall (a : StoreAdapter) where
  sessionId : Option String := none
  runs : List (MemberRun a)

/-- A group and the store its members work on. -/
structure GroupState (a : StoreAdapter) where
  group : Member
  store : Store a

/-- What a member run did: the root id of its call, the session it worked under, and the
store before and after it. -/
structure MemberRunRecord (a : StoreAdapter) where
  root : Option String
  path : List String
  sessionId : String
  before : Store a
  after : Store a

namespace GroupState

/-- Run a member: its runner works under the id of its context, or under a fresh one that it
keeps. -/
def runMember (run : MemberRun a) (g : GroupState a) :
    Option (MemberRunRecord a) × GroupState a :=
  match g.group.runnerAt run.path with
  | none => (none, g)
  | some sessionId =>
    let env := run.envAt sessionId
    let sid := runSessionId env run.memberArgs
    let store := storeAfter (execRun env run.stream run.memberArgs g.store)
    (some ⟨truthy g.group.contextSessionId, run.path, sid, g.store, store⟩,
      ⟨g.group.adopt sid run.path, store⟩)

/-- The member runs of a call, one after another. -/
def runMembers : List (MemberRun a) → GroupState a → List (MemberRunRecord a) × GroupState a
  | [], g => ([], g)
  | run :: runs, g =>
    let (record, g) := runMember run g
    let (records, g) := runMembers runs g
    (record.toList ++ records, g)

/-- `run` or `run_stream`: a session id of the call becomes that of the group's context. -/
def call (c : GroupCall a) (g : GroupState a) : List (MemberRunRecord a) × GroupState a :=
  let root := pyOr c.sessionId g.group.contextSessionId
  runMembers c.runs { g with group := g.group.withSessionId root }

/-- The member runs of a sequence of calls. -/
def records : List (GroupCall a) → GroupState a → List (MemberRunRecord a)
  | [], _ => []
  | c :: calls, g =>
    let (done, g) := call c g
    done ++ records calls g

end GroupState
end Nexus
