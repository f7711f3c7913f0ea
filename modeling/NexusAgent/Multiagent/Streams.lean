import NexusAgent.Multiagent.Patterns

/-!
# The patterns of a group, streaming, and the tree of a group

`AgentOrchestrator.run_stream` of `nexus/multiagent/orchestrator.py` with
`_run_pipeline_stream`, `_run_parallel_stream` and `_run_supervisor_stream`, and the building
of a group from its configuration (`_init_members`).

A streaming pattern looks at the `final_response` events of its members only, and passes
every event on. A nested group passes the events of its own members on as well, so its group
sees more than one `final_response` from it. A stream stands here for the events in the order
in which they come, once the member is done; the write-back a group makes at an event is made
then. Streams of a parallel group are read in the order in which the members finish.
-/

open Lib

namespace Nexus.Team

variable (script : Script) (config : GroupConfig) (path : Path)

/-- What the stream of a group left: its events, what it raised at the end, what its result
was, and the runs below it. -/
structure GroupStream where
  events : List Event := []
  raised : Option String := none
  /-- The result of the group's own `final_response`, or the text of its error. -/
  outcome : Except String TeamResult
  runs : List Trace := []

/-- The result of a streaming group. The totals are reported whatever the status is. -/
def streamResult (sessionId : String) (finalResponse : Option String)
    (memberResults : Dict String MemberResult) (totals : Totals) (error : Option String) :
    TeamResult :=
  { completedResult config sessionId finalResponse memberResults totals with
    status := if error.isSome then .failed else .completed
    error := error }

/-- The last event of a streaming group. -/
def GroupStream.ofResult (events : List Event) (result : TeamResult) (runs : List Trace) :
    GroupStream :=
  { events := events ++ [.final (.group result)], outcome := .ok result, runs := runs }

/-! ### Pipeline -/

/-- The variables of the loop over the members. -/
structure StreamLine where
  currentInput : String
  finalResponse : Option String := none
  memberResults : Dict String MemberResult := []
  totals : Totals := {}
  events : List Event := []
  /-- The runs so far. -/
  runs : List Trace := []

/-- Yield an event. -/
def StreamLine.saying (line : StreamLine) (event : Event) : StreamLine :=
  { line with events := line.events ++ [event] }

/-- A `final_response` event of a member. -/
def StreamLine.took (line : StreamLine) (name : String) (res : MemberResult) : StreamLine :=
  { line with
    currentInput := res.finalResponse.getD ""
    finalResponse := res.finalResponse
    memberResults := Dict.set line.memberResults name res
    totals := line.totals.addData res }

/-- The events of a member, passed on one by one. -/
def forwardEvents (name : String) :
    List Event → StreamLine → World → StreamLine × World
  | [], line, w => (line, w)
  | event :: events, line, w =>
    let line := line.saying event
    match event with
    | .final res => forwardEvents name events (line.took name res) (syncUp config path name w)
    | .error _ => forwardEvents name events line w

/-- The result and the last event of a pipeline. -/
def StreamLine.done (line : StreamLine) (sessionId : String) (error : Option String) :
    GroupStream :=
  .ofResult line.events
    (streamResult config sessionId line.finalResponse line.memberResults line.totals error)
    line.runs

/-- The loop of `_run_pipeline_stream`. -/
def streamPipelineFrom : Dict String Part → StreamLine → World → GroupStream × World
  | [], line, w => (line.done config (w.sessionId path) none, w)
  | (name, part) :: members, line, w =>
    let down := syncDown config path name none w
    let streamed := streamPart script (path ++ [name]) ⟨.member, turnsTaken line.runs⟩
      line.currentInput part down
    let forwarded := forwardEvents config path name streamed.1.events
      { line with runs := line.runs ++ [streamed.1.trace] } streamed.2
    match streamed.1.raised with
    | some e =>
      ((forwarded.1.saying (.error e)).done config (w.sessionId path) (some e), forwarded.2)
    | none => streamPipelineFrom members forwarded.1 forwarded.2

/-- `_run_pipeline_stream`. -/
def streamPipeline (members : Dict String Part) (input : String) (w : World) :
    GroupStream × World :=
  streamPipelineFrom script config path members { currentInput := input } w

/-! ### Parallel -/

/-- The limit of a member that is run without `max_turns`. -/
def Part.ownLimit : Part → ℕ
  | .runner agent => agent.maxTurns
  | .orchestrator maxTurns _ _ => maxTurns

/-- The start of a member of a streaming parallel group. -/
def streamSlot (members : Dict String Part) (i : ℕ) : Slot :=
  ⟨.member, ((members.take i).map fun m => m.2.ownLimit).sum⟩

/-- `pump` of a parallel group. -/
def pumpMember (members : Dict String Part) (input : String) (i : ℕ) (name : String) (part : Part)
    (w : World) : Streamed × World :=
  streamPart script (path ++ [name]) (streamSlot members i) input part
    (syncDown config path name none w)

/-- The events of the queue: a member that raised adds an `error` event. -/
def queuedEvents (gathered : List (ℕ × String × Streamed)) : List (String × Event) :=
  gathered.flatMap fun (_, name, streamed) =>
    (streamed.events ++ streamed.raised.toList.map Event.error).map (name, ·)

/-- The variables of the loop over the queue. -/
structure Merge where
  memberResults : Dict String MemberResult := []
  totals : Totals := {}
  events : List Event := []

/-- The loop over the queue, up to an event whose data is not that of a run. -/
def mergeEvents : List (String × Event) → Merge → Merge × Except String Unit
  | [], merge => (merge, .ok ())
  | (name, event) :: queue, merge =>
    let merge := { merge with events := merge.events ++ [event] }
    match event with
    -- an error of a member is passed on and ends nothing
    | .error _ => mergeEvents queue merge
    | .final res =>
      match res.asRunResult script.validationError with
      | .error e => (merge, .error e)
      | .ok r =>
        mergeEvents queue
          { merge with
            memberResults := Dict.set merge.memberResults name (.run r)
            totals := merge.totals.addData res }

/-- `_run_parallel_stream`. -/
def streamParallel (members : Dict String Part) (input : String) (w : World) :
    GroupStream × World :=
  let gathered := gatherParts (pumpMember script config path members input) members
    (finishOrder script path members w) (w.begin path)
  let runs := (inDefinitionOrder members.length gathered.1).map fun s => s.2.trace
  let merged := mergeEvents script (queuedEvents gathered.1) {}
  match merged.2 with
  -- the exception leaves the generator before a final event
  | .error e =>
    ({ events := merged.1.events, raised := some e, outcome := .error e, runs := runs }, gathered.2)
  | .ok () =>
    let response := aggregateParallel config merged.1.memberResults (members.map Prod.fst)
    (.ofResult merged.1.events
      (completedResult config (w.sessionId path) response merged.1.memberResults merged.1.totals)
      runs, gathered.2)

/-! ### Supervisor -/

/-- `_run_supervisor_stream`. Delegations run blocking. -/
def streamSupervisor (members : Dict String Part) (input : String) (w : World) :
    GroupStream × World :=
  match findSupervisor config members with
  | .error e => ({ events := [.error e], outcome := .error e }, w)
  | .ok (supervisor, agent) =>
    let budget : ℤ := config.maxTurns
    -- a budget of no turns still lets the supervisor have one
    let maxTurns : ℤ := if 0 < budget then budget else 1
    let ran := supervise script config path members supervisor agent input budget maxTurns w
    let office := ran.2.1
    let runs := .agent supervisorSlot ran.1 :: office.runs
    match ran.1.outcome with
    | .error e =>
      (.ofResult [.error e]
        (streamResult config (w.sessionId path) none office.memberResults office.totals (some e))
        runs, ran.2.2)
    | .ok r =>
      (.ofResult [.final (.run r)]
        (streamResult config (w.sessionId path) r.finalResponse
          (Dict.set office.memberResults supervisor (.run r)) (office.totals.addData (.run r)) none)
        runs, syncUp config path supervisor ran.2.2)

/-! ### Running a group -/

/-- The streaming run of the group's pattern. -/
def streamPattern (members : Dict String Part) (input : String) (w : World) :
    GroupStream × World :=
  match config.pattern with
  | .pipeline => streamPipeline script config path members input w
  | .supervisor => streamSupervisor script config path members input w
  | .parallel => streamParallel script config path members input w

/-- `run_stream`. -/
def streamGroup (members : Dict String Part) (slot : Slot) (input : String) (w : World) :
    Streamed × World :=
  let ran := streamPattern script config path members input w
  (⟨ran.1.events, ran.1.raised,
    .group slot ⟨path, config.pattern, input, w.bags path, config.maxTurns, ran.1.outcome⟩
      ran.1.runs⟩, ran.2)

/-- The result a stream reports: that of its last event, unless it raised. -/
def Streamed.result (streamed : Streamed) : Option MemberResult :=
  match streamed.raised, streamed.events.getLast? with
  | none, some (.final res) => some res
  | _, _ => none

/-! ### The tree of a group -/

/-- A `MemberConfig`: an `AgentConfig`, or an `AgentGroupConfig` with its members. -/
inductive Node
  | agent (name : String) (maxTurns : ℕ)
  | group (config : GroupConfig) (members : List Node)

/-- The name of a member. -/
def Node.name : Node → String
  | agent name _ => name
  | group config _ => config.name

/-- Whether the sessions of the members of a group are stored, in a context like `ctx`. -/
def persists (ctx : RunContext) (config : GroupConfig) : Bool :=
  RunContext.shouldPersist { ctx with isSubagent := !config.persistMembers }

mutual

/-- Build a member at a path. -/
def initMember (ctx : RunContext) (path : Path) (stored : Bool) : Node → Part
  | .agent _ maxTurns => .runner ⟨maxTurns, stored⟩
  | .group config members =>
    let parts := initMembers ctx path (persists ctx config) [] members
    .orchestrator config.maxTurns (runGroup script config path parts)
      (streamGroup script config path parts)

/-- `_init_members`: a later member of the same name takes the place of an earlier one. -/
def initMembers (ctx : RunContext) (path : Path) (stored : Bool) :
    Dict String Part → List Node → Dict String Part
  | built, [] => built
  | built, node :: nodes =>
    let part := initMember ctx (path ++ [node.name]) stored node
    initMembers ctx path stored (Dict.set built node.name part) nodes

end

mutual

/-- `derive_child`, for a member and what is below it: the bags of its context are copies. -/
def initBags (path : Path) (bags : Bags) (all : Path → Bags) : Node → Path → Bags
  | .agent _ _ => Function.update all path bags
  | .group config members =>
    initBagsAll path (if config.contextSharing = .isolated then {} else bags)
      (Function.update all path bags) members

/-- `derive_child` for the members of a group. -/
def initBagsAll (path : Path) (bags : Bags) (all : Path → Bags) : List Node → Path → Bags
  | [] => all
  | node :: nodes => initBagsAll path bags (initBags (path ++ [node.name]) bags all node) nodes

end

/-- A group: its configuration with its members. -/
structure Group where
  config : GroupConfig
  members : List Node

namespace Group

/-- The built members of a group at a path, in a context like `ctx`. -/
def parts (group : Group) (ctx : RunContext) (path : Path) : Dict String Part :=
  initMembers script ctx path (persists ctx group.config) [] group.members

/-- `AgentOrchestrator(config, run_context)`: the contexts of a group at a path as they are
built, over any other contexts. -/
def build (group : Group) (path : Path) (bags : Bags) (w : World) : World :=
  { w with bags := initBags path bags w.bags (.group group.config group.members) }

/-- The start of a group's own run: nothing runs before it. -/
def rootSlot : Slot := ⟨.member, 0⟩

/-- `run` of a group at a path. -/
def run (group : Group) (ctx : RunContext) (path : Path) (input : String) (maxTurns : Option ℤ)
    (w : World) : Ran × World :=
  runGroup script group.config path (group.parts script ctx path) rootSlot input maxTurns w

/-- `run_stream` of a group at a path. -/
def stream (group : Group) (ctx : RunContext) (path : Path) (input : String) (w : World) :
    Streamed × World :=
  streamGroup script group.config path (group.parts script ctx path) rootSlot input w

end Group

/-! ### Induction over the tree -/

section Tree

variable {script}

/-- Setting a part keeps what holds of every part. -/
theorem forall_mem_set {P : String → Part → Prop} {built : Dict String Part} {name : String}
    {part : Part} (h_built : ∀ m ∈ built, P m.1 m.2) (h_part : P name part) :
    ∀ m ∈ Dict.set built name part, P m.1 m.2 := by
  induction built with
  | nil =>
    intro m h_mem
    obtain rfl := List.mem_singleton.mp h_mem
    exact h_part
  | cons p built ih =>
    obtain ⟨h_head, h_tail⟩ := List.forall_mem_cons.mp h_built
    unfold Dict.set
    -- the part replaces the one of its name, or stands behind all others
    split_ifs with h_name
    · exact List.forall_mem_cons.mpr ⟨h_part, h_tail⟩
    · exact List.forall_mem_cons.mpr ⟨h_head, ih h_tail⟩

mutual

/-- **Induction over the tree of a group.** A property of built members that the runners have,
and that a group has when its members have it, is one of every member. -/
theorem initMember_induction {P : Path → Part → Prop} (ctx : RunContext)
    (h_runner : ∀ path agent, P path (.runner agent))
    (h_group : ∀ path config (members : Dict String Part), (Dict.keys members).Nodup →
      (∀ m ∈ members, P (path ++ [m.1]) m.2) →
      P path (.orchestrator config.maxTurns (runGroup script config path members)
        (streamGroup script config path members))) :
    ∀ (node : Node) (path : Path) (stored : Bool), P path (initMember script ctx path stored node)
  | .agent _ _, path, _ => by
    rw [initMember]
    exact h_runner path _
  | .group config nodes, path, _ => by
    rw [initMember]
    have h := initMembers_induction ctx h_runner h_group nodes path (persists ctx config) []
      List.nodup_nil nofun
    exact h_group path config _ h.1 h.2

/-- What holds of every part that is built holds of a list of members. -/
theorem initMembers_induction {P : Path → Part → Prop} (ctx : RunContext)
    (h_runner : ∀ path agent, P path (.runner agent))
    (h_group : ∀ path config (members : Dict String Part), (Dict.keys members).Nodup →
      (∀ m ∈ members, P (path ++ [m.1]) m.2) →
      P path (.orchestrator config.maxTurns (runGroup script config path members)
        (streamGroup script config path members))) :
    ∀ (nodes : List Node) (path : Path) (stored : Bool) (built : Dict String Part),
      (Dict.keys built).Nodup → (∀ m ∈ built, P (path ++ [m.1]) m.2) →
      (Dict.keys (initMembers script ctx path stored built nodes)).Nodup ∧
        ∀ m ∈ initMembers script ctx path stored built nodes, P (path ++ [m.1]) m.2
  | [], _, _, built, h_keys, h_built => by
    rw [initMembers]
    exact ⟨h_keys, h_built⟩
  | node :: nodes, path, stored, built, h_keys, h_built => by
    rw [initMembers]
    apply initMembers_induction ctx h_runner h_group nodes
    · -- the new name is added once
      exact Dict.nodup_keys_set _ _ h_keys
    · -- and the part holds by the induction on its node
      exact forall_mem_set (P := fun name part => P (path ++ [name]) part) h_built
        (initMember_induction ctx h_runner h_group node (path ++ [node.name]) stored)

end

/-- The members of a group: their names differ, and each has what the tree gives it. -/
theorem Group.parts_induction {P : Path → Part → Prop} (group : Group) (ctx : RunContext)
    (path : Path) (h_runner : ∀ path agent, P path (.runner agent))
    (h_group : ∀ path config (members : Dict String Part), (Dict.keys members).Nodup →
      (∀ m ∈ members, P (path ++ [m.1]) m.2) →
      P path (.orchestrator config.maxTurns (runGroup script config path members)
        (streamGroup script config path members))) :
    (Dict.keys (group.parts script ctx path)).Nodup ∧
      ∀ m ∈ group.parts script ctx path, P (path ++ [m.1]) m.2 :=
  initMembers_induction ctx h_runner h_group group.members path _ [] List.nodup_nil nofun

end Tree

end Nexus.Team
