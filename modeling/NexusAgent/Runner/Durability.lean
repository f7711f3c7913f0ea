import NexusAgent.Runner.Underway
import NexusAgent.Runner.Isolation
import NexusAgent.Session.Dump

/-!
# The state bag from run to run

Whichever way the loop ends, `finishRun` writes the JSON-safe part of the state bag into the
session and saves it, and the next run starts from the bag of the session it loads. A store that
keeps JSON hands a value back as `json.loads` reads it (`Store.reread`): a tuple comes back as a
list. Within a run this does not show, since after every load the bag of the run is written into
the session again (`persistTurnWithState`, `finishRun`).

* `EndedWith`: the store in a history of a session, with the state bag its last run ended with.
* `startRun_state`: the state bag of the next run.
* `startRun_state_coerced`: it need not be what was saved.
-/

open Lib

namespace Nexus

variable {a : StoreAdapter}

/-! ### Values read back from a store -/

/-- The bag a store hands back for one that was saved. -/
def StoreAdapter.readBack (a : StoreAdapter) (state : StateBag) : StateBag :=
  if a.aliased then state else Dict.mapValues StateValue.readBack state

/-- The session a store hands back. -/
def AgentSession.readBack (a : StoreAdapter) (s : AgentSession) : AgentSession :=
  s.withState (a.readBack s.state)

/-- The store as later runs read it. -/
def Store.reread (st : Store a) : Store a where
  entries := Dict.mapValues (AgentSession.readBack a) st.entries
  keyed := by
    intro k s h
    rw [Dict.get?_mapValues] at h
    obtain ⟨s, h_get, rfl⟩ := Option.map_eq_some_iff.mp h
    exact st.keyed k s h_get

theorem Store.find?_reread (st : Store a) (sid : String) :
    st.reread.find? sid = (st.find? sid).map (AgentSession.readBack a) :=
  Dict.get?_mapValues _ _ _

/-- The bag comes back as it was: the store hands out its own object, or every value is JSON. -/
theorem StoreAdapter.readBack_eq_self {state : StateBag}
    (h : a.aliased = true ∨ ∀ p ∈ state, ∃ v, p.2 = .json v) : a.readBack state = state := by
  unfold readBack
  split_ifs with h_aliased
  · rfl
  · have h_json := h.resolve_left h_aliased
    refine Dict.mapValues_eq_self fun p h_p => ?_
    obtain ⟨v, h_v⟩ := h_json p h_p
    rw [h_v]
    rfl

/-! ### The end of a run -/

/-- The state bag when the loop has ended. -/
def endState (env : Env a) (stream : Bool) (args : RunArgs) (st : Store a) : StateBag :=
  (runLoop env stream (turnLimit env args) (startRun env stream args st)).state

/-- The curation at the end does not touch the bag. -/
theorem curateAtEnd_state (env : Env a) (s : RunState a) : (curateAtEnd env s).state = s.state := by
  unfold curateAtEnd
  split_ifs <;> rfl

/-- What the session of a run is after the last save. -/
theorem finishRun_session (env : Env a) (s : RunState a) :
    (finishRun env s).live.session =
      (curateAtEnd env s).live.session.withState (jsonSafeState s.state) := by
  unfold finishRun
  dsimp only
  rw [maybeSave_session, Live.mutate_session, curateAtEnd_state]

/-- **However the run ended**, its entry has the JSON-safe part of the bag. -/
theorem find?_endedRun (env : Env a) (stream : Bool) (args : RunArgs) (st : Store a)
    (h_persists : persists a env.context = true) :
    ∃ s, (storeAfter (execRun env stream args st)).find? (runSessionId env args) = some s ∧
      (env.context.sessionScope none).matchesSession s = true ∧
      s.state = jsonSafeState (endState env stream args st) := by
  -- a run that persists leaves its session in the store
  have h_synced : (execRun env stream args st).live.Synced := by
    rw [execRun_live]
    exact synced_maybeSave h_persists _
  have h_find : (storeAfter (execRun env stream args st)).find? (runSessionId env args) =
      some (execRun env stream args st).live.session := by
    -- under the id that it ran on
    have h_id : (execRun env stream args st).live.session.sessionId = runSessionId env args :=
      Underway.finished.sessionId
    rw [← h_id]
    exact h_synced
  refine ⟨_, h_find, admitsStored_run env stream args st _ h_find, ?_⟩
  rw [execRun_live, finishRun_session]
  rfl

/-! ### The next run -/

/-- The store in a history of the session `sid` of `owner`, with the state bag its last run ended
with. Whatever came before that run, runs that ended or broke off among them, made the store it
was entered on. -/
inductive EndedWith (sid : String) (owner : SessionScope) : Store a → StateBag → Prop
  | ran {env : Env a} {stream : Bool} {args : RunArgs} {st st' : Store a}
      (h_enter : Enters sid env args st st') (h_owner : env.context.toScope = owner)
      (h_persists : persists a env.context = true) :
    EndedWith sid owner (storeAfter (execRun env stream args st')).reread
      (endState env stream args st')
  | other {st st' : Store a} {state : StateBag} (h : EndedWith sid owner st state)
      (h_same : st'.find? sid = st.find? sid) : EndedWith sid owner st' state

/-- Runs of one owner look for a session under one scope. -/
theorem sessionScope_of_owner {ctx ctx' : RunContext} (h : ctx'.toScope = ctx.toScope) :
    ctx'.sessionScope none = ctx.sessionScope none := by
  obtain ⟨h_tenant, h_company, h_user⟩ := SessionScope.mk.inj h
  simp only [RunContext.sessionScope, h_tenant, h_company, h_user]

/-- **What the last run left**: a session of the owner, with the bag as it reads back. -/
theorem EndedWith.find? {sid : String} {owner : SessionScope} {st : Store a} {state : StateBag}
    (h : EndedWith sid owner st state) {ctx : RunContext} (h_owner : ctx.toScope = owner) :
    ∃ s, st.find? sid = some s ∧ (ctx.sessionScope none).matchesSession s = true ∧
      s.state = a.readBack (jsonSafeState state) := by
  induction h with
  | @ran env stream args st st' h_enter h_ran h_persists =>
    -- the run itself: its session is found as the adapter reads it back
    obtain ⟨s, h_find, h_match, h_state⟩ := find?_endedRun env stream args st' h_persists
    refine ⟨s.readBack a, ?_, ?_, ?_⟩
    · rw [Store.find?_reread, ← h_enter.sid, h_find]
      rfl
    · rw [sessionScope_of_owner (h_owner.trans h_ran.symm)]
      exact h_match
    · rw [← h_state]
      rfl
  -- another step leaves it
  | other _ h_same ih =>
    rw [h_same]
    exact ih

/-- The run asks for the session `sid`. -/
def Names (env : Env a) (args : RunArgs) (sid : String) : Prop :=
  truthy (pyOr args.sessionId env.context.sessionId) = some sid

/-- Filling in the results of a resume leaves the bag. -/
theorem Enters.find? {sid : String} {env : Env a} {args : RunArgs} {st st' : Store a}
    (h : Enters sid env args st st') {s : AgentSession} (h_find : st.find? sid = some s) :
    ∃ s', st'.find? sid = some s' ∧ s'.toScope = s.toScope ∧ s'.state = s.state := by
  cases h with
  | run => exact ⟨s, h_find, rfl, rfl⟩
  | resume _ h_store =>
    obtain ⟨s₀, h_find₀, -, h_find'⟩ := find?_resumeStore h_store
    obtain rfl := Option.some.inj (h_find.symm.trans h_find₀)
    refine ⟨_, h_find', ?_, ?_⟩ <;> split_ifs <;> rfl

/-- A run with a fresh context and nothing to seed it starts with the bag of its session. -/
theorem startRun_state_of_load {env : Env a} {stream : Bool} {args : RunArgs} {st : Store a}
    {sid : String} {s : AgentSession} (h_names : Names env args sid)
    (h_find : st.find? sid = some s)
    (h_match : (env.context.sessionScope none).matchesSession s = true)
    (h_fresh : env.context.state = []) (h_plain : args.initialContext = []) :
    (startRun env stream args st).state = s.state := by
  -- the session is found and belongs to the caller
  have h_load : st.loadSession sid (env.context.sessionScope none) = some s :=
    Store.loadSession_eq_some.mpr ⟨h_find, h_match⟩
  have h_got : getOrCreateSession env args st = ⟨s, st⟩ := by
    unfold getOrCreateSession
    rw [show truthy (pyOr args.sessionId env.context.sessionId) = some sid from h_names]
    simp [h_load]
  -- entering the run changes the fields of the run, not the state
  have h_entered : (enteredSession env args ⟨s, st⟩).session.state = s.state := by
    unfold enteredSession
    dsimp only
    -- the caller gives no state of its own
    split_ifs <;> rfl
  have h_state : (startRun env stream args st).state = hydrateState env args
      (maybeSave env.context (enteredSession env args (getOrCreateSession env args st))).session :=
    rfl
  rw [h_state, h_got, maybeSave_session, hydrateState, h_plain, h_fresh, h_entered]
  rfl

/-- **The state bag from run to run**: the next run of the owner that asks for the session, with
a fresh context and nothing to seed it, starts with the JSON-safe part of the bag the last run
ended with, as the store hands it back: the in-memory store as it was, any other store the image
of each value in JSON. -/
theorem startRun_state {sid : String} {owner : SessionScope} {st : Store a} {state : StateBag}
    (h : EndedWith sid owner st state) {env : Env a} (stream : Bool) {args : RunArgs}
    {st' : Store a} (h_enter : Enters sid env args st st') (h_names : Names env args sid)
    (h_owner : env.context.toScope = owner) (h_fresh : env.context.state = [])
    (h_plain : args.initialContext = []) :
    (startRun env stream args st').state = a.readBack (jsonSafeState state) ∧
      ((a.aliased = true ∨ ∀ p ∈ jsonSafeState state, ∃ v, p.2 = .json v) →
        (startRun env stream args st').state = jsonSafeState state) := by
  obtain ⟨s, h_find, h_match, h_state⟩ := h.find? h_owner
  -- the session is the one that the earlier run left
  obtain ⟨s', h_find', h_scope, h_state'⟩ := h_enter.find? h_find
  have h_match' : (env.context.sessionScope none).matchesSession s' = true :=
    (SessionScope.matchesSession_congr _ h_scope).trans h_match
  -- whose state is the one that was saved, as it is read back
  have h_start : (startRun env stream args st').state = a.readBack (jsonSafeState state) :=
    calc (startRun env stream args st').state
        = s'.state := startRun_state_of_load h_names h_find' h_match' h_fresh h_plain
      _ = s.state := h_state'
      _ = a.readBack (jsonSafeState state) := h_state
  exact ⟨h_start, fun h_json => h_start.trans (StoreAdapter.readBack_eq_self h_json)⟩

/-! ### A tuple and a connection -/

/-- A tool that keeps a flag, a tuple and a connection in the bag. -/
def ticketEnv (a : StoreAdapter) : Env a where
  registry := [("desk.mark", {})]
  proxy := .scripted [{ toolCalls := [⟨"c1", "desk.mark", []⟩] }, { content := some "Done." }]
  toolBody _ _ _ _ _ := (.ok "marked", [("flag", .json (.bool true)),
    ("pair", .coerced "(1, 2)" (.arr [.int 1, .int 2])), ("conn", .hostObject "connection")])

def ticketArgs : RunArgs := { userMessage := "go", sessionId := some "s" }

/-- The store after the first run. -/
def ticketStore (a : StoreAdapter) : Store a :=
  (storeAfter (execRun (ticketEnv a) false ticketArgs (.empty a))).reread

theorem endedWith_ticket (a : StoreAdapter) : EndedWith "s" (ticketEnv a).context.toScope
    (ticketStore a) (endState (ticketEnv a) false ticketArgs (.empty a)) :=
  .ran (.run rfl) rfl (by cases a <;> rfl)

/-- The flag and the tuple survive in memory, the connection does not. -/
theorem startRun_state_ticket :
    (startRun (ticketEnv .memory) false ticketArgs (ticketStore .memory)).state =
      [("flag", .json (.bool true)), ("pair", .coerced "(1, 2)" (.arr [.int 1, .int 2]))] := by
  have h_enter : Enters "s" (ticketEnv .memory) ticketArgs (ticketStore .memory)
      (ticketStore .memory) := .run rfl
  have h_state := (startRun_state (endedWith_ticket .memory) false h_enter rfl rfl rfl rfl).2
    (.inl rfl)
  rw [h_state]
  decide +kernel

/-- **A tuple comes back as a list** from a store that keeps JSON. -/
theorem startRun_state_coerced : ¬∀ (a : StoreAdapter) (st : Store a) (state : StateBag),
    EndedWith "s" (ticketEnv a).context.toScope st state →
      (startRun (ticketEnv a) false ticketArgs st).state = jsonSafeState state := by
  intro h
  have h_state := h (.redis "") _ _ (endedWith_ticket _)
  revert h_state
  decide +kernel

end Nexus
