import NexusAgent.Runner.Persistence

/-!
# Histories of a session

What happens to one stored session over any number of runs and resumes. `RunOn` is a run or
a resume under its id, `Served` one step of its history: such a run, or anything else that
leaves its entry alone, which runs of other sessions do (`served_other_run`). A statement
about every history may require something of each run it contains (`Meets`).

`History.stored` is the induction over a history, made once.
-/

open Lib

namespace Nexus

variable {a : StoreAdapter}

/-- The arguments of the run a resume starts. -/
def resumeArgs (sid : String) : RunArgs := { userMessage := "", sessionId := some sid }

/-- The stored session under `sid`, if there is one, has the property `P`. -/
def Stored (sid : String) (P : AgentSession → Prop) (st : Store a) : Prop :=
  ∀ s, st.find? sid = some s → P s

/-- The final state of a run or a resume of the session `sid` on a store. `Meets` is
required of the run, with the store it starts on. -/
inductive RunOn (sid : String) (Meets : Env a → Bool → RunArgs → Store a → Prop) (st : Store a) :
    RunState a → Prop
  | run {env : Env a} {stream : Bool} {args : RunArgs} (h_sid : runSessionId env args = sid)
      (h_meets : Meets env stream args st) : RunOn sid Meets st (execRun env stream args st)
  | resume {env : Env a} {stream : Bool} {results : List ResumeItem} {st' : Store a}
      (h_sid : runSessionId env (resumeArgs sid) = sid)
      (h_store : resumeStore env sid results st = .ok st')
      (h_meets : Meets env stream (resumeArgs sid) st') :
    RunOn sid Meets st (execRun env stream (resumeArgs sid) st')

/-- A `resume` that does not raise. -/
theorem RunOn.of_execResume {sid : String} {Meets : Env a → Bool → RunArgs → Store a → Prop}
    {env : Env a} {stream : Bool} {results : List ResumeItem} {st : Store a} {s : RunState a}
    (h_sid : runSessionId env (resumeArgs sid) = sid)
    (h_resume : execResume env stream sid results st = .ok s)
    (h_meets : ∀ st', resumeStore env sid results st = .ok st' →
      Meets env stream (resumeArgs sid) st') : RunOn sid Meets st s := by
  unfold execResume at h_resume
  -- the resume is refused, or the run starts on what it stored
  cases h_store : resumeStore env sid results st with
  | error text =>
    rw [h_store] at h_resume
    cases h_resume
  | ok st' =>
    rw [h_store] at h_resume
    obtain rfl := Except.ok.inj h_resume
    exact .resume h_sid h_store (h_meets st' h_store)

/-- One step in the history of the session `sid`. -/
inductive Served (sid : String) (Meets : Env a → Bool → RunArgs → Store a → Prop) :
    Store a → Store a → Prop
  | ran {st : Store a} {s : RunState a} (h_run : RunOn sid Meets st s) :
    Served sid Meets st (storeAfter s)
  /-- Something that does not concern the session. -/
  | other {st st' : Store a} (h_same : st'.find? sid = st.find? sid) : Served sid Meets st st'

/-- Any number of steps. -/
def History (sid : String) (Meets : Env a → Bool → RunArgs → Store a → Prop) :
    Store a → Store a → Prop :=
  Relation.ReflTransGen (Served sid Meets)

/-- What a run leaves alone: everything stored under other ids, save what a curating agent
writes. -/
theorem find?_run_others (env : Env a) (stream : Bool) (args : RunArgs) (st : Store a)
    {E : Set String} (hE : CuratorWrites env (runSessionId env args) E) {sid : String}
    (h_sid : sid ≠ runSessionId env args) (h_out : sid ∉ E) :
    (storeAfter (execRun env stream args st)).find? sid = st.find? sid := by
  have h_id := openSession_sessionId env args st
  have h_run := execRun_keeps env stream args st (h_id ▸ hE)
  have h_open := keeps_openSession (E := E) env args st
  rw [← getOrCreateSession_others env args st h_sid,
    ← h_open.others sid (by rwa [getOrCreateSession_sessionId]) h_out]
  exact h_run.others sid (by rwa [h_id]) h_out

/-- A run of another session is a step that does not concern this one, unless its curating
agent works under this id. -/
theorem served_other_run (sid : String) (Meets : Env a → Bool → RunArgs → Store a → Prop)
    (env : Env a) (stream : Bool) (args : RunArgs) (st : Store a)
    (h_sid : sid ≠ runSessionId env args) (h_curator : sid ≠ curatorId (runSessionId env args)) :
    Served sid Meets st (storeAfter (execRun env stream args st)) :=
  .other (find?_run_others env stream args st (curatorWrites_derived env _) h_sid
    (by simpa using h_curator))

/-! ### Resuming -/

/-- Filling the results of a resume leaves the core of the session. -/
theorem core_resumeSession (results : List ResumeItem) (s : AgentSession) :
    (resumeSession results s).core = s.core := by
  -- filling in an answer changes the raw response and its size only
  have h_fill : ∀ content (tc : ToolCallRecord),
      ({ (fillRawResponse content tc).bare with rawResponse := "" } : ToolCallRecord) =
        { tc.bare with rawResponse := "" } := by
    intro content tc
    unfold fillRawResponse
    split_ifs <;> rfl
  have h_first : ∀ content (p : ToolCallRecord → Bool) (tcs : List ToolCallRecord),
      (updateFirst p (fillRawResponse content) tcs).map
          (fun tc => { tc.bare with rawResponse := "" }) =
        tcs.map fun tc => { tc.bare with rawResponse := "" } := by
    intro content p tcs
    induction tcs with
    | nil => rfl
    | cons tc tcs ih =>
      unfold updateFirst
      split_ifs <;> simp [h_fill, ih]
  -- so every turn keeps its shell, whichever pendings are answered
  have h_turns : ∀ (pendings : List PendingInteraction) (turns : List TurnRecord),
      (pendings.foldl (fillPending results) turns).map TurnRecord.shell =
        turns.map TurnRecord.shell := by
    intro pendings
    induction pendings with
    | nil => exact fun _ => rfl
    | cons pending pendings ih =>
      intro turns
      rw [List.foldl_cons, ih]
      unfold fillPending
      rw [List.map_map]
      exact List.map_congr_left fun t _ => by simp [TurnRecord.shell, h_first]
  exact s.core_of_turns [] (h_turns _ _)

/-- A resume that starts a run found a session that was waiting. -/
theorem resumeStore_eq_ok {env : Env a} {sid : String} {results : List ResumeItem}
    {st st' : Store a} (h : resumeStore env sid results st = .ok st') :
    ∃ s, st.find? sid = some s ∧ s.pendingInteractions ≠ [] ∧
      (env.context.sessionScope none).matchesSession s = true ∧
      st' = (maybeSave env.context ⟨resumeSession results s, st⟩).contents := by
  unfold resumeStore at h
  -- no session: refused
  cases h_load : st.loadSession sid (env.context.sessionScope none) with
  | none => simp [h_load] at h
  | some s =>
    obtain ⟨h_find, h_match⟩ := Store.loadSession_eq_some.mp h_load
    simp only [h_load] at h
    -- nothing pending: refused
    split_ifs at h with h_pending
    exact ⟨s, h_find, h_pending, h_match, (Except.ok.inj h).symm⟩

/-- What a resume stores for the session: the session with its results, or, under an
adapter that hands out copies and a run that does not persist, nothing. -/
theorem find?_resumeStore {env : Env a} {sid : String} {results : List ResumeItem}
    {st st' : Store a} (h : resumeStore env sid results st = .ok st') :
    ∃ s, st.find? sid = some s ∧ s.pendingInteractions ≠ [] ∧
      st'.find? sid =
        some (if a.aliased || env.context.shouldPersist then resumeSession results s else s) := by
  obtain ⟨s, h_find, h_pending, -, rfl⟩ := resumeStore_eq_ok h
  refine ⟨s, h_find, h_pending, ?_⟩
  have h_id : (resumeSession results s).sessionId = sid :=
    (show s.sessionId = sid from Store.find?_sessionId h_find)
  -- stored by an explicit save, or as the same object
  unfold maybeSave
  by_cases h_persist : env.context.shouldPersist = true
  · simp only [h_persist, Bool.or_true, if_true]
    have := Live.find?_saveSession_contents (⟨resumeSession results s, st⟩ : Live a)
    rwa [h_id] at this
  · -- not saved: only an aliased session sees the change
    have h_self := Live.find?_contents_self (⟨resumeSession results s, st⟩ : Live a)
    simp only [h_id] at h_self
    simp only [h_persist, Bool.or_false, if_false, Bool.false_eq_true]
    rw [h_self, h_find]
    split_ifs <;> rfl

/-- Resuming keeps what does not look at the results. -/
theorem Stored.resume {sid : String} {P : AgentSession → Prop} (hP : Live.CoreInv P) {env : Env a}
    {results : List ResumeItem} {st st' : Store a}
    (h_store : resumeStore env sid results st = .ok st') (h : Stored sid P st) :
    Stored sid P st' := by
  obtain ⟨s, h_find, -, h_find'⟩ := find?_resumeStore h_store
  intro s' hs'
  obtain rfl := Option.some.inj (h_find'.symm.trans hs')
  split_ifs
  · exact hP s _ (core_resumeSession results s) (h s h_find)
  · exact h s h_find

/-! ### The induction over a history -/

/-- **A property of the stored session along a history**: it holds when there is no session
yet, every run that meets the requirement keeps it, and so does filling in results. -/
theorem History.stored {sid : String} {Meets : Env a → Bool → RunArgs → Store a → Prop}
    {P : AgentSession → Prop} {st st' : Store a} (h : History sid Meets st st')
    (h_run : ∀ env stream args st, runSessionId env args = sid → Meets env stream args st →
      Stored sid P st → Stored sid P (storeAfter (execRun env stream args st)))
    (h_resume : ∀ env results (st st' : Store a), resumeStore env sid results st = .ok st' →
      Stored sid P st → Stored sid P st')
    (h_start : Stored sid P st) : Stored sid P st' := by
  induction h with
  | refl => exact h_start
  | tail _ h_step ih =>
    -- a run, a resume with its run, or a step of others
    cases h_step with
    | ran h_ran =>
      cases h_ran with
      | run h_sid h_meets => exact h_run _ _ _ _ h_sid h_meets ih
      | resume h_sid h_store h_meets =>
        exact h_run _ _ _ _ h_sid h_meets (h_resume _ _ _ _ h_store ih)
    | other h_same => exact fun s hs => ih s (h_same ▸ hs)

/-- Nothing is asked of a session that is not stored. -/
theorem stored_of_none {sid : String} {st : Store a} (h : st.find? sid = none)
    (P : AgentSession → Prop) : Stored sid P st := by
  intro s hs
  rw [h] at hs
  cases hs

/-- The session a run leaves behind, from what holds of the working session and its entry. -/
theorem stored_execRun {env : Env a} {stream : Bool} {args : RunArgs} {st : Store a} {sid : String}
    {P : AgentSession → Prop} (h_sid : runSessionId env args = sid)
    (h : (execRun env stream args st).live.Inv P) :
    Stored sid P (storeAfter (execRun env stream args st)) := by
  have h_id := (execRun_keeps env stream args st (curatorWrites_derived env _)).sessionId
  rw [openSession_sessionId, h_sid] at h_id
  exact fun s hs => h.stored s (h_id ▸ hs)

end Nexus
