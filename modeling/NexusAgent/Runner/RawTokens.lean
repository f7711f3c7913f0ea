import NexusAgent.Rcs.Savings
import NexusAgent.Runner.TcIds

/-!
# The token count of a raw response

A handler that answers a call counts the tokens of what it stores as the raw response. The
two other writers of raw responses do not count: a resume and a superseding message fill in
the text of a record that waits, and its count stays the zero it was created with. So the
counts are right as long as what is filled in counts as no tokens.

* `ToolCallRecord.Counted`: the tokens of a record are those of its raw response.
* `tokensRaw_counted`: the records of any session whose waiting records get free texts only.
* `tokensRaw_not_counted`: a result of a resume is not counted.
-/

open Lib

namespace Nexus

variable {a : StoreAdapter} {c : TokenCounter} {models : Set String}

/-! ### Counted records -/

/-- The record has the tokens of its raw response, as the tokenizer of one of the models
splits it. -/
def ToolCallRecord.Counted (c : TokenCounter) (models : Set String) (tc : ToolCallRecord) : Prop :=
  ∃ model ∈ models, tc.tokensRaw = c.countString tc.rawResponse model

/-- What is filled into the records an interaction of the session waits on counts as no
tokens. -/
def FillsFree (c : TokenCounter) (models : Set String) (text : PendingInteraction → String)
    (s : AgentSession) : Prop :=
  ∀ p ∈ s.pendingInteractions, ∀ tc ∈ s.records, tc.tcId = p.tcId → tc.rawResponse = "" →
    ∃ model ∈ models, c.countString (text p) model = 0

/-- Bare records that agree are counted alike. -/
theorem ToolCallRecord.counted_of_bare {tc tc' : ToolCallRecord} (h : tc'.bare = tc.bare)
    (h_tc : tc.Counted c models) : tc'.Counted c models := by
  have h_raw : tc'.rawResponse = tc.rawResponse := by
    have := congrArg ToolCallRecord.rawResponse h
    exact this
  have h_tokens : tc'.tokensRaw = tc.tokensRaw := by
    have := congrArg ToolCallRecord.tokensRaw h
    exact this
  unfold Counted
  rwa [h_raw, h_tokens]

/-- Filling a text that counts as no tokens into an empty record. -/
theorem ToolCallRecord.Counted.fill {tc : ToolCallRecord} {content : String}
    (h : tc.Counted c models)
    (h_free : tc.rawResponse = "" → ∃ model ∈ models, c.countString content model = 0) :
    (fillRawResponse content tc).Counted c models := by
  unfold fillRawResponse
  split_ifs with h_raw
  · obtain ⟨model, -, h_tokens⟩ := h
    obtain ⟨model', h_model', h_zero⟩ := h_free h_raw
    refine ⟨model', h_model', ?_⟩
    show tc.tokensRaw = c.countString content model'
    rw [h_tokens, h_zero, h_raw]
    rfl
  · exact h

/-- Every record of the session is counted. -/
def CountedSession (c : TokenCounter) (models : Set String) (s : AgentSession) : Prop :=
  ∀ tc ∈ s.records, tc.Counted c models

/-- Bare turns that agree have bare records that agree. -/
theorem AgentSession.records_bare {s s' : AgentSession}
    (h : s'.turns.map TurnRecord.bare = s.turns.map TurnRecord.bare) :
    s'.records.map ToolCallRecord.bare = s.records.map ToolCallRecord.bare := by
  have h_records : ∀ s : AgentSession, s.records.map ToolCallRecord.bare =
      (s.turns.map TurnRecord.bare).flatMap TurnRecord.toolCalls := by
    intro s
    simp only [records, List.map_flatMap, List.flatMap_map]
    rfl
  rw [h_records s', h, h_records s]

/-- The count is kept as a session grows. -/
theorem growInv_counted : Live.GrowInv (CountedSession c models) := by
  intro s s' h_grown h tc' h_tc'
  have h_mem := List.mem_map_of_mem (f := ToolCallRecord.bare) h_tc'
  rw [AgentSession.records_bare (AgentSession.turns_of_stem h_grown.stem)] at h_mem
  obtain ⟨tc, h_tc, h_bare⟩ := List.mem_map.mp h_mem
  exact ToolCallRecord.counted_of_bare h_bare.symm (h tc h_tc)

theorem foldInv_counted (env : Env a) : FoldInv env (CountedSession c models) := by
  intro s newPart _ h tc h_tc
  exact h tc ((List.filter_sublist.flatMap TurnRecord.toolCalls).subset h_tc)

/-! ### The three writers -/

/-- **A handler** counts what it stores. -/
theorem HandledAs.counted {env : Env a} {req : ToolCallRequest} {i : ℕ} {h : Handled}
    (h_as : HandledAs env req i h) (h_model : env.config.builder.model ∈ models) :
    h.record.Counted env.counter models := by
  obtain ⟨result, h_record, -⟩ := h_as.record
  exact ⟨_, h_model, by rw [h_record]; rfl⟩

/-- The records of a turn a pass stores are counted. -/
theorem NewTurn.counted {env : Env a} {stream : Bool} {s : RunState a} {turn : TurnRecord}
    (h : NewTurn env stream s turn) (h_model : env.config.builder.model ∈ models) :
    ∀ tc ∈ turn.toolCalls, tc.Counted env.counter models := by
  cases h with
  -- an answer has no records
  | answer => exact fun tc h_tc => by cases h_tc
  | @tools sent r t u v h_reply h_accepted outs obs h_effect handled n h_handled =>
    have h_results := h_handled.results h_effect.logged
    intro tc h_tc
    obtain ⟨h, h_mem, rfl⟩ := List.mem_map.mp h_tc
    obtain ⟨i, h_i⟩ := List.mem_iff_getElem?.mp h_mem
    -- a record of the turn was counted when it was made
    obtain ⟨req, j, -, -, -, h_as⟩ := h_effect.logged.returned i h (h_results.returned i h h_i)
    exact h_as.counted h_model

/-- **A superseding message** fills in the same text everywhere. -/
theorem CountedSession.close {s : AgentSession} (h : CountedSession c models s)
    (h_free : FillsFree c models (fun _ => pendingSuperseded) s) :
    CountedSession c models (closePendingInteractions s) := by
  intro tc' h_tc'
  obtain ⟨t', h_t', h_tc'⟩ := List.mem_flatMap.mp h_tc'
  obtain ⟨t, h_t, rfl⟩ := List.mem_map.mp h_t'
  obtain ⟨tc, h_tc, rfl⟩ := List.mem_map.mp h_tc'
  have h_record : tc ∈ s.records := List.mem_flatMap_of_mem h_t h_tc
  -- the record of a pending call is filled
  split_ifs with h_open
  · obtain ⟨p, h_p, h_id⟩ := List.mem_map.mp h_open
    exact (h tc h_record).fill (h_free p h_p tc h_record h_id.symm)
  · exact h tc h_record

/-- What a resume keeps of a record: it is counted, and what an interaction may put into it
counts as no tokens. -/
def Fillable (c : TokenCounter) (models : Set String) (text : PendingInteraction → String)
    (pendings : List PendingInteraction) (tc : ToolCallRecord) : Prop :=
  tc.Counted c models ∧ (tc.rawResponse = "" → ∀ p ∈ pendings, tc.tcId = p.tcId →
    ∃ model ∈ models, c.countString (text p) model = 0)

/-- A record stays fillable when it is filled. -/
theorem Fillable.fill {text : PendingInteraction → String} {pendings : List PendingInteraction}
    {tc : ToolCallRecord} (h : Fillable c models text pendings tc) {p : PendingInteraction}
    (h_p : p ∈ pendings) (h_id : tc.tcId = p.tcId) :
    Fillable c models text pendings (fillRawResponse (text p) tc) := by
  refine ⟨h.1.fill fun h_raw => h.2 h_raw p h_p h_id, fun h_empty p' h_p' h_id' => ?_⟩
  unfold fillRawResponse at h_empty h_id'
  split_ifs at h_empty h_id' with h_raw
  · exact h.2 h_raw p' h_p' h_id'
  · exact (h_raw h_empty).elim

/-- What holds of all records and is kept by an update holds after it. -/
theorem forall_updateFirst {Q : ToolCallRecord → Prop} {p : ToolCallRecord → Bool}
    {f : ToolCallRecord → ToolCallRecord} (hf : ∀ tc, p tc = true → Q tc → Q (f tc))
    {tcs : List ToolCallRecord} (h : ∀ tc ∈ tcs, Q tc) : ∀ tc ∈ updateFirst p f tcs, Q tc := by
  induction tcs with
  | nil => exact h
  | cons tc tcs ih =>
    obtain ⟨h_tc, h_tcs⟩ := List.forall_mem_cons.mp h
    unfold updateFirst
    split_ifs with h_p
    · exact List.forall_mem_cons.mpr ⟨hf tc h_p h_tc, h_tcs⟩
    · exact List.forall_mem_cons.mpr ⟨h_tc, ih h_tcs⟩

/-- **A resume** fills in interaction by interaction. -/
theorem CountedSession.resume {s : AgentSession} {results : List ResumeItem}
    (h : CountedSession c models s) (h_free : FillsFree c models (resumeContent results) s) :
    CountedSession c models (resumeSession results s) := by
  -- an answer is filled into a record that is still open for it
  have h_fold : ∀ pendings ⊆ s.pendingInteractions, ∀ turns : List TurnRecord,
      (∀ t ∈ turns, ∀ tc ∈ t.toolCalls,
        Fillable c models (resumeContent results) s.pendingInteractions tc) →
      ∀ t ∈ pendings.foldl (fillPending results) turns, ∀ tc ∈ t.toolCalls,
        Fillable c models (resumeContent results) s.pendingInteractions tc := by
    intro pendings h_sub
    induction pendings with
    | nil => exact fun turns h_turns => h_turns
    | cons p pendings ih =>
      obtain ⟨h_p, h_sub⟩ := List.cons_subset.mp h_sub
      intro turns h_turns
      refine ih h_sub _ fun t' h_t' => ?_
      obtain ⟨t, h_t, rfl⟩ := List.mem_map.mp h_t'
      refine forall_updateFirst (fun tc h_waiting h_tc => ?_) (h_turns t h_t)
      simp only [Bool.and_eq_true, decide_eq_true_eq] at h_waiting
      exact h_tc.fill h_p h_waiting.1
  intro tc h_tc
  obtain ⟨t, h_t, h_tc⟩ := List.mem_flatMap.mp h_tc
  refine (h_fold _ (List.Subset.refl _) s.turns (fun t h_t tc h_tc => ?_) t h_t tc h_tc).1
  have h_record : tc ∈ s.records := List.mem_flatMap_of_mem h_t h_tc
  exact ⟨h tc h_record, fun h_raw p h_p h_id => h_free p h_p tc h_record h_id h_raw⟩

/-! ### Histories -/

/-- The run counts with `c`, for one of the models. -/
structure CountsWith (c : TokenCounter) (models : Set String) (env : Env a) : Prop where
  counter : env.counter = c
  model : env.config.builder.model ∈ models

/-- How the session `sid` is entered when whatever is filled in counts as no tokens. -/
inductive EntersFree (c : TokenCounter) (models : Set String) (sid : String) :
    Env a → RunArgs → Store a → Store a → Prop
  | run {env : Env a} {args : RunArgs} {st : Store a} (h_counts : CountsWith c models env)
      (h_sid : runSessionId env args = sid)
      (h_free : args.userMessage ≠ "" →
        FillsFree c models (fun _ => pendingSuperseded) (getOrCreateSession env args st).session) :
    EntersFree c models sid env args st st
  | resume {env : Env a} {results : List ResumeItem} {st st' : Store a}
      (h_counts : CountsWith c models env) (h_sid : runSessionId env (resumeArgs sid) = sid)
      (h_store : resumeStore env sid results st = .ok st')
      (h_free : ∀ s, st.find? sid = some s → FillsFree c models (resumeContent results) s) :
    EntersFree c models sid env (resumeArgs sid) st st'

section EntersFree

variable {env : Env a} {args : RunArgs} {st st' : Store a}

theorem EntersFree.counts {sid : String} (h : EntersFree c models sid env args st st') :
    CountsWith c models env := by
  cases h <;> assumption

theorem EntersFree.sid {sid : String} (h : EntersFree c models sid env args st st') :
    runSessionId env args = sid := by
  cases h <;> assumption

/-- Entering a run keeps the stored session counted. -/
theorem EntersFree.stored {sid : String} (h : EntersFree c models sid env args st st')
    (h_st : Stored sid (CountedSession c models) st) :
    Stored sid (CountedSession c models) st' := by
  cases h with
  | run => exact h_st
  | resume _ _ h_store h_free =>
    obtain ⟨s, h_find, -, h_find'⟩ := find?_resumeStore h_store
    intro s' hs'
    obtain rfl := Option.some.inj (h_find'.symm.trans hs')
    -- the resume fills only what costs nothing
    split_ifs
    · exact (h_st s h_find).resume (h_free s h_find)
    · exact h_st s h_find

/-- What a message to the session it gets supersedes. -/
theorem EntersFree.free {sid : String} (h : EntersFree c models sid env args st st')
    (h_message : args.userMessage ≠ "") :
    FillsFree c models (fun _ => pendingSuperseded) (getOrCreateSession env args st').session := by
  cases h with
  | run _ _ h_free => exact h_free h_message
  | resume => exact (h_message rfl).elim

end EntersFree

/-- A condition on the fills depends on the dialogue only. -/
theorem fillsFree_of_dialogue {text : PendingInteraction → String} {s s' : AgentSession}
    (h : s'.dialogue = s.dialogue) (h_free : FillsFree c models text s) :
    FillsFree c models text s' := by
  intro p h_p tc' h_tc' h_id h_raw
  rw [AgentSession.pendingInteractions_of_dialogue h] at h_p
  have h_mem := List.mem_map_of_mem (f := ToolCallRecord.bare) h_tc'
  rw [AgentSession.records_bare (AgentSession.turns_of_dialogue h)] at h_mem
  obtain ⟨tc, h_tc, h_bare⟩ := List.mem_map.mp h_mem
  have h_id' : tc.tcId = tc'.tcId := by
    have := congrArg ToolCallRecord.tcId h_bare
    exact this
  have h_raw' : tc.rawResponse = tc'.rawResponse := by
    have := congrArg ToolCallRecord.rawResponse h_bare
    exact this
  exact h_free p h_p tc h_tc (h_id'.trans h_id) (h_raw'.trans h_raw)

/-- **The tokens of every record are those of its raw response**, in any session whose waiting
records were only ever given texts that count as no tokens. -/
theorem tokensRaw_counted {sid : String} {s : AgentSession}
    (h : ReachableBy sid (EntersFree c models sid) s) (tc : ToolCallRecord) (h_tc : tc ∈ s.records) :
    ∃ model ∈ models, tc.tokensRaw = c.countString tc.rawResponse model := by
  have h_counted : CountedSession c models s := by
    refine h.of_runs EntersFree.sid EntersFree.stored ?_
    intro a env stream args st st' l h_enter h_st h_run
    obtain rfl := h_enter.sid
    obtain ⟨rfl, h_model⟩ := h_enter.counts
    have hP : Live.GrowInv (CountedSession env.counter models) := growInv_counted
    have h_fold : FoldInv env (CountedSession env.counter models) := foldInv_counted env
    refine h_run.inv hP h_fold (fun s turn v h_storing => ?_) ?_ ?_
    · -- the turns that were there, and the new one
      refine h_storing.inv_persist hP hP h_fold (fun _ h => h) fun turn h_new x h_x tc h_tc => ?_
      obtain ⟨t, h_t, h_tc⟩ := List.mem_flatMap.mp h_tc
      rcases List.mem_append.mp h_t with h_t | h_t
      · exact h_x tc (List.mem_flatMap_of_mem h_t h_tc)
      · exact h_new.counted h_model tc (List.mem_singleton.mp h_t ▸ h_tc)
    · -- the session that is opened
      exact inv_getOrCreateSession (fun s hs _ => h_st s hs) (fun tc h_tc => by cases h_tc)
    · exact fun h_message s h_dialogue h_s =>
        h_s.close (fillsFree_of_dialogue h_dialogue (h_enter.free h_message))
  exact h_counted tc h_tc

/-! ### A client tool that returns something -/

/-- An agent that looks something up and asks the user. -/
def surveyEnv : Env .memory where
  registry := [("desk.ask", { execution := "client" }), ("desk.lookup", {})]
  counter := charCounter
  proxy := .scripted [{ toolCalls := [⟨"c1", "desk.lookup", []⟩, ⟨"c2", "desk.ask", []⟩] }]
  toolBody _ _ _ _ state := (.ok "data", state)

def surveyArgs : RunArgs := { userMessage := "find it", sessionId := some "s" }

/-- The store after the agent asked. -/
def surveyStore : Store .memory :=
  storeAfter (execRun surveyEnv false surveyArgs (.empty .memory))

/-- What a resume with the content leaves for its run. -/
def surveyAnswered (content : String) : Except String (Store .memory) :=
  resumeStore surveyEnv "s" [{ tcId := some "TC2", content := content }] surveyStore

/-- The records of the session then. -/
def surveyRecords (content : String) : List ToolCallRecord :=
  match surveyAnswered content with
  | .ok st => ((st.find? "s").map AgentSession.records).getD []
  | .error _ => []

/-- The records are those of a session reached. -/
theorem reachable_survey {R : ∀ {a : StoreAdapter}, Env a → RunArgs → Store a → Store a → Prop}
    {content : String} (h_ran : R surveyEnv surveyArgs (.empty .memory) (.empty .memory))
    (h_resumed : ∀ st, surveyAnswered content = .ok st →
      R surveyEnv (resumeArgs "s") surveyStore st) {tc : ToolCallRecord}
    (h_tc : tc ∈ surveyRecords content) : ∃ s, ReachableBy "s" R s ∧ tc ∈ s.records := by
  have h_start : (Store.empty .memory).find? "s" = none := rfl
  unfold surveyRecords at h_tc
  cases h_store : surveyAnswered content with
  | error e => simp [h_store] at h_tc
  | ok st =>
    rw [h_store] at h_tc
    cases h_find : st.find? "s" with
    | none => simp [h_find] at h_tc
    -- the answered session is found in the store
    | some s =>
      simp only [h_find, Option.map_some, Option.getD_some] at h_tc
      have h_asked : Relation.ReflTransGen (MovesBy "s" R) (.empty .memory) surveyStore :=
        .single (.ran h_ran .finished)
      exact ⟨s, .stored h_start (h_asked.tail (.resumed (h_resumed st h_store))) h_find, h_tc⟩

theorem countsWith_survey : CountsWith charCounter {defaultModel} surveyEnv := ⟨rfl, rfl⟩

/-- The looked up data is counted, and an answer without content does no harm. -/
theorem tokensRaw_counted_survey : ∃ tc ∈ surveyRecords "", tc.rawResponse = "data" ∧
    ∃ model ∈ ({defaultModel} : Set String),
      tc.tokensRaw = charCounter.countString tc.rawResponse model := by
  have h_mem : ∃ tc ∈ surveyRecords "", tc.rawResponse = "data" := by decide +kernel
  -- one record of the answered survey has the data
  obtain ⟨tc, h_tc, h_data⟩ := h_mem
  have h_free : ∀ s, FillsFree charCounter {defaultModel}
      (resumeContent [{ tcId := some "TC2", content := "" }]) s := by
    intro s p h_p tc h_tc h_id h_raw
    refine ⟨defaultModel, rfl, ?_⟩
    -- the text that is filled in is empty
    have h_content : resumeContent [{ tcId := some "TC2", content := "" }] p = "" := by
      unfold resumeContent
      cases h_item : ([{ tcId := some "TC2", content := "" }] : List ResumeItem).reverse.find?
          fun r => truthy r.tcId = some p.tcId with
      | none => simp [truthy]
      | some r => simp [List.eq_of_mem_singleton (List.mem_of_find?_eq_some h_item)]
    rw [h_content]
    rfl
  obtain ⟨s, h_s, h_tc'⟩ := reachable_survey (R := EntersFree charCounter {defaultModel} "s")
    (.run countsWith_survey rfl fun _ p h_p => by cases h_p)
    (fun st h_store => .resume countsWith_survey rfl h_store fun s _ => h_free s) h_tc
  exact ⟨tc, h_tc, h_data, tokensRaw_counted h_s tc h_tc'⟩

/-- **The answer of the user is not counted.** -/
theorem tokensRaw_not_counted : ¬∀ s,
    ReachableBy "s" (fun env args st st' => Enters "s" env args st st' ∧
      CountsWith charCounter {defaultModel} env) s →
    ∀ tc ∈ s.records, tc.rawResponse ≠ "" → ∃ model ∈ ({defaultModel} : Set String),
      tc.tokensRaw = charCounter.countString tc.rawResponse model := by
  intro h
  -- the record that was filled in is still counted as empty
  have h_mem : ∃ tc ∈ surveyRecords "four", tc.rawResponse = "four" ∧ tc.tokensRaw = 0 := by
    decide +kernel
  obtain ⟨tc, h_tc, h_raw, h_zero⟩ := h_mem
  obtain ⟨s, h_s, h_tc'⟩ := reachable_survey
    (R := fun env args st st' => Enters "s" env args st st' ∧
      CountsWith charCounter {defaultModel} env)
    ⟨.run rfl, countsWith_survey⟩ (fun st h_store => ⟨.resume rfl h_store, countsWith_survey⟩) h_tc
  obtain ⟨model, -, h_eq⟩ := h s h_s tc h_tc' (by rw [h_raw]; decide)
  have h_four : charCounter.countString "four" model = 4 := rfl
  rw [h_zero, h_raw, h_four] at h_eq
  cases h_eq

end Nexus
