import NexusAgent.Runner.Runs
import NexusAgent.Session.Invariant

/-!
# What a run does to its session and to the store

The two halves of `NexusAgent.Session.Invariant`, carried from the primitive operations to
a pass of the loop and to a whole run.

* `TurnStep.keeps`, `execRun_keeps`: the entries of other sessions stay.
* `TurnStep.inv`: a property of the session and its stored copy that does not look at
  summaries, pending interactions or the state bag, and not at the record counter but for a
  bound, is kept by a pass, if folding keeps it and so does storing a turn (`Storing`).
* `Storing.inv_persist`: storing a turn keeps it, if any session may get the turn (`NewTurn`).
* `execRun_inv`: the same for a whole run.
-/

open Lib

namespace Nexus

variable {a : StoreAdapter}

/-! ### The frame -/

/-- A curation for the session `sid` writes no entries but those in `E`. -/
def CuratorWrites (env : Env a) (sid : String) (E : Set String) : Prop :=
  ∀ k s st, s.sessionId = sid → ∀ sid' ∉ E,
    Store.find? (env.curator.act k s st) sid' = st.find? sid'

theorem curatorWrites_derived (env : Env a) (sid : String) :
    CuratorWrites env sid {curatorId sid} :=
  fun k s st h_id sid' hE => env.curator.frame k s st sid' (h_id ▸ hE)

variable {E : Set String}

/-- A save keeps the session. -/
theorem keeps_maybeSave (ctx : RunContext) (l : Live a) : l.Keeps E (maybeSave ctx l) := by
  unfold maybeSave
  split_ifs
  · exact Live.keeps_saveSession l
  · exact .refl l

/-- Persisting a turn keeps the session. -/
theorem keeps_persistTurn (ctx : RunContext) (turn : TurnRecord) (l : Live a) :
    l.Keeps E (persistTurn ctx turn l) := by
  unfold persistTurn
  split_ifs
  · exact (Live.keeps_appendTurn l turn _).trans (Live.keeps_reload _ _)
  · exact Live.keeps_mutate l rfl

/-- So does persisting it with its state. -/
theorem keeps_persistTurnWithState (env : Env a) (turn : TurnRecord) (s : RunState a) :
    s.live.Keeps E (persistTurnWithState env turn s).live := by
  have h_state := Live.keeps_mutate (E := E) s.live (f := .withState (jsonSafeState s.state)) rfl
  have h_save := h_state.trans (keeps_maybeSave env.context _)
  have h_turn := h_save.trans (keeps_persistTurn env.context turn _)
  exact h_turn.trans (Live.keeps_mutate _ (f := .withState (jsonSafeState s.state)) rfl)

theorem keeps_curate {env : Env a} {l : Live a} (hE : CuratorWrites env l.session.sessionId E)
    (k : ℕ) : l.Keeps E (curate env k l) :=
  Live.keeps_store l _ fun sid _ h_sid => hE k l.session l.contents rfl sid h_sid

/-- Writing the contents down changes nothing. -/
theorem keeps_contents (l : Live a) : l.Keeps E { l with store := l.contents } :=
  Live.keeps_store l _ fun _ _ _ => rfl

/-- And so does the curator, but for what it writes. -/
theorem keeps_maybeCurate {env : Env a} {l : Live a}
    (hE : CuratorWrites env l.session.sessionId E) (k : ℕ) :
    l.Keeps E (maybeCurateAfterTurn env k l) := by
  unfold maybeCurateAfterTurn
  split_ifs
  · exact (keeps_curate hE k).trans ((keeps_contents _).trans (Live.keeps_reload _ _))
  · exact .refl l

/-- So does folding. -/
theorem Folded.keeps {env : Env a} {k : ℕ} {l l' : Live a} (h : Folded env k l l') : l.Keeps E l' := by
  cases h with
  | kept => exact .refl l
  | folded h_on h_some newPart =>
    exact (Live.keeps_mutate l rfl).trans (Live.keeps_saveSession _)

theorem Opened.keeps {env : Env a} {s t : RunState a} {sent : List Message}
    (h : Opened env s sent t) : s.live.Keeps E t.live := by
  obtain ⟨l, l', h_similar, h_folded, h_similar'⟩ := h.live
  exact h_similar.keeps.trans (h_folded.keeps.trans h_similar'.keeps)

/-- A reply leaves the session as the opening did. -/
theorem Replied.live {env : Env a} {stream : Bool} {s t : RunState a} {sent : List Message}
    {r : LLMResponse} (h : Replied env stream s sent r t) :
    ∃ u, Opened env s sent u ∧ t.live = u.live := by
  obtain ⟨u, events, h_open, rfl⟩ := h.opened
  exact ⟨u, h_open, rfl⟩

theorem Replied.keeps {env : Env a} {stream : Bool} {s t : RunState a} {sent : List Message}
    {r : LLMResponse} (h : Replied env stream s sent r t) : s.live.Keeps E t.live := by
  obtain ⟨u, h_open, h_live⟩ := h.live
  exact h_live ▸ h_open.keeps

theorem Accepted.live {env : Env a} {r : LLMResponse} {s t : RunState a}
    (h : Accepted env r s t) : t.live = s.live := by
  cases h <;> rfl

/-- The end of a turn keeps the session, up to what the curator writes. -/
theorem EndTurn.keeps {env : Env a} {k : ℕ} {final : Bool} {s s' : RunState a}
    {o : Except RunError Prog.Ctl} (h : EndTurn env k final s o s') : s.live.Keeps E s'.live := by
  cases h with
  | stopped => exact .refl _
  | injected => exact .refl _
  | human => exact (Live.keeps_mutate s.live rfl).trans (keeps_maybeSave _ _)
  | timedOut => exact .refl _
  | onward => exact .refl _

/-- Storing a turn keeps the session, but for what the curator writes. -/
theorem keeps_storedTurn {env : Env a} {s : RunState a}
    (hE : CuratorWrites env s.session.sessionId E) (k : ℕ) (turn : TurnRecord) :
    s.live.Keeps E (storedTurn env k turn s).live := by
  have h_persist := keeps_persistTurnWithState (E := E) env turn s
  exact h_persist.trans (keeps_maybeCurate (h_persist.sessionId ▸ hE) k)

/-- **The frame of a pass.** -/
theorem TurnStep.keeps {env : Env a} {stream : Bool} {s s' : RunState a}
    {o : Except RunError Prog.Ctl} (h : TurnStep env stream s o s')
    (hE : CuratorWrites env s.session.sessionId E) : s.live.Keeps E s'.live := by
  cases h with
  | cancelled => exact .refl _
  | callFailed h_open => exact h_open.keeps
  | retried h_reply => exact h_reply.keeps
  | rejected h_reply => exact h_reply.keeps
  | answered h_reply h_accepted _ _ savings h_end =>
    have h_u := h_reply.keeps (E := E)
    rw [← h_accepted.live] at h_u
    exact h_u.trans ((keeps_storedTurn (h_u.sessionId ▸ hE) s.calls _).trans h_end.keeps)
  | toolsRaised h_reply h_accepted _ h_effect =>
    have h_u := h_reply.keeps (E := E)
    rw [← h_accepted.live] at h_u
    exact h_u.trans h_effect.live.keeps
  -- the turn is stored and saved, and no curator follows a pause
  | paused h_reply h_accepted _ h_effect _ _ _ _ h_w =>
    subst h_w
    have h_u := h_reply.keeps (E := E)
    rw [← h_accepted.live] at h_u
    exact h_u.trans (h_effect.live.keeps.trans
      ((keeps_persistTurnWithState env _ _).trans (keeps_maybeSave _ _)))
  | handled h_reply h_accepted _ h_effect _ _ _ _ h_end =>
    have h_u := h_reply.keeps (E := E)
    rw [← h_accepted.live] at h_u
    have h_v := h_u.trans h_effect.live.keeps
    exact h_v.trans ((keeps_storedTurn (h_v.sessionId ▸ hE) s.calls _).trans h_end.keeps)

/-- So does curating at the end. -/
theorem keeps_curateAtEnd {env : Env a} {s : RunState a}
    (hE : CuratorWrites env s.session.sessionId E) : s.live.Keeps E (curateAtEnd env s).live := by
  unfold curateAtEnd
  have h_reload := (keeps_contents (E := E) s.live).trans
    (Live.keeps_reload _ (env.context.sessionScope (some s.session)))
  split_ifs
  · exact h_reload.trans (keeps_curate (h_reload.sessionId ▸ hE) _)
  · exact h_reload
  · exact .refl _

theorem keeps_finishRun {env : Env a} {s : RunState a}
    (hE : CuratorWrites env s.session.sessionId E) : s.live.Keeps E (finishRun env s).live :=
  (keeps_curateAtEnd hE).trans ((Live.keeps_mutate _ rfl).trans (keeps_maybeSave _ _))

/-- The loop keeps the session. -/
theorem keeps_runLoop (env : Env a) (stream : Bool) (limit : ℕ) {s₀ : RunState a}
    (hE : CuratorWrites env s₀.session.sessionId E)
    (h_retries : s₀.structRetriesRemaining = env.config.structuredOutputMaxRetries) :
    s₀.live.Keeps E (runLoop env stream limit s₀).live :=
  runLoop_invariant env stream limit (J := fun s => s₀.live.Keeps E s.live)
    (fun _ _ _ _ hJ _ h_step => hJ.trans (h_step.keeps (hJ.sessionId ▸ hE)))
    (fun _ _ _ _ h => h) (.refl _) h_retries

/-- The session of a run is that of its finish. -/
theorem execRun_live (env : Env a) (stream : Bool) (args : RunArgs) (st : Store a) :
    (execRun env stream args st).live =
      (finishRun env (runLoop env stream (turnLimit env args) (startRun env stream args st))).live := by
  unfold execRun
  dsimp only
  split_ifs <;> rfl

/-- **The frame of a run**, from the session it opens. -/
theorem execRun_keeps (env : Env a) (stream : Bool) (args : RunArgs) (st : Store a)
    (hE : CuratorWrites env (openSession env args st).1.session.sessionId E) :
    (openSession env args st).1.Keeps E (execRun env stream args st).live := by
  rw [execRun_live]
  have h_loop := keeps_runLoop env stream (turnLimit env args) hE
    (startRun_retries env stream args st)
  exact h_loop.trans (keeps_finishRun (h_loop.sessionId ▸ hE))

/-! ### Invariants -/

section Inv

variable {P P' : AgentSession → Prop} {l : Live a}

/-- A save keeps an invariant of the session. -/
theorem inv_maybeSave (h : l.Inv P) (ctx : RunContext) : (maybeSave ctx l).Inv P := by
  unfold maybeSave
  split_ifs
  · exact .saveSession h.session
  · exact h

/-- A change of the working session by which it grows. -/
theorem inv_mutate_grown (hP : Live.GrowInv P) (h : l.Inv P) {f : AgentSession → AgentSession}
    (hf : l.session.Grown (f l.session)) : (l.mutate f).Inv P :=
  h.grows hP (Live.grows_mutate l hf)

/-- Writing down the state bag. -/
theorem inv_withState (hP : Live.GrowInv P) (h : l.Inv P) (state : StateBag) :
    (l.mutate (.withState state)).Inv P :=
  inv_mutate_grown hP h ⟨rfl, le_rfl⟩

/-- Persisting a turn keeps an invariant that appending keeps. -/
theorem inv_persistTurn (h : l.Inv P) (h_mono : ∀ s, P s → P' s) {turn : TurnRecord}
    (h_append : ∀ s, P s → P' (s.addTurn turn)) (ctx : RunContext) :
    (persistTurn ctx turn l).Inv P' := by
  unfold persistTurn
  split_ifs
  · exact h.appendTurn_reload h_mono h_append _
  · exact (h.mono h_mono).mutate rfl (h_append _ h.session)

/-- So does persisting it with its state. -/
theorem inv_persistTurnWithState (hP : Live.GrowInv P) (hP' : Live.GrowInv P') {s : RunState a}
    (h : s.live.Inv P) (h_mono : ∀ s, P s → P' s) {turn : TurnRecord}
    (h_append : ∀ s, P s → P' (s.addTurn turn)) (env : Env a) :
    (persistTurnWithState env turn s).live.Inv P' := by
  have h_state := inv_withState hP h (jsonSafeState s.state)
  have h_turn := inv_persistTurn (inv_maybeSave h_state env.context) h_mono h_append env.context
  exact inv_withState hP' h_turn (jsonSafeState s.state)

/-- Curating keeps what holds of the session and of the store. -/
theorem inv_curate (h : l.Inv P) (env : Env a) (k : ℕ) : (curate env k l).Inv P where
  session := h.session
  stored s hs := by
    have h_self := Live.find?_contents_self (curate env k l)
    rw [h_self] at hs
    split_ifs at hs with ha
    · exact Option.some.inj hs ▸ h.session
    · refine h.stored s (hs ▸ ?_)
      exact (env.curator.frame k l.session l.contents _ (curatorId_ne _)).symm

theorem inv_reload_contents (h : l.Inv P) (scope : SessionScope) :
    ({ l with store := l.contents }.reload scope : Live a).Inv P :=
  .reload (l := ⟨l.session, l.contents⟩) h.session h.stored scope

/-- The curator keeps an invariant of the session. -/
theorem inv_maybeCurate (h : l.Inv P) (env : Env a) (k : ℕ) :
    (maybeCurateAfterTurn env k l).Inv P := by
  unfold maybeCurateAfterTurn
  split_ifs
  · exact inv_reload_contents (inv_curate h env k) _
  · exact h

/-- So does the end of a turn. -/
theorem EndTurn.inv (hP : Live.GrowInv P) {env : Env a} {k : ℕ} {final : Bool} {s s' : RunState a}
    {o : Except RunError Prog.Ctl} (h : EndTurn env k final s o s') (h_inv : s.live.Inv P) :
    s'.live.Inv P := by
  cases h with
  | stopped => exact h_inv
  | injected => exact h_inv
  | human => exact inv_maybeSave (inv_mutate_grown hP h_inv ⟨rfl, le_rfl⟩) env.context
  | timedOut => exact h_inv
  | onward => exact h_inv

/-- The property survives folding. -/
def FoldInv (env : Env a) (P : AgentSession → Prop) : Prop :=
  ∀ s newPart, turnsToFold env.config.contextSummary s ≠ [] → P s →
    P (foldSession env.config.contextSummary (turnsToFold env.config.contextSummary s) newPart s)

/-- So does opening one. -/
theorem Opened.inv (hP : Live.GrowInv P) {env : Env a} (h_fold : FoldInv env P) {s t : RunState a}
    {sent : List Message} (h : Opened env s sent t) (h_inv : s.live.Inv P) : t.live.Inv P := by
  obtain ⟨l, l', h_similar, h_folded, h_similar'⟩ := h.live
  have h_l : l.Inv P := h_inv.grows hP h_similar.grows
  refine Live.Inv.grows ?_ hP h_similar'.grows
  cases h_folded with
  | kept => exact h_l
  | folded h_on h_some newPart => exact .saveSession (h_fold _ _ h_some h_l.session)

/-- So does a reply, if folding does. -/
theorem Replied.inv (hP : Live.GrowInv P) {env : Env a} (h_fold : FoldInv env P) {stream : Bool}
    {s t : RunState a} {sent : List Message} {r : LLMResponse}
    (h : Replied env stream s sent r t) (h_inv : s.live.Inv P) : t.live.Inv P := by
  obtain ⟨u, h_open, h_live⟩ := h.live
  exact h_live ▸ h_open.inv hP h_fold h_inv

end Inv

/-- A turn a pass from `s` appends to the session. -/
inductive NewTurn (env : Env a) (stream : Bool) (s : RunState a) : TurnRecord → Prop
  | answer {sent : List Message} {r : LLMResponse} {t u : RunState a}
      (h_reply : Replied env stream s sent r t) (h_accepted : Accepted env r t u)
      (h_calls : r.toolCalls = []) (savings : ℕ) :
    NewTurn env stream s (answerRecord r savings (answering r u))
  | tools {sent : List Message} {r : LLMResponse} {t u v : RunState a}
      (h_reply : Replied env stream s sent r t) (h_accepted : Accepted env r t u)
      {outs : List (ℕ × Except RunError Handled)} {obs : List Obs}
      (h_effect : HandlingEffect env r.toolCalls u outs obs v)
      {handled : List Handled} {n : ℕ} (h_handled : HandledBy env s.calls r.toolCalls outs handled n)
      (compactorSaved savings : ℕ) :
    NewTurn env stream s (toolRecord env r compactorSaved savings n handled v)

/-- The pass from `s` is about to store `turn`, in the state `v`. -/
inductive Storing (env : Env a) (stream : Bool) (s : RunState a) : TurnRecord → RunState a → Prop
  | answer {sent : List Message} {r : LLMResponse} {t u : RunState a}
      (h_reply : Replied env stream s sent r t) (h_accepted : Accepted env r t u)
      (h_calls : r.toolCalls = []) (savings : ℕ) :
    Storing env stream s (answerRecord r savings (answering r u)) (answering r u)
  | tools {sent : List Message} {r : LLMResponse} {t u v : RunState a}
      (h_reply : Replied env stream s sent r t) (h_accepted : Accepted env r t u)
      {outs : List (ℕ × Except RunError Handled)} {obs : List Obs}
      (h_effect : HandlingEffect env r.toolCalls u outs obs v)
      {handled : List Handled} {n : ℕ} (h_handled : HandledBy env s.calls r.toolCalls outs handled n)
      (compactorSaved savings : ℕ) :
    Storing env stream s (toolRecord env r compactorSaved savings n handled v) v

/-- Storing adds the new turn. -/
theorem Storing.newTurn {env : Env a} {stream : Bool} {s v : RunState a} {turn : TurnRecord}
    (h : Storing env stream s turn v) : NewTurn env stream s turn := by
  cases h with
  | answer h_reply h_accepted h_calls savings => exact .answer h_reply h_accepted h_calls savings
  | tools h_reply h_accepted h_effect h_handled c savings =>
    exact .tools h_reply h_accepted h_effect h_handled c savings

/-- The state in which a turn is stored. -/
theorem Storing.inv {P : AgentSession → Prop} (hP : Live.GrowInv P) {env : Env a}
    (h_fold : FoldInv env P) {stream : Bool} {s v : RunState a} {turn : TurnRecord}
    (h : Storing env stream s turn v) (h_inv : s.live.Inv P) : v.live.Inv P := by
  cases h with
  | @answer sent r t u h_reply h_accepted =>
    show u.live.Inv P
    -- accepting an answer leaves the session
    rw [h_accepted.live]
    exact h_reply.inv hP h_fold h_inv
  | tools h_reply h_accepted h_effect =>
    -- handling the calls lets it grow
    refine Live.Inv.grows ?_ hP h_effect.grows
    rw [h_accepted.live]
    exact h_reply.inv hP h_fold h_inv

/-- A turn is stored, when any session with the property may get it. -/
theorem Storing.inv_persist {P P' : AgentSession → Prop} (hP : Live.GrowInv P)
    (hP' : Live.GrowInv P') {env : Env a} (h_fold : FoldInv env P) (h_mono : ∀ x, P x → P' x)
    {stream : Bool} {s v : RunState a} {turn : TurnRecord} (h : Storing env stream s turn v)
    (h_new : ∀ turn, NewTurn env stream s turn → ∀ x, P x → P' (x.addTurn turn))
    (h_inv : s.live.Inv P) : (persistTurnWithState env turn v).live.Inv P' :=
  inv_persistTurnWithState hP hP' (h.inv hP h_fold h_inv) h_mono (h_new _ h.newTurn) env

/-- **A pass keeps an invariant of the session**, `P` before and `P'` after it stored a turn. -/
theorem TurnStep.inv {P P' : AgentSession → Prop} (hP : Live.GrowInv P) (hP' : Live.GrowInv P')
    {env : Env a} (h_fold : FoldInv env P) (h_mono : ∀ x, P x → P' x) {stream : Bool}
    {s s' : RunState a} {o : Except RunError Prog.Ctl} (h : TurnStep env stream s o s')
    (h_persist : ∀ turn v, Storing env stream s turn v → s.live.Inv P →
      (persistTurnWithState env turn v).live.Inv P')
    (h_inv : s.live.Inv P) : s'.live.Inv P' := by
  cases h with
  | cancelled => exact h_inv.mono h_mono
  | callFailed h_open => exact (h_open.inv hP h_fold h_inv).mono h_mono
  | retried h_reply => exact (h_reply.inv hP h_fold h_inv).mono h_mono
  | rejected h_reply => exact (h_reply.inv hP h_fold h_inv).mono h_mono
  -- the stored turn, and the end of the turn
  | answered h_reply h_accepted h_calls _ savings h_end =>
    have h_stored := h_persist _ _ (.answer h_reply h_accepted h_calls savings) h_inv
    exact h_end.inv hP' (inv_maybeCurate h_stored env s.calls)
  | toolsRaised h_reply h_accepted _ h_effect =>
    refine Live.Inv.mono (Live.Inv.grows ?_ hP h_effect.grows) h_mono
    rw [h_accepted.live]
    exact h_reply.inv hP h_fold h_inv
  | paused h_reply h_accepted _ h_effect h_handled _ c savings h_w =>
    subst h_w
    -- the stored turn is saved once more as the run pauses
    exact inv_maybeSave
      (h_persist _ _ (.tools h_reply h_accepted h_effect h_handled c savings) h_inv) env.context
  | handled h_reply h_accepted _ h_effect h_handled _ c savings h_end =>
    have h_stored := h_persist _ _ (.tools h_reply h_accepted h_effect h_handled c savings) h_inv
    exact h_end.inv hP' (inv_maybeCurate h_stored env s.calls)

/-- Curating at the end keeps an invariant of the session. -/
theorem inv_curateAtEnd {P : AgentSession → Prop} {s : RunState a} (h : s.live.Inv P) (env : Env a) :
    (curateAtEnd env s).live.Inv P := by
  unfold curateAtEnd
  split_ifs
  · exact inv_curate (inv_reload_contents h _) env _
  · exact inv_reload_contents h _
  · exact h

theorem inv_finishRun {P : AgentSession → Prop} (hP : Live.GrowInv P) {s : RunState a}
    (h : s.live.Inv P) (env : Env a) : (finishRun env s).live.Inv P :=
  inv_maybeSave (inv_withState hP (inv_curateAtEnd h env) _) env.context

/-! ### Opening a session -/

/-- Closing what is pending keeps the core. -/
theorem core_closePendingInteractions (s : AgentSession) :
    (closePendingInteractions s).core = s.core := by
  refine s.core_of_turns [] ?_
  rw [List.map_map]
  refine List.map_congr_left fun t _ => TurnRecord.shell_mapToolCalls _ (fun tc => ?_) t
  unfold fillRawResponse
  split_ifs <;> rfl

/-- The session a run starts from: the stored one the scope admits, or a new one. -/
def createdSession (env : Env a) (args : RunArgs) : AgentSession :=
  let scope := env.context.sessionScope none
  { sessionId := runSessionId env args
    agentId := env.config.name
    tenantId := scope.tenantId
    companyId := scope.companyId
    userId := scope.userId }

/-- What `getOrCreateSession` returns. -/
theorem getOrCreateSession_cases (env : Env a) (args : RunArgs) (st : Store a) :
    (∃ s, st.find? (runSessionId env args) = some s ∧
        (env.context.sessionScope none).matchesSession s = true ∧
        getOrCreateSession env args st = ⟨s, st⟩) ∨
      ((truthy (pyOr args.sessionId env.context.sessionId) = none ∨
          st.loadSession (runSessionId env args) (env.context.sessionScope none) = none) ∧
        getOrCreateSession env args st =
          ⟨createdSession env args, st.saveSession (createdSession env args)⟩) := by
  unfold getOrCreateSession runSessionId createdSession
  -- without an id, or with one that finds no session, a session is created
  cases h_sid : truthy (pyOr args.sessionId env.context.sessionId) with
  | none => exact .inr ⟨.inl rfl, by simp [h_sid, runSessionId, Store.createSession]⟩
  | some sid =>
    simp only [Option.bind_some, Option.getD_some]
    cases h_load : st.loadSession sid (env.context.sessionScope none) with
    | none => exact .inr ⟨.inr rfl, by simp [h_sid, runSessionId, Store.createSession]⟩
    -- the loaded session is used
    | some s =>
      obtain ⟨h_find, h_match⟩ := Store.loadSession_eq_some.mp h_load
      exact .inl ⟨s, h_find, h_match, rfl⟩

/-- The working session with the flag of the run and open interactions superseded. -/
def enteredSession (env : Env a) (args : RunArgs) (l : Live a) : Live a :=
  let l := l.mutate fun s => { s with rcsEnabled := env.config.builder.rcsEnabled }
  if args.userMessage ≠ "" ∧ l.session.pendingInteractions ≠ [] then
    l.mutate closePendingInteractions else l

/-- Entering a run leaves the core of the session. -/
theorem sameCore_enteredSession (env : Env a) (args : RunArgs) (l : Live a) :
    l.SameCore (enteredSession env args l) := by
  have h_flag := Live.sameCore_mutate l
    (f := fun s => { s with rcsEnabled := env.config.builder.rcsEnabled }) rfl
  unfold enteredSession
  dsimp only
  split_ifs
  · exact h_flag.trans (Live.sameCore_mutate _ (core_closePendingInteractions _))
  · exact h_flag

/-- Entering a session, when superseding what it waits for keeps the property. -/
theorem inv_enteredSession {P : AgentSession → Prop} (hP : Live.GrowInv P) {env : Env a}
    {args : RunArgs} {l : Live a} (h : l.Inv P)
    (h_close : args.userMessage ≠ "" → ∀ s, s.dialogue = l.session.dialogue → P s →
      P (closePendingInteractions s)) : (enteredSession env args l).Inv P := by
  have h_flag := inv_mutate_grown hP h
    (f := fun s => { s with rcsEnabled := env.config.builder.rcsEnabled }) ⟨rfl, le_rfl⟩
  unfold enteredSession
  dsimp only
  split_ifs with h_open
  · exact h_flag.mutate rfl (h_close h_open.1 _ rfl h_flag.session)
  · exact h_flag

/-- Superseding what a session waits for leaves its core. -/
theorem Live.CoreInv.close {P : AgentSession → Prop} (hP : Live.CoreInv P) (s : AgentSession)
    (h : P s) : P (closePendingInteractions s) :=
  hP _ _ (core_closePendingInteractions s) h

/-- Opening a session: enter it, save it, hydrate the state bag, save it again. -/
theorem openSession_eq (env : Env a) (args : RunArgs) (st : Store a) :
    ∃ state, (openSession env args st).1 =
      let l := (maybeSave env.context (enteredSession env args (getOrCreateSession env args st))).mutate
        (.withState state)
      if args.initialContext = [] then l else maybeSave env.context l :=
  ⟨_, rfl⟩

/-- Opening a session keeps it. -/
theorem keeps_openSession (env : Env a) (args : RunArgs) (st : Store a) :
    (getOrCreateSession env args st).Keeps E (openSession env args st).1 := by
  obtain ⟨state, h_eq⟩ := openSession_eq env args st
  have h_enter := (sameCore_enteredSession env args (getOrCreateSession env args st)).keeps (E := E)
  have h_state := (h_enter.trans (keeps_maybeSave env.context _)).trans
    (Live.keeps_mutate _ (f := .withState state) rfl)
  rw [h_eq]
  dsimp only
  split_ifs
  · exact h_state
  · exact h_state.trans (keeps_maybeSave _ _)

/-- Opening a session keeps an invariant that closing pending calls keeps. -/
theorem inv_openSession {P : AgentSession → Prop} (hP : Live.GrowInv P) {env : Env a}
    {args : RunArgs} {st : Store a} (h : (getOrCreateSession env args st).Inv P)
    (h_close : args.userMessage ≠ "" → ∀ s,
      s.dialogue = (getOrCreateSession env args st).session.dialogue → P s →
        P (closePendingInteractions s)) : (openSession env args st).1.Inv P := by
  obtain ⟨state, h_eq⟩ := openSession_eq env args st
  -- pending calls are closed only when there is a new message
  have h_enter : (enteredSession env args (getOrCreateSession env args st)).Inv P :=
    inv_enteredSession hP h h_close
  -- saved, with its state, and saved again if the hooks changed it
  have h_state := inv_withState hP (inv_maybeSave h_enter env.context) state
  rw [h_eq]
  dsimp only
  split_ifs
  · exact h_state
  · exact inv_maybeSave h_state _

/-- The session opened has the run's session id. -/
theorem getOrCreateSession_sessionId (env : Env a) (args : RunArgs) (st : Store a) :
    (getOrCreateSession env args st).session.sessionId = runSessionId env args := by
  rcases getOrCreateSession_cases env args st with ⟨s, h_find, -, h_eq⟩ | ⟨-, h_eq⟩ <;> rw [h_eq]
  · exact Store.find?_sessionId h_find
  · rfl

theorem openSession_sessionId (env : Env a) (args : RunArgs) (st : Store a) :
    (openSession env args st).1.session.sessionId = runSessionId env args :=
  (keeps_openSession (E := ∅) env args st).sessionId.trans (getOrCreateSession_sessionId env args st)

/-- Getting a session touches no entry but that of the run's session. -/
theorem getOrCreateSession_others (env : Env a) (args : RunArgs) (st : Store a) {sid : String}
    (h_sid : sid ≠ runSessionId env args) :
    (getOrCreateSession env args st).contents.find? sid = st.find? sid := by
  have h_id := getOrCreateSession_sessionId env args st
  rw [Live.find?_contents_ne _ (h_id ▸ h_sid.symm)]
  rcases getOrCreateSession_cases env args st with ⟨s, -, -, h_eq⟩ | ⟨-, h_eq⟩ <;> rw [h_eq]
  exact Store.find?_saveSession_ne _ _ h_sid.symm

/-- An invariant of the session a run gets: from the stored session when it is loaded, from
the one that is created otherwise. -/
theorem inv_getOrCreateSession_of {P : AgentSession → Prop} {env : Env a} {args : RunArgs}
    {st : Store a}
    (h_stored : ∀ s, st.find? (runSessionId env args) = some s →
      (env.context.sessionScope none).matchesSession s = true → P s)
    (h_created : truthy (pyOr args.sessionId env.context.sessionId) = none ∨
      st.loadSession (runSessionId env args) (env.context.sessionScope none) = none →
        P (createdSession env args)) : (getOrCreateSession env args st).Inv P := by
  rcases getOrCreateSession_cases env args st with ⟨s, h_find, h_match, h_eq⟩ | ⟨h_none, h_eq⟩ <;>
    rw [h_eq]
  · -- the session was loaded
    have h_s := h_stored s h_find h_match
    refine ⟨h_s, fun s' hs' => ?_⟩
    have h_self := Live.find?_contents_self (⟨s, st⟩ : Live a)
    rw [h_self, Store.find?_sessionId h_find, h_find] at hs'
    split_ifs at hs' <;> exact Option.some.inj hs' ▸ h_s
  · -- it was created and saved
    refine ⟨h_created h_none, fun s' hs' => ?_⟩
    have h_self := Live.find?_contents_self
      (⟨createdSession env args, st.saveSession (createdSession env args)⟩ : Live a)
    rw [h_self, Store.find?_saveSession_self, ite_self] at hs'
    exact Option.some.inj hs' ▸ h_created h_none

/-- An invariant of the session a run gets, from the stored session and the one it creates. -/
theorem inv_getOrCreateSession {P : AgentSession → Prop} {env : Env a} {args : RunArgs}
    {st : Store a}
    (h_stored : ∀ s, st.find? (runSessionId env args) = some s →
      (env.context.sessionScope none).matchesSession s = true → P s)
    (h_created : P (createdSession env args)) : (getOrCreateSession env args st).Inv P :=
  inv_getOrCreateSession_of h_stored fun _ => h_created

/-- **A run keeps an invariant of the session.** -/
theorem execRun_inv {P : AgentSession → Prop} (hP : Live.GrowInv P) {env : Env a}
    (h_fold : FoldInv env P) {stream : Bool} {args : RunArgs} {st : Store a}
    (h_persist : ∀ s turn v, Storing env stream s turn v → s.live.Inv P →
      (persistTurnWithState env turn v).live.Inv P)
    (h_open : (openSession env args st).1.Inv P) : (execRun env stream args st).live.Inv P := by
  rw [execRun_live]
  refine inv_finishRun hP ?_ env
  exact runLoop_invariant env stream _ (J := fun s => s.live.Inv P)
    (fun s _ _ _ hJ _ h_step => h_step.inv hP hP h_fold (fun _ h => h) (h_persist s) hJ)
    (fun _ _ _ _ h => h) h_open (startRun_retries env stream args st)

end Nexus
