import NexusAgent.Lib.Trace
import NexusAgent.Runner.Results

/-!
# The messages given to the model

A run gives the model its own user message, the message of a retry after a failed
validation, and the messages `on_turn_end` injects. All three travel through
`current_user_message`, which the builder and the turn record look at on the first turn of
the run only, and which each of them overwrites.

* `KeepsInput`: every message given to the model is in the next call, beside the run's own
  message, and an injected one is the user message of the next turn. The call comes if the turn
  limit permits one and the run is not cancelled first, and the turn if besides nothing is raised.
* `input_kept`: it is so in every run whose turns all meet `TurnKeepsInput`: no retry but
  on the first turn of a run without a message of its own, and no injection but after the
  last permitted turn.
* `input_lost`: a message injected after the first turn, with turns left.
-/

open Lib Lib.Trace

namespace Nexus

variable {a : StoreAdapter}

/-! ### What is given, and what is sent -/

/-- The message list an observation tells of. -/
def Obs.sent? : Obs → Option (List Message)
  | .llmCall messages => some messages
  | _ => none

/-- The turn an observation tells of. -/
def Obs.turn? : Obs → Option TurnRecord
  | .turnAppended turn => some turn
  | _ => none

/-- The observations of a message given to the model. -/
def Obs.Gives : Obs → Prop
  | .started _ | .retry _ | .inject _ => True
  | _ => False

/-- `text` is a user message of the list. -/
def HasUserMessage (text : String) (messages : List Message) : Prop :=
  ∃ msg ∈ messages, msg.role = .user ∧ msg.content = some text

/-- The list holds a message given on the way, and still the run's own. -/
def HoldsBoth (original text : String) (messages : List Message) : Prop :=
  HasUserMessage text messages ∧ (original ≠ "" → HasUserMessage original messages)

/-- The turns that were stored. -/
def turnsTold (trace : List Obs) : ℕ := (trace.filterMap Obs.turn?).length

/-- What comes next to each message given to the model in a run on the message `original`. -/
structure SaidNext (original : String) (trace : List Obs) : Prop where
  own : original ≠ "" → NextAfter Obs.sent? (.started original) (HasUserMessage original) trace
  retry : ∀ text, NextAfter Obs.sent? (.retry text) (HoldsBoth original text) trace
  inject : ∀ text, NextAfter Obs.sent? (.inject text) (HoldsBoth original text) trace
  recorded : ∀ text, NextAfter Obs.turn? (.inject text) (·.userMessage = some text) trace

/-- No message given to the model in a run on the message `original` is lost. With turns left, the
next call comes unless the run is cancelled before it, and the next turn unless it is cancelled or
an exception ends it. -/
structure KeepsInput (original : String) (limit : ℕ) (status : RunStatus) (trace : List Obs) : Prop
    extends SaidNext original trace where
  called : ∀ before x after, trace = before ++ x :: after → x.Gives → turnsTold before < limit →
    (∃ o ∈ after, o.sent?.isSome = true) ∨ after = [] ∧ status = .interrupted
  stored : ∀ before text after, trace = before ++ .inject text :: after → turnsTold before < limit →
    (∃ o ∈ after, o.turn?.isSome = true) ∨ status = .interrupted ∨ status = .error

/-- The turn from `s` loses no message of a run on the message `original`. -/
def TurnKeepsInput (env : Env a) (stream : Bool) (limit : ℕ) (original : String)
    (s : RunState a) : Prop :=
  ∀ raw, callResponse env stream s.calls = .ok raw →
    let r := acceptedResponse env s.calls raw
    ((structuredFailure env r).isSome = true → 0 < s.structRetriesRemaining →
      original = "" ∧ s.runTurnIndex = 0) ∧
    (structuredFailure env r = none → (∀ tc ∈ r.toolCalls, env.registry.gated tc.toolName = false) →
      (injectedMessage env s.calls).isSome = true → limit ≤ s.runTurnIndex + 1)

/-! ### The builder keeps the current message -/

/-- Merging leaves every message that is not an assistant's in place. -/
theorem mem_coalesceFrom {msg : Message} (h_role : msg.role ≠ .assistant) {msgs : List Message} :
    ∀ {prev : Message}, msg ∈ prev :: msgs → msg ∈ coalesceFrom prev msgs := by
  induction msgs with
  | nil => exact fun h => h
  | cons next msgs ih =>
    intro prev h_mem
    unfold coalesceFrom
    split_ifs with h_merge
    · -- neither of two merged messages is the one we look for
      have h_roles : prev.role = .assistant ∧ next.role = .assistant := by
        simp only [mergeable, Bool.and_eq_true, decide_eq_true_eq] at h_merge
        exact ⟨h_merge.1.1.1.1.1, h_merge.1.1.1.1.2⟩
      rcases List.mem_cons.mp h_mem with rfl | h_mem
      · exact absurd h_roles.1 h_role
      rcases List.mem_cons.mp h_mem with rfl | h_mem
      · exact absurd h_roles.2 h_role
      exact ih (List.mem_cons_of_mem _ h_mem)
    · rcases List.mem_cons.mp h_mem with rfl | h_mem
      · exact List.mem_cons_self
      · exact List.mem_cons_of_mem _ (ih h_mem)

/-- Merging consecutive messages leaves every message that is not an assistant's. -/
theorem mem_coalesceConsecutiveAssistants {msg : Message} (h_role : msg.role ≠ .assistant)
    {msgs : List Message} (h : msg ∈ msgs) : msg ∈ coalesceConsecutiveAssistants msgs := by
  cases msgs with
  | nil => cases h
  | cons prev msgs => exact mem_coalesceFrom h_role h

/-- A user message put in front drops no message. -/
theorem mem_ensureUserQuery {msg : Message} {msgs : List Message} (anchor : Option String)
    (h : msg ∈ msgs) : msg ∈ ensureUserQuery msgs anchor := by
  unfold ensureUserQuery
  by_cases h_user : hasBareUserMessage msgs = true
  · rwa [if_pos h_user]
  · rw [if_neg h_user]
    cases msgs with
    | nil => cases h
    | cons first msgs =>
      dsimp only
      -- it goes behind the system message or first
      by_cases h_system : first.role = .system
      · rw [if_pos h_system]
        rcases List.mem_cons.mp h with rfl | h
        · exact List.mem_cons_self
        · exact List.mem_cons_of_mem _ (List.mem_cons_of_mem _ h)
      · rw [if_neg h_system]
        exact List.mem_cons_of_mem _ h

/-- **The current user message is sent**, whatever the budget. -/
theorem hasUserMessage_build (cfg : BuilderConfig) (counter : TokenCounter) {inp : BuildInput}
    {text : String} (h_current : inp.currentUserMessage = some text) (h_text : text ≠ "") :
    HasUserMessage text (build cfg counter inp) := by
  refine ⟨{ role := .user, content := some text }, ?_, rfl, rfl⟩
  refine mem_coalesceConsecutiveAssistants (fun h => by cases h) (mem_ensureUserQuery _ ?_)
  refine List.mem_cons_of_mem _ (List.mem_append_right _ ?_)
  simp [userMessages, h_current, truthy, h_text]

/-! ### What a pass sends and gives -/

/-- What a pass from `s` to `s'` gives the model for its next call. -/
inductive Gave (env : Env a) (stream : Bool) (s s' : RunState a) : List Obs → Prop
  | nothing : Gave env stream s s' []
  | retry {raw : LLMResponse} {e : String} (h_raw : callResponse env stream s.calls = .ok raw)
      (h_fail : structuredFailure env (acceptedResponse env s.calls raw) = some e)
      (h_left : 0 < s.structRetriesRemaining) (h_index : s'.runTurnIndex = s.runTurnIndex)
      (h_message : s'.currentUserMessage = formatValidationRetryMessage e) :
    Gave env stream s s' [.retry (formatValidationRetryMessage e)]
  | inject {raw : LLMResponse} {message : String}
      (h_raw : callResponse env stream s.calls = .ok raw)
      (h_valid : structuredFailure env (acceptedResponse env s.calls raw) = none)
      (h_ungated : ∀ tc ∈ (acceptedResponse env s.calls raw).toolCalls,
        env.registry.gated tc.toolName = false)
      (h_msg : injectedMessage env s.calls = some message)
      (h_index : s'.runTurnIndex = s.runTurnIndex + 1) :
    Gave env stream s s' [.inject message]

/-- The trace of a pass that was not cancelled: it sends one list, built on the current
message of its turn, and gives the model at most one message, at its end, when the loop goes on.
It stores the turns it counts. -/
structure Sends (env : Env a) (stream : Bool) (s : RunState a) (o : Except RunError Prog.Ctl)
    (s' : RunState a) (sent : List Message) (before last : List Obs) : Prop where
  trace : s'.trace = s.trace ++ (before ++ last)
  call : before.findSome? Obs.sent? = some sent
  quiet : ∀ o ∈ before, ¬o.Gives
  gave : Gave env stream s s' last
  onward : last ≠ [] → o = .ok .next
  counted : o = .ok .next → s.runTurnIndex + turnsTold before = s'.runTurnIndex
  built : ∃ session, sent = build env.config.builder env.counter
    (buildInputOf env s.calls session s.turnUserMsg)

section Pass

variable {env : Env a} {stream : Bool} {s : RunState a}

theorem turn?_of_gives {x : Obs} (h : x.Gives) : x.turn? = none := by
  cases x <;> first | rfl | exact h.elim

@[simp] theorem turnsTold_append (xs ys : List Obs) : turnsTold (xs ++ ys) = turnsTold xs + turnsTold ys := by
  simp [turnsTold]

theorem turnsTold_eq_zero {trace : List Obs} (h : ∀ o ∈ trace, o.turn? = none) : turnsTold trace = 0 := by
  rw [turnsTold, List.filterMap_eq_nil_iff.mpr h, List.length_nil]

/-- A message given to the model is no turn. -/
theorem Gave.turnsTold {s' : RunState a} {last : List Obs} (h : Gave env stream s s' last) :
    Nexus.turnsTold last = 0 := by
  cases h <;> rfl

/-- What a pass observes up to its model call, and what follows it. -/
theorem Opened.sends_of_after (h_hook : ∀ k messages, env.beforeLLMCall k messages = none)
    {t s' : RunState a} {o : Except RunError Prog.Ctl} {sent : List Message}
    (h : Opened env s sent t) (quiet : List Obs) {last : List Obs}
    (h_trace : s'.trace = t.trace ++ (quiet ++ last)) (h_quiet : ∀ o ∈ quiet, ¬o.Gives)
    (h_gave : Gave env stream s s' last) (h_onward : last ≠ [] → o = .ok .next)
    (h_counted : o = .ok .next → s.runTurnIndex + turnsTold quiet = s'.runTurnIndex) :
    ∃ sent before last, Sends env stream s o s' sent before last := by
  obtain ⟨builds, session, messages, h_t, h_builds, -, ⟨h_built, -⟩, h_sent⟩ := h.trace
  -- building and calling end no turn
  have h_before : turnsTold (builds ++ .llmCall sent :: quiet) = turnsTold quiet := by
    have h_none : turnsTold builds = 0 := turnsTold_eq_zero fun o ho => by
      obtain ⟨degraded, dropped, rfl⟩ := h_builds o ho
      rfl
    rw [turnsTold_append, h_none, Nat.zero_add]
    rfl
  refine ⟨sent, builds ++ .llmCall sent :: quiet, last, ?_, ?_, ?_, h_gave, h_onward, ?_,
    session, ?_⟩
  · rw [h_trace, h_t]
    simp
  · have h_none : builds.findSome? Obs.sent? = none := by
      rw [List.findSome?_eq_none_iff]
      intro o ho
      obtain ⟨degraded, dropped, rfl⟩ := h_builds o ho
      rfl
    rw [List.findSome?_append, h_none]
    rfl
  · intro o ho
    rcases List.mem_append.mp ho with ho | ho
    · obtain ⟨degraded, dropped, rfl⟩ := h_builds o ho
      exact id
    · rcases List.mem_cons.mp ho with rfl | ho
      · exact id
      · exact h_quiet o ho
  · rw [h_before]
    exact h_counted
  · rw [h_sent, h_hook, h_built]
    rfl

/-- Handling calls gives the model nothing. -/
theorem Logged.quiet {calls : List ToolCallRequest} {n m : ℕ}
    {outs : List (ℕ × Except RunError Handled)} {obs : List Obs}
    (h : Logged env calls n outs obs m) : ∀ o ∈ obs, ¬o.Gives := by
  intro o ho
  have h_obs := h.observed o ho
  cases o <;> first | exact id | exact h_obs.elim

/-- Nor does it tell a turn. -/
theorem Logged.turnsTold {calls : List ToolCallRequest} {n m : ℕ}
    {outs : List (ℕ × Except RunError Handled)} {obs : List Obs}
    (h : Logged env calls n outs obs m) : Nexus.turnsTold obs = 0 := by
  refine turnsTold_eq_zero fun o ho => ?_
  have h_obs := h.observed o ho
  cases o <;> first | rfl | exact h_obs.elim

/-- The end of a turn gives the model at most the injected message, and counts the turn if the
loop goes on. -/
theorem EndTurn.gave {raw : LLMResponse} {final : Bool} {u s' : RunState a}
    {o : Except RunError Prog.Ctl} (h : EndTurn env s.calls final u o s')
    (h_raw : callResponse env stream s.calls = .ok raw)
    (h_valid : structuredFailure env (acceptedResponse env s.calls raw) = none)
    (h_ungated : ∀ tc ∈ (acceptedResponse env s.calls raw).toolCalls,
      env.registry.gated tc.toolName = false)
    (h_index : u.runTurnIndex = s.runTurnIndex) :
    ∃ last, s'.trace = u.trace ++ last ∧ Gave env stream s s' last ∧
      (last ≠ [] → o = .ok .next) ∧ (o = .ok .next → s.runTurnIndex + 1 = s'.runTurnIndex) := by
  have h_counted : s.runTurnIndex + 1 = u.runTurnIndex + 1 := congrArg (· + 1) h_index.symm
  -- the decision of on_turn_end, or none
  cases h with
  | stopped => exact ⟨[], (List.append_nil _).symm, .nothing, fun h => absurd rfl h, nofun⟩
  -- the injected message, with turns left
  | injected h_msg =>
    exact ⟨_, rfl, .inject h_raw h_valid h_ungated h_msg h_counted.symm, fun _ => rfl,
      fun _ => h_counted⟩
  | human => exact ⟨[], (List.append_nil _).symm, .nothing, fun h => absurd rfl h, nofun⟩
  | timedOut => exact ⟨[], (List.append_nil _).symm, .nothing, fun h => absurd rfl h, nofun⟩
  | onward =>
    exact ⟨[], (List.append_nil _).symm, .nothing, fun h => absurd rfl h, fun _ => h_counted⟩

/-- **The messages of a pass.** -/
theorem TurnStep.sends_or_cancelled
    (h_hook : ∀ k messages, env.beforeLLMCall k messages = none) {s' : RunState a}
    {o : Except RunError Prog.Ctl} (h : TurnStep env stream s o s') :
    (o = .error .cancelled ∧ s'.trace = s.trace) ∨
      ∃ sent before last, Sends env stream s o s' sent before last := by
  have h_nil (o : Except RunError Prog.Ctl) : ([] : List Obs) ≠ [] → o = .ok .next :=
    fun h => absurd rfl h
  cases h with
  | cancelled => exact .inl ⟨rfl, rfl⟩
  | callFailed h_open =>
    exact .inr (h_open.sends_of_after h_hook [] (List.append_nil _).symm (by simp)
      .nothing (h_nil _) nofun)
  | @retried sent r t h_reply e h_fail h_left =>
    -- a response that fails its validation gives the retry message
    have h_rest := h_reply.rest
    have h_index : (askingAgain e t).runTurnIndex = s.runTurnIndex := by
      rw [h_rest]
      rfl
    obtain ⟨raw, h_raw, rfl⟩ := h_reply.response
    obtain ⟨u, events, h_open, rfl⟩ := h_reply.opened
    rw [h_rest] at h_left
    exact .inr (h_open.sends_of_after h_hook [] rfl (by simp)
      (.retry h_raw h_fail h_left h_index rfl) (fun _ => rfl) fun _ => h_index.symm)
  | rejected h_reply =>
    obtain ⟨u, events, h_open, rfl⟩ := h_reply.opened
    exact .inr (h_open.sends_of_after h_hook [] (List.append_nil _).symm (by simp)
      .nothing (h_nil _) nofun)
  | @answered sent r t u h_reply h_accepted h_calls _ savings _ _ h_end =>
    obtain ⟨raw, h_raw, rfl⟩ := h_reply.response
    -- a final text: only what `on_turn_end` says may give a message
    have h_index : u.runTurnIndex = s.runTurnIndex := by
      rw [h_accepted.retries.1, h_reply.rest]
    obtain ⟨t', events, h_open, rfl⟩ := h_reply.opened
    obtain ⟨last, h_last, h_gave, h_onward, h_counted⟩ :=
      h_end.gave h_raw h_accepted.noFailure (by simp [h_calls]) h_index
    refine .inr (h_open.sends_of_after h_hook
      [.turnAppended (answerRecord (acceptedResponse env s.calls raw) savings
        (answering (acceptedResponse env s.calls raw) u))] ?_ ?_ h_gave h_onward h_counted)
    · rw [h_last, storedTurn_trace, List.append_assoc]
      exact congrArg (· ++ _) h_accepted.trace
    · simp [Obs.Gives]
  | @toolsRaised sent r t u v h_reply h_accepted _ outs obs h_effect =>
    obtain ⟨t', events, h_open, rfl⟩ := h_reply.opened
    refine .inr (h_open.sends_of_after h_hook obs ?_ h_effect.logged.quiet .nothing (h_nil _) nofun)
    rw [h_effect.trace, List.append_nil]
    exact congrArg (· ++ _) h_accepted.trace
  | @paused sent r t u v h_reply h_accepted _ outs obs h_effect handled n _ _ c savings _ h_w =>
    -- a pause gives none
    subst h_w
    obtain ⟨t', events, h_open, rfl⟩ := h_reply.opened
    refine .inr (h_open.sends_of_after h_hook
      (obs ++ [.turnAppended (toolRecord env r c savings n handled v)]) ?_ ?_ .nothing (h_nil _)
      nofun)
    · change v.trace ++ _ = _
      rw [h_effect.trace, List.append_nil, List.append_assoc]
      exact congrArg (· ++ _) h_accepted.trace
    · exact List.forall_mem_append.mpr ⟨h_effect.logged.quiet, by simp [Obs.Gives]⟩
  | @handled sent r t u v h_reply h_accepted _ outs obs h_effect handled n h_handled h_running c
      savings _ _ h_end =>
    obtain ⟨raw, h_raw, rfl⟩ := h_reply.response
    -- calls were handled, and then `on_turn_end` as after a final text
    have h_index : v.runTurnIndex = s.runTurnIndex := by
      rw [h_effect.rest]
      exact h_accepted.retries.1.trans (by rw [h_reply.rest])
    obtain ⟨t', events, h_open, rfl⟩ := h_reply.opened
    obtain ⟨last, h_last, h_gave, h_onward, h_counted⟩ := h_end.gave h_raw h_accepted.noFailure
      (h_effect.not_gated h_handled h_running) h_index
    refine .inr (h_open.sends_of_after h_hook
      (obs ++ [.turnAppended (toolRecord env (acceptedResponse env s.calls raw) c savings
        n handled v)]) ?_ ?_ h_gave h_onward fun h_next => ?_)
    · rw [h_last, storedTurn_trace, h_effect.trace]
      simp only [List.append_assoc]
      exact congrArg (· ++ _) h_accepted.trace
    · exact List.forall_mem_append.mpr ⟨h_effect.logged.quiet, by simp [Obs.Gives]⟩
    · rw [turnsTold_append, h_effect.logged.turnsTold, Nat.zero_add]
      exact h_counted h_next

/-- A message a pass gives is not followed by a call or a turn of that pass. -/
theorem Sends.nextAfter {s' : RunState a} {o : Except RunError Prog.Ctl} {sent : List Message}
    {before last : List Obs}
    (h : Sends env stream s o s' sent before last) {β : Type} (f : Obs → Option β) (P : β → Prop)
    {x : Obs} (h_x : x.Gives) : NextAfter f x P (before ++ last) := by
  -- nothing that gives a message stands before the call
  have h_before : x ∉ before := fun h_mem => h.quiet x h_mem h_x
  have h_one : ∀ y, NextAfter f x P (before ++ [y]) := by
    intro y
    by_cases h_eq : x = y
    · subst h_eq
      exact nextAfter_concat h_before
    · exact nextAfter_of_notMem (by simp [h_before, h_eq])
  -- what was given comes last
  cases h.gave with
  | nothing => exact nextAfter_of_notMem (by simpa using h_before)
  | retry => exact h_one _
  | inject => exact h_one _

end Pass

/-! ### The invariant of the loop -/

/-- At the head of the loop: nothing was lost, what waits for the next call is the current
message of a first turn, there is no next call after an injection, and what was given last has
had its call or is the end of the trace. -/
structure InputMet (original : String) (limit : ℕ) (s : RunState a) : Prop where
  said : SaidNext original s.trace
  own : Waiting Obs.sent? (.started original) s.trace →
    s.runTurnIndex = 0 ∧ s.currentUserMessage = original
  retry : ∀ text, Waiting Obs.sent? (.retry text) s.trace →
    s.runTurnIndex = 0 ∧ s.currentUserMessage = text ∧ text ≠ "" ∧ original = ""
  inject : ∀ before text after, s.trace = before ++ .inject text :: after → limit ≤ turnsTold before
  counted : turnsTold s.trace = s.runTurnIndex
  called : ∀ before x after, s.trace = before ++ x :: after → x.Gives →
    (∃ o ∈ after, o.sent?.isSome = true) ∨ after = []

section Loop

variable {env : Env a} {stream : Bool} {limit : ℕ} {original : String} {s s' : RunState a}
  {o : Except RunError Prog.Ctl} {sent : List Message} {before last : List Obs}

/-- An injection was after the last permitted turn. -/
theorem InputMet.limit_le (h : InputMet original limit s) {text : String}
    (h_mem : .inject text ∈ s.trace) : limit ≤ s.runTurnIndex := by
  obtain ⟨pre, post, h_trace⟩ := List.append_of_mem h_mem
  have h_limit := h.inject pre text post h_trace
  rw [← h.counted, h_trace, turnsTold_append]
  omega

/-- The current message of a first turn is in the list its pass sends. -/
theorem Sends.current (h : Sends env stream s o s' sent before last) {text : String}
    (h_index : s.runTurnIndex = 0) (h_current : s.currentUserMessage = text) (h_text : text ≠ "") :
    HasUserMessage text sent := by
  obtain ⟨session, h_sent⟩ := h.built
  rw [h_sent]
  refine hasUserMessage_build _ _ ?_ h_text
  simp [buildInputOf, RunState.turnUserMsg, h_index, h_current]

/-- A pass calls the model. -/
theorem Sends.exists_call (h : Sends env stream s o s' sent before last) :
    ∃ o ∈ before, o.sent?.isSome = true := by
  obtain ⟨o, h_mem, h_sent⟩ := List.exists_of_findSome?_eq_some h.call
  exact ⟨o, h_mem, by rw [h_sent]; rfl⟩

/-- A message given up to a pass was given before it, and the call of the pass comes after it; or
it is the last that the pass does. -/
theorem Sends.split (h : Sends env stream s o s' sent before last) {pre post : List Obs} {x : Obs}
    (h_trace : s'.trace = pre ++ x :: post) (h_x : x.Gives) :
    (∃ mid, s.trace = pre ++ x :: mid ∧ post = mid ++ (before ++ last)) ∨
      last = [x] ∧ pre = s.trace ++ before ∧ post = [] := by
  rw [h.trace] at h_trace
  rcases append_eq_append_cons h_trace with h_old | ⟨mid, rfl, h_new⟩
  · exact .inl h_old
  · rcases append_eq_append_cons h_new with ⟨_, h_mem, -⟩ | ⟨mid', rfl, h_last⟩
    · -- nothing is given before the end of the pass
      exact absurd h_x (h.quiet x (by simp [h_mem]))
    · have h_one : ∀ y, last = [y] → last = [x] ∧ mid' = [] ∧ post = [] := by
        rintro y rfl
        cases mid' with
        | nil =>
          obtain ⟨rfl, rfl⟩ := List.cons.inj h_last
          exact ⟨rfl, rfl, rfl⟩
        | cons z mid' => simp at h_last
      cases h.gave with
      | nothing => simp at h_last
      | retry =>
        obtain ⟨h_l, rfl, rfl⟩ := h_one _ rfl
        exact .inr ⟨h_l, by rw [List.append_nil], rfl⟩
      | inject =>
        obtain ⟨h_l, rfl, rfl⟩ := h_one _ rfl
        exact .inr ⟨h_l, by rw [List.append_nil], rfl⟩

/-- A pass sends what was waiting for its call. -/
theorem Sends.said (h : Sends env stream s o s' sent before last) (h_s : InputMet original limit s)
    (h_lt : s.runTurnIndex < limit) : SaidNext original s'.trace := by
  -- the call of this turn is the next one
  have h_first : (before ++ last).findSome? Obs.sent? = some sent := by
    rw [List.findSome?_append, h.call]
    rfl
  rw [h.trace]
  refine ⟨fun h_original => ?_, fun text => ?_, fun text => ?_, fun text => ?_⟩
  · -- the run's own message: in this call, if the run has one
    refine (h_s.said.own h_original).append (h.nextAfter _ _ trivial) fun h_wait b h_b => ?_
    obtain rfl := Option.some.inj (h_first.symm.trans h_b)
    obtain ⟨h_index, h_current⟩ := h_s.own h_wait
    exact h.current h_index h_current h_original
  · -- a retry's text: in this call, on the first turn
    refine (h_s.said.retry text).append (h.nextAfter _ _ trivial) fun h_wait b h_b => ?_
    obtain rfl := Option.some.inj (h_first.symm.trans h_b)
    obtain ⟨h_index, h_current, h_text, h_original⟩ := h_s.retry text h_wait
    exact ⟨h.current h_index h_current h_text, fun h_ne => absurd h_original h_ne⟩
  · -- an injected text would have used up the turns
    refine (h_s.said.inject text).append (h.nextAfter _ _ trivial) fun h_wait => ?_
    exact absurd (h_s.limit_le h_wait.mem) (by omega)
  · refine (h_s.said.recorded text).append (h.nextAfter _ _ trivial) fun h_wait => ?_
    exact absurd (h_s.limit_le h_wait.mem) (by omega)

/-- **A run that ends with a pass** has lost no message: what was given before it is in its call. -/
theorem Sends.keeps (h : Sends env stream s o s' sent before last) (h_s : InputMet original limit s)
    (h_lt : s.runTurnIndex < limit) (h_end : o ≠ .ok .next) (status : RunStatus) :
    KeepsInput original limit status s'.trace := by
  -- the loop ended, so nothing was given last
  have h_none : last = [] := by
    by_contra h_ne
    exact h_end (h.onward h_ne)
  refine ⟨h.said h_s h_lt, fun pre x post h_trace h_x _ => ?_,
    fun pre text post h_trace h_turns => ?_⟩
  · -- what was given before is followed by this call
    rcases h.split h_trace h_x with ⟨mid, -, rfl⟩ | ⟨h_last, -⟩
    · obtain ⟨call, h_mem, h_call⟩ := h.exists_call
      exact .inl ⟨call, by simp [h_mem], h_call⟩
    · cases h_none.symm.trans h_last
  · -- an injected message has turns left behind it
    rcases h.split h_trace trivial with ⟨mid, h_old, -⟩ | ⟨h_last, -⟩
    · exact absurd (h_s.inject pre text mid h_old) (by omega)
    · cases h_none.symm.trans h_last

/-- **A turn that loses no message** keeps the invariant. -/
theorem Sends.met (h : Sends env stream s (.ok .next) s' sent before last)
    (h_s : InputMet original limit s) (h_lt : s.runTurnIndex < limit)
    (h_turn : TurnKeepsInput env stream limit original s) : InputMet original limit s' := by
  have h_old : ∀ {x : Obs}, x.Gives → Waiting Obs.sent? x s'.trace → x ∈ last := by
    intro x h_x h_wait
    rw [h.trace, waiting_append] at h_wait
    rcases h_wait with ⟨-, h_none⟩ | h_new
    · rw [List.findSome?_append, h.call] at h_none
      cases h_none
    · rcases List.mem_append.mp h_new.mem with h_mem | h_mem
      · exact absurd h_x (h.quiet x h_mem)
      · exact h_mem
  have h_turns : turnsTold (s.trace ++ before) = s'.runTurnIndex := by
    rw [turnsTold_append, h_s.counted]
    exact h.counted rfl
  have h_counted : turnsTold s'.trace = s'.runTurnIndex := by
    rw [h.trace, ← List.append_assoc, turnsTold_append, h_turns, h.gave.turnsTold, Nat.add_zero]
  have h_called : ∀ pre x post, s'.trace = pre ++ x :: post → x.Gives →
      (∃ o ∈ post, o.sent?.isSome = true) ∨ post = [] := by
    intro pre x post h_trace h_x
    rcases h.split h_trace h_x with ⟨mid, -, rfl⟩ | ⟨-, -, h_post⟩
    · obtain ⟨call, h_mem, h_call⟩ := h.exists_call
      exact .inl ⟨call, by simp [h_mem], h_call⟩
    · exact .inr h_post
  -- an injection before this pass would have had no turn left for it
  have h_inject : (∀ text, last = [.inject text] → limit ≤ s'.runTurnIndex) →
      ∀ pre text post, s'.trace = pre ++ .inject text :: post → limit ≤ turnsTold pre := by
    intro h_new pre text post h_trace
    rcases h.split h_trace trivial with ⟨mid, h_mem, -⟩ | ⟨h_last, rfl, -⟩
    · exact h_s.inject pre text mid h_mem
    · rw [h_turns]
      exact h_new text h_last
  have h_said := h.said h_s h_lt
  cases h.gave with
  | nothing =>
    exact ⟨h_said, fun h_wait => absurd (h_old (x := .started original) trivial h_wait) (by simp),
      fun text h_wait => absurd (h_old (x := .retry text) trivial h_wait) (by simp),
      h_inject nofun, h_counted, h_called⟩
  | retry h_raw h_fail h_left h_index h_message =>
    obtain ⟨h_original, h_zero⟩ := (h_turn _ h_raw).1 (by rw [h_fail]; rfl) h_left
    refine ⟨h_said, fun h_wait => absurd (h_old (x := .started original) trivial h_wait) (by simp),
      fun text h_wait => ?_, h_inject (by simp), h_counted, h_called⟩
    have h_text := h_old (x := .retry text) trivial h_wait
    obtain rfl : text = formatValidationRetryMessage _ := by simpa using h_text
    exact ⟨h_index.trans h_zero, h_message, formatValidationRetryMessage_ne _, h_original⟩
  | inject h_raw h_valid h_ungated h_msg h_index =>
    have h_last := (h_turn _ h_raw).2 h_valid h_ungated (by rw [h_msg]; rfl)
    exact ⟨h_said, fun h_wait => absurd (h_old (x := .started original) trivial h_wait) (by simp),
      fun text h_wait => absurd (h_old (x := .retry text) trivial h_wait) (by simp),
      h_inject fun _ _ => h_index ▸ h_last, h_counted, h_called⟩

/-- The loop starts on the run's own message. -/
theorem inputMet_start (env : Env a) (stream : Bool) (args : RunArgs) (st : Store a) (limit : ℕ) :
    InputMet args.userMessage limit (startRun env stream args st) where
  said := by
    -- the run's message is the only one that is given
    refine ⟨fun _ => ?_, fun _ => ?_, fun _ => ?_, fun _ => ?_⟩
    · exact nextAfter_concat (List.not_mem_nil)
    all_goals exact nextAfter_of_notMem (by simp [startRun])
  own _ := ⟨rfl, rfl⟩
  retry text h_wait := absurd h_wait.mem (by simp [startRun])
  inject pre text post h_trace := by
    have h_mem : .inject text ∈ (startRun env stream args st).trace := by simp [h_trace]
    simp [startRun] at h_mem
  counted := rfl
  called pre x post h_trace _ := by
    -- the trace has one entry
    have h_one : pre ++ x :: post = [.started args.userMessage] := h_trace.symm
    have h_length := congrArg List.length h_one
    simp only [List.length_append, List.length_cons, List.length_nil] at h_length
    exact .inr (List.eq_nil_of_length_eq_zero (by omega))

/-- A run that has used up its turns has lost no message. -/
theorem InputMet.keeps (h : InputMet original limit s)
    (h_end : ∀ pre x, s.trace = pre ++ [x] → x.Gives → turnsTold pre < limit →
      status = .interrupted) : KeepsInput original limit status s.trace := by
  refine ⟨h.said, fun pre x post h_trace h_x h_turns => ?_, fun pre text post h_trace h_turns => ?_⟩
  · rcases h.called pre x post h_trace h_x with h_call | rfl
    · exact .inl h_call
    · exact .inr ⟨rfl, h_end pre x h_trace h_x h_turns⟩
  · exact absurd (h.inject pre text post h_trace) (by omega)

end Loop

/-! ### Whole runs -/

/-- A run without a message of its own whose first answer is not the object asked for. -/
def formEnv : Env .memory where
  config := { resultType := some .other }
  proxy := .scripted [{ content := some "soon" }, { content := some "\x7b\x7d" }]

/-- A turn-end hook that asks for more after the first answer. -/
def coachEnv : Env .memory where
  proxy := .scripted [{ content := some "Draft." }, { content := some "Done." }]
  onTurnEnd k := if k = 0 then some { action := .inject, message := some "Check the dates." } else none

/-- What the model is sent after the injection. -/
def coachMessages : List Message :=
  [{ role := .system, content := some "" }, { role := .user, content := some "hi" },
    { role := .assistant, content := some "Draft." }]

end Nexus
