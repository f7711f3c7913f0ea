import Mathlib.Data.List.Chain
import NexusAgent.Context.Pairing

/-!
# Adjacent assistant messages

Strict providers reject two assistant messages in a row, and any assistant message without
content and tool calls. The builder gives every assistant message content
(`Substantial`), and merges adjacent ones without tool calls. One with tool calls is never
merged, so it may follow a text (`StepsApart`); nothing from the assistant follows it
directly as long as its turn has a record (`Stepwise`).

* `build_safe`: what the builder makes of a session of such turns.
-/

open Lib

namespace Nexus

/-! ### What providers take -/

/-- The message is not an assistant message without content and tool calls. -/
def Substantial (msg : Message) : Prop :=
  msg.role = .assistant → hasAssistantSubstance msg.content msg.toolCalls = true

/-- Not two assistant messages in a row. -/
def Alternates (messages : List Message) : Prop :=
  messages.IsChain fun prev next => ¬(prev.role = .assistant ∧ next.role = .assistant)

/-- Two assistant messages in a row are a text and the tool calls that follow it. -/
def StepsApart (prev next : Message) : Prop :=
  prev.role = .assistant → next.role = .assistant → prev.toolCalls = [] ∧ next.toolCalls ≠ []

/-- A list in which two assistant messages are next to each other only where the second
carries tool calls and the first does not, and all of them have content or tool calls. -/
structure ProviderSafe (messages : List Message) : Prop where
  apart : messages.IsChain StepsApart
  substance : ∀ msg ∈ messages, Substantial msg

theorem substantial_of_role {msg : Message} (h : msg.role ≠ .assistant) : Substantial msg :=
  fun h_role => absurd h_role h

/-- The content of an assistant message without tool calls. -/
theorem Substantial.content {msg : Message} (h : Substantial msg) (h_role : msg.role = .assistant)
    (h_calls : msg.toolCalls = []) : ∃ text, msg.content = some text ∧ PyStr.isBlank text = false := by
  have h_substance := h h_role
  cases h_content : msg.content with
  | none => simp [hasAssistantSubstance, h_content, h_calls] at h_substance
  | some text => exact ⟨text, rfl, by simpa [hasAssistantSubstance, h_content, h_calls] using h_substance⟩

/-- A sanitized message has text or tool calls. -/
theorem substantial_sanitize (msg : Message) :
    Substantial (sanitizeAssistantLlmMessage msg emptyAssistantPlaceholder) := by
  intro h_role
  rw [sanitize_role] at h_role
  unfold sanitizeAssistantLlmMessage
  rw [if_neg (not_not.mpr h_role)]
  split_ifs with h_substance
  · exact h_substance
  · show hasAssistantSubstance (some emptyAssistantPlaceholder) [] = true
    decide

/-! ### Steps -/

/-- A list in which every message with tool calls is an assistant's and followed by a tool
message. -/
inductive Steps : List Message → Prop
  | nil : Steps []
  | plain {msg : Message} {rest : List Message} (h_calls : msg.toolCalls = []) (h_rest : Steps rest) :
    Steps (msg :: rest)
  | call {msg answer : Message} {rest : List Message} (h_role : msg.role = .assistant)
      (h_answer : answer.role = .tool) (h_rest : Steps (answer :: rest)) :
    Steps (msg :: answer :: rest)

/-- Steps after steps are steps. -/
theorem Steps.append {xs ys : List Message} (h : Steps xs) (h' : Steps ys) : Steps (xs ++ ys) := by
  induction h with
  | nil => exact h'
  | plain h_calls _ ih => exact .plain h_calls ih
  | call h_role h_answer _ ih => exact .call h_role h_answer ih

/-- Lists of steps, one after the other, are steps. -/
theorem steps_flatMap {α : Type} {f : α → List Message} {xs : List α}
    (h : ∀ x ∈ xs, Steps (f x)) : Steps (xs.flatMap f) := by
  induction xs with
  | nil => exact .nil
  | cons x xs ih =>
    rw [List.forall_mem_cons] at h
    exact (h.1).append (ih h.2)

/-- Messages without tool calls are steps. -/
theorem steps_plain {messages : List Message} (h : ∀ msg ∈ messages, msg.toolCalls = []) :
    Steps messages := by
  induction messages with
  | nil => exact .nil
  | cons msg messages ih =>
    rw [List.forall_mem_cons] at h
    exact .plain h.1 (ih h.2)

/-- No assistant message comes directly after one with tool calls. -/
theorem Steps.isChain {messages : List Message} (h : Steps messages) :
    messages.IsChain fun prev next =>
      prev.role = .assistant → next.role = .assistant → prev.toolCalls = [] := by
  induction h with
  | nil => exact .nil
  | plain h_calls _ ih => exact List.isChain_cons.mpr ⟨fun _ _ _ _ => h_calls, ih⟩
  | @call msg answer rest _ h_answer _ ih =>
    refine List.isChain_cons_cons.mpr ⟨fun _ h_role => ?_, ih⟩
    rw [h_answer] at h_role
    cases h_role

/-- Steps stay steps when a bare user message is put in front. -/
theorem Steps.ensureUserQuery {messages : List Message} (h : Steps messages)
    (anchor : Option String) : Steps (Nexus.ensureUserQuery messages anchor) := by
  unfold Nexus.ensureUserQuery
  by_cases h_user : hasBareUserMessage messages = true
  · -- a user message is there: nothing is put in
    rwa [if_pos h_user]
  · rw [if_neg h_user]
    cases messages with
    | nil => exact .plain rfl .nil
    | cons msg rest =>
      dsimp only
      -- the new message goes behind the system message, or else first
      by_cases h_system : msg.role = .system
      · rw [if_pos h_system]
        cases h with
        | plain h_calls h_rest => exact .plain h_calls (.plain rfl h_rest)
        | call h_role =>
          rw [h_system] at h_role
          cases h_role
      · rw [if_neg h_system]
        exact .plain rfl h

/-! ### Merging -/

/-- What two texts are merged into is no blank. -/
theorem isBlank_joinContents {prev msg : String} (h_prev : PyStr.isBlank prev = false)
    (h_msg : PyStr.isBlank msg = false) : PyStr.isBlank (joinContents prev msg) = false := by
  -- neither part is blank, so both are joined, stripped, with an empty line between
  have h_p : PyStr.strip prev ≠ "" := by simpa [PyStr.isBlank] using h_prev
  have h_m : PyStr.strip msg ≠ "" := by simpa [PyStr.isBlank] using h_msg
  have h_join : joinContents prev msg = PyStr.strip prev ++ "\n\n" ++ PyStr.strip msg := by
    simp [joinContents, h_p, h_m, PyStr.join]
  rw [h_join, ← Bool.not_eq_true, PyStr.isBlank_iff]
  -- were all characters blank, those of the first part would be too
  intro h_all
  have h_blank : PyStr.isBlank (PyStr.strip prev) = true :=
    PyStr.isBlank_iff.mpr fun c h_c => h_all c (by simp [h_c])
  rw [PyStr.isBlank_strip h_prev] at h_blank
  cases h_blank

/-- Merging leaves the role and the tool calls of the message it starts with. -/
theorem head_coalesceFrom (prev : Message) (messages : List Message) :
    ∃ first rest, coalesceFrom prev messages = first :: rest ∧ first.role = prev.role ∧
      first.toolCalls = prev.toolCalls := by
  induction messages generalizing prev with
  | nil => exact ⟨prev, [], rfl, rfl, rfl⟩
  | cons msg messages ih =>
    -- the merge keeps the role and the calls of the message it merges into
    unfold coalesceFrom
    split_ifs
    · obtain ⟨first, rest, h_eq, h_role, h_calls⟩ := ih { prev with
        content := some (joinContents (prev.content.getD "") (msg.content.getD "")) }
      exact ⟨first, rest, h_eq, h_role, h_calls⟩
    · exact ⟨prev, _, rfl, rfl, rfl⟩

/-- **What merging leaves**: of two assistant messages in a row the second has tool calls. -/
theorem safe_coalesceFrom (prev : Message) (messages : List Message)
    (h_chain : (prev :: messages).IsChain fun prev next =>
      prev.role = .assistant → next.role = .assistant → prev.toolCalls = [])
    (h_substance : ∀ msg ∈ prev :: messages, Substantial msg) :
    ProviderSafe (coalesceFrom prev messages) := by
  induction messages generalizing prev with
  | nil => exact ⟨.singleton _, h_substance⟩
  | cons msg messages ih =>
    obtain ⟨h_first, h_rest⟩ := List.isChain_cons_cons.mp h_chain
    simp only [List.forall_mem_cons] at h_substance
    obtain ⟨h_prev, h_msg, h_messages⟩ := h_substance
    unfold coalesceFrom
    split_ifs with h_merge
    · -- two texts become one
      simp only [mergeable, Bool.and_eq_true, decide_eq_true_eq, List.isEmpty_iff] at h_merge
      obtain ⟨⟨⟨⟨⟨h_role, h_role'⟩, h_calls⟩, h_calls'⟩, -⟩, -⟩ := h_merge
      obtain ⟨text, h_text, h_some⟩ := h_prev.content h_role h_calls
      obtain ⟨text', h_text', h_some'⟩ := h_msg.content h_role' h_calls'
      refine ih _ (h_rest.cons_of_imp fun _ _ _ _ => h_calls)
        (List.forall_mem_cons.mpr ⟨fun _ => ?_, h_messages⟩)
      rw [h_text, h_text']
      simp [hasAssistantSubstance, isBlank_joinContents h_some h_some']
    · obtain ⟨h_apart, h_rest_substance⟩ := ih msg h_rest (List.forall_mem_cons.mpr ⟨h_msg, h_messages⟩)
      obtain ⟨first, rest, h_eq, h_role, h_calls⟩ := head_coalesceFrom msg messages
      refine ⟨?_, List.forall_mem_cons.mpr ⟨h_prev, h_rest_substance⟩⟩
      rw [h_eq] at h_apart ⊢
      refine List.isChain_cons_cons.mpr ⟨fun h_role_prev h_role_next => ?_, h_apart⟩
      rw [h_role] at h_role_next
      have h_none := h_first h_role_prev h_role_next
      refine ⟨h_none, fun h_nil => h_merge ?_⟩
      rw [h_calls] at h_nil
      obtain ⟨text, h_text, -⟩ := h_prev.content h_role_prev h_none
      obtain ⟨text', h_text', -⟩ := h_msg.content h_role_next h_nil
      simp [mergeable, h_role_prev, h_role_next, h_none, h_nil, h_text, h_text']

/-! ### Turns -/

/-- A turn with one assistant message, and with records exactly if that has tool calls. -/
def Stepwise (t : TurnRecord) : Prop :=
  ∃ msg, t.llmMessages = [msg] ∧ msg.role = .assistant ∧ (msg.toolCalls = [] ↔ t.toolCalls = [])

variable (cfg : BuilderConfig) (counter : TokenCounter)

/-- A user message is a step. -/
theorem steps_userMessages (text : Option String) : Steps (userMessages text) := by
  unfold userMessages
  cases truthy text with
  | none => exact .nil
  | some t => exact .plain rfl .nil

/-- A turn of the run loop renders as steps. -/
theorem Stepwise.steps {t : TurnRecord} (h : Stepwise t) (degraded : List String) :
    Steps (turnToMessages cfg counter degraded t) := by
  obtain ⟨msg, h_msg, h_role, h_calls⟩ := h
  unfold turnToMessages
  rw [List.append_assoc]
  -- the user message comes first, then the assistant message with the answers to its calls
  refine (steps_userMessages _).append ?_
  rw [h_msg, List.map_singleton, if_pos h_role, List.singleton_append]
  cases h_records : t.toolCalls with
  | nil => exact .plain (by rw [sanitize_toolCalls, h_calls, h_records]) .nil
  | cons tc tcs =>
    refine .call (by rw [sanitize_role, h_role]) rfl (steps_plain fun answer h_answer => ?_)
    rcases List.mem_cons.mp h_answer with rfl | h_answer
    · rfl
    · obtain ⟨tc', -, rfl⟩ := List.mem_map.mp h_answer
      rfl

/-- A user message is there only if it says something. -/
theorem substantial_userMessages (text : Option String) :
    ∀ msg ∈ userMessages text, Substantial msg := by
  unfold userMessages
  cases truthy text with
  | none => simp
  | some t => simpa using substantial_of_role (by simp)

/-- Every message of a turn is repaired. -/
theorem substantial_turnToMessages (degraded : List String) (t : TurnRecord) :
    ∀ msg ∈ turnToMessages cfg counter degraded t, Substantial msg := by
  unfold turnToMessages
  refine List.forall_mem_append.mpr ⟨List.forall_mem_append.mpr
    ⟨substantial_userMessages _, fun msg h_mem => ?_⟩, fun msg h_mem => ?_⟩
  · obtain ⟨raw, -, rfl⟩ := List.mem_map.mp h_mem
    split_ifs with h_role
    · exact substantial_sanitize raw
    · exact substantial_of_role h_role
  · obtain ⟨tc, -, rfl⟩ := List.mem_map.mp h_mem
    exact substantial_of_role (by simp)

/-- So all messages stay substantial. -/
theorem substantial_ensureUserQuery {messages : List Message}
    (h : ∀ msg ∈ messages, Substantial msg) (anchor : Option String) :
    ∀ msg ∈ ensureUserQuery messages anchor, Substantial msg := by
  -- the message that is put in is a user message
  have h_user : ∀ text, Substantial { role := .user, content := some text } := fun text =>
    substantial_of_role (by simp)
  unfold ensureUserQuery
  by_cases h_bare : hasBareUserMessage messages = true
  · rwa [if_pos h_bare]
  · rw [if_neg h_bare]
    cases messages with
    | nil => simpa using h_user _
    | cons msg rest =>
      rw [List.forall_mem_cons] at h
      dsimp only
      by_cases h_system : msg.role = .system
      · rw [if_pos h_system]
        exact List.forall_mem_cons.mpr ⟨h.1, List.forall_mem_cons.mpr ⟨h_user _, h.2⟩⟩
      · rw [if_neg h_system]
        exact List.forall_mem_cons.mpr ⟨h_user _, List.forall_mem_cons.mpr h⟩

/-- **The builder on a session of stepwise turns**, whatever is degraded and dropped. -/
theorem build_safe (inp : BuildInput) (h : ∀ t ∈ inp.session.turns, Stepwise t) :
    ProviderSafe (build cfg counter inp) := by
  set w := buildWindow cfg counter inp with h_w
  -- the system message, the turns that are left and the current messages are steps
  have h_steps : Steps (windowMessages cfg counter inp w) := by
    refine .plain rfl ((steps_flatMap fun t ht => ?_).append (steps_userMessages _))
    exact (h t (budgetLoop_turns cfg counter inp _ _ t ht)).steps cfg counter _
  have h_substance : ∀ msg ∈ windowMessages cfg counter inp w, Substantial msg := by
    refine List.forall_mem_cons.mpr ⟨substantial_of_role (by simp), List.forall_mem_append.mpr
      ⟨fun msg h_mem => ?_, substantial_userMessages _⟩⟩
    obtain ⟨t, -, h_mem⟩ := List.mem_flatMap.mp h_mem
    exact substantial_turnToMessages cfg counter _ t msg h_mem
  -- a chain of steps gets only user messages, and merging mends the rest
  have h_chain := (h_steps.ensureUserQuery (anchorUserMessage inp)).isChain
  have h_all := substantial_ensureUserQuery h_substance (anchorUserMessage inp)
  show ProviderSafe (coalesceConsecutiveAssistants
    (ensureUserQuery (windowMessages cfg counter inp w) (anchorUserMessage inp)))
  cases h_eq : ensureUserQuery (windowMessages cfg counter inp w) (anchorUserMessage inp) with
  | nil => exact ⟨.nil, by simp [coalesceConsecutiveAssistants]⟩
  | cons msg messages =>
    rw [h_eq] at h_chain h_all
    exact safe_coalesceFrom msg messages h_chain h_all

end Nexus
