import Mathlib.Data.List.Count
import Mathlib.Data.List.Nodup
import NexusAgent.Context.Builder

/-!
# Paired message lists

Providers want every tool call of an assistant message answered by one tool message right
after it, and no tool message without its call (`WellPaired`). The lists the builder works
with are sequences of plain messages and of blocks, a block being an assistant message with
tool calls and its answers in order (`Blocks`). Everything `build` does to its list keeps
the blocks, so a session of paired turns gives a well-paired list (`wellPaired_build`).
-/

open Lib

namespace Nexus

/-! ### Well-paired lists -/

/-- The tool messages at the head of a list. -/
def toolRun (messages : List Message) : List Message :=
  messages.takeWhile fun msg => msg.role = .tool

/-- Every tool call of an assistant message is answered by exactly one of the tool messages
directly after it, and every tool message answers a call of the assistant message directly
before it and its other answers. -/
structure WellPaired (messages : List Message) : Prop where
  answered : ∀ pre msg post, messages = pre ++ msg :: post → msg.role = .assistant →
    ∀ entry ∈ msg.toolCalls,
      (toolRun post).countP (fun answer => answer.toolCallId = some entry.id) = 1
  answers : ∀ pre msg post, messages = pre ++ msg :: post → msg.role = .tool →
    ∃ pre' call others, pre = pre' ++ call :: others ∧ (∀ other ∈ others, other.role = .tool) ∧
      call.role = .assistant ∧ ∃ entry ∈ call.toolCalls, msg.toolCallId = some entry.id

/-! ### Blocks -/

/-- A message without tool calls that answers none. -/
def Message.Plain (msg : Message) : Prop := msg.role ≠ .tool ∧ msg.toolCalls = []

/-- An assistant message with tool calls and its answers, in the order of the calls. -/
structure Block (call : Message) (answers : List Message) : Prop where
  role : call.role = .assistant
  calls : call.toolCalls ≠ []
  tools : ∀ msg ∈ answers, msg.role = .tool
  ids : answers.map Message.toolCallId = (call.toolCalls.map ToolCallEntry.id).map some
  nodup : (call.toolCalls.map ToolCallEntry.id).Nodup

/-- A sequence of plain messages and blocks. -/
inductive Blocks : List Message → Prop
  | nil : Blocks []
  | plain {msg : Message} {rest : List Message} (h_plain : msg.Plain) (h_rest : Blocks rest) :
    Blocks (msg :: rest)
  | block {call : Message} {answers rest : List Message} (h_block : Block call answers)
      (h_rest : Blocks rest) : Blocks (call :: (answers ++ rest))

/-- Blocks after blocks are blocks. -/
theorem Blocks.append {xs ys : List Message} (h : Blocks xs) (h' : Blocks ys) :
    Blocks (xs ++ ys) := by
  induction h with
  | nil => exact h'
  | plain h_plain _ ih => exact .plain h_plain ih
  | block h_block _ ih =>
    rw [List.cons_append, List.append_assoc]
    exact .block h_block ih

/-- Lists of blocks, one after the other, are blocks. -/
theorem blocks_flatMap {α : Type} {f : α → List Message} {xs : List α}
    (h : ∀ x ∈ xs, Blocks (f x)) : Blocks (xs.flatMap f) := by
  induction xs with
  | nil => exact .nil
  | cons x xs ih =>
    rw [List.forall_mem_cons] at h
    exact (h.1).append (ih h.2)

/-- A sequence of blocks does not start with a tool message. -/
theorem Blocks.toolRun_eq_nil {messages : List Message} (h : Blocks messages) :
    toolRun messages = [] := by
  unfold toolRun
  cases h with
  | nil => rfl
  | plain h_plain _ => exact List.takeWhile_cons_of_neg (by simpa using h_plain.1)
  | block h_block _ => exact List.takeWhile_cons_of_neg (by simp [h_block.role])

/-- The tool messages after the call of a block are its answers. -/
theorem Block.toolRun {call : Message} {answers rest : List Message} (h : Block call answers)
    (h_rest : Blocks rest) : toolRun (answers ++ rest) = answers := by
  have h_all : ∀ msg ∈ answers, decide (msg.role = .tool) = true := by simpa using h.tools
  have h_nil := h_rest.toolRun_eq_nil
  unfold Nexus.toolRun at h_nil ⊢
  rw [List.takeWhile_append_of_pos h_all, h_nil, List.append_nil]

/-- Every call of a block has exactly one answer. -/
theorem Block.count {call : Message} {answers : List Message} (h : Block call answers)
    {entry : ToolCallEntry} (h_entry : entry ∈ call.toolCalls) :
    answers.countP (fun answer => answer.toolCallId = some entry.id) = 1 := by
  have h_count : (answers.map Message.toolCallId).count (some entry.id) = 1 := by
    rw [h.ids, List.count_map_of_injective _ _ fun _ _ h => Option.some.inj h]
    exact List.count_eq_one_of_mem h.nodup (List.mem_map_of_mem h_entry)
  rw [← h_count, List.count, List.countP_map]
  refine List.countP_congr fun answer _ => ?_
  simp

/-- **Blocks are well paired.** -/
theorem Blocks.wellPaired {messages : List Message} (h : Blocks messages) : WellPaired messages := by
  induction h with
  | nil => exact ⟨by simp, by simp⟩
  | @plain first rest h_plain h_rest ih =>
    refine ⟨fun pre msg post h_eq h_role entry h_entry => ?_, fun pre msg post h_eq h_role => ?_⟩
    · cases pre with
      | nil =>
        obtain ⟨rfl, rfl⟩ := List.cons.inj h_eq
        rw [h_plain.2] at h_entry
        cases h_entry
      | cons x pre => exact ih.answered pre msg post (List.cons.inj h_eq).2 h_role entry h_entry
    · cases pre with
      | nil =>
        obtain ⟨rfl, rfl⟩ := List.cons.inj h_eq
        exact absurd h_role h_plain.1
      | cons x pre =>
        obtain ⟨rfl, h_tail⟩ := List.cons.inj h_eq
        obtain ⟨pre', call, others, rfl, h_others⟩ := ih.answers pre msg post h_tail h_role
        exact ⟨first :: pre', call, others, rfl, h_others⟩
  | @block call answers rest h_block h_rest ih =>
    refine ⟨fun pre msg post h_eq h_role entry h_entry => ?_, fun pre msg post h_eq h_role => ?_⟩
    · cases pre with
      | nil =>
        obtain ⟨rfl, rfl⟩ := List.cons.inj h_eq
        rw [h_block.toolRun h_rest]
        exact h_block.count h_entry
      | cons x pre =>
        obtain ⟨rfl, h_tail⟩ := List.cons.inj h_eq
        rcases List.append_eq_append_iff.mp h_tail with ⟨mid, rfl, h_rest'⟩ | ⟨mid, h_ans, h_rest'⟩
        · exact ih.answered mid msg post h_rest' h_role entry h_entry
        · -- the assistant message cannot be among the answers
          cases mid with
          | nil => exact ih.answered [] msg post h_rest'.symm h_role entry h_entry
          | cons y mid =>
            obtain ⟨rfl, -⟩ := List.cons.inj h_rest'
            have h_tool := h_block.tools msg (by simp [h_ans])
            rw [h_role] at h_tool
            cases h_tool
    · cases pre with
      | nil =>
        obtain ⟨rfl, rfl⟩ := List.cons.inj h_eq
        rw [h_block.role] at h_role
        cases h_role
      | cons x pre =>
        obtain ⟨rfl, h_tail⟩ := List.cons.inj h_eq
        have h_beyond : ∀ mid, pre = answers ++ mid → rest = mid ++ msg :: post →
            ∃ pre' call' others, call :: pre = pre' ++ call' :: others ∧
              (∀ other ∈ others, other.role = .tool) ∧ call'.role = .assistant ∧
              ∃ entry ∈ call'.toolCalls, msg.toolCallId = some entry.id := by
          rintro mid rfl h_rest'
          obtain ⟨pre', call', others, rfl, h_others⟩ := ih.answers mid msg post h_rest' h_role
          exact ⟨call :: (answers ++ pre'), call', others, by simp, h_others⟩
        rcases List.append_eq_append_iff.mp h_tail with ⟨mid, h_pre, h_rest'⟩ | ⟨mid, h_ans, h_rest'⟩
        · exact h_beyond mid h_pre h_rest'
        · cases mid with
          | nil => exact h_beyond [] (by simpa using h_ans.symm) h_rest'.symm
          | cons y mid =>
            obtain ⟨rfl, -⟩ := List.cons.inj h_rest'
            refine ⟨[], call, pre, rfl, fun other h_other => ?_, h_block.role, ?_⟩
            · exact h_block.tools other (by simp [h_ans, h_other])
            · have h_id := List.mem_map_of_mem (f := Message.toolCallId) (l := answers) (a := msg)
                (by simp [h_ans])
              rw [h_block.ids] at h_id
              obtain ⟨id, h_mem, h_some⟩ := List.mem_map.mp h_id
              obtain ⟨entry, h_entry, rfl⟩ := List.mem_map.mp h_mem
              exact ⟨entry, h_entry, h_some.symm⟩

/-! ### What the builder does to blocks -/

/-- A message after which nothing is merged is put out as it stands. -/
theorem coalesce_cons_of_not_mergeable {msg : Message} (h : ∀ next, mergeable msg next = false)
    (rest : List Message) : coalesceFrom msg rest = msg :: coalesceConsecutiveAssistants rest := by
  cases rest with
  | nil => rfl
  | cons next rest =>
    unfold coalesceFrom
    rw [h next]
    rfl

/-- Messages that merge with none stay as they are in front of the rest. -/
theorem coalesce_append_of_not_mergeable {msgs : List Message}
    (h : ∀ msg ∈ msgs, ∀ next, mergeable msg next = false) (rest : List Message) :
    coalesceConsecutiveAssistants (msgs ++ rest) = msgs ++ coalesceConsecutiveAssistants rest := by
  induction msgs with
  | nil => rfl
  | cons msg msgs ih =>
    rw [List.forall_mem_cons] at h
    rw [List.cons_append, coalesceConsecutiveAssistants, coalesce_cons_of_not_mergeable h.1, ih h.2]
    rfl

/-- Merging leaves tool calls with their answers. -/
theorem Blocks.coalesceFrom {rest : List Message} (h : Blocks rest) :
    Blocks (coalesceConsecutiveAssistants rest) ∧
      ∀ msg : Message, msg.Plain → Blocks (Nexus.coalesceFrom msg rest) := by
  induction h with
  | nil => exact ⟨.nil, fun msg h_msg => .plain h_msg .nil⟩
  | @plain next rest h_next h_rest ih =>
    refine ⟨ih.2 next h_next, fun msg h_msg => ?_⟩
    unfold Nexus.coalesceFrom
    split_ifs with h_merge
    · exact ih.2 _ h_msg
    · exact .plain h_msg (ih.2 next h_next)
  | @block call answers rest h_block h_rest ih =>
    -- a call and its answers never merge with a neighbour
    have h_alone : ∀ msg ∈ call :: answers, ∀ next, mergeable msg next = false := by
      intro msg h_msg next
      rcases List.mem_cons.mp h_msg with rfl | h_answer
      · simp [mergeable, h_block.calls]
      · simp [mergeable, h_block.tools msg h_answer]
    have h_call : Blocks (coalesceConsecutiveAssistants (call :: (answers ++ rest))) := by
      have h_eq := coalesce_append_of_not_mergeable h_alone rest
      rw [List.cons_append] at h_eq
      rw [h_eq]
      exact .block h_block ih.1
    refine ⟨h_call, fun msg h_msg => ?_⟩
    unfold Nexus.coalesceFrom
    rw [if_neg (by simp [mergeable, h_block.calls])]
    exact .plain h_msg h_call

theorem plain_user (text : String) :
    ({ role := .user, content := some text } : Message).Plain := ⟨fun h => (by cases h), rfl⟩

/-- A user message is a block of its own. -/
theorem blocks_userMessages (text : Option String) : Blocks (userMessages text) := by
  unfold userMessages
  cases truthy text with
  | none => exact .nil
  | some t => exact .plain (plain_user t) .nil

/-- So does a user message put in front. -/
theorem Blocks.ensureUserQuery {messages : List Message} (h : Blocks messages)
    (anchor : Option String) : Blocks (Nexus.ensureUserQuery messages anchor) := by
  unfold Nexus.ensureUserQuery
  by_cases h_user : hasBareUserMessage messages = true
  · -- a user message is there already
    rwa [if_pos h_user]
  · rw [if_neg h_user]
    cases h with
    | nil => exact .plain (plain_user _) .nil
    | @plain msg rest h_plain h_rest =>
      dsimp only
      -- behind a system message, or first
      by_cases h_system : msg.role = .system
      · rw [if_pos h_system]
        exact .plain h_plain (.plain (plain_user _) h_rest)
      · rw [if_neg h_system]
        exact .plain (plain_user _) (.plain h_plain h_rest)
    | @block call answers rest h_block h_rest =>
      dsimp only
      -- a call is no system message, so the new one comes first
      rw [if_neg (by simp [h_block.role])]
      exact .plain (plain_user _) (.block h_block h_rest)

/-! ### Paired turns -/

/-- A turn with one assistant message, a record for each of its calls, and distinct ids. -/
structure PairedTurn (t : TurnRecord) : Prop where
  message : ∃ msg, t.llmMessages = [msg] ∧ msg.role = .assistant ∧
    msg.toolCalls.length = t.toolCalls.length ∧ (msg.toolCalls.map ToolCallEntry.id).Nodup
  records : (t.toolCalls.map ToolCallRecord.tcId).Nodup

/-- The tool messages of a paired turn answer its calls in order. -/
theorem PairedTurn.toolCallIds {t : TurnRecord} (h : PairedTurn t) {msg : Message}
    (h_msg : t.llmMessages = [msg]) (h_role : msg.role = .assistant)
    (h_length : msg.toolCalls.length = t.toolCalls.length) :
    t.toolCalls.map (toolCallIdOf t) = msg.toolCalls.map ToolCallEntry.id := by
  refine List.ext_getElem (by simp [h_length]) fun i h_i h_i' => ?_
  rw [List.length_map] at h_i h_i'
  rw [List.getElem_map, List.getElem_map]
  -- the records are all different, so each is found at its own place
  have h_idx : t.toolCalls.idxOf t.toolCalls[i] = i :=
    List.Nodup.idxOf_getElem (List.Nodup.of_map _ h.records) i h_i
  have h_calls : msg.toolCalls ≠ [] := List.ne_nil_of_length_pos (by omega)
  have h_entry := List.getElem?_eq_getElem h_i'
  simp [toolCallIdOf, h_msg, h_role, h_calls, h_idx, h_entry]

/-- **A paired turn renders as blocks.** -/
theorem PairedTurn.blocks {t : TurnRecord} (h : PairedTurn t) (cfg : BuilderConfig)
    (counter : TokenCounter) (degraded : List String) :
    Blocks (turnToMessages cfg counter degraded t) := by
  obtain ⟨msg, h_msg, h_role, h_length, h_nodup⟩ := h.message
  have h_ids := h.toolCallIds h_msg h_role h_length
  unfold turnToMessages
  rw [List.append_assoc]
  refine (blocks_userMessages _).append ?_
  rw [h_msg, List.map_singleton, if_pos h_role, List.singleton_append]
  have h_role' : (sanitizeAssistantLlmMessage msg emptyAssistantPlaceholder).role = .assistant := by
    rw [sanitize_role, h_role]
  by_cases h_calls : msg.toolCalls = []
  · -- no calls, no records
    have h_records : t.toolCalls = [] := by
      rw [h_calls] at h_length
      exact List.eq_nil_of_length_eq_zero h_length.symm
    rw [h_records, List.map_nil]
    exact .plain ⟨by simp [h_role], by simpa using h_calls⟩ .nil
  · refine List.append_nil (List.map _ t.toolCalls) ▸ Blocks.block ⟨h_role', ?_, ?_, ?_, ?_⟩ .nil
    · rwa [sanitize_toolCalls]
    · simp
    · rw [sanitize_toolCalls, ← h_ids, List.map_map, List.map_map]
      rfl
    · rwa [sanitize_toolCalls]

/-- The budgeting loop only drops turns. -/
theorem budgetLoop_turns (cfg : BuilderConfig) (counter : TokenCounter) (inp : BuildInput) (n : ℕ)
    (w : Window) : ∀ t ∈ (budgetLoop cfg counter inp n w).turns, t ∈ w.turns := by
  induction n generalizing w with
  | zero => exact fun _ h => h
  | succ n ih =>
    intro t ht
    unfold budgetLoop at ht
    dsimp only at ht
    split at ht
    · -- the window fits
      split_ifs at ht <;> exact ht
    · split at ht
      · -- a result is degraded: the turns stay as they are
        have := ih _ t ht
        split_ifs at this <;> exact this
      · split at ht
        · split_ifs at ht <;> exact ht
        · -- the oldest turn goes
          next first turns h_turns =>
          have h_t := ih _ t ht
          have h_mem : t ∈ first :: turns := List.mem_cons_of_mem first h_t
          rw [← h_turns] at h_mem
          split_ifs at h_mem <;> exact h_mem

/-- **A session of paired turns gives a well-paired list**, whatever was degraded or
dropped. -/
theorem wellPaired_build (cfg : BuilderConfig) (counter : TokenCounter) (inp : BuildInput)
    (h : ∀ t ∈ inp.session.turns, PairedTurn t) : WellPaired (build cfg counter inp) := by
  have h_window : Blocks (windowMessages cfg counter inp (buildWindow cfg counter inp)) := by
    refine .plain ⟨fun h => (by cases h), rfl⟩ ((blocks_flatMap fun t ht => ?_).append (blocks_userMessages _))
    exact (h t (budgetLoop_turns cfg counter inp _ _ t ht)).blocks cfg counter _
  exact (h_window.ensureUserQuery _).coalesceFrom.1.wellPaired

end Nexus
