import Mathlib.Algebra.BigOperators.Group.List.Basic
import NexusAgent.Context.Pairing
import NexusAgent.Lib.Settle

/-!
# The token budget of a context

The budgeting loop of `ContextWindowBuilder.build` counts the list it has, but not the user
message that is put into the list afterwards, when trimming left none. The list it settles
on fits the budget (`fits_window`), merging adjacent assistant messages does not make it
longer, and so the context stays within the budget exactly when a user message survived the
trimming or there is room for the one that is put back.

* `Counts`: what is asked of the token counter.
* `build_within_budget_iff`: when the context fits.
* `build_over_budget`: a question that is put back on top of a window filled to the brim.
-/

open Lib

namespace Nexus

/-! ### Counting messages -/

/-- The counter adds up the costs of the messages and a constant, and two assistant
messages do not cost more once they are merged. -/
structure Counts (counter : TokenCounter) (base : ℕ) (cost : Message → ℕ) : Prop where
  sum : ∀ messages, counter.countMessages messages = base + (messages.map cost).sum
  merged : ∀ prev msg, mergeable prev msg = true →
    cost { prev with
      content := some (joinContents (prev.content.getD "") (msg.content.getD "")) } ≤
      cost prev + cost msg

section Counting

variable {counter : TokenCounter} {base : ℕ} {cost : Message → ℕ}

/-- Merging assistant messages does not raise the cost. -/
theorem Counts.cost_coalesceFrom (h : Counts counter base cost) (prev : Message)
    (messages : List Message) :
    ((coalesceFrom prev messages).map cost).sum ≤ cost prev + (messages.map cost).sum := by
  induction messages generalizing prev with
  | nil => simp [coalesceFrom]
  | cons msg messages ih =>
    unfold coalesceFrom
    rw [List.map_cons, List.sum_cons]
    split_ifs with h_merge
    · refine (ih _).trans ?_
      -- the merged message costs no more than the two
      have h_cost := h.merged prev msg h_merge
      omega
    · rw [List.map_cons, List.sum_cons]
      have h_rest := ih msg
      omega

/-- **Merging costs nothing.** -/
theorem Counts.count_coalesce (h : Counts counter base cost) (messages : List Message) :
    counter.countMessages (coalesceConsecutiveAssistants messages) ≤
      counter.countMessages messages := by
  rw [h.sum, h.sum]
  cases messages with
  | nil => rfl
  | cons msg messages =>
    show base + ((coalesceFrom msg messages).map cost).sum ≤ _
    rw [List.map_cons, List.sum_cons]
    exact Nat.add_le_add_left (h.cost_coalesceFrom msg messages) base

end Counting

/-! ### The trimming stages -/

variable (cfg : BuilderConfig) (counter : TokenCounter) (inp : BuildInput)

/-- The list of a window is within the budget. -/
def Window.Fits (w : Window) : Prop :=
  (counter.countMessages (windowMessages cfg counter inp w) : ℤ) ≤ inp.tokenBudget

/-- What the loop tries after a window: the oldest tool result degraded, else the oldest
turn dropped. -/
def Window.trim (w : Window) : Option Window :=
  match degradeOldestTool w.turns w.degradedTcIds with
  | some tcId => some { w with degradedTcIds := tcId :: w.degradedTcIds }
  | none =>
    match w.turns with
    | [] => none
    | _ :: turns => some { w with turns := turns, turnsDropped := w.turnsDropped + 1 }

/-- The window without the token count of the first pass. -/
def Window.untallied (w : Window) : Window := { w with untrimmedTokens := 0 }

/-- The untrimmed window of a session. -/
def fullWindow (s : AgentSession) : Window := { turns := s.turns }

/-- Trimming does not look at the tally. -/
theorem Window.trim_untallied (w : Window) : w.untallied.trim = w.trim.map Window.untallied := by
  unfold trim untallied
  dsimp only
  split
  · rfl
  · split <;> rfl

/-- Only an empty window is not trimmed further. -/
theorem Window.turns_of_trim {w : Window} (h : w.trim = none) : w.turns = [] := by
  unfold trim at h
  split at h
  · cases h
  · split at h
    · assumption
    · cases h

/-- The records of a window that can still be degraded. -/
def Window.raw (w : Window) : List ToolCallRecord :=
  (w.turns.flatMap TurnRecord.toolCalls).filter fun tc =>
    tc.tcId ∉ w.degradedTcIds ∧ summaryText tc = ""

/-- Degrading a call changes the raw messages by its summary only. -/
theorem Window.raw_degrade (w : Window) (tcId : String) :
    Window.raw { w with degradedTcIds := tcId :: w.degradedTcIds } =
      w.raw.filter fun tc => tc.tcId ≠ tcId := by
  unfold raw
  rw [List.filter_filter]
  refine List.filter_congr fun tc _ => ?_
  simp only [List.mem_cons, not_or, Bool.decide_and, Bool.and_assoc, decide_not]

/-- Every trimming step leaves less to trim. -/
theorem Window.trim_lt {w w' : Window} (h : w.trim = some w') :
    w'.raw.length + w'.turns.length < w.raw.length + w.turns.length := by
  unfold trim at h
  split at h
  · next tcId h_tool =>
    obtain rfl := Option.some.inj h
    rw [raw_degrade]
    obtain ⟨tc, h_find, h_id⟩ := Option.map_eq_some_iff.mp h_tool
    have h_raw := List.find?_some h_find
    have h_mem : tc ∈ w.raw := List.mem_filter.mpr ⟨List.mem_of_find?_eq_some h_find, h_raw⟩
    -- degrading takes one call out of the raw ones
    have h_lt : (w.raw.filter fun tc => tc.tcId ≠ tcId).length < w.raw.length :=
      List.length_filter_lt_length_iff_exists.mpr ⟨tc, h_mem, by simp [h_id]⟩
    exact Nat.add_lt_add_right h_lt _
  · split at h
    · cases h
    · next first turns h_turns =>
      obtain rfl := Option.some.inj h
      -- dropping a turn takes its raw calls along, so these cannot grow
      have h_le : (Window.raw { w with turns := turns, turnsDropped := w.turnsDropped + 1 }).length ≤
          w.raw.length := by
        unfold raw
        rw [h_turns, List.flatMap_cons, List.filter_append, List.length_append]
        exact Nat.le_add_left _ _
      rw [h_turns, List.length_cons]
      dsimp only
      omega

/-- A pass of the budgeting loop: the first one enters its token count, and every one trims
a window that does not fit. -/
theorem budgetLoop_succ (n : ℕ) (w : Window) :
    ∃ v, v.untallied = w.untallied ∧ budgetLoop cfg counter inp (n + 1) w =
      if (counter.countMessages (windowMessages cfg counter inp w) : ℤ) ≤ inp.tokenBudget then v
      else match v.trim with
        | some w' => budgetLoop cfg counter inp n w'
        | none => v := by
  rw [budgetLoop]
  -- the tally is taken once, and only in the counter of the window
  generalize h_v : (if w.untrimmedTokens = 0 then { w with
    untrimmedTokens := counter.countMessages (windowMessages cfg counter inp w) } else w) = v
  refine ⟨v, by rw [← h_v]; split_ifs <;> rfl, ?_⟩
  congr 1
  unfold Window.trim
  -- the loop's branches are those of `Window.trim`
  cases degradeOldestTool v.turns v.degradedTcIds with
  | some tcId => rfl
  | none => cases v.turns <;> rfl

/-- **The budgeting loop** settles for the first stage of the trimming that fits. -/
theorem settles_budgetLoop (n : ℕ) (w : Window) (h_fuel : w.raw.length + w.turns.length < n) :
    Settles (Window.Fits cfg counter inp) Window.trim w.untallied
      (budgetLoop cfg counter inp n w).untallied := by
  induction n generalizing w with
  | zero => omega
  | succ n ih =>
    obtain ⟨v, h_same, h_loop⟩ := budgetLoop_succ cfg counter inp n w
    rw [h_loop]
    split_ifs with h_fits
    · rw [h_same]
      exact .good h_fits
    · have h_trim := v.trim_untallied
      rw [h_same] at h_trim
      cases h_next : v.trim with
      | none =>
        rw [h_next] at h_trim
        rw [h_same]
        exact .last h_fits h_trim
      | some w' =>
        rw [h_next] at h_trim
        -- each pass makes the window smaller, so the fuel lasts
        have h_lt := Window.trim_lt h_trim
        refine .step h_fits h_trim (ih w' ?_)
        exact h_lt.trans_le (Nat.le_of_lt_succ h_fuel)

/-- The window that is built from is the first one, on the way from the full window, that fits. -/
theorem settles_buildWindow :
    Settles (Window.Fits cfg counter inp) Window.trim (fullWindow inp.session)
      (buildWindow cfg counter inp).untallied := by
  refine settles_budgetLoop cfg counter inp _ (fullWindow inp.session) ?_
  have h_raw : (fullWindow inp.session).raw.length ≤
      (inp.session.turns.flatMap TurnRecord.toolCalls).length := List.length_filter_le _ _
  show _ + inp.session.turns.length < budgetFuel inp.session.turns
  unfold budgetFuel
  omega

/-! ### The context -/

/-- The message `_ensure_user_query` puts in. -/
def anchorMessage : Message where
  role := .user
  content :=
    let stripped := PyStr.strip ((anchorUserMessage inp).getD "")
    some (if stripped = "" then fallbackUserMessage else stripped)

/-- What is left of the list when everything that can be trimmed is. -/
def barest : List Message :=
  { role := .system, content := some inp.systemContent } :: userMessages inp.currentUserMessage

/-- The context that has to be sent whatever is trimmed: the system message and the user's. -/
def mandatory : List Message := ensureUserQuery (barest inp) (anchorUserMessage inp)

/-- The first stage of the trimming that fits still has a user message, or leaves room for
the one that is put in, once adjacent assistant messages are merged. -/
def RoomForUser (cost : Message → ℕ) : Prop :=
  ∀ w, Settles (Window.Fits cfg counter inp) Window.trim (fullWindow inp.session) w →
    hasBareUserMessage (windowMessages cfg counter inp w) = true ∨
      ((counter.countMessages
        (coalesceConsecutiveAssistants (windowMessages cfg counter inp w)) +
          cost (anchorMessage inp) : ℕ) : ℤ) ≤ inp.tokenBudget

section Bound

variable {cfg counter inp} {base : ℕ} {cost : Message → ℕ}

/-- The window with nothing in it. -/
theorem windowMessages_of_turns {w : Window} (h : w.turns = []) :
    windowMessages cfg counter inp w = barest inp := by
  simp [windowMessages, barest, h]

/-- The mandatory part is no shorter than what is left of the list. -/
theorem count_barest_le (h : Counts counter base cost) :
    counter.countMessages (barest inp) ≤ counter.countMessages (mandatory inp) := by
  unfold mandatory ensureUserQuery
  split_ifs
  · rfl
  · show _ ≤ counter.countMessages (_ :: _ :: userMessages inp.currentUserMessage)
    rw [h.sum, h.sum, barest]
    simp only [List.map_cons, List.sum_cons]
    omega

/-- **The window fits**: the search never ends short of the budget. -/
theorem fits_window (h : Counts counter base cost)
    (h_mandatory : (counter.countMessages (mandatory inp) : ℤ) ≤ inp.tokenBudget) {w : Window}
    (h_settles : Settles (Window.Fits cfg counter inp) Window.trim (fullWindow inp.session) w) :
    w.Fits cfg counter inp := by
  refine h_settles.good_of_last fun v h_last => ?_
  show (counter.countMessages (windowMessages cfg counter inp v) : ℤ) ≤ inp.tokenBudget
  rw [windowMessages_of_turns (Window.turns_of_trim h_last)]
  have h_le : counter.countMessages (barest inp) ≤ counter.countMessages (mandatory inp) :=
    count_barest_le h
  omega

/-- The user message that is put in is paid for in full. -/
theorem count_anchored (h : Counts counter base cost) (w : Window)
    (h_none : hasBareUserMessage (windowMessages cfg counter inp w) = false) :
    counter.countMessages (coalesceConsecutiveAssistants
        (ensureUserQuery (windowMessages cfg counter inp w) (anchorUserMessage inp))) =
      counter.countMessages (coalesceConsecutiveAssistants (windowMessages cfg counter inp w)) +
        cost (anchorMessage inp) := by
  set system : Message := { role := .system, content := some inp.systemContent } with h_system
  obtain ⟨rest, h_rest⟩ : ∃ rest, windowMessages cfg counter inp w = system :: rest := ⟨_, rfl⟩
  have h_anchored : ensureUserQuery (windowMessages cfg counter inp w) (anchorUserMessage inp) =
      system :: anchorMessage inp :: rest := by
    unfold ensureUserQuery
    rw [h_none, h_rest]
    rfl
  -- neither the system message nor the anchor merges with what follows
  have h_alone : ∀ msg ∈ [system, anchorMessage inp], ∀ next, mergeable msg next = false := by
    simp [mergeable, h_system, anchorMessage]
  have h_put := coalesce_append_of_not_mergeable h_alone rest
  have h_alone' : ∀ msg ∈ [system], ∀ next, mergeable msg next = false := by
    simp [mergeable, h_system]
  have h_bare := coalesce_append_of_not_mergeable h_alone' rest
  calc counter.countMessages (coalesceConsecutiveAssistants (ensureUserQuery _ _))
      = counter.countMessages ([system, anchorMessage inp] ++ coalesceConsecutiveAssistants rest) := by
        rw [h_anchored, ← h_put]
        rfl
    _ = counter.countMessages ([system] ++ coalesceConsecutiveAssistants rest) +
          cost (anchorMessage inp) := by
        rw [h.sum, h.sum]
        simp only [List.map_append, List.sum_append, List.map_cons, List.sum_cons, List.map_nil,
          List.sum_nil]
        omega
    _ = _ := by
        rw [h_rest, ← h_bare]
        rfl

/-- **The context stays within the budget** exactly when there is room for the user message
that has to be in it. -/
theorem build_within_budget_iff (h : Counts counter base cost)
    (h_mandatory : (counter.countMessages (mandatory inp) : ℤ) ≤ inp.tokenBudget) :
    (counter.countMessages (build cfg counter inp) : ℤ) ≤ inp.tokenBudget ↔
      RoomForUser cfg counter inp cost := by
  set w := (buildWindow cfg counter inp).untallied with h_w
  have h_settles : Settles (Window.Fits cfg counter inp) Window.trim (fullWindow inp.session) w :=
    settles_buildWindow cfg counter inp
  have h_build : build cfg counter inp = coalesceConsecutiveAssistants
      (ensureUserQuery (windowMessages cfg counter inp w) (anchorUserMessage inp)) := rfl
  have h_room : RoomForUser cfg counter inp cost ↔
      hasBareUserMessage (windowMessages cfg counter inp w) = true ∨
        ((counter.countMessages
          (coalesceConsecutiveAssistants (windowMessages cfg counter inp w)) +
            cost (anchorMessage inp) : ℕ) : ℤ) ≤ inp.tokenBudget :=
    ⟨fun h_all => h_all w h_settles, fun h_one v h_v => h_v.unique h_settles ▸ h_one⟩
  rw [h_room, h_build]
  cases h_user : hasBareUserMessage (windowMessages cfg counter inp w) with
  | true =>
    -- a user message survived, and the list is the one that was counted
    have h_fits : w.Fits cfg counter inp := fits_window h h_mandatory h_settles
    have h_merged := h.count_coalesce (windowMessages cfg counter inp w)
    rw [ensureUserQuery, if_pos h_user]
    refine iff_of_true ?_ (.inl rfl)
    unfold Window.Fits at h_fits
    omega
  | false =>
    rw [count_anchored h w h_user]
    simp

/-- A user message of the call itself is in every window. -/
theorem roomForUser_of_current {message : String} (h_message : inp.currentUserMessage = some message)
    (h_text : PyStr.isBlank message = false) : RoomForUser cfg counter inp cost := by
  refine fun w _ => .inl ?_
  have h_some : truthy (some message) = some message := by
    have h_ne : message ≠ "" := by
      rintro rfl
      exact absurd h_text (by decide)
    simp [truthy, h_ne]
  simp [hasBareUserMessage, windowMessages, userMessages, h_message, h_some, h_text]

end Bound

/-! ### The estimating counter -/

/-- `TokenCounter` without its tokenizer: four characters a token, four tokens a role. -/
def estimateCounter : TokenCounter where
  encode _ text := text.length / 4
  countMessages messages := (messages.map fun msg => (msg.content.getD "").length / 4 + 4).sum

/-- Stripping makes no text longer. -/
theorem length_strip_le (s : String) : (PyStr.strip s).length ≤ s.length := by
  unfold PyStr.strip PyStr.rstripChars
  rw [← String.length_toList, String.toList_ofList, List.length_reverse]
  have h_start := (List.dropWhile_sublist PyStr.isSpace (l := s.toList)).length_le
  have h_end := (List.dropWhile_sublist PyStr.isSpace
    (l := (s.toList.dropWhile PyStr.isSpace).reverse)).length_le
  rw [List.length_reverse] at h_end
  exact (h_end.trans h_start).trans_eq String.length_toList

/-- Two contents and the blank line between them. -/
theorem length_joinContents_le (prev msg : String) :
    (joinContents prev msg).length ≤ prev.length + 2 + msg.length := by
  have h_prev := length_strip_le prev
  have h_msg := length_strip_le msg
  -- the separator is two characters long
  have h_sep : ("\n\n" : String).length = 2 := rfl
  have h_joined : (PyStr.join "\n\n" ([PyStr.strip prev, PyStr.strip msg].filter (· ≠ ""))).length ≤
      prev.length + 2 + msg.length := by
    -- either part may be dropped as empty
    by_cases h_p : PyStr.strip prev = "" <;> by_cases h_m : PyStr.strip msg = "" <;>
      simp [h_p, h_m, PyStr.join] <;> omega
  unfold joinContents
  dsimp only
  split_ifs
  · omega
  · exact h_joined

/-- The estimate counts each message by itself. -/
theorem counts_estimate :
    Counts estimateCounter 0 fun msg => (msg.content.getD "").length / 4 + 4 where
  sum messages := (Nat.zero_add _).symm
  merged prev msg _ := by
    have h_length := length_joinContents_le (prev.content.getD "") (msg.content.getD "")
    simp only [Option.getD_some]
    omega

/-- A long question, a tool result, and the turn that came next. -/
def longQuestion : AgentSession where
  sessionId := "s"
  agentId := "agent"
  turns :=
    [{ turnIndex := 0
       userMessage := some "How do the two reports compare?"
       llmMessages := [{ role := .assistant, content := none, toolCalls := [⟨"c1", "read", "\x7b\x7d"⟩] }]
       toolCalls := [{ tcId := "TC1", tcIndex := 1, toolName := "read", rawResponse := "Q1, Q2" }] },
     { turnIndex := 1
       llmMessages := [{ role := .assistant, content := some "The second one is longer." }] }]

/-- **Over budget**: the question does not fit beside the window that was kept, and is put
back into it. -/
theorem build_over_budget :
    ∃ (base : ℕ) (cost : Message → ℕ) (inp : BuildInput), Counts estimateCounter base cost ∧
      (estimateCounter.countMessages (mandatory inp) : ℤ) ≤ inp.tokenBudget ∧
      ¬(estimateCounter.countMessages (build {} estimateCounter inp) : ℤ) ≤ inp.tokenBudget :=
  ⟨0, _, { session := longQuestion, systemContent := "", tokenBudget := 20 }, counts_estimate,
    by decide +kernel, by decide +kernel⟩

/-- With a message of its own, a call on the same session stays within the budget. -/
theorem build_within_budget_current :
    (estimateCounter.countMessages (build {} estimateCounter
      { session := longQuestion, systemContent := "", currentUserMessage := some "And the first?",
        tokenBudget := 20 }) : ℤ) ≤ 20 :=
  (build_within_budget_iff counts_estimate (by decide +kernel)).mpr
    (roomForUser_of_current rfl (by decide +kernel))

end Nexus
