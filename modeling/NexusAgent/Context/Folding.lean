import NexusAgent.Context.Summarizer
import NexusAgent.Lib.Replace
import NexusAgent.Runner.Underway

/-!
# What the summarizer keeps of the turns it removes

`ContextSummarizer.summarize` picks turns by position, digests them by the kind of their
messages, removes them by their index, and cuts the merged summary at a number of
characters. The results of tool calls are not its business; for the rest, the four steps
agree when turn indices are distinct and the merged summary fits.

* `summaryRequest`: the prompt that is sent, with the digest in its place.
* `summarize_accounts`: what happened to the turns, their texts and the summary.
* `summarize_drops_result`: a tool result that is removed without having been sent.
-/

open Lib

namespace Nexus

/-! ### The prompt -/

/-- `DEFAULT_CONTEXT_SUMMARY_PROMPT`. -/
def defaultContextSummaryPrompt : String :=
  "You are summarizing part of an ongoing agent conversation so older turns can be removed " ++
    "from context while preserving important facts.\n\n" ++
    "Write a concise factual summary of the turns below. If an existing summary is provided, " ++
    "merge new information into it (do not repeat verbatim). Keep names, numbers, decisions, " ++
    "and open tasks. Omit filler.\n\n" ++
    "Existing summary (may be empty):\n\x7bexisting_summary\x7d\n\n" ++
    "Turns to fold into the summary:\n\x7bturns_to_summarize\x7d\n\nUpdated summary:"

/-- `get_summary_prompt`, for the configured prompt. -/
def getSummaryPrompt (summaryPrompt : String) : String :=
  if summaryPrompt = "" then defaultContextSummaryPrompt else summaryPrompt

/-- Where the rolling summary goes. -/
def existingPlaceholder : String := "\x7bexisting_summary\x7d"

/-- Where the digest goes. -/
def turnsPlaceholder : String := "\x7bturns_to_summarize\x7d"

/-- The prompt `summarize` sends, if it comes to that. -/
def summaryRequest (cfg : ContextSummaryConfig) (summaryPrompt : String) (s : AgentSession) :
    Option String :=
  match cfg.summarizeOn with
  | none => none
  | some _ =>
    let fold := turnsToFold cfg s
    if fold.isEmpty || PyStr.isBlank (buildTurnsDigest fold) then none
    else
      some (PyStr.replace turnsPlaceholder (buildTurnsDigest fold)
        (PyStr.replace existingPlaceholder s.summaryText (getSummaryPrompt summaryPrompt)))

/-- The text of the rolling summary before it is cut. -/
def mergedSummary (s : AgentSession) (newPart : String) : String :=
  if s.summaryText = "" then newPart else PyStr.rstrip s.summaryText ++ "\n\n" ++ newPart

/-- The texts of a turn are in the prompt. -/
structure Told (prompt : String) (t : TurnRecord) : Prop where
  user : ∀ text, t.userMessage = some text → PyStr.Within text prompt
  assistant : ∀ msg ∈ t.llmMessages, msg.role = .assistant →
    ∀ text, msg.content = some text → PyStr.Within text prompt

theorem Told.mono {prompt prompt' : String} {t : TurnRecord} (h : Told prompt t)
    (h_within : PyStr.Within prompt prompt') : Told prompt' t where
  user text h_text := (h.user text h_text).trans h_within
  assistant msg h_msg h_role text h_text := (h.assistant msg h_msg h_role text h_text).trans h_within

/-- **The digest** tells the texts of every turn in it. -/
theorem told_digest {fold : List TurnRecord} {t : TurnRecord} (h : t ∈ fold) :
    Told (buildTurnsDigest fold) t := by
  -- the digest is the join of the turns' lines
  have h_line : ∀ line ∈ digestLines t, PyStr.Within line (buildTurnsDigest fold) := fun line h_line =>
    PyStr.within_join (List.mem_flatMap.mpr ⟨t, h, h_line⟩)
  refine ⟨fun text h_text => ?_, fun msg h_msg h_role text h_text => ?_⟩
  · -- an empty message has no line, and is in every text
    by_cases h_none : text = ""
    · exact h_none ▸ PyStr.within_empty _
    · refine (PyStr.within_append_right "User: " text).trans (h_line _ ?_)
      simp [digestLines, h_text, truthy, h_none]
  · -- likewise for the assistant's texts
    by_cases h_none : text = ""
    · exact h_none ▸ PyStr.within_empty _
    · refine (PyStr.within_append_right "Assistant: " text).trans (h_line _ ?_)
      refine List.mem_append_right _ (List.mem_filterMap.mpr ⟨msg, h_msg, ?_⟩)
      simp [h_role, h_text, truthy, h_none]

/-- A prompt with a place for the digest has it there. -/
theorem digest_within {template : String} (h : PyStr.Within turnsPlaceholder template)
    (existing digest : String) :
    PyStr.Within digest
      (PyStr.replace turnsPlaceholder digest (PyStr.replace existingPlaceholder existing template)) := by
  refine PyStr.within_replace digest ?_ (by decide)
  exact PyStr.within_replace_of_opens existing (c := '\x7b') h ⟨_, rfl, by decide +kernel⟩
    ⟨_, rfl, by decide +kernel⟩ (by decide +kernel) (by decide +kernel)

/-! ### Summarizing -/

/-- The session `s'` is `s` with the turns to fold removed, told in the prompt, and the new
part in the summary. -/
structure FoldedInto (cfg : ContextSummaryConfig) (prompt newPart : String)
    (s s' : AgentSession) : Prop where
  /-- If turn indices are distinct, exactly the turns selected are gone. -/
  removed : (s.turns.map TurnRecord.turnIndex).Nodup →
    s'.turns = s.turns.filter fun t => t ∉ turnsToFold cfg s
  told : ∀ t ∈ turnsToFold cfg s, Told prompt t
  /-- If it fits beside the older text, the summary holds the new part. -/
  summary : (mergedSummary s newPart).length ≤ cfg.maxSummaryChars →
    PyStr.Within newPart s'.summaryText

theorem mem_turns_of_fold {cfg : ContextSummaryConfig} {s : AgentSession} {t : TurnRecord}
    (h : t ∈ turnsToFold cfg s) : t ∈ s.turns := by
  have h_foldable := List.mem_of_mem_take h
  exact (List.mem_filter.mp ((List.mem_insertionSort _).mp h_foldable)).1

/-- **Folding.** -/
theorem foldedInto_foldSession {cfg : ContextSummaryConfig} {s : AgentSession} {prompt : String}
    (h_prompt : PyStr.Within (buildTurnsDigest (turnsToFold cfg s)) prompt) (newPart : String) :
    FoldedInto cfg prompt newPart s (foldSession cfg (turnsToFold cfg s) newPart s) where
  removed h_nodup := by
    refine List.filter_congr fun t ht => ?_
    rw [decide_eq_decide, not_iff_not]
    constructor
    · intro h_index
      obtain ⟨u, h_fold, h_eq⟩ := List.mem_map.mp h_index
      -- the fold's indices are those of its turns alone, as all are different
      exact List.inj_on_of_nodup_map h_nodup (mem_turns_of_fold h_fold) ht h_eq ▸ h_fold
    · exact fun h_fold => List.mem_map_of_mem h_fold
  told t ht := (told_digest ht).mono h_prompt
  summary h_fits := by
    show PyStr.Within newPart (PyStr.takeFirst cfg.maxSummaryChars (mergedSummary s newPart))
    -- the summary fits, so nothing is cut off
    have h_all : PyStr.takeFirst cfg.maxSummaryChars (mergedSummary s newPart) =
        mergedSummary s newPart := by
      unfold PyStr.takeFirst
      rw [List.take_of_length_le (String.length_toList ▸ h_fits), String.ofList_toList]
    rw [h_all]
    unfold mergedSummary
    split_ifs
    · exact List.infix_rfl
    · exact PyStr.within_append_right _ _

/-- **What the summarizer accounts for.** A failed call and an empty answer change nothing.
Otherwise nothing is changed either, or the turns selected were told in the prompt and are
gone, and the answer is in the summary. -/
theorem summarize_accounts {a : StoreAdapter} (cfg : ContextSummaryConfig) {summaryPrompt : String}
    (h_prompt : PyStr.Within turnsPlaceholder (getSummaryPrompt summaryPrompt))
    (reply : Option String) (l : Live a) :
    (PyStr.strip (reply.getD "") = "" → summarize cfg reply l = l) ∧
      (summarize cfg reply l = l ∨ ∃ prompt, summaryRequest cfg summaryPrompt l.session = some prompt ∧
        FoldedInto cfg prompt (PyStr.strip (reply.getD "")) l.session
          (summarize cfg reply l).session) := by
  unfold summarize summaryRequest
  cases cfg.summarizeOn with
  -- without a threshold nothing is folded
  | none => exact ⟨fun _ => rfl, .inl rfl⟩
  | some ratio =>
    dsimp only
    by_cases h_none : ((turnsToFold cfg l.session).isEmpty ||
        PyStr.isBlank (buildTurnsDigest (turnsToFold cfg l.session))) = true
    · -- no turn to fold, or nothing in them to tell
      rw [if_pos h_none]
      exact ⟨fun _ => rfl, .inl rfl⟩
    · rw [if_neg h_none, if_neg h_none]
      by_cases h_empty : PyStr.strip (reply.getD "") = ""
      · -- an empty reply folds nothing
        rw [if_pos h_empty]
        exact ⟨fun _ => rfl, .inl rfl⟩
      · rw [if_neg h_empty]
        refine ⟨fun h => absurd h h_empty, .inr ⟨_, rfl, ?_⟩⟩
        exact foldedInto_foldSession (digest_within h_prompt _ _) _

/-! ### A tool result -/

/-- An agent that counts with a tool. -/
def countingEnv : Env .memory where
  registry := [("desk.count", {})]
  proxy := .scripted [{ toolCalls := [⟨"c1", "desk.count", []⟩] }, { content := some "Counted." }]
  toolBody _ _ _ _ state := (.ok "seven apples", state)

/-- A run of the agent. -/
def countedLive : Live .memory :=
  (execRun countingEnv false { userMessage := "count them", sessionId := some "s" }
    (.empty .memory)).live

theorem reachable_counted : Reachable "s" countedLive.session := by
  have h_start : (Store.empty .memory).find? "s" = none := rfl
  exact .working h_start .refl (.run (by decide +kernel)) .finished

/-- Summarizing when half of the window is full. -/
def halfFull : ContextSummaryConfig where
  summarizeOn := some (1 / 2)

/-- A prompt that asks for nothing but the turns. -/
def shortPrompt : String := "Summarize: " ++ turnsPlaceholder

/-- The prompt for the session. -/
def countedPrompt : String :=
  (summaryRequest halfFull shortPrompt countedLive.session).getD ""

/-- **A tool result is dropped**: its turn is folded, and the prompt does not have it. -/
theorem summarize_drops_result :
    ∃ (l : Live .memory) (summaryPrompt prompt : String), Reachable "s" l.session ∧
      summaryRequest halfFull summaryPrompt l.session = some prompt ∧
      ∃ t ∈ l.session.turns, t ∉ (summarize halfFull (some "They were counted.") l).session.turns ∧
        ∃ tc ∈ t.toolCalls, ¬PyStr.Within tc.rawResponse prompt := by
  refine ⟨countedLive, shortPrompt, countedPrompt, reachable_counted, ?_, ?_⟩
  · decide +kernel
  · decide +kernel

/-- What becomes of the same session: the texts were told, and the answer is the summary. -/
theorem summarize_accounts_counted :
    (summarize halfFull none countedLive).session = countedLive.session ∧
      FoldedInto halfFull countedPrompt "They were counted." countedLive.session
        (summarize halfFull (some "They were counted.") countedLive).session := by
  have h_prompt : PyStr.Within turnsPlaceholder (getSummaryPrompt shortPrompt) := by decide +kernel
  refine ⟨congrArg Live.session ((summarize_accounts halfFull h_prompt none countedLive).1 rfl), ?_⟩
  obtain h_same | ⟨prompt, h_request, h_folded⟩ :=
    (summarize_accounts halfFull h_prompt (some "They were counted.") countedLive).2
  · -- the session is folded, so this case is not it
    have h_gone : (summarize halfFull (some "They were counted.") countedLive).session.turns ≠
        countedLive.session.turns := by decide +kernel
    rw [h_same] at h_gone
    exact absurd rfl h_gone
  · have h_sent : summaryRequest halfFull shortPrompt countedLive.session = some countedPrompt := by
      decide +kernel
    obtain rfl := Option.some.inj (h_sent.symm.trans h_request)
    exact h_folded

end Nexus
