import NexusAgent.Llm.Response
import NexusAgent.Session.Live
import Mathlib.Data.List.Sort
import Mathlib.Data.Rat.Defs
import Mathlib.Algebra.Order.Ring.Rat

/-!
# The context summarizer

`nexus/context/summarizer.py`: when the context fills the window beyond a ratio, the
oldest turns not yet folded are given to a model, its answer is appended to the rolling
summary, and the turns are removed from the session. The fill ratio is taken exactly.
-/

open Lib

namespace Nexus

/-- `ContextSummaryConfig`, the fields the summarizer reads. -/
structure ContextSummaryConfig where
  summarizeOn : Option ℚ := none
  turnsToFold : ℕ := 2
  maxSummaryChars : ℕ := 4000

/-- `_foldable_turns`: turns not yet folded into the summary, oldest first. -/
def foldableTurns (s : AgentSession) : List TurnRecord :=
  (s.turns.filter fun t => s.summaryThroughTurn < (t.turnIndex : ℤ)).insertionSort
    fun t u => t.turnIndex ≤ u.turnIndex

/-- `ContextSummarizer.should_trigger`. -/
def ContextSummaryConfig.shouldTrigger (cfg : ContextSummaryConfig) (s : AgentSession)
    (currentTokens : ℕ) (contextWindowTokens : ℤ) : Bool :=
  match cfg.summarizeOn with
  | none => false
  | some ratio =>
    0 < contextWindowTokens && !((currentTokens : ℚ) / contextWindowTokens < ratio) &&
      !(foldableTurns s).isEmpty

/-- The lines a turn contributes to the digest. -/
def digestLines (t : TurnRecord) : List String :=
  ((truthy t.userMessage).map ("User: " ++ ·)).toList ++
    t.llmMessages.filterMap fun msg =>
      if msg.role = .assistant then (truthy msg.content).map ("Assistant: " ++ ·) else none

/-- `_build_turns_digest`. -/
def buildTurnsDigest (turns : List TurnRecord) : String :=
  PyStr.join "\n" (turns.flatMap digestLines)

/-- The turns one call of `summarize` folds. -/
def turnsToFold (cfg : ContextSummaryConfig) (s : AgentSession) : List TurnRecord :=
  (foldableTurns s).take cfg.turnsToFold

/-- The session after folding `fold` under the new summary part `newPart`. -/
def foldSession (cfg : ContextSummaryConfig) (fold : List TurnRecord) (newPart : String)
    (s : AgentSession) : AgentSession :=
  let merged :=
    if s.summaryText = "" then newPart else PyStr.rstrip s.summaryText ++ "\n\n" ++ newPart
  let folded := fold.map TurnRecord.turnIndex
  { s with
    summaryText := PyStr.takeFirst cfg.maxSummaryChars merged
    turns := s.turns.filter fun t => t.turnIndex ∉ folded
    summaryThroughTurn := max s.summaryThroughTurn (folded.foldl max 0 : ℕ) }

/-- `ContextSummarizer.summarize`. `reply` is the content the summarizing model answers
with, `none` a failed call. -/
def summarize {a : StoreAdapter} (cfg : ContextSummaryConfig) (reply : Option String)
    (l : Live a) : Live a :=
  match cfg.summarizeOn with
  | none => l
  | some _ =>
    let fold := turnsToFold cfg l.session
    if fold.isEmpty || PyStr.isBlank (buildTurnsDigest fold) then l
    else
      let newPart := PyStr.strip (reply.getD "")
      if newPart = "" then l
      else (l.mutate (foldSession cfg fold newPart)).saveSession

end Nexus
