import NexusAgent.Session.Live
import NexusAgent.Llm.Response
import Mathlib.Data.List.Sort

/-!
# The server compactor

`nexus/rcs/compactor.py`: when the context exceeds a threshold, the oldest records
without a summary are summarized by a model, one call each.
-/

open Lib

namespace Nexus

/-- `ServerCompactorConfig`, the fields the compactor reads. -/
structure ServerCompactorConfig where
  enabled : Bool := false
  triggerTokenThreshold : ℕ := 10000
  compactOldestNTcs : ℕ := 2

/-- Where a record sits in a session: its turn and its place among the turn's records. -/
structure TcPosition where
  turn : ℕ
  call : ℕ
  record : ToolCallRecord

/-- The records without a summary with their positions, in session order. -/
def unsummarizedTcs (s : AgentSession) : List TcPosition :=
  (s.turns.zipIdx.flatMap fun (t, i) => t.toolCalls.zipIdx.map fun (tc, j) => ⟨i, j, tc⟩).filter
    fun p => p.record.summarizedResponse.isNone

/-- `ServerCompactor.should_trigger`. -/
def ServerCompactorConfig.shouldTrigger (cfg : ServerCompactorConfig) (s : AgentSession)
    (currentTokens : ℕ) : Bool :=
  cfg.enabled && cfg.triggerTokenThreshold ≤ currentTokens && !(unsummarizedTcs s).isEmpty

/-- The records one call of `compact` works on, oldest first. -/
def compactTargets (cfg : ServerCompactorConfig) (s : AgentSession) : List TcPosition :=
  ((unsummarizedTcs s).insertionSort fun p q => p.record.tcIndex ≤ q.record.tcIndex).take
    cfg.compactOldestNTcs

/-- Rewrite the record at a position. -/
def updateTcAt (i j : ℕ) (f : ToolCallRecord → ToolCallRecord) (s : AgentSession) :
    AgentSession :=
  { s with turns := s.turns.modify i fun t => { t with toolCalls := t.toolCalls.modify j f } }

/-- Store a summary for one target, and the tokens it saves. -/
def compactOne {a : StoreAdapter} (counter : TokenCounter) (turnIndex : ℕ) (p : TcPosition)
    (summary : String) (l : Live a) : Live a × ℕ :=
  let tokens := counter.countString summary defaultModel
  let saved := p.record.tokensRaw - tokens
  let l := l.mutate (updateTcAt p.turn p.call (.withSummary summary turnIndex))
  let l := l.updateTcSummary p.record.tcId summary turnIndex
  let l := l.mutate (updateTcAt p.turn p.call (.withSummaryTokens tokens))
  (l.mutate fun s => { s with totalTokensSavedByRcs := s.totalTokensSavedByRcs + saved }, saved)

/-- The loop of `compact` over its targets. `reply j` is the content the compacting
model answers the `j`-th target with, `none` a failed call. -/
def compactFrom {a : StoreAdapter} (counter : TokenCounter) (turnIndex : ℕ)
    (reply : ℕ → Option String) : ℕ → List TcPosition → Live a × ℕ → Live a × ℕ
  | _, [], acc => acc
  | j, p :: ps, acc =>
    let summary := PyStr.strip ((reply j).getD "")
    if summary = "" ∨ summary = "[]" then compactFrom counter turnIndex reply (j + 1) ps acc
    else
      let (l, saved) := compactOne counter turnIndex p summary acc.1
      compactFrom counter turnIndex reply (j + 1) ps (l, acc.2 + saved)

/-- `ServerCompactor.compact`, with the tokens it saved. -/
def compact {a : StoreAdapter} (cfg : ServerCompactorConfig) (counter : TokenCounter)
    (turnIndex : ℕ) (reply : ℕ → Option String) (l : Live a) : Live a × ℕ :=
  compactFrom counter turnIndex reply 0 (compactTargets cfg l.session) (l, 0)

end Nexus
