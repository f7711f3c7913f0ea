import NexusAgent.Context.Builder
import NexusAgent.Rcs.Savings

/-!
# Which records are compacted

The compactor (`nexus/rcs/compactor.py`) takes the records whose summary is `None`; the context
builder (`nexus/context/builder.py`) renders the raw response of a record without a *usable*
summary, and a blank summary or the legacy `"[]"` is none.

* `RendersRaw`: the builder renders the record's raw response, whatever it is.
* `EligibilityAgrees`: the compactor triggers on these records and selects these, oldest first.
* `eligibility_agrees_iff`: it does exactly for the sessions where every summary is usable.
-/

open Lib

namespace Nexus

/-- The builder renders the record with its raw response, whatever that is. -/
def RendersRaw (tc : ToolCallRecord) : Prop :=
  ∀ (cfg : BuilderConfig) (counter : TokenCounter) (raw : String),
    renderToolMessage cfg counter { tc with rawResponse := raw } false =
      (if cfg.rcsEnabled then tagPrefix cfg tc else "") ++ raw

/-- It does for want of a usable summary. -/
theorem rendersRaw_iff (tc : ToolCallRecord) : RendersRaw tc ↔ summaryText tc = "" := by
  have h_summary (raw : String) : summaryText { tc with rawResponse := raw } = summaryText tc := rfl
  constructor
  · intro h
    by_contra h_usable
    -- without RCS and signatures, an empty raw response would have to render as the summary
    have h_bare := h { includeSignature := false } ⟨fun _ _ => 0, fun _ => 0⟩ ""
    rw [renderToolMessage] at h_bare
    simp only [Bool.false_eq_true, if_false, h_summary, ne_eq, h_usable, not_false_eq_true, if_true,
      formatToolSignature] at h_bare
    exact h_usable h_bare
  · intro h cfg counter raw
    rw [renderToolMessage]
    simp only [Bool.false_eq_true, if_false, h_summary, h, ne_eq, not_true_eq_false]
    split
    · rfl
    · exact (String.empty_append).symm

instance (tc : ToolCallRecord) : Decidable (RendersRaw tc) :=
  decidable_of_iff (summaryText tc = "") (rendersRaw_iff tc).symm

/-- The oldest records of a list: the first `n` in the order of their indices. -/
def oldest (n : ℕ) (records : List TcPosition) : List TcPosition :=
  (records.insertionSort fun p q => p.record.tcIndex ≤ q.record.tcIndex).take n

theorem compactTargets_eq (cfg : ServerCompactorConfig) (s : AgentSession) :
    compactTargets cfg s = oldest cfg.compactOldestNTcs
      ((tcPositions s).filter fun pos => pos.record.summarizedResponse.isNone) := rfl

/-- The oldest records, if there are as many as there are records. -/
theorem mem_oldest_length {records : List TcPosition} {pos : TcPosition} :
    pos ∈ oldest records.length records ↔ pos ∈ records := by
  have h_perm := List.perm_insertionSort
    (fun p q : TcPosition => p.record.tcIndex ≤ q.record.tcIndex) records
  rw [oldest, ← h_perm.length_eq, List.take_length]
  exact h_perm.mem_iff

/-- The compactor takes the records that the builder renders raw: they are what it triggers on,
and the oldest of them are what it selects. -/
structure EligibilityAgrees (s : AgentSession) : Prop where
  triggers : ∀ (cfg : ServerCompactorConfig) (tokens : ℕ), cfg.shouldTrigger s tokens = true ↔
    cfg.enabled = true ∧ cfg.triggerTokenThreshold ≤ tokens ∧
      ∃ pos ∈ tcPositions s, RendersRaw pos.record
  targets : ∀ cfg : ServerCompactorConfig, compactTargets cfg s =
    oldest cfg.compactOldestNTcs ((tcPositions s).filter fun pos => RendersRaw pos.record)

/-- A summary of a record is usable: it is neither blank nor the legacy sentinel. -/
def UsableSummary (summary : String) : Prop :=
  PyStr.strip summary ≠ "" ∧ PyStr.strip summary ≠ "[]"

theorem rendersRaw_iff_of_some {tc : ToolCallRecord} {summary : String}
    (h : tc.summarizedResponse = some summary) : RendersRaw tc ↔ ¬UsableSummary summary := by
  rw [rendersRaw_iff, summaryText, h, Option.getD_some, UsableSummary]
  split <;> simp_all

theorem rendersRaw_of_none {tc : ToolCallRecord} (h : tc.summarizedResponse = none) :
    RendersRaw tc := by
  rw [rendersRaw_iff, summaryText, h]
  rfl

/-- **The compactor and the builder agree** on which records have no summary exactly for the
sessions in which every summary is usable. -/
theorem eligibility_agrees_iff (s : AgentSession) : EligibilityAgrees s ↔
    ∀ pos ∈ tcPositions s, ∀ summary, pos.record.summarizedResponse = some summary →
      UsableSummary summary := by
  constructor
  · intro h pos h_pos summary h_some
    by_contra h_unusable
    have h_raw : RendersRaw pos.record := (rendersRaw_iff_of_some h_some).mpr h_unusable
    let raws := (tcPositions s).filter fun pos => RendersRaw pos.record
    -- a compactor that takes as many records as render raw takes this one
    have h_oldest : pos ∈ oldest raws.length raws :=
      mem_oldest_length.mpr (List.mem_filter.mpr ⟨h_pos, decide_eq_true h_raw⟩)
    have h_target : pos ∈ compactTargets { compactOldestNTcs := raws.length } s := by
      rw [h.targets]
      exact h_oldest
    have h_none := (List.mem_filter.mp ((List.perm_insertionSort _ _).mem_iff.mp
      (List.mem_of_mem_take h_target))).2
    rw [h_some] at h_none
    cases h_none
  · intro h_usable
    have h_same : (tcPositions s).filter (fun pos => pos.record.summarizedResponse.isNone) =
        (tcPositions s).filter fun pos => RendersRaw pos.record := by
      refine List.filter_congr fun pos h_pos => ?_
      cases h_summary : pos.record.summarizedResponse with
      | none => simpa using rendersRaw_of_none h_summary
      | some summary =>
        have h_not := (rendersRaw_iff_of_some h_summary).not.mpr
          (not_not.mpr (h_usable pos h_pos summary h_summary))
        simpa using h_not
    refine ⟨fun cfg tokens => ?_, fun cfg => by rw [compactTargets_eq, h_same]⟩
    rw [ServerCompactorConfig.shouldTrigger, unsummarizedTcs_eq, h_same]
    simp [List.filter_eq_nil_iff, and_assoc]

/-- A session stored by an older version, with a record marked as dropped. -/
def legacySession : AgentSession where
  sessionId := "s"
  agentId := "desk"
  turns := [⟨0, some "hi", [], none, [⟨"TC1", 1, "find", "c1", [], "data", some "[]", none, 4, none⟩],
    [], 0, 0, 0, 0, .completed⟩]

/-- **A record that renders raw is never compacted.** -/
theorem legacy_not_eligible : ¬∀ s : AgentSession, EligibilityAgrees s := by
  intro h
  have h_triggers := (h legacySession).triggers { enabled := true } 10000
  exact absurd h_triggers (by decide +kernel)

end Nexus
