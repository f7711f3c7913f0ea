import NexusAgent.Lib.Interleave
import NexusAgent.Runner.Assembly

/-!
# The order of tool-call deltas

A provider cuts the argument text of each call of a reply into deltas, in the flat or in the nested
shape, and sends the deltas of different calls in turns. `_merge_tool_call_delta` and
`_tool_calls_from_accumulated` make the same requests of them however they are cut and interleaved
(`accumulate_independent`).
-/

open Lib

namespace Nexus

/-- The calls are cut into deltas: those of an index carry the call with this index. -/
structure Cut (calls : List (ℕ × RawToolCall)) (cut : ℕ → List ToolCallDelta) : Prop where
  index : ∀ i, ∀ delta ∈ cut i, delta.index = i
  carries : ∀ p ∈ calls, Assembles (cut p.1) p.2
  none : ∀ i, i ∉ calls.map Prod.fst → cut i = []

/-- `_merge_tool_call_delta`, for one delta after the other. -/
def mergeDeltas (deltas : List ToolCallDelta) : Dict ℕ AccEntry :=
  deltas.foldl mergeToolCallDelta []

/-- The requests that calls with indices stand for, in the order of the calls; `none` is a
validation error. -/
def requestsOfCalls (limits : Json.Limits) (calls : List (ℕ × RawToolCall)) : Option (List ToolCallRequest) :=
  (calls.filterMap fun p => p.2.entry.request limits p.1).mapM id

variable {limits : Json.Limits} {calls : List (ℕ × RawToolCall)} {cut : ℕ → List ToolCallDelta}
  {deltas : List ToolCallDelta}

/-- Deltas that carry the calls are a cut of them. -/
theorem cut_filter (h : ∀ delta ∈ deltas, delta.index ∈ calls.map Prod.fst)
    (h_calls : ∀ p ∈ calls, Assembles (deltas.filter fun delta => delta.index = p.1) p.2) :
    Cut calls fun i => deltas.filter fun delta => delta.index = i where
  index i delta h_delta := by simpa using (List.mem_filter.mp h_delta).2
  carries := h_calls
  none i h_i := by
    rw [List.filter_eq_nil_iff]
    intro delta h_delta h_index
    have h_eq : delta.index = i := by simpa using h_index
    exact h_i (h_eq ▸ h delta h_delta)

/-- **What a stream of deltas stands for**: the calls, in the order of their indices. -/
theorem accumulate_eq (h_order : calls.Pairwise fun p q => p.1 < q.1) (h_cut : Cut calls cut)
    (h : Interleave cut deltas) :
    toolCallsFromAccumulated limits (mergeDeltas deltas) = requestsOfCalls limits calls := by
  -- one chunk with all the deltas
  set chunk : LLMStreamChunk := { toolCalls := deltas } with h_chunk
  have h_all : toolCallDeltas [chunk] = deltas := by simp [toolCallDeltas, h_chunk]
  have h_filter := h.filter h_cut.index
  have h_indices : (calls.map Prod.fst).Pairwise (· < ·) := by
    rw [List.pairwise_map]
    exact h_order
  have h_deltas : ∀ delta ∈ toolCallDeltas [chunk], delta.index ∈ calls.map Prod.fst := by
    intro delta h_delta
    rw [h_all] at h_delta
    obtain ⟨i, h_i⟩ := h.mem h_delta
    rw [h_cut.index i delta h_i]
    by_contra h_none
    rw [h_cut.none i h_none] at h_i
    cases h_i
  have h_calls : List.Forall₂ (fun i tc => Assembles (deltasAt [chunk] i) tc)
      (calls.map Prod.fst) (calls.map Prod.snd) := by
    rw [List.forall₂_map_left_iff, List.forall₂_map_right_iff, List.forall₂_same]
    intro p h_p
    rw [deltasAt, h_all, h_filter]
    exact h_cut.carries p h_p
  have h_requests := toolCallsFromAccumulated_eq limits h_indices h_deltas h_calls
  have h_zip : (calls.map Prod.fst).zip (calls.map Prod.snd) = calls := by
    rw [List.zip_map']
    exact List.map_id' calls
  rw [accumulated, h_all, streamedRequests, h_zip] at h_requests
  exact h_requests

/-- **The cut and the order of the deltas do not matter.** -/
theorem accumulate_independent (limits : Json.Limits) {calls : List (ℕ × RawToolCall)}
    (h_order : calls.Pairwise fun p q => p.1 < q.1)
    {cut cut' : ℕ → List ToolCallDelta} {deltas deltas' : List ToolCallDelta}
    (h_cut : Cut calls cut) (h : Interleave cut deltas)
    (h_cut' : Cut calls cut') (h' : Interleave cut' deltas') :
    toolCallsFromAccumulated limits (mergeDeltas deltas) =
        toolCallsFromAccumulated limits (mergeDeltas deltas') ∧
      toolCallsFromAccumulated limits (mergeDeltas deltas) = requestsOfCalls limits calls := by
  rw [accumulate_eq h_order h_cut' h']
  exact ⟨accumulate_eq h_order h_cut h, accumulate_eq h_order h_cut h⟩

/-- Two calls in flat deltas, one call after the other. -/
def flatDeltas : List ToolCallDelta :=
  [{ index := 0, id := some "c1", name := some "search", arguments := some "\x7b\"q\":" },
   { index := 0, arguments := some " 1\x7d" },
   { index := 2, id := some "c2", name := some "read", arguments := some "\x7b\x7d" }]

/-- The same calls in nested deltas that take turns. -/
def nestedDeltas : List ToolCallDelta :=
  [{ index := 2, id := some "c2", function := some { name := some "read" } },
   { index := 0, id := some "c1", function := some { name := some "search", arguments := some "\x7b" } },
   { index := 2, function := some { arguments := some "\x7b\x7d" } },
   { index := 0, function := some { arguments := some "\"q\": 1\x7d" } }]

/-- Two calls, with their deltas one after the other or one inside the other. -/
theorem accumulate_independent_turns :
    toolCallsFromAccumulated {} (mergeDeltas flatDeltas) =
        toolCallsFromAccumulated {} (mergeDeltas nestedDeltas) ∧
      toolCallsFromAccumulated {} (mergeDeltas flatDeltas) =
        some [⟨"c1", "search", [("q", .int 1)]⟩, ⟨"c2", "read", []⟩] := by
  -- either order cuts each call's texts
  have h_cut : ∀ deltas, deltas = flatDeltas ∨ deltas = nestedDeltas →
      Cut [(0, ⟨some "c1", some "search", some "\x7b\"q\": 1\x7d"⟩),
        (2, ⟨some "c2", some "read", some "\x7b\x7d"⟩)]
        fun i => deltas.filter fun delta => delta.index = i := by
    rintro deltas (rfl | rfl)
    · refine cut_filter (by decide) ?_
      rw [List.forall_mem_cons, List.forall_mem_singleton]
      exact ⟨⟨by decide, by decide, by decide⟩, ⟨by decide, by decide, by decide⟩⟩
    · refine cut_filter (by decide) ?_
      rw [List.forall_mem_cons, List.forall_mem_singleton]
      exact ⟨⟨by decide, by decide, by decide⟩, ⟨by decide, by decide, by decide⟩⟩
  have h_requests := accumulate_independent {} (by decide)
    (h_cut flatDeltas (.inl rfl)) (interleave_filter _ _)
    (h_cut nestedDeltas (.inr rfl)) (interleave_filter _ _)
  have h_calls : requestsOfCalls {} [(0, ⟨some "c1", some "search", some "\x7b\"q\": 1\x7d"⟩),
      (2, ⟨some "c2", some "read", some "\x7b\x7d"⟩)] =
        some [⟨"c1", "search", [("q", .int 1)]⟩, ⟨"c2", "read", []⟩] := by decide +kernel
  rwa [h_calls] at h_requests

end Nexus
