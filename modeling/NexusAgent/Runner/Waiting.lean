import NexusAgent.Runner.History

/-!
# What a session is waiting for

A paused session lists the interactions it waits for, and the records of the calls that were
deferred have no result yet. `gated` says which tools are deferred: client tools,
elicitations and tools that need approval.

* `PendingsMatch`: the listed interactions are the records of the last turn without a result.
* `Waits`: the invariant behind it, with at most one such record; `Settled`: nothing is
  waited for.
* What closing, resuming, folding and a new turn make of them.
-/

open Lib

namespace Nexus

variable (gated : String → Bool)

/-- The record of a deferred call that has no result yet. -/
def ToolCallRecord.waiting (tc : ToolCallRecord) : Bool := gated tc.toolName && tc.rawResponse = ""

/-- The records of a turn that wait for a result. -/
def TurnRecord.waiting (t : TurnRecord) : List ToolCallRecord :=
  t.toolCalls.filter (ToolCallRecord.waiting gated)

/-- The records of the last turn that wait for a result. -/
def AgentSession.waiting (s : AgentSession) : List ToolCallRecord :=
  (s.turns.getLast?.map (TurnRecord.waiting gated)).getD []

/-- The ids a record is found by. -/
def ToolCallRecord.ids (tc : ToolCallRecord) : String × String := (tc.tcId, tc.callId)

/-- The ids of the record an interaction is for. -/
def PendingInteraction.ids (p : PendingInteraction) : String × String := (p.tcId, p.callId)

/-- The pending interactions, but for at most one request to the human in the loop, are the
records of the last turn that wait for a result; no record of an earlier turn does. -/
structure AgentSession.PendingsMatch (s : AgentSession) : Prop where
  entries : (s.pendingInteractions.filter (· ≠ hitlRequest)).map PendingInteraction.ids =
    (s.waiting gated).map ToolCallRecord.ids
  human : s.pendingInteractions.count hitlRequest ≤ 1
  earlier : ∀ t ∈ s.turns.dropLast, t.waiting gated = []

instance (s : AgentSession) : Decidable (s.PendingsMatch gated) :=
  decidable_of_iff
    ((s.pendingInteractions.filter (· ≠ hitlRequest)).map PendingInteraction.ids =
        (s.waiting gated).map ToolCallRecord.ids ∧
      s.pendingInteractions.count hitlRequest ≤ 1 ∧
      ∀ t ∈ s.turns.dropLast, t.waiting gated = [])
    ⟨fun ⟨h_entries, h_human, h_earlier⟩ => ⟨h_entries, h_human, h_earlier⟩,
      fun h => ⟨h.entries, h.human, h.earlier⟩⟩

/-- The interactions match, there is at most one record to wait for, and its id is its own. -/
structure AgentSession.Waits (s : AgentSession) : Prop extends s.PendingsMatch gated where
  single : (s.waiting gated).length ≤ 1
  distinct : s.waiting gated ≠ [] →
    ∀ t ∈ s.turns.getLast?, (t.toolCalls.map ToolCallRecord.tcId).Nodup

/-- Nothing is waited for. -/
structure AgentSession.Settled (s : AgentSession) : Prop where
  pending : s.pendingInteractions = []
  turns : ∀ t ∈ s.turns, t.waiting gated = []

variable {gated} {s s' : AgentSession}

/-! ### Reading them -/

theorem AgentSession.waiting_of_last {t : TurnRecord} (h : s.turns.getLast? = some t) :
    s.waiting gated = t.waiting gated := by
  simp [waiting, h]

/-- A turn with a record that waits is the last. -/
theorem AgentSession.last_of_waiting (h_earlier : ∀ t ∈ s.turns.dropLast, t.waiting gated = [])
    {t : TurnRecord} (h_t : t ∈ s.turns) (h_waits : t.waiting gated ≠ []) :
    s.turns.getLast? = some t := by
  cases h_turns : s.turns.getLast? with
  | none =>
    rw [List.getLast?_eq_none_iff.mp h_turns] at h_t
    cases h_t
  | some last =>
    rw [← List.dropLast_append_getLast? last h_turns] at h_t
    rcases List.mem_append.mp h_t with h_t | h_t
    · exact absurd (h_earlier t h_t) h_waits
    · rw [List.mem_singleton.mp h_t]

/-- If nothing is waited for in the last turn, nothing is. -/
theorem AgentSession.waiting_eq_nil (h_last : s.waiting gated = [])
    (h_earlier : ∀ t ∈ s.turns.dropLast, t.waiting gated = []) :
    ∀ t ∈ s.turns, t.waiting gated = [] := by
  intro t h_t
  by_contra h_waits
  exact h_waits (waiting_of_last (last_of_waiting h_earlier h_t h_waits) ▸ h_last)

/-- In a settled session nothing is waiting. -/
theorem AgentSession.Settled.waiting (h : s.Settled gated) : s.waiting gated = [] := by
  cases h_turns : s.turns.getLast? with
  | none => simp [AgentSession.waiting, h_turns]
  | some t =>
    rw [waiting_of_last h_turns]
    exact h.turns t (List.mem_of_getLast? h_turns)

/-- A settled session waits for nothing. -/
theorem AgentSession.Settled.waits (h : s.Settled gated) : s.Waits gated where
  entries := by
    rw [h.pending, h.waiting]
    rfl
  human := by simp [h.pending]
  earlier t h_t := h.turns t (List.mem_of_mem_dropLast h_t)
  single := by simp [h.waiting]
  distinct h_some := absurd h.waiting h_some

/-- Without pending interactions no record waits. -/
theorem AgentSession.Waits.settled (h : s.Waits gated) (h_none : s.pendingInteractions = []) :
    s.Settled gated where
  pending := h_none
  turns := by
    refine waiting_eq_nil ?_ h.earlier
    have h_entries := h.entries
    rw [h_none] at h_entries
    exact List.map_eq_nil_iff.mp h_entries.symm

/-! ### What they do not see -/

/-- What is waiting can be read off the bare turn. -/
theorem TurnRecord.waiting_bare (t : TurnRecord) :
    t.bare.waiting gated = (t.waiting gated).map ToolCallRecord.bare := by
  unfold waiting bare
  rw [List.filter_map]
  rfl

/-- What is waiting can be read off the dialogue. -/
theorem AgentSession.waiting_dialogue (s : AgentSession) :
    s.dialogue.waiting gated = (s.waiting gated).map ToolCallRecord.bare := by
  show (((s.turns.map TurnRecord.bare).getLast?).map _).getD [] = _
  unfold waiting
  rw [List.getLast?_map]
  cases s.turns.getLast? with
  | none => rfl
  | some t => exact t.waiting_bare

/-- Summaries, counters and the state bag do not matter. -/
theorem AgentSession.settled_dialogue (s : AgentSession) :
    s.dialogue.Settled gated ↔ s.Settled gated := by
  have h_turns : (∀ t ∈ s.dialogue.turns, t.waiting gated = []) ↔
      ∀ t ∈ s.turns, t.waiting gated = [] := by
    show (∀ t ∈ s.turns.map TurnRecord.bare, _) ↔ _
    simp [TurnRecord.waiting_bare]
  exact ⟨fun h => ⟨h.pending, h_turns.mp h.turns⟩, fun h => ⟨h.pending, h_turns.mpr h.turns⟩⟩

theorem AgentSession.waits_dialogue (s : AgentSession) :
    s.dialogue.Waits gated ↔ s.Waits gated := by
  -- the dialogue forgets results and arguments, never the ids that `Waits` is about
  have h_ids : (s.dialogue.waiting gated).map ToolCallRecord.ids =
      (s.waiting gated).map ToolCallRecord.ids := by
    rw [waiting_dialogue, List.map_map]
    rfl
  have h_earlier : (∀ t ∈ s.dialogue.turns.dropLast, t.waiting gated = []) ↔
      ∀ t ∈ s.turns.dropLast, t.waiting gated = [] := by
    show (∀ t ∈ (s.turns.map TurnRecord.bare).dropLast, _) ↔ _
    rw [← List.map_dropLast]
    simp only [List.forall_mem_map, TurnRecord.waiting_bare, List.map_eq_nil_iff]
  have h_length : (s.dialogue.waiting gated).length = (s.waiting gated).length := by
    rw [waiting_dialogue, List.length_map]
  have h_distinct : (∀ t ∈ s.dialogue.turns.getLast?, (t.toolCalls.map ToolCallRecord.tcId).Nodup) ↔
      ∀ t ∈ s.turns.getLast?, (t.toolCalls.map ToolCallRecord.tcId).Nodup := by
    show (∀ t ∈ (s.turns.map TurnRecord.bare).getLast?, _) ↔ _
    rw [List.getLast?_map]
    cases s.turns.getLast? with
    | none => simp
    | some t => simp [TurnRecord.bare, ToolCallRecord.bare, Function.comp_def]
  have h_some : s.dialogue.waiting gated ≠ [] ↔ s.waiting gated ≠ [] := by
    rw [waiting_dialogue, ne_eq, List.map_eq_nil_iff]
  constructor
  · intro h
    exact
      { entries := h.entries.trans h_ids
        human := h.human
        earlier := h_earlier.mp h.earlier
        single := h_length ▸ h.single
        distinct := fun h_w => h_distinct.mp (h.distinct (h_some.mpr h_w)) }
  · intro h
    exact
      { entries := h.entries.trans h_ids.symm
        human := h.human
        earlier := h_earlier.mpr h.earlier
        single := h_length ▸ h.single
        distinct := fun h_w => h_distinct.mpr (h.distinct (h_some.mp h_w)) }

theorem AgentSession.Settled.of_dialogue (h : s.Settled gated) (h_eq : s'.dialogue = s.dialogue) :
    s'.Settled gated := by
  rw [← settled_dialogue, h_eq, settled_dialogue]
  exact h

theorem AgentSession.Waits.of_dialogue (h : s.Waits gated) (h_eq : s'.dialogue = s.dialogue) :
    s'.Waits gated := by
  rw [← waits_dialogue, h_eq, waits_dialogue]
  exact h

/-! ### A settled session -/

namespace AgentSession

/-- Folding takes turns away. -/
theorem Settled.fold (h : s.Settled gated) (cfg : ContextSummaryConfig) (fold : List TurnRecord)
    (newPart : String) : (foldSession cfg fold newPart s).Settled gated where
  pending := h.pending
  turns t h_t := h.turns t (List.mem_of_mem_filter h_t)

/-- A turn that waits for nothing. -/
theorem Settled.addTurn (h : s.Settled gated) {turn : TurnRecord}
    (h_turn : turn.waiting gated = []) : (s.addTurn turn).Settled gated where
  pending := h.pending
  turns t h_t := by
    rcases List.mem_append.mp h_t with h_t | h_t
    · exact h.turns t h_t
    · obtain rfl := List.mem_singleton.mp h_t
      exact h_turn

/-- A request to the human in the loop. -/
theorem Settled.askHuman (h : s.Settled gated) : (s.addPending hitlRequest).Waits gated := by
  have h_waits := h.waits
  have h_pending : (s.addPending hitlRequest).pendingInteractions = [hitlRequest] := by
    simp [addPending, h.pending]
  exact
    { entries := by
        rw [h_pending]
        show _ = (s.waiting gated).map _
        rw [h.waiting]
        simp
      human := by simp [h_pending]
      earlier := h_waits.earlier
      single := h_waits.single
      distinct := h_waits.distinct }

/-- A turn that waits for one call, with the interaction for it. -/
theorem Settled.pause (h : s.Settled gated) {turn : TurnRecord} {tc : ToolCallRecord}
    {p : PendingInteraction} (h_turn : turn.waiting gated = [tc]) (h_ids : p.ids = tc.ids)
    (h_human : p ≠ hitlRequest) (h_distinct : (turn.toolCalls.map ToolCallRecord.tcId).Nodup)
    (h_turns : s'.turns = s.turns ++ [turn]) (h_pending : s'.pendingInteractions = [p]) :
    s'.Waits gated := by
  have h_last : s'.turns.getLast? = some turn := by simp [h_turns]
  have h_waiting : s'.waiting gated = [tc] := (waiting_of_last h_last).trans h_turn
  exact
    { entries := by simp [h_pending, h_waiting, h_human, h_ids]
      human := by simp [h_pending, h_human]
      earlier := by
        rw [h_turns, List.dropLast_concat]
        exact h.turns
      single := by simp [h_waiting]
      distinct := by
        rw [h_last]
        intro _ t h_t
        obtain rfl := Option.some.inj h_t
        exact h_distinct }

/-! ### Closing and resuming -/

/-- A result for a record that waits. -/
theorem fillRawResponse_waiting {content : String} (h : content ≠ "") (tc : ToolCallRecord) :
    (fillRawResponse content tc).waiting gated = false := by
  unfold fillRawResponse ToolCallRecord.waiting
  split_ifs with h_raw
  · simp [h]
  · simp [h_raw]

/-- A record that waits is one of the last turn, and there is an interaction for it. -/
theorem PendingsMatch.interaction (h : s.PendingsMatch gated) {t : TurnRecord} (h_t : t ∈ s.turns)
    {tc : ToolCallRecord} (h_tc : tc ∈ t.toolCalls) (h_waits : tc.waiting gated = true) :
    s.turns.getLast? = some t ∧ tc ∈ s.waiting gated ∧
      ∃ p ∈ s.pendingInteractions, p ≠ hitlRequest ∧ p.ids = tc.ids := by
  have h_mem : tc ∈ t.waiting gated := List.mem_filter.mpr ⟨h_tc, h_waits⟩
  have h_last := last_of_waiting h.earlier h_t (List.ne_nil_of_mem h_mem)
  rw [← waiting_of_last h_last] at h_mem
  have h_ids := List.mem_map_of_mem (f := ToolCallRecord.ids) h_mem
  rw [← h.entries] at h_ids
  obtain ⟨p, h_p, h_eq⟩ := List.mem_map.mp h_ids
  obtain ⟨h_p, h_human⟩ := List.mem_filter.mp h_p
  exact ⟨h_last, h_mem, p, h_p, by simpa using h_human, h_eq⟩

/-- **A user message supersedes what the session waits for.** -/
theorem Waits.close (h : s.Waits gated) : (closePendingInteractions s).Settled gated where
  pending := rfl
  turns := by
    intro t' h_t'
    obtain ⟨t, h_t, rfl⟩ := List.mem_map.mp h_t'
    refine List.filter_eq_nil_iff.mpr fun tc' h_tc' => ?_
    obtain ⟨tc, h_tc, rfl⟩ := List.mem_map.mp h_tc'
    split_ifs with h_open
    · rw [fillRawResponse_waiting (by decide)]
      exact Bool.false_ne_true
    · intro h_waits
      obtain ⟨-, -, p, h_p, -, h_ids⟩ := h.toPendingsMatch.interaction h_t h_tc h_waits
      exact h_open (List.mem_map.mpr ⟨p, h_p, (Prod.mk.inj h_ids).1⟩)

/-! ### Resuming -/

/-- What a resume does to one turn for one interaction. -/
def fillTurn (results : List ResumeItem) (t : TurnRecord) (p : PendingInteraction) : TurnRecord :=
  let waiting (tc : ToolCallRecord) : Bool := tc.tcId = p.tcId && tc.rawResponse = ""
  { t with toolCalls := updateFirst waiting (fillRawResponse (resumeContent results p)) t.toolCalls }

/-- A resume goes turn by turn. -/
theorem foldl_fillPending (results : List ResumeItem) (pendings : List PendingInteraction)
    (turns : List TurnRecord) :
    pendings.foldl (fillPending results) turns =
      turns.map fun t => pendings.foldl (fillTurn results) t := by
  induction pendings generalizing turns with
  | nil => simp
  | cons p pendings ih =>
    rw [List.foldl_cons, ih]
    show (turns.map fun t => fillTurn results t p).map _ = _
    rw [List.map_map]
    rfl

/-- A record that waits after a result was filled in waited before. -/
theorem filter_updateFirst_sublist (q : ToolCallRecord → Bool) (content : String)
    (tcs : List ToolCallRecord) :
    ((updateFirst q (fillRawResponse content) tcs).filter (ToolCallRecord.waiting gated)).Sublist
      (tcs.filter (ToolCallRecord.waiting gated)) := by
  induction tcs with
  | nil => exact List.Sublist.refl _
  | cons tc tcs ih =>
    unfold updateFirst
    split_ifs with h_q
    · by_cases h_content : content = ""
      · have h_same : fillRawResponse content tc = tc := by
          unfold fillRawResponse
          split_ifs with h_raw
          · rw [h_content, ← h_raw]
          · rfl
        rw [h_same]
      · rw [List.filter_cons_of_neg (by simp [fillRawResponse_waiting h_content])]
        exact (List.sublist_cons_self tc tcs).filter _
    · rw [List.filter_cons, List.filter_cons]
      split_ifs
      · exact ih.cons_cons tc
      · exact ih

theorem fillTurn_sublist (results : List ResumeItem) (t : TurnRecord) (p : PendingInteraction) :
    ((fillTurn results t p).waiting gated).Sublist (t.waiting gated) :=
  filter_updateFirst_sublist _ _ _

/-- A turn that waits for nothing goes on waiting for nothing. -/
theorem waiting_foldl_fillTurn (results : List ResumeItem) {t : TurnRecord}
    (h : t.waiting gated = []) (pendings : List PendingInteraction) :
    (pendings.foldl (fillTurn results) t).waiting gated = [] := by
  induction pendings generalizing t with
  | nil => exact h
  | cons p pendings ih =>
    refine ih (List.eq_nil_of_sublist_nil ?_)
    rw [← h]
    exact fillTurn_sublist results t p

/-- Filling in a response keeps the ids. -/
theorem tcIds_updateFirst (q : ToolCallRecord → Bool) (content : String)
    (tcs : List ToolCallRecord) :
    (updateFirst q (fillRawResponse content) tcs).map ToolCallRecord.tcId =
      tcs.map ToolCallRecord.tcId := by
  have h_fill : ∀ tc : ToolCallRecord, (fillRawResponse content tc).tcId = tc.tcId := by
    intro tc
    unfold fillRawResponse
    split_ifs <;> rfl
  induction tcs with
  | nil => rfl
  | cons tc tcs ih =>
    unfold updateFirst
    split_ifs
    · rw [List.map_cons, List.map_cons, h_fill]
    · rw [List.map_cons, List.map_cons, ih]

/-- The result for the only record that waits. -/
theorem waiting_fillTurn {results : List ResumeItem} {t : TurnRecord} {p : PendingInteraction}
    (h_distinct : (t.toolCalls.map ToolCallRecord.tcId).Nodup)
    (h_only : ∀ tc ∈ t.waiting gated, tc.tcId = p.tcId) (h_content : resumeContent results p ≠ "") :
    (fillTurn results t p).waiting gated = [] := by
  have h_tcs : ∀ tcs : List ToolCallRecord, (tcs.map ToolCallRecord.tcId).Nodup →
      (∀ tc ∈ tcs, tc.waiting gated = true → tc.tcId = p.tcId) →
      (updateFirst (fun tc => tc.tcId = p.tcId && tc.rawResponse = "")
        (fillRawResponse (resumeContent results p)) tcs).filter (ToolCallRecord.waiting gated) = [] := by
    intro tcs h_nodup h_ids
    induction tcs with
    | nil => rfl
    | cons tc tcs ih =>
      rw [List.map_cons, List.nodup_cons] at h_nodup
      rw [List.forall_mem_cons] at h_ids
      unfold updateFirst
      split_ifs with h_q
      · -- this is the one; no other record with its id waits
        rw [List.filter_cons_of_neg (by simp [fillRawResponse_waiting h_content])]
        refine List.filter_eq_nil_iff.mpr fun other h_other h_waits => h_nodup.1 ?_
        have h_tc : tc.tcId = p.tcId := by
          rw [Bool.and_eq_true] at h_q
          exact of_decide_eq_true h_q.1
        rw [h_tc, ← h_ids.2 other h_other h_waits]
        exact List.mem_map_of_mem h_other
      · have h_not : tc.waiting gated = false := by
          rw [Bool.eq_false_iff]
          intro h_waits
          refine h_q ?_
          have h_raw : tc.rawResponse = "" := by
            unfold ToolCallRecord.waiting at h_waits
            rw [Bool.and_eq_true] at h_waits
            exact of_decide_eq_true h_waits.2
          simp [h_ids.1 h_waits, h_raw]
        rw [List.filter_cons_of_neg (by simp [h_not])]
        exact ih h_nodup.2 h_ids.2
  exact h_tcs t.toolCalls h_distinct fun tc h_tc h_waits =>
    h_only tc (List.mem_filter.mpr ⟨h_tc, h_waits⟩)

/-- All results of a resume, if one of them is for the only record that waits. -/
theorem waiting_resumed {results : List ResumeItem} {pendings : List PendingInteraction}
    {p : PendingInteraction} (h_p : p ∈ pendings) (h_content : resumeContent results p ≠ "")
    {t : TurnRecord} (h_distinct : (t.toolCalls.map ToolCallRecord.tcId).Nodup)
    (h_only : ∀ tc ∈ t.waiting gated, tc.tcId = p.tcId) :
    (pendings.foldl (fillTurn results) t).waiting gated = [] := by
  induction pendings generalizing t with
  | nil => cases h_p
  | cons q pendings ih =>
    rcases List.mem_cons.mp h_p with rfl | h_p
    · exact waiting_foldl_fillTurn results (waiting_fillTurn h_distinct h_only h_content) pendings
    · refine ih h_p ?_ fun tc h_tc => h_only tc ((fillTurn_sublist results t q).subset h_tc)
      show ((updateFirst _ _ t.toolCalls).map ToolCallRecord.tcId).Nodup
      rw [tcIds_updateFirst]
      exact h_distinct

/-- **A resume with a result for what the session waits for.** -/
theorem Waits.resume (h : s.Waits gated) {results : List ResumeItem}
    (h_answers : ∀ p ∈ s.pendingInteractions, p ≠ hitlRequest → resumeContent results p ≠ "") :
    (resumeSession results s).Settled gated where
  pending := rfl
  turns := by
    intro t' h_t'
    have h_turns : (resumeSession results s).turns =
        s.turns.map fun t => s.pendingInteractions.foldl (fillTurn results) t :=
      foldl_fillPending results s.pendingInteractions s.turns
    rw [h_turns] at h_t'
    obtain ⟨t, h_t, rfl⟩ := List.mem_map.mp h_t'
    by_cases h_none : t.waiting gated = []
    · exact waiting_foldl_fillTurn results h_none _
    · -- the last turn, with its one record that waits
      obtain ⟨tc, h_tc⟩ := List.exists_mem_of_ne_nil _ h_none
      obtain ⟨h_mem, h_waits⟩ := List.mem_filter.mp h_tc
      obtain ⟨h_last, -, p, h_p, h_human, h_ids⟩ := h.toPendingsMatch.interaction h_t h_mem h_waits
      have h_waiting : s.waiting gated = t.waiting gated := waiting_of_last h_last
      refine waiting_resumed h_p (h_answers p h_p h_human)
        (h.distinct (h_waiting ▸ h_none) t h_last) fun other h_other => ?_
      have h_single := h.single
      rw [h_waiting] at h_single
      have h_eq : other = tc := by
        obtain ⟨i, hi, rfl⟩ := List.mem_iff_getElem.mp h_other
        obtain ⟨j, hj, rfl⟩ := List.mem_iff_getElem.mp h_tc
        congr 1
        omega
      rw [h_eq]
      exact (Prod.mk.inj h_ids).1.symm

end AgentSession

end Nexus
