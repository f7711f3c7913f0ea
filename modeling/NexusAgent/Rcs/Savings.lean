import NexusAgent.Lib.Drops
import NexusAgent.Rcs.Compactor
import NexusAgent.Tools.Interceptor

/-!
# What a record saves

`nexus/tools/interceptor.py` and `nexus/rcs/compactor.py` credit the session with the tokens a
new summary saves. The interceptor credits the marginal saving, against the summary before, and
never takes a credit back: a record that is summarised longer and then shorter is credited for
the way down twice.

* `RcsCall.credits`: what one call of either credits, record by record.
* `CreditedTo`: the credits of one record along any sequence of calls.
* `CreditedTo.ledger`: they are the falls of the record's token count.
* `savings_bounded_iff`: they are bounded by the best saving exactly when no summary gets
  shorter again after one got longer.
-/

open Lib Levels

namespace Nexus

/-! ### The places of records -/

/-- The place of a record: its turn, and its place among the turn's records. -/
abbrev Place : Type := ℕ × ℕ

/-- The record at a place. -/
def recordAt (turns : List TurnRecord) (p : Place) : Option ToolCallRecord :=
  turns[p.1]?.bind fun t => t.toolCalls[p.2]?

/-- The place of the first record that satisfies `q`. -/
def firstPlace (q : ToolCallRecord → Bool) : List TurnRecord → Option Place
  | [] => none
  | t :: ts =>
    if t.toolCalls.any q then some (0, t.toolCalls.findIdx q)
    else (firstPlace q ts).map fun p => (p.1 + 1, p.2)

section Places

variable {q : ToolCallRecord → Bool} {f : ToolCallRecord → ToolCallRecord}

@[simp] theorem recordAt_zero (t : TurnRecord) (ts : List TurnRecord) (j : ℕ) :
    recordAt (t :: ts) (0, j) = t.toolCalls[j]? := rfl

@[simp] theorem recordAt_succ (t : TurnRecord) (ts : List TurnRecord) (i j : ℕ) :
    recordAt (t :: ts) (i + 1, j) = recordAt ts (i, j) := rfl

/-- Only the first record that satisfies the predicate is updated. -/
theorem getElem?_updateFirst (q : ToolCallRecord → Bool) (f : ToolCallRecord → ToolCallRecord)
    (tcs : List ToolCallRecord) (j : ℕ) :
    (updateFirst q f tcs)[j]? = if j = tcs.findIdx q then tcs[j]?.map f else tcs[j]? := by
  induction tcs generalizing j with
  | nil => simp [updateFirst]
  | cons tc tcs ih =>
    unfold updateFirst
    cases h_q : q tc with
    | true => cases j <;> simp [List.findIdx_cons, h_q]
    | false => cases j <;> simp [List.findIdx_cons, h_q, ih]

/-- **Updating the first record** changes the record at its place only. -/
theorem recordAt_updateFirstTc (q : ToolCallRecord → Bool) (f : ToolCallRecord → ToolCallRecord)
    (turns : List TurnRecord) (p : Place) :
    recordAt (updateFirstTc q f turns) p =
      if firstPlace q turns = some p then (recordAt turns p).map f else recordAt turns p := by
  obtain ⟨i, j⟩ := p
  induction turns generalizing i with
  | nil => rfl
  | cons t ts ih =>
    unfold updateFirstTc firstPlace
    cases h_any : t.toolCalls.any q with
    | true =>
      cases i with
      -- the first record that matches is in this turn, at its first place there
      | zero =>
        have h_place : (some (0, t.toolCalls.findIdx q) = some (0, j)) ↔
            j = t.toolCalls.findIdx q := by
          simp [eq_comm]
        simp only [if_true, recordAt_zero, getElem?_updateFirst, h_place]
      | succ i => simp
    | false =>
      simp only [Bool.false_eq_true, if_false]
      cases i with
      | zero => simp
      | succ i =>
        simp only [recordAt_succ, ih, Option.map_eq_some_iff, Prod.mk.injEq]
        refine if_congr ⟨fun h => ⟨_, h, rfl, rfl⟩, ?_⟩ rfl rfl
        rintro ⟨p, h_p, h_i, rfl⟩
        rw [h_p, ← Nat.succ.inj h_i]

/-- The place stays, if the update does not decide which record is the first. -/
theorem firstPlace_updateFirstTc (h_q : ∀ tc, q (f tc) = q tc) (turns : List TurnRecord) :
    firstPlace q (updateFirstTc q f turns) = firstPlace q turns := by
  -- the predicate does not see the update, so the same record stays the first
  have h_any (tcs : List ToolCallRecord) : (updateFirst q f tcs).any q = tcs.any q := by
    induction tcs with
    | nil => rfl
    | cons tc tcs ih =>
      unfold updateFirst
      split <;> simp_all
  have h_idx (tcs : List ToolCallRecord) : (updateFirst q f tcs).findIdx q = tcs.findIdx q := by
    induction tcs with
    | nil => rfl
    | cons tc tcs ih =>
      unfold updateFirst
      split <;> simp_all [List.findIdx_cons]
  induction turns with
  | nil => rfl
  | cons t ts ih =>
    unfold updateFirstTc
    cases h_t : t.toolCalls.any q with
    | true => simp [firstPlace, h_any, h_idx, h_t]
    | false => simp [firstPlace, h_t, ih]

/-- The record found first is the one at its place. -/
theorem firstPlace_of_find? {turns : List TurnRecord} {tc : ToolCallRecord}
    (h : (turns.flatMap TurnRecord.toolCalls).find? q = some tc) :
    ∃ p, firstPlace q turns = some p ∧ recordAt turns p = some tc := by
  induction turns with
  | nil => cases h
  | cons t ts ih =>
    rw [List.flatMap_cons, List.find?_append] at h
    unfold firstPlace
    cases h_t : t.toolCalls.find? q with
    | some found =>
      rw [h_t, Option.some_or, Option.some.injEq] at h
      subst h
      have h_any : t.toolCalls.any q = true :=
        List.any_eq_true.mpr ⟨_, List.mem_of_find?_eq_some h_t, List.find?_some h_t⟩
      rw [if_pos h_any]
      exact ⟨_, rfl, by rw [recordAt_zero, ← List.find?_eq_getElem?_findIdx, h_t]⟩
    | none =>
      rw [h_t, Option.none_or] at h
      -- nothing in this turn: the place is one turn further on
      have h_any : t.toolCalls.any q = false := by
        simpa [List.any_eq_false] using h_t
      obtain ⟨p, h_p, h_at⟩ := ih h
      rw [h_any, h_p]
      exact ⟨(p.1 + 1, p.2), rfl, h_at⟩

/-- The record at an updated position is the updated one, every other as before. -/
theorem recordAt_updateTcAt (i j : ℕ) (f : ToolCallRecord → ToolCallRecord) (s : AgentSession)
    (p : Place) :
    recordAt (updateTcAt i j f s).turns p =
      if (i, j) = p then (recordAt s.turns p).map f else recordAt s.turns p := by
  obtain ⟨i', j'⟩ := p
  simp only [recordAt, updateTcAt, List.getElem?_modify, Prod.mk.injEq]
  by_cases h_i : i = i'
  · subst h_i
    by_cases h_j : j = j'
    · subst h_j
      cases s.turns[i]? <;> simp
    · cases s.turns[i]? <;> simp [h_j]
  · simp [h_i]

end Places

/-- The place of a position. -/
def TcPosition.place (pos : TcPosition) : Place := (pos.turn, pos.call)

/-- All records of a session, with their positions. -/
def tcPositions (s : AgentSession) : List TcPosition :=
  s.turns.zipIdx.flatMap fun (t, i) => t.toolCalls.zipIdx.map fun (tc, j) => ⟨i, j, tc⟩

theorem unsummarizedTcs_eq (s : AgentSession) : unsummarizedTcs s =
    (tcPositions s).filter fun pos => pos.record.summarizedResponse.isNone := rfl

/-- A position is listed with the record that lies there. -/
theorem mem_tcPositions {s : AgentSession} {pos : TcPosition} :
    pos ∈ tcPositions s ↔ recordAt s.turns pos.place = some pos.record := by
  obtain ⟨i, j, tc⟩ := pos
  rw [recordAt, Option.bind_eq_some_iff]
  simp only [tcPositions, TcPosition.place, List.mem_flatMap, List.mem_map, Prod.exists,
    List.mk_mem_zipIdx_iff_getElem?, TcPosition.mk.injEq]
  constructor
  · rintro ⟨t, _, h_t, tc', _, h_tc, rfl, rfl, rfl⟩
    exact ⟨t, h_t, h_tc⟩
  · rintro ⟨t, h_t, h_tc⟩
    exact ⟨t, i, h_t, tc, j, h_tc, rfl, rfl, rfl⟩

theorem nodup_zipIdx_snd {α : Type} (xs : List α) :
    xs.zipIdx.Pairwise fun a b => a.2 ≠ b.2 := by
  rw [← List.pairwise_map, List.zipIdx_map_snd]
  exact List.nodup_range' 1

/-- No two positions are at one place. -/
theorem nodup_tcPositions (s : AgentSession) :
    (tcPositions s).Pairwise fun pos pos' => pos.place ≠ pos'.place := by
  rw [tcPositions, List.pairwise_flatMap]
  constructor
  · rintro ⟨t, i⟩ -
    refine List.pairwise_map.mpr ((nodup_zipIdx_snd t.toolCalls).imp fun h_ne h => h_ne ?_)
    exact (Prod.mk.inj h).2
  · refine (nodup_zipIdx_snd s.turns).imp fun h_ne pos h_pos pos' h_pos' h => h_ne ?_
    obtain ⟨_, -, rfl⟩ := List.mem_map.mp h_pos
    obtain ⟨_, -, rfl⟩ := List.mem_map.mp h_pos'
    exact (Prod.mk.inj h).1

/-! ### Credits -/

/-- A credit: the place of the record, the tokens of its new summary, and what the session is
credited with. -/
structure Credit where
  place : Place
  tokens : ℕ
  saved : ℕ
  deriving DecidableEq

variable {a : StoreAdapter}

/-- The credits of the loop over the items. -/
def itemCredits (counter : TokenCounter) (turnIndex : ℕ) : List Json → Live a → List Credit
  | [], _ => []
  | item :: items, l =>
    match updateItem item with
    | .error _ => []
    | .ok none => itemCredits counter turnIndex items l
    | .ok (some (tcId, summary)) =>
      let named (tc : ToolCallRecord) : Bool := tc.tcId = tcId
      match (l.session.turns.flatMap TurnRecord.toolCalls).find? named with
      | none => itemCredits counter turnIndex items l
      | some tc =>
        let (u, l') := applyUpdate counter turnIndex tcId summary tc l
        -- the record was found, so it has a place
        ⟨(firstPlace named l.session.turns).getD (0, 0), counter.countString summary defaultModel,
          u.tokensSaved⟩ :: itemCredits counter turnIndex items l'

/-- The credits of one call of the interceptor. -/
def interceptCredits (cfg : InterceptorConfig) (counter : TokenCounter) (turnIndex : ℕ)
    (toolInput : ToolArgs) (l : Live a) : List Credit :=
  let updatesRaw := (Dict.get? toolInput cfg.contextUpdatesParamName).getD (.arr [])
  if !cfg.enabled || !jsonTruthy updatesRaw then []
  else
    match updateItems updatesRaw with
    | .error _ => []
    | .ok items => itemCredits counter turnIndex items l

/-- The credits of the loop over the targets. -/
def targetCredits (counter : TokenCounter) (reply : ℕ → Option String) :
    ℕ → List TcPosition → List Credit
  | _, [] => []
  | j, pos :: rest =>
    let summary := PyStr.strip ((reply j).getD "")
    if summary = "" ∨ summary = "[]" then targetCredits counter reply (j + 1) rest
    else
      let tokens := counter.countString summary defaultModel
      ⟨pos.place, tokens, pos.record.tokensRaw - tokens⟩ ::
        targetCredits counter reply (j + 1) rest

/-- A call of one of the two components. -/
inductive RcsCall
  | intercept (cfg : InterceptorConfig) (toolInput : ToolArgs)
  | compact (cfg : ServerCompactorConfig) (reply : ℕ → Option String)

namespace RcsCall

/-- The session and the store after a call, whether it returned or raised. -/
def run (counter : TokenCounter) (turnIndex : ℕ) : RcsCall → Live a → Live a
  | intercept cfg toolInput, l => (Nexus.intercept cfg counter turnIndex toolInput l).2
  | compact cfg reply, l => (Nexus.compact cfg counter turnIndex reply l).1

/-- The credits of a call. -/
def credits (counter : TokenCounter) (turnIndex : ℕ) : RcsCall → Live a → List Credit
  | intercept cfg toolInput, l => interceptCredits cfg counter turnIndex toolInput l
  | compact cfg reply, l => targetCredits counter reply 0 (compactTargets cfg l.session)

end RcsCall

/-- The credits of the record at a place along a sequence of calls, from the state `l₀`. In
between, anything may happen that leaves this record as it is. -/
inductive CreditedTo (counter : TokenCounter) (p : Place) (l₀ : Live a) :
    List Credit → Live a → Prop
  | start : CreditedTo counter p l₀ [] l₀
  | called {log : List Credit} {l : Live a} (h : CreditedTo counter p l₀ log l) (turnIndex : ℕ)
      (c : RcsCall) :
      CreditedTo counter p l₀ (log ++ (c.credits counter turnIndex l).filter (·.place = p))
        (c.run counter turnIndex l)
  | elsewhere {log : List Credit} {l l' : Live a} (h : CreditedTo counter p l₀ log l)
      (h_same : recordAt l'.session.turns p = recordAt l.session.turns p) :
      CreditedTo counter p l₀ log l'

/-! ### What a call does to a record -/

/-- The record with a summary of so many tokens. -/
def ToolCallRecord.summarized (summary : String) (byTurn tokens : ℕ) (tc : ToolCallRecord) :
    ToolCallRecord :=
  (tc.withSummary summary byTurn).withSummaryTokens tokens

/-- What one credit does: a record gets a summary, and the session the saving. Only a record
without a summary is credited against its raw response regardless. -/
structure CreditStep (l : Live a) (c : Credit) (l' : Live a) : Prop where
  saved : ∃ tc, recordAt l.session.turns c.place = some tc ∧
    (c.saved = tc.tokensSummarized.getD tc.tokensRaw - c.tokens ∨
      tc.summarizedResponse = none ∧ c.saved = tc.tokensRaw - c.tokens)
  records : ∃ summary byTurn, ∀ p, recordAt l'.session.turns p =
    if c.place = p then (recordAt l.session.turns p).map (.summarized summary byTurn c.tokens)
    else recordAt l.session.turns p
  total : l'.session.totalTokensSavedByRcs = l.session.totalTokensSavedByRcs + c.saved

/-- One credit after another. -/
inductive CreditSteps : Live a → List Credit → Live a → Prop
  | nil (l : Live a) : CreditSteps l [] l
  | cons {l l' l'' : Live a} {c : Credit} {cs : List Credit} (h : CreditStep l c l')
      (h_rest : CreditSteps l' cs l'') : CreditSteps l (c :: cs) l''

/-- A summary from the tool's arguments credits the first record of its id. -/
theorem creditStep_applyUpdate (counter : TokenCounter) (turnIndex : ℕ) (tcId summary : String)
    {tc : ToolCallRecord} {l : Live a}
    (h_found : (l.session.turns.flatMap TurnRecord.toolCalls).find? (fun tc => tc.tcId = tcId) =
      some tc) :
    CreditStep l
      ⟨(firstPlace (fun tc => tc.tcId = tcId) l.session.turns).getD (0, 0),
        counter.countString summary defaultModel,
        (applyUpdate counter turnIndex tcId summary tc l).1.tokensSaved⟩
      (applyUpdate counter turnIndex tcId summary tc l).2 := by
  obtain ⟨p, h_place, h_at⟩ := firstPlace_of_find? h_found
  -- a summary does not change a record's id, so the place stays the same
  have h_kept : firstPlace (fun tc => tc.tcId = tcId)
      (updateFirstTc (fun tc => tc.tcId = tcId) (.withSummary summary turnIndex) l.session.turns) =
      some p := by
    rw [firstPlace_updateFirstTc fun tc => by rfl, h_place]
  rw [h_place]
  refine ⟨⟨tc, h_at, .inl rfl⟩, ⟨summary, turnIndex, fun p' => ?_⟩, rfl⟩
  unfold applyUpdate
  simp only [Live.mutate_session, Live.updateTcSummary_session, recordAt_updateFirstTc, h_kept,
    h_place, Option.some.injEq, Option.getD_some]
  split
  · rw [Option.map_map]
    rfl
  · rfl

/-- A compaction credits the record at its position with what the summary spares. -/
theorem creditStep_compactOne (counter : TokenCounter) (turnIndex : ℕ) (pos : TcPosition)
    (summary : String) {l : Live a} (h_at : recordAt l.session.turns pos.place = some pos.record)
    (h_none : pos.record.summarizedResponse = none) :
    CreditStep l
      ⟨pos.place, counter.countString summary defaultModel,
        pos.record.tokensRaw - counter.countString summary defaultModel⟩
      (compactOne counter turnIndex pos summary l).1 := by
  refine ⟨⟨pos.record, h_at, .inr ⟨h_none, rfl⟩⟩, ⟨summary, turnIndex, fun p => ?_⟩, rfl⟩
  -- the text of the summary is written first, then its tokens
  have h_turns : recordAt (compactOne counter turnIndex pos summary l).1.session.turns p =
      recordAt (updateTcAt pos.turn pos.call
        (.withSummaryTokens (counter.countString summary defaultModel))
        (updateTcAt pos.turn pos.call (.withSummary summary turnIndex) l.session)).turns p := rfl
  have h_pair : (pos.turn, pos.call) = pos.place := rfl
  rw [h_turns, recordAt_updateTcAt, recordAt_updateTcAt, h_pair]
  by_cases h_p : pos.place = p
  · rw [if_pos h_p, if_pos h_p, if_pos h_p, Option.map_map]
    rfl
  · rw [if_neg h_p, if_neg h_p, if_neg h_p]

/-- The credits of the intercepted summaries are earned one after the other. -/
theorem creditSteps_interceptItems (counter : TokenCounter) (turnIndex : ℕ) (items : List Json)
    (done : List ContextUpdate) (l : Live a) :
    Prog.wp (interceptItems counter turnIndex items done)
      (fun _ => CreditSteps l (itemCredits counter turnIndex items l))
      (fun _ => CreditSteps l (itemCredits counter turnIndex items l)) l := by
  induction items generalizing done l with
  | nil => exact .nil l
  | cons item items ih =>
    unfold interceptItems itemCredits
    rw [Prog.wp_bind, Prog.wp_ofExcept]
    cases updateItem item with
    | error e => exact .nil l
    | ok found =>
      cases found with
      | none => exact ih done l
      | some p =>
        simp only [Prog.wp_bind, Prog.wp_get]
        cases h_found : (l.session.turns.flatMap TurnRecord.toolCalls).find?
            fun tc => tc.tcId = p.1 with
        -- no record of the id: nothing is written and nothing credited
        | none => exact ih done l
        | some tc =>
          have h_step := creditStep_applyUpdate counter turnIndex p.1 p.2 h_found
          simp only [Prog.wp_bind, Prog.wp_update]
          exact Prog.wp_mono (ih _ _) (fun _ _ h => .cons h_step h) (fun _ _ h => .cons h_step h)

/-- So are those of a call of `intercept`, also when it raises midway. -/
theorem creditSteps_intercept (cfg : InterceptorConfig) (counter : TokenCounter) (turnIndex : ℕ)
    (toolInput : ToolArgs) (l : Live a) :
    Prog.wp (intercept cfg counter turnIndex toolInput)
      (fun _ => CreditSteps l (interceptCredits cfg counter turnIndex toolInput l))
      (fun _ => CreditSteps l (interceptCredits cfg counter turnIndex toolInput l)) l := by
  unfold intercept interceptCredits
  cases h_on : cfg.enabled with
  | false => exact .nil l
  -- the parameter is read as a list, and each item is credited in turn
  | true =>
    simp only [Bool.not_true, Bool.false_eq_true, if_false, Bool.false_or]
    generalize (Dict.get? toolInput cfg.contextUpdatesParamName).getD (.arr []) = raw
    cases jsonTruthy raw with
    | false => exact .nil l
    | true =>
      simp only [Bool.not_true, Bool.false_eq_true, if_false]
      simp only [Prog.wp_bind, Prog.wp_pure, Prog.wp_ofExcept]
      cases updateItems raw with
      | error e => exact .nil l
      | ok items => exact creditSteps_interceptItems counter turnIndex items [] l

/-- The credits of the compacted positions are earned one after the other. -/
theorem creditSteps_compactFrom (counter : TokenCounter) (turnIndex : ℕ)
    (reply : ℕ → Option String) {targets : List TcPosition} (j : ℕ) {l : Live a} (n : ℕ)
    (h_targets : ∀ pos ∈ targets, recordAt l.session.turns pos.place = some pos.record ∧
      pos.record.summarizedResponse = none)
    (h_apart : targets.Pairwise fun pos pos' => pos.place ≠ pos'.place) :
    CreditSteps l (targetCredits counter reply j targets)
      (compactFrom counter turnIndex reply j targets (l, n)).1 := by
  induction targets generalizing j l n with
  | nil => exact .nil l
  | cons pos rest ih =>
    obtain ⟨h_pos, h_rest⟩ := List.forall_mem_cons.mp h_targets
    obtain ⟨h_ne, h_apart⟩ := List.pairwise_cons.mp h_apart
    unfold compactFrom targetCredits
    dsimp only
    split
    · exact ih (j + 1) n h_rest h_apart
    · have h_step := creditStep_compactOne counter turnIndex pos
        (PyStr.strip ((reply j).getD "")) h_pos.1 h_pos.2
      refine .cons h_step (ih (j + 1) _ (fun pos' h_pos' => ?_) h_apart)
      -- the other targets are at other places
      obtain ⟨summary, byTurn, h_records⟩ := h_step.records
      rw [h_records, if_neg (h_ne pos' h_pos')]
      exact h_rest pos' h_pos'

/-- **The credits of a call** are what it does. -/
theorem RcsCall.creditSteps (counter : TokenCounter) (turnIndex : ℕ) (c : RcsCall) (l : Live a) :
    CreditSteps l (c.credits counter turnIndex l) (c.run counter turnIndex l) := by
  cases c with
  | intercept cfg toolInput =>
    exact Prog.wp_final.mp (creditSteps_intercept cfg counter turnIndex toolInput l)
  | compact cfg reply =>
    -- the targets are some of the session's records, each with its position
    have h_sub : (compactTargets cfg l.session).Sublist
        ((unsummarizedTcs l.session).insertionSort fun p q => p.record.tcIndex ≤ q.record.tcIndex) :=
      List.take_sublist _ _
    have h_perm := List.perm_insertionSort
      (fun p q : TcPosition => p.record.tcIndex ≤ q.record.tcIndex) (unsummarizedTcs l.session)
    refine creditSteps_compactFrom counter turnIndex reply 0 0 (fun pos h_pos => ?_) ?_
    · -- they have no summary yet
      have h_mem := h_perm.mem_iff.mp (h_sub.subset h_pos)
      rw [unsummarizedTcs_eq, List.mem_filter, mem_tcPositions, Option.isNone_iff_eq_none] at h_mem
      exact h_mem
    · -- and their positions are all different
      have h_apart := (nodup_tcPositions l.session).filter
        fun pos => pos.record.summarizedResponse.isNone
      exact ((h_perm.pairwise_iff fun h h' => h h'.symm).mpr h_apart).sublist h_sub

/-- The session's total grows by what was credited. -/
theorem CreditSteps.total {l l' : Live a} {log : List Credit} (h : CreditSteps l log l') :
    l'.session.totalTokensSavedByRcs =
      l.session.totalTokensSavedByRcs + (log.map Credit.saved).sum := by
  induction h with
  | nil l => rfl
  | cons h _ ih => rw [ih, h.total, List.map_cons, List.sum_cons, Nat.add_assoc]

/-- **The credits are what `total_tokens_saved_by_rcs` grows by.** -/
theorem RcsCall.total (counter : TokenCounter) (turnIndex : ℕ) (c : RcsCall) (l : Live a) :
    (c.run counter turnIndex l).session.totalTokensSavedByRcs =
      l.session.totalTokensSavedByRcs +
        ((c.credits counter turnIndex l).map Credit.saved).sum :=
  (c.creditSteps counter turnIndex l).total

/-! ### The ledger of a record -/

/-- The record at a place after the credits `log`: its token count is that of the last
summary, and the credits so far are the falls of that count. -/
structure Ledger (p : Place) (raw : ℕ) (log : List Credit) (l : Live a) : Prop where
  record : ∃ tc, recordAt l.session.turns p = some tc ∧ tc.tokensRaw = raw ∧
    tc.tokensSummarized = (log.map Credit.tokens).getLast? ∧
    (tc.summarizedResponse = none → log = [])
  booked : (log.map Credit.saved).sum = drops raw (log.map Credit.tokens)

namespace Ledger

variable {p : Place} {raw : ℕ} {log : List Credit} {l l' : Live a}

/-- The ledger of a place depends on the record there only. -/
theorem same (h : Ledger p raw log l)
    (h_same : recordAt l'.session.turns p = recordAt l.session.turns p) : Ledger p raw log l' where
  record := by
    rw [h_same]
    exact h.record
  booked := h.booked

/-- A credit of the record goes into its ledger, and one of another record does not. -/
theorem step {c : Credit} (h : Ledger p raw log l) (h_step : CreditStep l c l') :
    Ledger p raw (log ++ [c].filter (·.place = p)) l' := by
  obtain ⟨tc, h_tc, h_raw, h_tokens, h_none⟩ := h.record
  obtain ⟨summary, byTurn, h_records⟩ := h_step.records
  by_cases h_p : c.place = p
  · obtain ⟨tc', h_tc', h_saved⟩ := h_step.saved
    obtain rfl : tc' = tc := by
      rw [h_p, h_tc] at h_tc'
      exact (Option.some.inj h_tc').symm
    rw [List.filter_cons_of_pos (by simpa using h_p), List.filter_nil]
    -- what is booked is the drop from the last size of the record, the raw one at first
    have h_marginal : c.saved = (log.map Credit.tokens).getLast?.getD raw - c.tokens := by
      rcases h_saved with h_saved | ⟨h_first, h_saved⟩
      · rw [h_saved, h_tokens, h_raw]
      · rw [h_saved, h_raw, h_none h_first]
        rfl
    refine ⟨⟨tc'.summarized summary byTurn c.tokens, ?_, h_raw, ?_, ?_⟩, ?_⟩
    · rw [h_records, if_pos h_p, h_tc]
      rfl
    · simp [ToolCallRecord.summarized, ToolCallRecord.withSummaryTokens]
    · intro h_summary
      cases h_summary
    · rw [List.map_append, List.map_append, List.sum_append, h.booked]
      simp only [List.map_cons, List.map_nil, List.sum_cons, List.sum_nil, Nat.add_zero]
      rw [drops_concat, h_marginal]
  · rw [List.filter_cons_of_neg (by simpa using h_p), List.filter_nil, List.append_nil]
    exact h.same (by rw [h_records, if_neg h_p])

/-- The ledger takes on the credits of its place. -/
theorem steps {cs : List Credit} (h : Ledger p raw log l) (h_steps : CreditSteps l cs l') :
    Ledger p raw (log ++ cs.filter (·.place = p)) l' := by
  induction h_steps generalizing log with
  | nil l => simpa using h
  | @cons l l' l'' c cs h_step _ ih =>
    have h_rest := ih (h.step h_step)
    rwa [List.append_assoc, ← List.filter_append] at h_rest

end Ledger

/-- **The credits of a record are the falls of its token count**, along every sequence of
calls. -/
theorem CreditedTo.ledger {counter : TokenCounter} {p : Place} {l₀ l : Live a} {log : List Credit}
    {tc : ToolCallRecord} (h_record : recordAt l₀.session.turns p = some tc)
    (h_new : tc.tokensSummarized = none) (h : CreditedTo counter p l₀ log l) :
    Ledger p tc.tokensRaw log l := by
  induction h with
  | start => exact ⟨⟨tc, h_record, rfl, h_new, fun _ => rfl⟩, rfl⟩
  | called h turnIndex c ih => exact ih.steps (c.creditSteps counter turnIndex _)
  | elsewhere h h_same ih => exact ih.same h_same

/-! ### The bound -/

/-- What a record was credited with is no more than its best saving: the raw response less the
shortest of its summaries, and nothing if none is shorter than the raw response. -/
def SavingsBounded (raw : ℕ) (log : List Credit) : Prop :=
  (∀ m ∈ log.map Credit.tokens, (∀ n ∈ log.map Credit.tokens, m ≤ n) →
    (log.map Credit.saved).sum ≤ raw - m) ∧
  ((∀ n ∈ log.map Credit.tokens, raw ≤ n) → (log.map Credit.saved).sum = 0)

/-- Never more is credited than the session can lose at its lowest. -/
theorem savingsBounded_iff_lowest (raw : ℕ) (log : List Credit) : SavingsBounded raw log ↔
    (log.map Credit.saved).sum ≤ raw - lowest raw (log.map Credit.tokens) := by
  unfold SavingsBounded
  generalize log.map Credit.tokens = tokens
  generalize (log.map Credit.saved).sum = total
  constructor
  · rintro ⟨h_least, h_none⟩
    rcases lowest_eq_or_mem raw tokens with h_raw | h_mem
    · have h_all : ∀ n ∈ tokens, raw ≤ n := fun n h_n => h_raw ▸ lowest_le_of_mem h_n
      rw [h_none h_all]
      exact Nat.zero_le _
    · exact h_least _ h_mem fun n h_n => lowest_le_of_mem h_n
  · intro h_total
    have h_low : ∀ m, (∀ n ∈ tokens, m ≤ n) → m ≤ raw → m ≤ lowest raw tokens := by
      intro m h_m h_raw
      rcases lowest_eq_or_mem raw tokens with h | h
      · rwa [h]
      · exact h_m _ h
    refine ⟨fun m _ h_m => ?_, fun h_m => ?_⟩
    · rcases le_total m raw with h_raw | h_raw
      · exact h_total.trans (Nat.sub_le_sub_left (h_low m h_m h_raw) raw)
      · -- every summary is as long as the raw response
        have h_start := h_low raw (fun n h_n => h_raw.trans (h_m n h_n)) le_rfl
        omega
    · have h_start := h_low raw h_m le_rfl
      omega

/-- **What a record saves is bounded** by its best saving, over every sequence of context
updates and compactions, exactly when no summary of it is shorter than the one before it after
one was longer than the one before it; the raw response counts as the first. -/
theorem savings_bounded_iff (counter : TokenCounter) (p : Place) {l₀ l : Live a}
    {log : List Credit} {tc : ToolCallRecord} (h_record : recordAt l₀.session.turns p = some tc)
    (h_new : tc.tokensSummarized = none) (h : CreditedTo counter p l₀ log l) :
    SavingsBounded tc.tokensRaw log ↔ Valley tc.tokensRaw (log.map Credit.tokens) := by
  rw [savingsBounded_iff_lowest, (h.ledger h_record h_new).booked, drops_le_iff]

/-! ### Summarised longer and then shorter -/

/-- A counter of characters. -/
def charCounter : TokenCounter := ⟨fun _ text => text.length, fun _ => 0⟩

/-- A session with a record of four characters. -/
def fourChars : Live .memory where
  session :=
    { sessionId := "s", agentId := "desk"
      turns := [⟨0, some "hi", [], none, [⟨"TC1", 1, "find", "c1", [], "data", none, none, 4, none⟩],
        [], 0, 0, 0, 0, .completed⟩] }
  store := .empty .memory

/-- The model summarises the record three times, by texts of the lengths given. -/
def resummarise (lengths : List ℕ) : RcsCall :=
  .intercept { enabled := true } [("_context_updates", .arr (lengths.map fun n =>
    .obj [("tc_id", .str "TC1"), ("summary", .str (String.ofList (List.replicate n 'b')))]))]

/-- **A saving is credited twice**: the summaries have one, three and one characters, so the
record saves three at best and is credited five. -/
theorem savings_credited_twice :
    ¬∀ (p : Place) (log : List Credit) (l : Live .memory) (tc : ToolCallRecord),
      recordAt fourChars.session.turns p = some tc → tc.tokensSummarized = none →
      CreditedTo charCounter p fourChars log l → SavingsBounded tc.tokensRaw log := by
  intro h_all
  have h_log : CreditedTo charCounter (0, 0) fourChars _ _ :=
    .called .start 1 (resummarise [1, 3, 1])
  have h_bound := (h_all (0, 0) _ _ _ rfl rfl h_log).1 1 (by decide +kernel) (by decide +kernel)
  exact absurd h_bound (by decide +kernel)

/-- Summaries that get shorter and then longer save what they should. -/
theorem savings_bounded_shortened :
    SavingsBounded 4 (((resummarise [2, 1, 3]).credits charCounter 1 fourChars).filter
      (·.place = (0, 0))) := by
  have h_log : CreditedTo charCounter (0, 0) fourChars _ _ :=
    .called .start 1 (resummarise [2, 1, 3])
  exact (savings_bounded_iff charCounter (0, 0) rfl rfl h_log).mpr (by decide +kernel)

end Nexus
