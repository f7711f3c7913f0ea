import Mathlib.Data.List.Pairwise
import NexusAgent.Runner.Runs

/-!
# What a turn records of its handlers

The sequential and the parallel branch hand a turn the results of handlers up to the first
that paused (`Results`), and every result is a record of the call at its place
(`HandledAs`). Handlers number their records in the order they run, so the records of a
turn have distinct ids, in either branch.

`Results.length_eq_iff` says when all calls of a response get a record.
-/

open Lib

namespace Nexus

variable {a : StoreAdapter}

/-! ### One result -/

/-- What a handler of the call `req` hands back under the record index `i`. -/
structure HandledAs (env : Env a) (req : ToolCallRequest) (i : ℕ) (h : Handled) : Prop where
  record : ∃ result, h.record = recordOf env req i result ∧ (h.paused = true → result = "")
  paused : h.paused = env.registry.gated req.toolName
  approval : h.paused = true → env.registry.needsApproval req.toolName = false

/-- The record carries its own index and ids. -/
theorem HandledAs.tcId {env : Env a} {req : ToolCallRequest} {i : ℕ} {h : Handled}
    (h_as : HandledAs env req i h) :
    h.record.tcIndex = i ∧ h.record.tcId = tcIdOf i ∧ h.record.callId = req.id := by
  obtain ⟨result, h_record, -⟩ := h_as.record
  rw [h_record]
  exact ⟨rfl, rfl, rfl⟩

/-- Different indices give different ids. -/
theorem tcIdOf_injective : Function.Injective tcIdOf := by
  intro m n h
  have h_chars : Nat.toDigits 10 m = Nat.toDigits 10 n := by
    simpa [tcIdOf] using congrArg String.toList h
  have h_values := congrArg (Nat.ofDigitChars 10 · 0) h_chars
  simpa only [Nat.ofDigitChars_ten_toDigits] using h_values

section Logged

variable {env : Env a} {calls : List ToolCallRequest} {n m : ℕ}
  {outs : List (ℕ × Except RunError Handled)} {obs : List Obs}

/-- The counter only grows. -/
theorem Logged.le (h : Logged env calls n outs obs m) : n ≤ m := by
  induction h with
  | nil => exact le_rfl
  | malformed _ ih => exact ih
  | approval _ _ _ ih => exact (Nat.le_succ _).trans ih
  | deferred _ _ _ _ _ _ ih => exact (Nat.le_succ _).trans ih
  | unknown _ _ _ _ _ _ _ ih => exact (Nat.le_succ _).trans ih
  | executed _ _ _ _ _ _ _ ih => exact (Nat.le_succ _).trans ih

/-- The result of a handler that returned: a record of the call at its place, under a fresh
index. -/
def ReturnedBetween (env : Env a) (calls : List ToolCallRequest) (n m pos : ℕ) (h : Handled) :
    Prop :=
  ∃ req i, calls[pos]? = some req ∧ n < i ∧ i ≤ m ∧ HandledAs env req i h

theorem ReturnedBetween.later {n n' m pos : ℕ} {h : Handled} (h_le : n ≤ n')
    (h_ret : ReturnedBetween env calls n' m pos h) : ReturnedBetween env calls n m pos h := by
  obtain ⟨req, i, h_req, h_lt, h_i, h_as⟩ := h_ret
  exact ⟨req, i, h_req, h_le.trans_lt h_lt, h_i, h_as⟩

/-- What returned got its number between the two counters. -/
theorem Logged.returned (h : Logged env calls n outs obs m) :
    ∀ pos r, (pos, .ok r) ∈ outs → ReturnedBetween env calls n m pos r := by
  induction h with
  | nil => simp
  | malformed _ ih => exact fun pos r h_mem => ih pos r (by simpa using h_mem)
  | approval _ _ _ ih =>
    exact fun pos r h_mem => (ih pos r (by simpa using h_mem)).later (Nat.le_succ _)
  | deferred updates saved h_req h_gated h_app h_rest ih =>
    intro pos r h_mem
    -- this handler's own result, or one that came later
    rcases List.mem_cons.mp h_mem with h_eq | h_mem
    · obtain ⟨rfl, h_r⟩ := Prod.mk.inj h_eq
      obtain rfl := Except.ok.inj h_r
      exact ⟨_, _, h_req, Nat.lt_succ_self _, h_rest.le, ⟨"", rfl, fun _ => rfl⟩, h_gated.symm,
        fun _ => h_app⟩
    · exact (ih pos r h_mem).later (Nat.le_succ _)
  | unknown updates saved result h_req h_gated h_key h_rest ih =>
    intro pos r h_mem
    rcases List.mem_cons.mp h_mem with h_eq | h_mem
    · obtain ⟨rfl, h_r⟩ := Prod.mk.inj h_eq
      obtain rfl := Except.ok.inj h_r
      exact ⟨_, _, h_req, Nat.lt_succ_self _, h_rest.le, ⟨result, rfl, fun h => by cases h⟩,
        h_gated.symm, fun h => by cases h⟩
    · exact (ih pos r h_mem).later (Nat.le_succ _)
  | executed updates saved result h_req h_gated h_key h_rest ih =>
    intro pos r h_mem
    rcases List.mem_cons.mp h_mem with h_eq | h_mem
    · obtain ⟨rfl, h_r⟩ := Prod.mk.inj h_eq
      obtain rfl := Except.ok.inj h_r
      exact ⟨_, _, h_req, Nat.lt_succ_self _, h_rest.le, ⟨result, rfl, fun h => by cases h⟩,
        h_gated.symm, fun h => by cases h⟩
    · exact (ih pos r h_mem).later (Nat.le_succ _)

/-- Results of different handlers have different record indices. -/
def DistinctIndex (o o' : ℕ × Except RunError Handled) : Prop :=
  ∀ h h', o.2 = .ok h → o'.2 = .ok h' → h.record.tcIndex ≠ h'.record.tcIndex

instance : Std.Symm DistinctIndex := ⟨fun _ _ h r r' hr hr' => (h r' r hr' hr).symm⟩

/-- A handler's index is below those of the handlers after it. -/
theorem Logged.fresh (h : Logged env calls n outs obs m) {pos i : ℕ} {r : Handled}
    (h_index : r.record.tcIndex = i) (h_le : i ≤ n) :
    ∀ o ∈ outs, DistinctIndex (pos, .ok r) o := by
  rintro ⟨pos', o⟩ h_mem r' r'' hr' rfl
  obtain rfl := Except.ok.inj hr'
  obtain ⟨req, j, -, h_lt, -, h_as⟩ := h.returned pos' r'' h_mem
  rw [h_index, h_as.tcId.1]
  omega

theorem distinctIndex_error (pos : ℕ) (e : RunError) (o : ℕ × Except RunError Handled) :
    DistinctIndex (pos, .error e) o := fun _ _ h => by cases h

/-- No two results have the same number. -/
theorem Logged.distinct (h : Logged env calls n outs obs m) : outs.Pairwise DistinctIndex := by
  induction h with
  | nil => exact .nil
  | malformed _ ih => exact .cons (fun o _ => distinctIndex_error _ _ o) ih
  | approval _ _ _ ih => exact .cons (fun o _ => distinctIndex_error _ _ o) ih
  | deferred _ _ _ _ _ h_rest ih => exact .cons (h_rest.fresh rfl le_rfl) ih
  | unknown _ _ _ _ _ _ h_rest ih => exact .cons (h_rest.fresh rfl le_rfl) ih
  | executed _ _ _ _ _ _ h_rest ih => exact .cons (h_rest.fresh rfl le_rfl) ih

end Logged

/-! ### The results of a turn -/

/-- The results `handled` a turn works with, of handlers with the outcomes `outs`: those of
the first calls, none but the last of which paused, and of all calls if none paused. -/
structure Results (calls : List ToolCallRequest) (outs : List (ℕ × Except RunError Handled))
    (handled : List Handled) : Prop where
  returned : ∀ i h, handled[i]? = some h → (i, .ok h) ∈ outs
  running : ∀ i h, handled[i]? = some h → i + 1 < handled.length → h.paused = false
  complete : (∀ h ∈ handled, h.paused = false) → handled.length = calls.length
  bound : handled.length ≤ calls.length

/-- In sequence each handled call returned at its place. -/
theorem InSequence.returned {pos : ℕ} {outs : List (ℕ × Except RunError Handled)}
    {hs : List Handled} (h : InSequence pos outs hs) :
    ∀ i r, hs[i]? = some r → (pos + i, .ok r) ∈ outs := by
  induction hs generalizing pos outs with
  | nil => simp
  | cons h' hs ih =>
    match outs with
    | [] => exact h.elim
    | (_, .error _) :: _ => exact h.elim
    | (j, .ok r') :: outs =>
      obtain ⟨rfl, rfl, -, h_rest⟩ := h
      intro i r hr
      cases i with
      -- the first one
      | zero =>
        obtain rfl : h' = r := by simpa using hr
        simp
      | succ i =>
        -- a later one, one place further
        have := ih h_rest i r (by simpa using hr)
        rw [show j + (i + 1) = j + 1 + i by omega]
        exact List.mem_cons_of_mem _ this

/-- In sequence only the last one may be paused. -/
theorem InSequence.running {pos : ℕ} {outs : List (ℕ × Except RunError Handled)}
    {hs : List Handled} (h : InSequence pos outs hs) :
    ∀ i r, hs[i]? = some r → i + 1 < hs.length → r.paused = false := by
  induction hs generalizing pos outs with
  | nil => simp
  | cons h' hs ih =>
    match outs with
    | [] => exact h.elim
    | (_, .error _) :: _ => exact h.elim
    | (j, .ok r') :: outs =>
      obtain ⟨rfl, rfl, h_paused, h_rest⟩ := h
      intro i r hr h_lt
      cases i with
      | zero =>
        obtain rfl : h' = r := by simpa using hr
        -- it is not the last, so it is not paused
        by_contra h_true
        rw [h_paused (by simpa using h_true)] at h_lt
        simp at h_lt
      | succ i => exact ih h_rest i r (by simpa using hr) (by simpa using h_lt)

/-- Up to the first result that paused. -/
theorem untilPaused_spec (hs : List Handled) :
    (∀ (i : ℕ) r, (untilPaused hs)[i]? = some r → hs[i]? = some r) ∧
      (∀ (i : ℕ) r, (untilPaused hs)[i]? = some r → i + 1 < (untilPaused hs).length → r.paused = false) ∧
      ((∀ r ∈ untilPaused hs, r.paused = false) → untilPaused hs = hs) ∧
      (untilPaused hs).length ≤ hs.length := by
  induction hs with
  | nil => simp [untilPaused]
  | cons h hs ih =>
    obtain ⟨h_get, h_run, h_all, h_le⟩ := ih
    unfold untilPaused
    split_ifs with h_paused
    · -- a paused handler is the last one kept
      refine ⟨fun i r hr => ?_, fun i r _ h_lt => ?_, fun h_none => ?_, by simp⟩
      · cases i with
        | zero => simpa using hr
        | succ i => simp at hr
      · simp at h_lt
      · simp [h_paused] at h_none
    · refine ⟨fun i r hr => ?_, fun i r hr h_lt => ?_, fun h_none => ?_, by simpa using h_le⟩
      · cases i with
        | zero => simpa using hr
        | succ i => simpa using h_get i r (by simpa using hr)
      · cases i with
        | zero =>
          obtain rfl : h = r := by simpa using hr
          simpa using h_paused
        | succ i => exact h_run i r (by simpa using hr) (by simpa using h_lt)
      · rw [List.forall_mem_cons] at h_none
        rw [h_all h_none.2]

/-- **The results of a turn**, in either branch. -/
theorem HandledBy.results {env : Env a} {k : ℕ} {calls : List ToolCallRequest}
    {outs : List (ℕ × Except RunError Handled)} {handled : List Handled} {n m r : ℕ} {obs : List Obs}
    (h : HandledBy env k calls outs handled n) (h_logged : Logged env calls m outs obs r) :
    Results calls outs handled := by
  -- each result has a call in its place
  have h_bound : (∀ i h, handled[i]? = some h → (i, .ok h) ∈ outs) →
      handled.length ≤ calls.length := by
    intro h_ret
    by_contra h_long
    rw [Nat.not_le] at h_long
    have h_last := List.getElem?_eq_getElem h_long
    obtain ⟨req, -, h_req, -⟩ := h_logged.returned _ _ (h_ret _ _ h_last)
    simp at h_req
  unfold HandledBy at h
  split_ifs at h with h_par
  · obtain ⟨h_places, h_first, rfl, -⟩ := h
    have h_perm : (outs.map Prod.fst).Perm (List.range calls.length) :=
      h_places ▸ (env.gatherOrder k calls.length).property
    obtain ⟨h_length, h_order⟩ := Prog.getElem?_inOrder h_perm h_first
    obtain ⟨h_get, h_run, h_all, -⟩ := untilPaused_spec (Prog.inOrder calls.length outs)
    have h_ret := fun i r hr => h_order i r (h_get i r hr)
    exact ⟨h_ret, h_run, fun h_none => by rw [h_all h_none, h_length], h_bound h_ret⟩
  · obtain ⟨h_seq, -, h_complete, -⟩ := h
    have h_ret : ∀ i h, handled[i]? = some h → (i, .ok h) ∈ outs := by
      simpa using h_seq.returned
    exact ⟨h_ret, h_seq.running, h_complete, h_bound h_ret⟩

/-- The result at a place is one of the call at that place. -/
theorem Results.handledAs {env : Env a} {calls : List ToolCallRequest} {n m : ℕ}
    {outs : List (ℕ × Except RunError Handled)} {obs : List Obs} {handled : List Handled}
    (h : Results calls outs handled) (h_logged : Logged env calls n outs obs m) {i : ℕ} {r : Handled}
    (hr : handled[i]? = some r) : ∃ req, calls[i]? = some req ∧ ∃ j, HandledAs env req j r := by
  obtain ⟨req, j, h_req, -, -, h_as⟩ := h_logged.returned i r (h.returned i r hr)
  exact ⟨req, h_req, j, h_as⟩

/-- **The records of a turn have distinct ids.** -/
theorem Results.tcIds_nodup {env : Env a} {calls : List ToolCallRequest} {n m : ℕ}
    {outs : List (ℕ × Except RunError Handled)} {obs : List Obs} {handled : List Handled}
    (h : Results calls outs handled) (h_logged : Logged env calls n outs obs m) :
    ((handled.map Handled.record).map ToolCallRecord.tcId).Nodup := by
  rw [List.map_map, List.Nodup, List.pairwise_map, List.pairwise_iff_getElem]
  intro i j hi hj h_lt h_eq
  have h_i := List.getElem?_eq_getElem hi
  have h_j := List.getElem?_eq_getElem hj
  -- both are records of calls, with numbers of their own
  obtain ⟨req, -, i', h_as⟩ := h.handledAs h_logged h_i
  obtain ⟨req', -, j', h_as'⟩ := h.handledAs h_logged h_j
  have h_ne : (i, Except.ok handled[i]) ≠ ((j, Except.ok handled[j]) : ℕ × Except RunError Handled) :=
    fun h => absurd (Prod.mk.inj h).1 h_lt.ne
  have h_distinct := h_logged.distinct.forall (h.returned _ _ h_i)
    (h.returned _ _ h_j) h_ne _ _ rfl rfl
  refine h_distinct ?_
  -- equal ids come from equal numbers
  have h_ids : tcIdOf i' = tcIdOf j' := by
    rw [← h_as.tcId.2.1, ← h_as'.tcId.2.1]
    exact h_eq
  rw [h_as.tcId.1, h_as'.tcId.1, tcIdOf_injective h_ids]

/-! ### Calls that stay without a record -/

/-- Whether handling the calls of a response leaves some of them without a record: a call
that is deferred has calls after it. Where a call needs approval, the turn raises instead:
in the parallel branch anywhere, in the sequential one before anything is deferred. -/
def leavesUnanswered (env : Env a) (calls : List ToolCallRequest) : Bool :=
  if useParallel env calls then
    calls.all (fun tc => !env.registry.needsApproval tc.toolName) &&
      calls.dropLast.any fun tc => env.registry.gated tc.toolName
  else
    match calls.dropWhile fun tc => !env.registry.gated tc.toolName with
    | tc :: _ :: _ => !env.registry.needsApproval tc.toolName
    | _ => false

section Unanswered

variable {env : Env a} {calls : List ToolCallRequest} {n m k l : ℕ}
  {outs : List (ℕ × Except RunError Handled)} {obs : List Obs} {handled : List Handled}

/-- A result at a place says whether the call there is gated, and that a gated call needed no
approval. -/
theorem Results.gated (h : Results calls outs handled) (h_logged : Logged env calls n outs obs m)
    {i : ℕ} (hi : i < handled.length) {req : ToolCallRequest} (h_req : calls[i]? = some req) :
    handled[i].paused = env.registry.gated req.toolName ∧
      (env.registry.gated req.toolName = true → env.registry.needsApproval req.toolName = false) := by
  obtain ⟨req', h_req', j, h_as⟩ := h.handledAs h_logged (List.getElem?_eq_getElem hi)
  obtain rfl := Option.some.inj (h_req.symm.trans h_req')
  exact ⟨h_as.paused, fun h_gated => h_as.approval (h_as.paused.trans h_gated)⟩

/-- In the parallel branch every call got a handler, and all of them returned. -/
theorem HandledBy.no_approval (h : HandledBy env k calls outs handled l)
    (h_par : useParallel env calls = true) (h_logged : Logged env calls n outs obs m) :
    ∀ tc ∈ calls, env.registry.gated tc.toolName = true →
      env.registry.needsApproval tc.toolName = false := by
  unfold HandledBy at h
  rw [if_pos h_par] at h
  obtain ⟨h_places, h_first, -⟩ := h
  -- every call was handled in the order it finished
  have h_perm : (outs.map Prod.fst).Perm (List.range calls.length) :=
    h_places ▸ (env.gatherOrder k calls.length).property
  obtain ⟨h_length, h_order⟩ := Prog.getElem?_inOrder h_perm h_first
  intro tc h_tc h_gated
  obtain ⟨i, hi, rfl⟩ := List.mem_iff_getElem.mp h_tc
  have h_result := List.getElem?_eq_getElem (h_length.symm ▸ hi : i < (Prog.inOrder calls.length outs).length)
  -- the call has a result
  obtain ⟨req, j, h_req, -, -, h_as⟩ := h_logged.returned _ _ (h_order _ _ h_result)
  obtain rfl := Option.some.inj ((List.getElem?_eq_getElem hi).symm.trans h_req)
  exact h_as.approval (h_as.paused.trans h_gated)

theorem needsApproval_gated {reg : ToolRegistry} {name : String}
    (h : reg.needsApproval name = true) : reg.gated name = true := by
  simp [ToolRegistry.gated, h]

/-- A gated call with calls after it. -/
theorem Results.length_ne (h : Results calls outs handled)
    (h_logged : Logged env calls n outs obs m) {i : ℕ} (hi : i + 1 < calls.length)
    (h_gated : env.registry.gated calls[i].toolName = true) :
    handled.length ≠ calls.length := by
  intro h_length
  have h_i : i < handled.length := by omega
  have h_req : calls[i]? = some calls[i] := List.getElem?_eq_getElem (by omega)
  have h_paused := (h.gated h_logged h_i h_req).1
  rw [h.running i _ (List.getElem?_eq_getElem h_i) (by omega), h_gated] at h_paused
  cases h_paused

/-- If a call has no record, it comes after one that was deferred, and no call before that
one is gated. -/
theorem Results.deferred_before (h : Results calls outs handled)
    (h_logged : Logged env calls n outs obs m) (h_length : handled.length ≠ calls.length) :
    ∃ i, ∃ hi : i + 1 < calls.length,
      env.registry.gated calls[i].toolName = true ∧
      env.registry.needsApproval calls[i].toolName = false ∧
      ∀ j (hj : j < i), env.registry.gated calls[j].toolName = false := by
  have h_some : ∃ r ∈ handled, r.paused = true := by
    by_contra h_none
    exact h_length (h.complete fun r hr => by
      by_contra h_true
      exact h_none ⟨r, hr, by simpa using h_true⟩)
  obtain ⟨r, hr, h_paused⟩ := h_some
  obtain ⟨i, hi, rfl⟩ := List.mem_iff_getElem.mp hr
  have h_bound := h.bound
  -- only the last one handled may have paused
  have h_last : handled.length = i + 1 := by
    by_contra h_ne
    have := h.running i _ (List.getElem?_eq_getElem hi) (by omega)
    rw [h_paused] at this
    cases this
  have h_req : calls[i]? = some calls[i] := List.getElem?_eq_getElem (by omega)
  obtain ⟨h_gated, h_app⟩ := h.gated h_logged hi h_req
  rw [h_paused] at h_gated
  refine ⟨i, by omega, h_gated.symm, h_app h_gated.symm, fun j hj => ?_⟩
  have h_req' : calls[j]? = some calls[j] := List.getElem?_eq_getElem (by omega)
  have h_j : j < handled.length := by omega
  rw [← (h.gated h_logged h_j h_req').1]
  exact h.running j _ (List.getElem?_eq_getElem h_j) (by omega)

/-- Dropping elements up to the first that satisfies `p`. -/
theorem dropWhile_eq_drop {α : Type} (p : α → Bool) (xs : List α) {i : ℕ} (hi : i < xs.length)
    (h_at : p xs[i] = false) (h_before : ∀ j (hj : j < i), p xs[j] = true) :
    xs.dropWhile p = xs.drop i := by
  induction xs generalizing i with
  | nil => simp at hi
  | cons x xs ih =>
    cases i with
    -- the search stops here
    | zero =>
      rw [List.dropWhile_cons_of_neg (by simpa using h_at)]
      rfl
    | succ i =>
      -- or goes on behind an element that satisfies the predicate
      have h_first : p x = true := h_before 0 (by omega)
      rw [List.dropWhile_cons_of_pos h_first, List.drop_succ_cons]
      exact ih (by simpa using hi) (by simpa using h_at)
        fun j hj => by simpa using h_before (j + 1) (by omega)

/-- **When every call of a response gets a record**, once the turn is stored. -/
theorem Results.length_eq_iff (h : Results calls outs handled)
    (h_handled : HandledBy env k calls outs handled l) (h_logged : Logged env calls n outs obs m) :
    handled.length = calls.length ↔ leavesUnanswered env calls = false := by
  unfold leavesUnanswered
  constructor
  · intro h_length
    split_ifs with h_par
    · by_contra h_true
      simp only [Bool.not_eq_false, Bool.and_eq_true, List.any_eq_true] at h_true
      obtain ⟨-, tc, h_tc, h_gated⟩ := h_true
      -- in parallel: a gated call before the last one loses its answer
      obtain ⟨i, hi, rfl⟩ := List.mem_iff_getElem.mp h_tc
      rw [List.length_dropLast] at hi
      rw [List.getElem_dropLast] at h_gated
      exact h.length_ne h_logged (by omega) h_gated h_length
    · split
      · next tc tc' rest h_drop =>
        -- in sequence: the first gated call with one behind it pauses before that one
        exfalso
        have h_gated := List.head?_dropWhile_not
          (fun tc : ToolCallRequest => !env.registry.gated tc.toolName) calls
        rw [h_drop] at h_gated
        have h_gated : env.registry.gated tc.toolName = true := by simpa using h_gated
        have h_calls := List.takeWhile_append_dropWhile
          (p := fun tc : ToolCallRequest => !env.registry.gated tc.toolName) (l := calls)
        rw [h_drop] at h_calls
        generalize calls.takeWhile _ = first at h_calls
        subst h_calls
        refine h.length_ne h_logged (i := first.length) (by simp) ?_ h_length
        simpa using h_gated
      · rfl
  · intro h_none
    by_contra h_length
    -- calls without an answer stand behind the first gated one
    obtain ⟨i, hi, h_gated, h_app, h_before⟩ := h.deferred_before h_logged h_length
    split_ifs at h_none with h_par
    · simp only [Bool.and_eq_false_iff, List.all_eq_false, List.any_eq_false] at h_none
      rcases h_none with ⟨tc, h_tc, h_true⟩ | h_any
      · rw [Bool.not_eq_true, Bool.not_eq_false'] at h_true
        have := h_handled.no_approval h_par h_logged tc h_tc (needsApproval_gated h_true)
        rw [h_true] at this
        cases this
      · refine h_any calls[i] ?_ h_gated
        rw [List.mem_iff_getElem]
        exact ⟨i, by rw [List.length_dropLast]; omega, List.getElem_dropLast ..⟩
    · rw [dropWhile_eq_drop (i := i) _ calls (by omega) (by simp [h_gated])
        (fun j hj => by simp [h_before j hj]), List.drop_eq_getElem_cons (by omega),
        List.drop_eq_getElem_cons hi] at h_none
      simp [h_app] at h_none

end Unanswered

/-! ### Pausing -/

/-- A run that pauses in a turn has a gated call there. -/
theorem HandlingEffect.gated_of_paused {env : Env a} {calls : List ToolCallRequest}
    {s t : RunState a} {outs : List (ℕ × Except RunError Handled)} {obs : List Obs}
    (h : HandlingEffect env calls s outs obs t) (h_before : s.status = .completed)
    (h_paused : t.status = .paused) : ∃ tc ∈ calls, env.registry.gated tc.toolName = true := by
  -- the status changed, so something is pending
  have h_some : obs.filterMap Obs.pending? ≠ [] := by
    intro h_none
    have h_status := h.status
    rw [h_none, h_paused, h_before] at h_status
    cases h_status
  obtain ⟨pending, h_pending⟩ := List.exists_mem_of_ne_nil _ h_some
  obtain ⟨o, ho, h_o⟩ := List.mem_filterMap.mp h_pending
  -- which was deferred by a gated call
  cases o with
  | deferred p =>
    obtain ⟨tc, h_tc, -, h_gated, -⟩ := h.logged.observed _ ho
    exact ⟨tc, h_tc, h_gated⟩
  | _ => cases h_o

/-- A result that paused left a pending interaction. -/
theorem Logged.pending_of_paused {env : Env a} {calls : List ToolCallRequest} {n m : ℕ}
    {outs : List (ℕ × Except RunError Handled)} {obs : List Obs}
    (h : Logged env calls n outs obs m) {pos : ℕ} {r : Handled} (h_mem : (pos, .ok r) ∈ outs)
    (h_paused : r.paused = true) : obs.filterMap Obs.pending? ≠ [] := by
  induction h with
  | nil => cases h_mem
  | malformed _ ih => exact ih (by simpa using h_mem)
  | approval _ _ _ ih => exact ih (by simpa using h_mem)
  -- the call that paused is the one that was deferred
  | deferred => simp [Obs.pending?]
  | unknown _ _ _ _ _ _ _ ih =>
    rcases List.mem_cons.mp h_mem with h_eq | h_mem
    · -- a call of an unknown tool is not paused
      cases h_eq
      cases h_paused
    · exact ih h_mem
  | executed _ _ _ _ _ _ _ ih =>
    rcases List.mem_cons.mp h_mem with h_eq | h_mem
    · -- nor is an executed one
      cases h_eq
      cases h_paused
    · simpa [Obs.pending?] using ih h_mem

/-- A turn that did not pause handled all calls, and none of them is gated. -/
theorem HandlingEffect.not_gated {env : Env a} {k : ℕ} {calls : List ToolCallRequest}
    {s t : RunState a} {outs : List (ℕ × Except RunError Handled)} {obs : List Obs}
    (h : HandlingEffect env calls s outs obs t) {handled : List Handled} {n : ℕ}
    (h_handled : HandledBy env k calls outs handled n) (h_running : t.status ≠ .paused) :
    ∀ tc ∈ calls, env.registry.gated tc.toolName = false := by
  have h_results := h_handled.results h.logged
  -- nothing is pending, as the status did not change
  have h_none : obs.filterMap Obs.pending? = [] := by
    by_contra h_some
    have h_status := h.status
    rw [statusAfter, if_neg h_some] at h_status
    exact h_running h_status
  -- so no call was paused
  have h_unpaused : ∀ r ∈ handled, r.paused = false := by
    intro r hr
    obtain ⟨i, hi, rfl⟩ := List.mem_iff_getElem.mp hr
    by_contra h_true
    exact h.logged.pending_of_paused (h_results.returned i _ (List.getElem?_eq_getElem hi))
      (by simpa using h_true) h_none
  -- and all of them were handled
  have h_length := h_results.complete h_unpaused
  intro tc h_tc
  obtain ⟨i, hi, rfl⟩ := List.mem_iff_getElem.mp h_tc
  have h_i : i < handled.length := h_length ▸ hi
  rw [← (h_results.gated h.logged h_i (List.getElem?_eq_getElem hi)).1]
  exact h_unpaused _ (List.getElem_mem h_i)

end Nexus
