import Mathlib.Algebra.Order.Ring.Unbundled.Rat
import Mathlib.Tactic.Linarith
import NexusAgent.Scope.Keys

/-!
# Rate limits

`RateLimiter` of `nexus/guardrails/cost.py`. A window holds the times of the calls accepted for one
scope key; a call prunes it to the last sixty seconds and is refused if it is full.

* `Kept`, `Kept.check`: at any later time a window, pruned, is what was accepted in the last sixty
  seconds.
* `rateLimiter_window`: the bound in every window, the reason of a refusal, and that tenants do not
  matter to each other.
-/

open Lib

namespace Nexus.Guardrails

/-! ### The limiter -/

/-- A call of `check`: the caller and the time. -/
structure RateCall where
  ctx : RunContext
  now : ℚ

/-- The key of a caller's window. -/
def rateKey (ctx : RunContext) : String := scopeKey ctx .tenant "rate"

/-- `_windows`. -/
abbrev RateWindows : Type := Dict String (List ℚ)

/-- The window of a key. -/
def RateWindows.window (windows : RateWindows) (key : String) : List ℚ :=
  (Dict.get? windows key).getD []

/-- The times less than sixty seconds ago. -/
def recent (now : ℚ) (times : List ℚ) : List ℚ := times.filter fun t => now - t < 60

/-- `RateLimiter.check`: the answer and the windows after it. -/
def RateLimiter.check (maxPerMinute : ℤ) (windows : RateWindows) (call : RateCall) :
    Bool × RateWindows :=
  let key := rateKey call.ctx
  let window := recent call.now (windows.window key)
  if maxPerMinute ≤ window.length then (false, Dict.set windows key window)
  else (true, Dict.set windows key (window ++ [call.now]))

/-- The calls of a run with their answers. -/
def answered (maxPerMinute : ℤ) : RateWindows → List RateCall → List (RateCall × Bool)
  | _, [] => []
  | windows, call :: calls =>
    let (answer, windows') := RateLimiter.check maxPerMinute windows call
    (call, answer) :: answered maxPerMinute windows' calls

/-- The first call is answered, and the others from its window on. -/
theorem answered_cons (maxPerMinute : ℤ) (windows : RateWindows) (call : RateCall)
    (calls : List RateCall) :
    answered maxPerMinute windows (call :: calls) =
      (call, (RateLimiter.check maxPerMinute windows call).1) ::
        answered maxPerMinute (RateLimiter.check maxPerMinute windows call).2 calls := rfl

/-- The times at which calls of a tenant, by its key, were accepted. -/
def acceptedTimes (key : String) (history : List (RateCall × Bool)) : List ℚ :=
  (history.filter fun e => e.2 ∧ rateKey e.1.ctx = key).map fun e => e.1.now

/-- The times accepted in two histories, one after the other. -/
theorem acceptedTimes_append (key : String) (history later : List (RateCall × Bool)) :
    acceptedTimes key (history ++ later) =
      acceptedTimes key history ++ acceptedTimes key later := by
  unfold acceptedTimes
  rw [List.filter_append, List.map_append]

theorem acceptedTimes_accepted (call : RateCall) :
    acceptedTimes (rateKey call.ctx) [(call, true)] = [call.now] := by
  simp [acceptedTimes]

theorem acceptedTimes_of_not {key : String} {call : RateCall} {answer : Bool}
    (h : ¬ (answer = true ∧ rateKey call.ctx = key)) : acceptedTimes key [(call, answer)] = [] := by
  simpa [acceptedTimes] using h

/-! ### What a window holds -/

theorem recent_append (now : ℚ) (times more : List ℚ) :
    recent now (times ++ more) = recent now times ++ recent now more := List.filter_append ..

/-- What is recent was recent before. -/
theorem recent_recent {now now' : ℚ} (h : now ≤ now') (times : List ℚ) :
    recent now' (recent now times) = recent now' times := by
  unfold recent
  rw [List.filter_filter]
  refine List.filter_congr fun t _ => ?_
  rw [Bool.and_eq_left_iff_imp, decide_eq_true_iff, decide_eq_true_iff]
  intro h_recent
  linarith

/-- At any time from the last call on, a window holds what was accepted less than sixty seconds
ago. -/
def Kept (history : List (RateCall × Bool)) (windows : RateWindows) : Prop :=
  ∀ key now, (∀ e ∈ history, e.1.now ≤ now) →
    recent now (windows.window key) = recent now (acceptedTimes key history)

variable {maxPerMinute : ℤ} {windows : RateWindows}

/-- Setting one window leaves the others. -/
theorem window_set (windows : RateWindows) (key key' : String) (times : List ℚ) :
    RateWindows.window (Dict.set windows key times) key' =
      if key = key' then times else windows.window key' := by
  unfold RateWindows.window
  rw [Dict.get?_set]
  split_ifs <;> rfl

/-- **One call**: it is accepted exactly if fewer than the maximum were in the last sixty seconds,
and the windows hold what was accepted. -/
theorem Kept.check {history : List (RateCall × Bool)} (h : Kept history windows) {call : RateCall}
    (h_now : ∀ e ∈ history, e.1.now ≤ call.now) :
    ((RateLimiter.check maxPerMinute windows call).1 = true ↔
      ((recent call.now (acceptedTimes (rateKey call.ctx) history)).length : ℤ) < maxPerMinute) ∧
    Kept (history ++ [(call, (RateLimiter.check maxPerMinute windows call).1)])
      (RateLimiter.check maxPerMinute windows call).2 := by
  have h_window := h (rateKey call.ctx) call.now h_now
  unfold RateLimiter.check
  dsimp only
  rw [h_window]
  -- a later reading of the window is later than this call too
  have h_past : ∀ {now : ℚ} {answer : Bool},
      (∀ e ∈ history ++ [(call, answer)], e.1.now ≤ now) →
        (∀ e ∈ history, e.1.now ≤ now) ∧ call.now ≤ now := by
    intro now answer h_all
    exact ⟨fun e h_e => h_all e (List.mem_append_left _ h_e), h_all (call, answer) (by simp)⟩
  split_ifs with h_full
  · refine ⟨iff_of_false (by simp) (not_lt.mpr h_full), fun key now h_all => ?_⟩
    obtain ⟨h_all, h_call⟩ := h_past h_all
    rw [acceptedTimes_append, acceptedTimes_of_not (by simp), List.append_nil, window_set]
    split_ifs with h_key
    · -- a refused call writes the pruned window back, which a later reading prunes further
      rw [← h_key, recent_recent h_call]
    · exact h key now h_all
  · refine ⟨iff_of_true (by simp) (not_le.mp h_full), fun key now h_all => ?_⟩
    obtain ⟨h_all, h_call⟩ := h_past h_all
    rw [acceptedTimes_append, window_set]
    split_ifs with h_key
    · rw [← h_key, acceptedTimes_accepted, recent_append, recent_append, recent_recent h_call]
    · rw [acceptedTimes_of_not (by simpa using h_key), List.append_nil]
      exact h key now h_all

theorem kept_nil : Kept [] [] := fun _ _ _ => rfl

/-- A call is accepted exactly if fewer than the maximum were accepted of its tenant in the last
sixty seconds. -/
def Answers (maxPerMinute : ℤ) (history : List (RateCall × Bool)) : Prop :=
  ∀ pre call answer post, history = pre ++ (call, answer) :: post → (answer = true ↔
    ((recent call.now (acceptedTimes (rateKey call.ctx) pre)).length : ℤ) < maxPerMinute)

/-- **A run**: every call is answered by what was accepted before it. -/
theorem Kept.answers {past : List (RateCall × Bool)} (h : Kept past windows)
    {calls : List RateCall} (h_past : ∀ e ∈ past, ∀ call ∈ calls, e.1.now ≤ call.now)
    (h_times : calls.Pairwise fun c d => c.now ≤ d.now)
    {pre post : List (RateCall × Bool)} {call : RateCall} {answer : Bool}
    (h_eq : answered maxPerMinute windows calls = pre ++ (call, answer) :: post) :
    answer = true ↔
      ((recent call.now (acceptedTimes (rateKey call.ctx) (past ++ pre))).length : ℤ) <
        maxPerMinute := by
  induction calls generalizing past windows pre with
  | nil => simp [answered] at h_eq
  | cons c calls ih =>
    rw [List.pairwise_cons] at h_times
    obtain ⟨h_answer, h_kept⟩ := @Kept.check maxPerMinute windows past h c fun e h_e =>
      h_past e h_e c List.mem_cons_self
    rw [answered_cons] at h_eq
    cases pre with
    | nil =>
      obtain ⟨h_head, -⟩ := List.cons.inj h_eq
      obtain ⟨rfl, rfl⟩ := Prod.mk.inj h_head
      rw [List.append_nil]
      exact h_answer
    -- the first call joins the past of those after it
    | cons e pre =>
      obtain ⟨rfl, h_rest⟩ := List.cons.inj h_eq
      rw [List.append_cons]
      refine ih h_kept ?_ h_times.2 h_rest
      intro e h_e d h_d
      rcases List.mem_append.mp h_e with h_old | h_new
      · exact h_past e h_old d (List.mem_cons_of_mem c h_d)
      · obtain rfl := List.mem_singleton.mp h_new
        exact h_times.1 d h_d

/-- The limiter's answers are those of the sliding window. -/
theorem answers_answered {calls : List RateCall}
    (h_times : calls.Pairwise fun c d => c.now ≤ d.now) :
    Answers maxPerMinute (answered maxPerMinute [] calls) := by
  intro pre call answer post h_eq
  have h_answer := kept_nil.answers (by simp) h_times h_eq
  rwa [List.nil_append] at h_answer

/-! ### The bound -/

/-- **The bound**: of the calls accepted, no more than the maximum lie closer to each other than
sixty seconds. -/
theorem Answers.bound {history : List (RateCall × Bool)} (h : Answers maxPerMinute history)
    {W : ℚ → Bool} (h_W : ∀ t t', W t = true → W t' = true → t - t' < 60) (key : String) :
    (acceptedTimes key history).countP W ≤ maxPerMinute.toNat := by
  induction history using List.reverseRecOn with
  | nil => exact Nat.zero_le _
  | append_singleton history e ih =>
    obtain ⟨call, answer⟩ := e
    have h_before : (acceptedTimes key history).countP W ≤ maxPerMinute.toNat := by
      refine ih fun pre c a post h_eq => h pre c a (post ++ [(call, answer)]) ?_
      rw [h_eq, List.append_assoc, List.cons_append]
    rw [acceptedTimes_append, List.countP_append]
    by_cases h_accepted : answer = true ∧ rateKey call.ctx = key
    · obtain ⟨rfl, rfl⟩ := h_accepted
      rw [acceptedTimes_accepted, List.countP_singleton]
      split_ifs with h_now
      · -- all those in the window before it are recent
        have h_recent : (acceptedTimes (rateKey call.ctx) history).countP W ≤
            (recent call.now (acceptedTimes (rateKey call.ctx) history)).length := by
          unfold recent
          rw [← List.countP_eq_length_filter]
          refine List.countP_mono_left fun t _ h_t => ?_
          exact decide_eq_true (h_W call.now t h_now h_t)
        have h_max := (h history call true [] rfl).mp rfl
        omega
      · exact h_before
    · rw [acceptedTimes_of_not h_accepted]
      exact h_before

/-! ### Other tenants -/

/-- **The calls of a tenant** are answered as if there were no others. -/
theorem answered_filter {windows' : RateWindows} {key : String}
    (h : windows.window key = windows'.window key) (calls : List RateCall) :
    (answered maxPerMinute windows calls).filter (fun e => rateKey e.1.ctx = key) =
      answered maxPerMinute windows' (calls.filter fun call => rateKey call.ctx = key) := by
  induction calls generalizing windows windows' with
  | nil => rfl
  | cons call calls ih =>
    rw [answered_cons, List.filter_cons, List.filter_cons]
    by_cases h_key : rateKey call.ctx = key
    · -- a check reads and writes the window of its own key only
      have h_check : (RateLimiter.check maxPerMinute windows call).1 =
          (RateLimiter.check maxPerMinute windows' call).1 ∧
          (RateLimiter.check maxPerMinute windows call).2.window key =
            (RateLimiter.check maxPerMinute windows' call).2.window key := by
        unfold RateLimiter.check
        dsimp only
        rw [h_key, h]
        split_ifs <;> exact ⟨rfl, by rw [window_set, window_set, if_pos rfl, if_pos rfl]⟩
      simp only [h_key, decide_true, if_true, answered_cons]
      rw [h_check.1, ih h_check.2]
    · have h_other : (RateLimiter.check maxPerMinute windows call).2.window key =
          windows'.window key := by
        unfold RateLimiter.check
        dsimp only
        split_ifs <;> rw [window_set, if_neg h_key, h]
      simp only [h_key, decide_false, Bool.false_eq_true, if_false]
      exact ih h_other

/-- **The rate limit**: of the calls of a tenant, at most the maximum are accepted in any sixty
seconds, whichever end belongs to the window; one is refused only if that many were accepted in the
sixty seconds before it; and the answers are those the tenant gets without the calls of others. -/
theorem rateLimiter_window (maxPerMinute : ℤ) (calls : List RateCall)
    (h_times : calls.Pairwise fun c d => c.now ≤ d.now) (ctx : RunContext) :
    let history := answered maxPerMinute [] calls
    (∀ s : ℚ,
      (acceptedTimes (rateKey ctx) history).countP (fun t => s ≤ t ∧ t < s + 60) ≤
          maxPerMinute.toNat ∧
        (acceptedTimes (rateKey ctx) history).countP (fun t => s < t ∧ t ≤ s + 60) ≤
          maxPerMinute.toNat) ∧
      (∀ pre call post, history = pre ++ (call, false) :: post →
        maxPerMinute ≤
          ((acceptedTimes (rateKey call.ctx) pre).countP fun t => call.now - 60 < t : ℕ)) ∧
      history.filter (fun e => rateKey e.1.ctx = rateKey ctx) =
        answered maxPerMinute [] (calls.filter fun call => rateKey call.ctx = rateKey ctx) := by
  have h := @answers_answered maxPerMinute calls h_times
  -- two times in one window, closed at either end, are less than 60 apart
  refine ⟨fun s => ⟨h.bound ?_ _, h.bound ?_ _⟩, ?_, answered_filter rfl calls⟩
  · intro t t' h_t h_t'
    rw [decide_eq_true_iff] at h_t h_t'
    linarith [h_t.2, h_t'.1]
  · intro t t' h_t h_t'
    rw [decide_eq_true_iff] at h_t h_t'
    linarith [h_t.2, h_t'.1]
  · intro pre call post h_eq
    -- a refused call found its own window full
    have h_full : ¬ ((recent call.now (acceptedTimes (rateKey call.ctx) pre)).length : ℤ) <
        maxPerMinute := fun h_lt => Bool.false_ne_true ((h pre call false post h_eq).mpr h_lt)
    have h_count : (acceptedTimes (rateKey call.ctx) pre).countP (fun t => call.now - 60 < t) =
        (recent call.now (acceptedTimes (rateKey call.ctx) pre)).length := by
      unfold recent
      rw [List.countP_eq_length_filter]
      congr 1
      refine List.filter_congr fun t _ => ?_
      rw [decide_eq_decide]
      exact sub_lt_comm
    rw [h_count]
    exact not_lt.mp h_full

/-- Three calls of two tenants. -/
theorem rateLimiter_window_two :
    let acme : RunContext := { tenantId := some "acme" }
    let other : RunContext := { tenantId := some "other" }
    let calls : List RateCall := [⟨acme, 0⟩, ⟨other, 1⟩, ⟨acme, 2⟩]
    (acceptedTimes (rateKey acme) (answered 1 [] calls)).countP (fun t => 0 ≤ t ∧ t < 0 + 60) ≤ 1 :=
  ((rateLimiter_window 1 [⟨{ tenantId := some "acme" }, 0⟩, ⟨{ tenantId := some "other" }, 1⟩,
    ⟨{ tenantId := some "acme" }, 2⟩] (by decide +kernel) { tenantId := some "acme" }).1 0).1

end Nexus.Guardrails
