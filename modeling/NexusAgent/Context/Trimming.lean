import Mathlib.Data.List.Flatten
import NexusAgent.Context.Budget
import NexusAgent.Lib.While

/-!
# What the budgeting loop trims

The loop of `ContextWindowBuilder.build` as passes that go on or leave. The records that are shown
as a notice are marked by their ids. While records of the window are left to mark, no turn is
dropped, so that the marked ids are those of the session's oldest unsummarized records.

* `passes_buildWindow`: the loop ends, after at most a pass for each unsummarized record and each
  turn and one more.
* `trimmed_of_visited`: what holds of every window on the way.
* `Trimmed.notices_prefix`: among records of distinct ids, the oldest ones are shown as a notice.
-/

open Lib

namespace Nexus

variable (cfg : BuilderConfig) (counter : TokenCounter) (inp : BuildInput)

/-- The window with the token count of the first pass entered. -/
def Window.tally (total : ℕ) (w : Window) : Window :=
  if w.untrimmedTokens = 0 then { w with untrimmedTokens := total } else w

theorem Window.untallied_tally (total : ℕ) (w : Window) :
    (w.tally total).untallied = w.untallied := by
  unfold tally
  split_ifs <;> rfl

@[simp] theorem Window.turns_tally (total : ℕ) (w : Window) : (w.tally total).turns = w.turns := by
  unfold tally
  split_ifs <;> rfl

@[simp] theorem Window.degradedTcIds_tally (total : ℕ) (w : Window) :
    (w.tally total).degradedTcIds = w.degradedTcIds := by
  unfold tally
  split_ifs <;> rfl

/-- A pass of the budgeting loop. -/
def budgetPass (w : Window) : Window ⊕ Window :=
  let total := counter.countMessages (windowMessages cfg counter inp w)
  if (total : ℤ) ≤ inp.tokenBudget then .inr (w.tally total)
  else
    match (w.tally total).trim with
    | some w' => .inl w'
    | none => .inr (w.tally total)

/-- The loop, pass by pass. -/
theorem budgetLoop_eq (n : ℕ) (w : Window) :
    budgetLoop cfg counter inp n w = runPasses (budgetPass cfg counter inp) n w := by
  induction n generalizing w with
  | zero => rfl
  | succ n ih =>
    simp only [budgetLoop, runPasses, budgetPass, Window.tally]
    -- the tally changes no decision of the pass
    generalize (if w.untrimmedTokens = 0 then { w with
      untrimmedTokens := counter.countMessages (windowMessages cfg counter inp w) } else w) = v
    split_ifs
    · rfl
    · unfold Window.trim
      -- a degraded result, or the oldest turn dropped, goes on; else the loop ends
      cases degradeOldestTool v.turns v.degradedTcIds with
      | some tcId => exact ih _
      | none =>
        cases v.turns with
        | nil => rfl
        | cons _ turns => exact ih _

section Passes

variable {cfg counter inp} {w v : Window} {s : AgentSession}

/-- A pass that goes on has trimmed a window that did not fit. -/
theorem budgetPass_eq_inl (h : budgetPass cfg counter inp w = .inl v) :
    ¬ w.Fits cfg counter inp ∧ w.untallied.trim = some v.untallied := by
  unfold budgetPass at h
  dsimp only at h
  split_ifs at h with h_fits
  refine ⟨h_fits, ?_⟩
  rw [← Window.untallied_tally, Window.trim_untallied]
  -- the pass goes on only where something was left to trim
  split at h
  · next w' h_trim =>
    rw [h_trim, Sum.inl.inj h]
    rfl
  · cases h

/-- A pass that leaves keeps the window. -/
theorem budgetPass_eq_inr (h : budgetPass cfg counter inp w = .inr v) :
    v.untallied = w.untallied := by
  unfold budgetPass at h
  dsimp only at h
  split_ifs at h with h_fits
  · rw [← Sum.inr.inj h, Window.untallied_tally]
  · split at h
    · cases h
    · rw [← Sum.inr.inj h, Window.untallied_tally]

/-! ### The number of passes -/

/-- The unsummarized records of turns, oldest first. -/
def unsummarized (turns : List TurnRecord) : List ToolCallRecord :=
  (turns.flatMap TurnRecord.toolCalls).filter fun tc => summaryText tc = ""

/-- The raw calls are those without a summary that are not degraded. -/
theorem raw_eq (w : Window) :
    w.raw = (unsummarized w.turns).filter fun tc => tc.tcId ∉ w.degradedTcIds := by
  rw [Window.raw, unsummarized, List.filter_filter]
  refine List.filter_congr fun tc _ => ?_
  rw [Bool.decide_and]

/-- The fuel suffices for degrading each call and dropping each turn. -/
theorem unsummarized_add_le (turns : List TurnRecord) :
    (unsummarized turns).length + turns.length + 1 ≤ budgetFuel turns := by
  have h_le : (unsummarized turns).length ≤ (turns.flatMap TurnRecord.toolCalls).length :=
    List.length_filter_le _ _
  unfold budgetFuel
  omega

variable (cfg counter inp) in
/-- **The budgeting loop ends**: after at most a pass for each unsummarized record, one for each
turn, and one. -/
theorem passes_buildWindow :
    ∃ n ≤ (unsummarized inp.session.turns).length + inp.session.turns.length + 1,
      Passes (budgetPass cfg counter inp) (fullWindow inp.session) n
        (buildWindow cfg counter inp) := by
  -- a pass takes a raw result or a turn away
  have h_lower : ∀ w v, budgetPass cfg counter inp w = .inl v →
      v.raw.length + v.turns.length < w.raw.length + w.turns.length := by
    intro w v h
    have h_lt := Window.trim_lt (budgetPass_eq_inl h).2
    exact h_lt
  obtain ⟨n, t, h_n, h_passes⟩ :=
    exists_passes (fun w => w.raw.length + w.turns.length) h_lower (fullWindow inp.session)
  -- at first every unsummarized result is raw
  have h_raw : (fullWindow inp.session).raw = unsummarized inp.session.turns := by
    rw [raw_eq]
    exact List.filter_eq_self.mpr fun tc _ => by simp [fullWindow]
  rw [h_raw] at h_n
  -- so the fuel of the loop is enough
  have h_window : buildWindow cfg counter inp = t := by
    rw [buildWindow, budgetLoop_eq]
    exact h_passes.run_eq (h_n.trans (unsummarized_add_le inp.session.turns))
  exact ⟨n, h_n, h_window ▸ h_passes⟩

/-! ### The windows on the way -/

/-- The records of a window that are shown as a notice. -/
def Window.notices (w : Window) : List ToolCallRecord :=
  (w.turns.flatMap TurnRecord.toolCalls).filter fun tc => tc.tcId ∈ w.degradedTcIds

/-- **A window on the way**: its turns are the last ones of the session, no record of it is left to
degrade once a turn was dropped, and the degraded ids are those of the session's oldest
unsummarized records. -/
structure Trimmed (s : AgentSession) (w : Window) : Prop where
  turns : w.turns = s.turns.drop w.turnsDropped
  spent : w.turnsDropped ≠ 0 → w.raw = []
  oldest : ∃ older, older <+: unsummarized s.turns ∧
    ∀ id, id ∈ w.degradedTcIds ↔ id ∈ older.map ToolCallRecord.tcId

theorem trimmed_untallied : Trimmed s w.untallied ↔ Trimmed s w :=
  ⟨fun ⟨h, h', h''⟩ => ⟨h, h', h''⟩, fun ⟨h, h', h''⟩ => ⟨h, h', h''⟩⟩

theorem trimmed_fullWindow : Trimmed s (fullWindow s) where
  turns := rfl
  spent h := absurd rfl h
  oldest := ⟨[], List.nil_prefix, fun id => by simp [fullWindow]⟩

/-- The two ways to trim a window. -/
theorem trim_cases (h : w.trim = some v) :
    (∃ tc before after, unsummarized w.turns = before ++ tc :: after ∧
        (∀ b ∈ before, b.tcId ∈ w.degradedTcIds) ∧ tc.tcId ∉ w.degradedTcIds ∧
        v = { w with degradedTcIds := tc.tcId :: w.degradedTcIds }) ∨
      w.raw = [] ∧ ∃ turn turns, w.turns = turn :: turns ∧
        v = { w with turns := turns, turnsDropped := w.turnsDropped + 1 } := by
  -- the oldest call still raw, looked for among those without a summary
  have h_find : degradeOldestTool w.turns w.degradedTcIds =
      ((unsummarized w.turns).find? fun tc => tc.tcId ∉ w.degradedTcIds).map
        ToolCallRecord.tcId := by
    rw [degradeOldestTool, unsummarized, List.find?_filter]
    simp only [Bool.decide_and, and_comm, decide_eq_true_eq]
  unfold Window.trim at h
  rw [h_find] at h
  cases h_oldest : (unsummarized w.turns).find? fun tc => tc.tcId ∉ w.degradedTcIds with
  | some tc =>
    rw [h_oldest] at h
    obtain ⟨h_new, before, after, h_split, h_before⟩ := List.find?_eq_some_iff_append.mp h_oldest
    refine .inl ⟨tc, before, after, h_split, fun b h_b => ?_, by simpa using h_new, ?_⟩
    · simpa using h_before b h_b
    · exact (Option.some.inj h).symm
  | none =>
    rw [h_oldest] at h
    refine .inr ⟨?_, ?_⟩
    · rw [raw_eq, List.filter_eq_nil_iff]
      exact List.find?_eq_none.mp h_oldest
    · cases h_turns : w.turns with
      | nil => rw [h_turns] at h; cases h
      | cons turn turns =>
        rw [h_turns] at h
        exact ⟨turn, turns, rfl, (Option.some.inj h).symm⟩

/-- With fewer turns and the same degraded calls nothing becomes raw. -/
theorem raw_suffix {w v : Window} (h_turns : v.turns <:+ w.turns)
    (h_ids : v.degradedTcIds = w.degradedTcIds) (h : w.raw = []) : v.raw = [] := by
  obtain ⟨front, h_front⟩ := h_turns
  rw [Window.raw, ← h_front, List.flatMap_append, List.filter_append, ← h_ids] at h
  exact (List.append_eq_nil_iff.mp h).2

/-- **One trimming step** from a window on the way. -/
theorem Trimmed.trim (h : Trimmed s w) (h_trim : w.trim = some v) : Trimmed s v := by
  obtain ⟨older, h_older, h_ids⟩ := h.oldest
  rcases trim_cases h_trim with
    ⟨tc, before, after, h_split, h_before, h_new, rfl⟩ | ⟨h_raw, turn, turns, h_turns, rfl⟩
  · -- a record is degraded while no turn was dropped
    have h_zero : w.turnsDropped = 0 := by
      by_contra h_dropped
      have h_mem : tc ∈ w.raw := by
        rw [raw_eq, h_split]
        exact List.mem_filter.mpr ⟨by simp, by simpa using h_new⟩
      rw [h.spent h_dropped] at h_mem
      exact List.not_mem_nil h_mem
    have h_all : w.turns = s.turns := by rw [h.turns, h_zero, List.drop_zero]
    rw [h_all] at h_split
    have h_prefix : before ++ [tc] <+: unsummarized s.turns :=
      ⟨after, by rw [h_split, List.append_assoc, List.singleton_append]⟩
    refine ⟨h.turns, fun h_dropped => absurd h_zero h_dropped, before ++ [tc], h_prefix,
      fun id => ?_⟩
    -- what was degraded so far lies before the record
    have h_not : tc ∉ older := fun h_mem =>
      h_new ((h_ids tc.tcId).mpr (List.mem_map_of_mem h_mem))
    have h_within : older ⊆ before := by
      rcases List.prefix_or_prefix_of_prefix h_older h_prefix with h_short | h_long
      · rcases List.prefix_concat_iff.mp h_short with h_eq | h_before'
        · exact absurd (h_eq ▸ List.mem_append_right before List.mem_cons_self) h_not
        · exact h_before'.subset
      · exact absurd (h_long.subset (List.mem_append_right before List.mem_cons_self)) h_not
    show id ∈ tc.tcId :: w.degradedTcIds ↔ _
    rw [List.map_append, List.mem_append, List.mem_cons, or_comm]
    refine or_congr ⟨fun h_id => ?_, fun h_id => ?_⟩ (by simp)
    · exact List.map_subset _ h_within ((h_ids id).mp h_id)
    · obtain ⟨b, h_b, rfl⟩ := List.mem_map.mp h_id
      exact h_before b h_b
  · refine ⟨?_, fun _ => ?_, older, h_older, h_ids⟩
    · show turns = s.turns.drop (w.turnsDropped + 1)
      rw [← List.drop_drop, ← h.turns, h_turns]
      rfl
    · have h_turns' : turns <:+ w.turns := ⟨[turn], by rw [h_turns]; rfl⟩
      exact raw_suffix (w := w) h_turns' rfl h_raw

/-- **Every window on the way.** -/
theorem trimmed_of_visited
    (h : Visited (budgetPass cfg counter inp) (fullWindow inp.session) w) :
    Trimmed inp.session w := by
  refine h.invariant (I := Trimmed inp.session) (fun w v h_w h_pass => ?_) trimmed_fullWindow
  rw [← trimmed_untallied] at h_w ⊢
  exact h_w.trim (budgetPass_eq_inl h_pass).2

/-- **The window the loop is left with.** -/
theorem trimmed_buildWindow : Trimmed inp.session (buildWindow cfg counter inp) := by
  obtain ⟨n, -, h_passes⟩ := passes_buildWindow cfg counter inp
  obtain ⟨w, h_visited, h_leave⟩ := h_passes.exists_last
  rw [← trimmed_untallied, budgetPass_eq_inr h_leave, trimmed_untallied]
  exact trimmed_of_visited h_visited

/-- A turn is dropped from a window with no record left to degrade. -/
theorem raw_of_dropped (h : budgetPass cfg counter inp w = .inl v)
    (h_dropped : v.turnsDropped ≠ w.turnsDropped) : w.raw = [] := by
  rcases trim_cases (budgetPass_eq_inl h).2 with ⟨tc, -, -, -, -, -, h_eq⟩ | ⟨h_raw, -⟩
  · exact absurd (congrArg Window.turnsDropped h_eq) h_dropped
  · exact h_raw

/-! ### The records shown as a notice -/

/-- Elements told apart by a key are found by the keys of a part of them. -/
theorem filter_mem_map {α κ : Type} [DecidableEq κ] {key : α → κ} {xs ys : List α}
    (h_sub : ys.Sublist xs) (h : (xs.map key).Nodup) :
    (xs.filter fun x => key x ∈ ys.map key) = ys := by
  induction h_sub with
  | slnil => rfl
  | @cons ys xs x h_sub ih =>
    rw [List.map_cons, List.nodup_cons] at h
    -- this one is not kept: none of those kept has its key
    rw [List.filter_cons_of_neg, ih h.2]
    simpa using fun y h_y h_eq => h.1 (List.mem_map.mpr ⟨y, h_sub.subset h_y, h_eq⟩)
  -- this one is kept, and no other has its key
  | @cons_cons ys xs x h_sub ih =>
    rw [List.map_cons, List.nodup_cons] at h
    rw [List.filter_cons_of_pos (by simp)]
    congr 1
    refine (List.filter_congr fun z h_z => ?_).trans (ih h.2)
    have h_ne : key z ≠ key x := fun h_eq => h.1 (h_eq ▸ List.mem_map_of_mem h_z)
    simp [h_ne]

/-- **The oldest ones**: among records of distinct ids, those shown as a notice come before all
other unsummarized records of the window. -/
theorem Trimmed.notices_prefix (h : Trimmed s w)
    (h_ids : ((s.turns.flatMap TurnRecord.toolCalls).map ToolCallRecord.tcId).Nodup) :
    w.notices <+: unsummarized w.turns := by
  obtain ⟨older, h_older, h_degraded⟩ := h.oldest
  have h_all : (s.turns.flatMap TurnRecord.toolCalls).filter (fun tc => tc.tcId ∈ w.degradedTcIds) =
      older := by
    have h_sub := h_older.sublist.trans List.filter_sublist
    rw [← filter_mem_map h_sub h_ids]
    exact List.filter_congr fun tc _ => by simp only [h_degraded]
  by_cases h_dropped : w.turnsDropped = 0
  · have h_turns : w.turns = s.turns := by rw [h.turns, h_dropped, List.drop_zero]
    rw [Window.notices, h_turns, h_all]
    exact h_older
  · -- every unsummarized record of the window is shown as one, and no other record is
    have h_within : (w.turns.flatMap TurnRecord.toolCalls).Sublist
        (s.turns.flatMap TurnRecord.toolCalls) := by
      rw [h.turns]
      exact (List.drop_sublist _ _).flatMap _
    have h_eq : w.notices = unsummarized w.turns := by
      refine List.filter_congr fun tc h_tc => ?_
      have h_raw := List.filter_eq_nil_iff.mp (h.spent h_dropped) tc h_tc
      have h_mem : tc.tcId ∈ w.degradedTcIds → summaryText tc = "" := by
        intro h_id
        have h_older' : tc ∈ older := by
          rw [← h_all]
          exact List.mem_filter.mpr ⟨h_within.subset h_tc, by simpa using h_id⟩
        simpa using (List.mem_filter.mp (h_older.subset h_older')).2
      simp only [decide_eq_true_eq, not_and_or, not_not] at h_raw
      rw [decide_eq_decide]
      exact ⟨h_mem, fun h_text => h_raw.resolve_right fun h_not => h_not h_text⟩
    rw [h_eq]


end Passes

end Nexus
