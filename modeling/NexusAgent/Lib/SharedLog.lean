import Mathlib.Data.List.Basic
import Mathlib.Logic.Function.Basic
import Mathlib.Tactic.Common
import NexusAgent.Lib.Steps

/-!
# A shared log that is also written as a whole

Several parties share a list of entries. An entry is added by an atomic append; but each
party also holds copies of the list, and may write one of them back over it. A copy that
was taken before another party's append then erases that entry.

* `LogView`: the list, the copies (`ρ` names the places they are kept in), and every entry
  that was appended; `LogView.apply`: what the operations do to it.
* `LogView.Spares`: an operation that cannot erase an appended entry. It is an append, or
  takes a copy, or writes back one that was taken after the last append and drops none of
  the appended entries.
* `LogView.Sound`: the invariant of the operations that spare the log.
* `sound_of_spared`: a system whose steps are such operations, seen through a view, keeps the
   appended entries in the list, each of them once.
-/

namespace Lib

variable {σ α ρ τ : Type*}

/-- A copy of the list; `seen` counts the appends there had been when it was taken. -/
structure LogCopy (τ : Type*) where
  entries : List τ
  seen : ℕ

/-- The shared list with its copies. `appended` is a record of the entries that were ever
appended, in the order they were. -/
structure LogView (ρ τ : Type*) where
  contents : List τ
  copies : ρ → Option (LogCopy τ)
  appended : List τ

/-- An operation: take a copy, write one back without the entries `p` rejects, append. -/
inductive LogEffect (ρ τ : Type*)
  | idle
  | fetched (r : ρ)
  | written (r : ρ) (p : τ → Bool)
  | appended (x : τ)

namespace LogView

section

variable [DecidableEq ρ]

/-- What an operation does. A copy that was written back is what the list is now. -/
def apply (v : LogView ρ τ) : LogEffect ρ τ → LogView ρ τ
  | .idle => v
  | .fetched r =>
    { v with copies := Function.update v.copies r (some ⟨v.contents, v.appended.length⟩) }
  | .written r p =>
    match v.copies r with
    | none => v
    | some c =>
      { v with
        contents := c.entries.filter p
        copies := Function.update v.copies r (some ⟨c.entries.filter p, c.seen⟩) }
  | .appended x => { v with contents := v.contents ++ [x], appended := v.appended ++ [x] }

end

/-- An operation that cannot erase an appended entry. -/
def Spares (v : LogView ρ τ) : LogEffect ρ τ → Prop
  | .written r p => (∀ c ∈ v.copies r, c.seen = v.appended.length) ∧ ∀ x ∈ v.appended, p x = true
  | _ => True

/-- `v` is `w`, but for copies that were given up. -/
structure Within (v w : LogView ρ τ) : Prop where
  contents : v.contents = w.contents
  copies : ∀ r c, v.copies r = some c → w.copies r = some c
  appended : v.appended = w.appended

/-- The list is part of `base` followed by all the entries that were appended. -/
def Kept (base : List τ) (v : LogView ρ τ) : Prop :=
  ∃ kept, kept.Sublist base ∧ v.contents = kept ++ v.appended

/-- The appended entries are kept, and every copy has those that it was taken after. -/
structure Sound (base : List τ) (v : LogView ρ τ) : Prop where
  kept : v.Kept base
  copies : ∀ r c, v.copies r = some c → c.seen ≤ v.appended.length ∧
    ∃ kept, kept.Sublist base ∧ c.entries = kept ++ v.appended.take c.seen

variable {base : List τ} {v w : LogView ρ τ}

/-- A part of a sound state is sound. -/
theorem Sound.within (h : Sound base w) (h_within : Within v w) : Sound base v where
  kept := by
    obtain ⟨kept, h_kept, h_eq⟩ := h.kept
    exact ⟨kept, h_kept, by rw [h_within.contents, h_within.appended, h_eq]⟩
  copies r c h_c := h_within.appended ▸ h.copies r c (h_within.copies r c h_c)

/-- Before the first operation. -/
theorem sound_start {v : LogView ρ τ} (h_copies : ∀ r, v.copies r = none)
    (h_appended : v.appended = []) : Sound v.contents v where
  kept := ⟨v.contents, List.Sublist.refl _, by rw [h_appended, List.append_nil]⟩
  copies r c h_c := by simp [h_copies r] at h_c

variable [DecidableEq ρ]

/-- Taking a copy. -/
theorem Sound.fetched (h : Sound base v) (r : ρ) : Sound base (v.apply (.fetched r)) where
  kept := h.kept
  copies r' c h_c := by
    by_cases h_r : r' = r
    · -- the new copy is the list itself
      subst h_r
      obtain rfl : ⟨v.contents, v.appended.length⟩ = c := by simpa [apply] using h_c
      obtain ⟨kept, h_kept, h_eq⟩ := h.kept
      exact ⟨Nat.le_refl _, kept, h_kept, by simpa [apply] using h_eq⟩
    · exact h.copies r' c (by simpa [apply, h_r] using h_c)

/-- Writing back a copy that has all appended entries, without dropping one. -/
theorem Sound.written (h : Sound base v) {r : ρ} {p : τ → Bool}
    (h_spares : v.Spares (.written r p)) : Sound base (v.apply (.written r p)) := by
  obtain ⟨h_seen, h_p⟩ := h_spares
  cases h_copy : v.copies r with
  | none => simpa [apply, h_copy] using h
  | some c =>
    have h_eq : v.apply (.written r p) =
        { v with
          contents := c.entries.filter p
          copies := Function.update v.copies r (some ⟨c.entries.filter p, c.seen⟩) } := by
      simp only [apply, h_copy]
    obtain ⟨h_le, kept, h_kept, h_entries⟩ := h.copies r c h_copy
    have h_full := h_seen c h_copy
    -- a copy that has seen every append writes them all back: the filter spares them
    have h_filtered : c.entries.filter p = kept.filter p ++ v.appended := by
      rw [h_entries, h_full, List.take_length, List.filter_append, List.filter_eq_self.mpr h_p]
    have h_sub : (kept.filter p).Sublist base := List.filter_sublist.trans h_kept
    rw [h_eq]
    refine ⟨⟨kept.filter p, h_sub, h_filtered⟩, fun r' c' h_c => ?_⟩
    by_cases h_r : r' = r
    · subst h_r
      obtain rfl : ⟨c.entries.filter p, c.seen⟩ = c' := by simpa using h_c
      refine ⟨h_le, kept.filter p, h_sub, ?_⟩
      show c.entries.filter p = kept.filter p ++ v.appended.take c.seen
      rw [h_filtered, h_full, List.take_length]
    · exact h.copies r' c' (by simpa [h_r] using h_c)

/-- An append: what a copy has seen is still the beginning of the record. -/
theorem Sound.appended (h : Sound base v) (x : τ) : Sound base (v.apply (.appended x)) where
  kept := by
    obtain ⟨kept, h_kept, h_eq⟩ := h.kept
    refine ⟨kept, h_kept, ?_⟩
    -- the new entry comes behind those that were kept
    show v.contents ++ [x] = kept ++ (v.appended ++ [x])
    rw [h_eq, List.append_assoc]
  copies r c h_c := by
    obtain ⟨h_le, kept, h_kept, h_eq⟩ := h.copies r c h_c
    refine ⟨?_, kept, h_kept, ?_⟩
    · -- a copy has seen none of the new entries
      show c.seen ≤ (v.appended ++ [x]).length
      rw [List.length_append]
      exact Nat.le_add_right_of_le h_le
    · show c.entries = kept ++ (v.appended ++ [x]).take c.seen
      rw [List.take_append_of_le_length h_le, h_eq]

/-- **One operation** that spares the log. -/
theorem Sound.apply (h : Sound base v) {e : LogEffect ρ τ} (h_spares : v.Spares e) :
    Sound base (v.apply e) := by
  cases e with
  | idle => exact h
  | fetched r => exact h.fetched r
  | written r p => exact h.written h_spares
  | appended x => exact h.appended x

end LogView

/-- **The shared log**: in a run of a system whose steps, seen through `view`, are such
operations, and each of them spares the log, all appended entries are kept. -/
theorem sound_of_spared [DecidableEq ρ] {step : σ → α → Option σ} {I : σ → Prop}
    {C : σ → α → Prop} {view : σ → LogView ρ τ} {effect : σ → α → LogEffect ρ τ} {s₀ : σ}
    (h_init : I s₀)
    (h_step : ∀ s a t, I s → step s a = some t →
      I t ∧ (view t).Within ((view s).apply (effect s a)))
    (h_spares : ∀ s a, C s a → (view s).Spares (effect s a))
    (h_copies : ∀ r, (view s₀).copies r = none) (h_appended : (view s₀).appended = [])
    {as : List α} {s : σ} (h : runSteps step s₀ as = some s) (h_each : EachStep step C s₀ as) :
    (view s).Sound (view s₀).contents := by
  -- the invariant and the soundness of the view, together along the run
  have h_inv : I s ∧ (view s).Sound (view s₀).contents :=
    runSteps_history_of_each (I := fun _ s => I s ∧ (view s).Sound (view s₀).contents)
      ⟨h_init, LogView.sound_start h_copies h_appended⟩
      (fun _ s a t _ ⟨hI, h_sound⟩ h_C h_a =>
        ⟨(h_step s a t hI h_a).1,
          (h_sound.apply (h_spares s a h_C)).within (h_step s a t hI h_a).2⟩)
      h h_each
  exact h_inv.2

end Lib
