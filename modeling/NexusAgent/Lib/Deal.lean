import Mathlib.Data.List.Basic
import Mathlib.Data.List.Perm.Basic
import Mathlib.Tactic.Common

/-!
# Dealing a list out

A list is dealt out to takers one after the other. A taker gets every remaining item it wants,
and then as many items as it got are struck off the front: a dealer that keeps a cursor, and
moves it by the size of what it handed out. That is right when what a taker wants comes first.

* `deal_flatten_iff`: the hands together are the list exactly when it is `Dealt`, that is, when
  every item has a taker and first takers never move backward along the list.
* `deal_flatten_of_perm`: hands that are the items in some order are the list.
-/

namespace Lib

variable {α : Type} {w : α → Bool} {ws : List (α → Bool)} {ys : List α}

/-- The hands of the takers `ws`. -/
def deal : List (α → Bool) → List α → List (List α)
  | [], _ => []
  | w :: ws, ys => ys.filter w :: deal ws (ys.drop (ys.filter w).length)

/-- The first of the takers that wants `y`; their number when none does. -/
def firstTaker (ws : List (α → Bool)) (y : α) : ℕ := ws.findIdx fun w => w y

/-- Every item has a taker, and first takers never move backward. -/
structure Dealt (ws : List (α → Bool)) (ys : List α) : Prop where
  taken : ∀ y ∈ ys, ∃ w ∈ ws, w y = true
  inOrder : ys.Pairwise fun y y' => firstTaker ws y ≤ firstTaker ws y'

theorem firstTaker_cons (w : α → Bool) (ws : List (α → Bool)) (y : α) :
    firstTaker (w :: ws) y = if w y then 0 else firstTaker ws y + 1 := by
  rw [firstTaker, List.findIdx_cons]
  cases w y <;> rfl

/-- An item comes no later than another when no taker wants the other before a later taker
wants it. -/
theorem firstTaker_le {y y' : α} (h : ws.Pairwise fun w w' => w y' = true → w' y = false)
    (h_y : ∃ w ∈ ws, w y = true) : firstTaker ws y ≤ firstTaker ws y' := by
  induction ws with
  | nil => exact Nat.le_refl _
  | cons w ws ih =>
    obtain ⟨h_head, h_tail⟩ := List.pairwise_cons.mp h
    rw [firstTaker_cons, firstTaker_cons]
    -- the first of them takes `y` already
    by_cases h_w : w y = true
    · rw [if_pos h_w]
      exact Nat.zero_le _
    · -- another takes `y`, so this one takes neither
      obtain ⟨w', h_mem, h_w'⟩ := h_y
      have h_rest : w' ∈ ws := (List.mem_cons.mp h_mem).resolve_left (by rintro rfl; exact h_w h_w')
      have h_not : w y' ≠ true := fun h_y' => by
        rw [h_head w' h_rest h_y'] at h_w'
        cases h_w'
      rw [if_neg h_w, if_neg h_not]
      exact Nat.succ_le_succ (ih h_tail ⟨w', h_rest, h_w'⟩)

/-! ### What is wanted comes first -/

/-- When as many items as a filter keeps are kept at the front, none is kept behind them. -/
theorem filter_drop_eq_nil (h : ∀ y ∈ ys.take (ys.filter w).length, w y = true) :
    (ys.drop (ys.filter w).length).filter w = [] := by
  -- the filter's length is that of the two parts' filters
  have h_length : (ys.filter w).length =
      (ys.filter w).length + ((ys.drop (ys.filter w).length).filter w).length := by
    calc (ys.filter w).length
        = ((ys.take (ys.filter w).length ++ ys.drop (ys.filter w).length).filter w).length := by
          rw [List.take_append_drop]
      _ = (ys.take (ys.filter w).length).length +
            ((ys.drop (ys.filter w).length).filter w).length := by
          rw [List.filter_append, List.length_append, List.filter_eq_self.mpr h]
      _ = _ := by rw [List.length_take, Nat.min_eq_left (List.length_filter_le _ _)]
  exact List.eq_nil_of_length_eq_zero (by omega)

/-- If the filter takes the front, the result is a prefix. -/
theorem filter_eq_take_of_forall (h : ∀ y ∈ ys.take (ys.filter w).length, w y = true) :
    ys.filter w = ys.take (ys.filter w).length := by
  calc ys.filter w
      = (ys.take (ys.filter w).length ++ ys.drop (ys.filter w).length).filter w := by
        rw [List.take_append_drop]
    _ = ys.take (ys.filter w).length := by
        rw [List.filter_append, List.filter_eq_self.mpr h, filter_drop_eq_nil h, List.append_nil]

/-- When the items of a filter come first, none of them is left behind it. -/
theorem filter_drop_of_filter_eq_take (h : ys.filter w = ys.take (ys.filter w).length) :
    (∀ y ∈ ys.take (ys.filter w).length, w y = true) ∧
      ∀ y ∈ ys.drop (ys.filter w).length, w y = false := by
  have h_take : ∀ y ∈ ys.take (ys.filter w).length, w y = true := by
    rw [← h]
    exact fun y hy => (List.mem_filter.mp hy).2
  refine ⟨h_take, fun y hy => Bool.eq_false_iff.mpr ?_⟩
  exact List.filter_eq_nil_iff.mp (filter_drop_eq_nil h_take) y hy

/-- The filter takes the beginning when what it takes comes before what it leaves. -/
theorem filter_eq_take_iff :
    ys.filter w = ys.take (ys.filter w).length ↔
      ys.Pairwise fun y y' => w y' = true → w y = true := by
  constructor
  · intro h
    -- so all of the first part is taken, and nothing of the rest
    obtain ⟨h_take, h_drop⟩ := filter_drop_of_filter_eq_take h
    rw [← List.take_append_drop (ys.filter w).length ys, List.pairwise_append]
    refine ⟨List.pairwise_of_forall_mem_list fun y hy y' _ _ => h_take y hy,
      List.pairwise_of_forall_mem_list fun y _ y' hy' h_w => ?_, fun y hy y' _ _ => h_take y hy⟩
    exact absurd h_w (by simp [h_drop y' hy'])
  · intro h
    induction ys with
    | nil => rfl
    | cons y ys ih =>
      obtain ⟨h_head, h_tail⟩ := List.pairwise_cons.mp h
      by_cases h_w : w y = true
      · rw [List.filter_cons_of_pos h_w, List.length_cons, List.take_succ_cons, ← ih h_tail]
      · -- a head that is not taken leaves nothing behind it to take
        have h_none : (y :: ys).filter w = [] := by
          rw [List.filter_cons_of_neg h_w]
          exact List.filter_eq_nil_iff.mpr fun y' hy' h_w' => h_w (h_head y' hy' h_w')
        rw [h_none]
        rfl

/-! ### Hands and the list -/

/-- What being dealt means for the first taker and for the others. -/
theorem dealt_cons : Dealt (w :: ws) ys ↔
    ys.filter w = ys.take (ys.filter w).length ∧ Dealt ws (ys.drop (ys.filter w).length) := by
  constructor
  · rintro ⟨h_taken, h_order⟩
    have h_first : ys.filter w = ys.take (ys.filter w).length := by
      -- what the first taker wants comes before everything it does not want
      refine filter_eq_take_iff.mpr (h_order.imp fun {y y'} h_le h_w => ?_)
      rw [firstTaker_cons, firstTaker_cons, if_pos h_w] at h_le
      by_contra h_not
      rw [if_neg h_not] at h_le
      exact absurd h_le (by omega)
    have h_rest := (filter_drop_of_filter_eq_take h_first).2
    refine ⟨h_first, fun y hy => ?_, ?_⟩
    · obtain ⟨w', h_mem, h_w'⟩ := h_taken y (List.mem_of_mem_drop hy)
      refine ⟨w', (List.mem_cons.mp h_mem).resolve_left ?_, h_w'⟩
      rintro rfl
      exact absurd h_w' (by simp [h_rest y hy])
    · refine (h_order.sublist (List.drop_sublist _ _)).imp_of_mem fun {y y'} hy hy' h_le => ?_
      -- behind it the takers are those of `ws`, one place further
      rw [firstTaker_cons, firstTaker_cons, h_rest y hy, h_rest y' hy'] at h_le
      exact Nat.le_of_succ_le_succ h_le
  · rintro ⟨h_first, h_taken, h_order⟩
    obtain ⟨h_take, h_drop⟩ := filter_drop_of_filter_eq_take h_first
    -- the values of the first taker, and then those dealt to the others
    rw [← List.take_append_drop (ys.filter w).length ys]
    refine ⟨List.forall_mem_append.mpr ⟨fun y hy => ⟨w, List.mem_cons_self, h_take y hy⟩, ?_⟩, ?_⟩
    · intro y hy
      obtain ⟨w', h_mem, h_w'⟩ := h_taken y hy
      exact ⟨w', List.mem_cons_of_mem _ h_mem, h_w'⟩
    · refine List.pairwise_append.mpr
        ⟨List.pairwise_of_forall_mem_list fun y hy y' _ => ?_, h_order.imp_of_mem ?_, fun y hy y' _ => ?_⟩
      · rw [firstTaker_cons, if_pos (h_take y hy)]
        exact Nat.zero_le _
      · intro y y' hy hy' h_le
        rw [firstTaker_cons, firstTaker_cons, h_drop y hy, h_drop y' hy']
        exact Nat.succ_le_succ h_le
      · rw [firstTaker_cons, if_pos (h_take y hy)]
        exact Nat.zero_le _

/-- **The hands are the list** exactly when it is dealt. -/
theorem deal_flatten_iff : (deal ws ys).flatten = ys ↔ Dealt ws ys := by
  induction ws generalizing ys with
  | nil =>
    constructor
    · intro h
      obtain rfl : [] = ys := h
      exact ⟨by simp, .nil⟩
    · intro h
      refine (List.eq_nil_iff_forall_not_mem.mpr fun y hy => ?_).symm
      obtain ⟨w, h_mem, -⟩ := h.taken y hy
      cases h_mem
  | cons w ws ih =>
    rw [dealt_cons, ← ih, deal, List.flatten_cons]
    -- the first hand is as long as the part of the row it has to equal
    have h_len : (ys.filter w).length = (ys.take (ys.filter w).length).length := by
      rw [List.length_take, Nat.min_eq_left (List.length_filter_le _ _)]
    constructor
    · intro h
      exact List.append_inj (h.trans (List.take_append_drop (ys.filter w).length ys).symm) h_len
    · rintro ⟨h_first, h_rest⟩
      rw [h_rest]
      conv_rhs => rw [← List.take_append_drop (ys.filter w).length ys, ← h_first]

/-- Nothing is dealt out exactly when no taker wants an item. -/
theorem deal_flatten_eq_nil_iff :
    (deal ws ys).flatten = [] ↔ ∀ w ∈ ws, ∀ y ∈ ys, w y = false := by
  induction ws with
  | nil => simp [deal]
  | cons w ws ih =>
    rw [deal, List.flatten_cons, List.append_eq_nil_iff, List.forall_mem_cons]
    constructor
    · rintro ⟨h_none, h_rest⟩
      rw [h_none] at h_rest
      -- the first takes nothing, so all are left for the others
      have h_w : ∀ y ∈ ys, w y = false := by simpa [List.filter_eq_nil_iff] using h_none
      exact ⟨h_w, ih.mp h_rest⟩
    · rintro ⟨h_w, h_rest⟩
      have h_none : ys.filter w = [] := by simpa [List.filter_eq_nil_iff] using h_w
      rw [h_none]
      exact ⟨rfl, ih.mpr h_rest⟩

/-- What is dealt comes from what there was. -/
theorem mem_of_mem_deal {hand : List α} {y : α} (h_hand : hand ∈ deal ws ys) (h : y ∈ hand) :
    y ∈ ys := by
  induction ws generalizing ys with
  | nil => cases h_hand
  | cons w ws ih =>
    rcases List.mem_cons.mp h_hand with rfl | h_rest
    · exact List.mem_of_mem_filter h
    · exact List.mem_of_mem_drop (ih h_rest)

/-- Hands that hold the items in some order hold them in the order of the list. -/
theorem deal_flatten_of_perm (h_nodup : ys.Nodup) (h : (deal ws ys).flatten.Perm ys) :
    (deal ws ys).flatten = ys := by
  induction ws generalizing ys with
  | nil => exact (List.nil_perm.mp h).symm
  | cons w ws ih =>
    rw [deal, List.flatten_cons] at h ⊢
    have h_append := List.take_append_drop (ys.filter w).length ys
    have h_disjoint := (List.nodup_append.mp (h_append ▸ h_nodup)).2.2
    -- an element taken first cannot turn up in a later hand: no element comes twice
    have h_take : ∀ y ∈ ys.take (ys.filter w).length, w y = true := by
      intro y hy
      have h_mem := h.mem_iff.mpr (List.mem_of_mem_take hy)
      rcases List.mem_append.mp h_mem with h_got | h_later
      · exact (List.mem_filter.mp h_got).2
      · obtain ⟨hand, h_hand, h_y⟩ := List.mem_flatten.mp h_later
        exact absurd rfl (h_disjoint y hy y (mem_of_mem_deal h_hand h_y))
    have h_first := filter_eq_take_of_forall h_take
    have h_rest : (deal ws (ys.drop (ys.filter w).length)).flatten.Perm
        (ys.drop (ys.filter w).length) := by
      refine (List.perm_append_left_iff (ys.filter w)).mp (h.trans (.of_eq ?_))
      conv_lhs => rw [← h_append, ← h_first]
    rw [ih (h_nodup.sublist (List.drop_sublist _ _)) h_rest]
    conv_rhs => rw [← h_append, ← h_first]

end Lib
