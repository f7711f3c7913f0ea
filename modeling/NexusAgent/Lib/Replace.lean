import NexusAgent.Lib.PyStr

/-!
# Replacing a substring

`s.replace(old, new)` for a text `old` that is not empty: its occurrences are replaced from
the left, none of them overlapping. Placeholders are texts that open with a character they
do not contain again (`Opens`), such as a name in braces. They cannot overlap, so replacing
one leaves the others where they are.

* `within_replace`: a replaced placeholder leaves its value in the text.
* `within_replace_of_opens`: replacing a placeholder keeps the other ones.
-/

namespace Lib
namespace PyStr

/-- The replacement, on characters, with `n` characters of an occurrence still to be
skipped. -/
def replaceFrom (old new : List Char) : ℕ → List Char → List Char
  | _, [] => []
  | n + 1, _ :: cs => replaceFrom old new n cs
  | 0, c :: cs =>
    if old.isPrefixOf (c :: cs) then new ++ replaceFrom old new (old.length - 1) cs
    else c :: replaceFrom old new 0 cs

/-- `s.replace(old, new)`. -/
def replace (old new s : String) : String :=
  String.ofList (replaceFrom old.toList new.toList 0 s.toList)

/-- One character replaced by another. -/
theorem replaceFrom_char (a b : Char) (cs : List Char) :
    replaceFrom [a] [b] 0 cs = cs.map fun c => if c = a then b else c := by
  induction cs with
  | nil => rfl
  | cons c cs ih =>
    -- the pattern is one character, so it stands here or not
    have h_here : [a].isPrefixOf (c :: cs) = true ↔ c = a := by
      rw [List.isPrefixOf_iff_prefix, List.cons_prefix_cons]
      simp [eq_comm]
    rw [replaceFrom, List.map_cons]
    by_cases h_c : c = a
    · rw [if_pos (h_here.mpr h_c), if_pos h_c]
      exact congrArg (b :: ·) ih
    · rw [if_neg (fun h => h_c (h_here.mp h)), if_neg h_c, ih]

/-- `part in s`. -/
def Within (part s : String) : Prop := part.toList <:+: s.toList

instance (part s : String) : Decidable (Within part s) :=
  inferInstanceAs (Decidable (part.toList <:+: s.toList))

theorem Within.trans {s t u : String} (h : Within s t) (h' : Within t u) : Within s u :=
  List.IsInfix.trans h h'

theorem within_empty (s : String) : Within "" s := List.nil_infix

theorem within_append_right (s t : String) : Within t (s ++ t) := by
  unfold Within
  rw [String.toList_append]
  exact (List.suffix_append _ _).isInfix

theorem within_append_left (s t : String) : Within s (s ++ t) := by
  unfold Within
  rw [String.toList_append]
  exact (List.prefix_append _ _).isInfix

/-- The parts of a joined text. -/
theorem within_join {sep : String} {parts : List String} {part : String} (h : part ∈ parts) :
    Within part (join sep parts) := by
  induction parts using join.induct with
  | case1 => cases h
  | case2 p =>
    obtain rfl := List.mem_singleton.mp h
    exact List.infix_rfl
  | case3 p q ps ih =>
    unfold join
    -- the part is the first, or one of the rest
    rcases List.mem_cons.mp h with rfl | h_rest
    · exact (within_append_left _ _).trans (within_append_left _ _)
    · exact (ih h_rest).trans (within_append_right _ _)

/-! ### What is put in -/

/-- The new text is in the result, wherever the old one stood. -/
theorem infix_replaceFrom {old new : List Char} (u v : List Char) (h_old : old ≠ []) :
    new <:+: replaceFrom old new 0 (u ++ old ++ v) := by
  induction u with
  | nil =>
    cases old with
    | nil => exact absurd rfl h_old
    | cons c old =>
      -- the old text stands in front
      have h_prefix : (c :: old).isPrefixOf ([] ++ (c :: old) ++ v) = true := by simp
      rw [List.nil_append, List.cons_append] at h_prefix ⊢
      rw [replaceFrom, if_pos h_prefix]
      exact (List.prefix_append _ _).isInfix
  | cons x u ih =>
    rw [List.cons_append, List.cons_append, replaceFrom]
    -- in front of it another one may be replaced, which gives the new text as well
    split_ifs
    · exact (List.prefix_append _ _).isInfix
    · exact ih.trans (List.suffix_cons _ _).isInfix

/-- **A replaced placeholder** leaves its value in the text. -/
theorem within_replace {old s : String} (new : String) (h : Within old s) (h_old : old ≠ "") :
    Within new (replace old new s) := by
  obtain ⟨u, v, h_eq⟩ := h
  unfold Within replace
  rw [String.toList_ofList, ← h_eq]
  exact infix_replaceFrom u v fun h_nil => h_old (String.toList_eq_nil_iff.mp h_nil)

/-! ### What stays -/

/-- The text opens with `c` and does not contain it again. -/
def Opens (c : Char) (cs : List Char) : Prop := ∃ rest, cs = c :: rest ∧ c ∉ rest

section Opens

variable {old new : List Char} {c : Char}

/-- Without its opening character no occurrence starts. -/
theorem replaceFrom_append_of_notMem (h_old : Opens c old) (xs v : List Char) (h : c ∉ xs) :
    replaceFrom old new 0 (xs ++ v) = xs ++ replaceFrom old new 0 v := by
  obtain ⟨rest, rfl, -⟩ := h_old
  induction xs with
  | nil => rfl
  | cons x xs ih =>
    rw [List.mem_cons, not_or] at h
    have h_not : ¬(c :: rest).isPrefixOf (x :: (xs ++ v)) = true := by simp [h.1]
    rw [List.cons_append, replaceFrom, if_neg h_not, ih h.2, List.cons_append]

/-- **The other placeholders** stay when one is replaced. -/
theorem infix_replaceFrom_of_opens {mark : List Char} (h_old : Opens c old) (h_mark : Opens c mark)
    (h_apart : ¬old <+: mark) (h_apart' : ¬mark <+: old) (u v : List Char) (n : ℕ)
    (h_n : n ≤ u.length) : mark <:+: replaceFrom old new n (u ++ mark ++ v) := by
  obtain ⟨rest, h_rest, h_c⟩ := h_old
  obtain ⟨rest', h_rest', h_c'⟩ := h_mark
  induction u generalizing n with
  | nil =>
    obtain rfl : n = 0 := Nat.le_zero.mp h_n
    have h_not : ¬old.isPrefixOf (mark ++ v) = true := by
      rw [List.isPrefixOf_iff_prefix]
      intro h_prefix
      rcases List.prefix_or_prefix_of_prefix h_prefix (List.prefix_append mark v) with h | h
      · exact h_apart h
      · exact h_apart' h
    rw [List.nil_append, h_rest', List.cons_append] at *
    rw [replaceFrom, if_neg h_not, replaceFrom_append_of_notMem ⟨rest, h_rest, h_c⟩ rest' v h_c',
      ← List.cons_append]
    exact (List.prefix_append _ _).isInfix
  | cons x u ih =>
    rw [List.cons_append, List.cons_append]
    cases n with
    | succ n =>
      rw [replaceFrom]
      exact ih n (by simpa using h_n)
    | zero =>
      rw [replaceFrom]
      split_ifs with h_prefix
      · refine (ih _ ?_).trans (List.suffix_append _ _).isInfix
        -- an occurrence that reached into the mark would contain its opening character
        by_contra h_long
        rw [List.isPrefixOf_iff_prefix, h_rest, List.cons_prefix_cons] at h_prefix
        obtain ⟨rfl, h_tail⟩ := h_prefix
        rw [h_rest, List.length_cons, Nat.add_sub_cancel, not_le] at h_long
        obtain ⟨k, h_k⟩ : ∃ k, rest.length = u.length + (k + 1) := ⟨rest.length - u.length - 1, by omega⟩
        have h_take := List.prefix_iff_eq_take.mp h_tail
        rw [h_k, h_rest', List.append_assoc, List.take_length_add_append, List.cons_append,
          List.take_succ_cons] at h_take
        exact h_c (h_take ▸ by simp)
      · exact (ih 0 (Nat.zero_le _)).trans (List.suffix_cons _ _).isInfix

end Opens

/-- A marker that cannot overlap the old text stays. -/
theorem within_replace_of_opens {old mark s : String} (new : String) {c : Char}
    (h : Within mark s) (h_old : Opens c old.toList) (h_mark : Opens c mark.toList)
    (h_apart : ¬Within old mark) (h_apart' : ¬Within mark old) :
    Within mark (replace old new s) := by
  obtain ⟨u, v, h_eq⟩ := h
  unfold Within replace
  rw [String.toList_ofList, ← h_eq]
  exact infix_replaceFrom_of_opens h_old h_mark (fun h => h_apart h.isInfix)
    (fun h => h_apart' h.isInfix) u v 0 (Nat.zero_le _)

end PyStr
end Lib
