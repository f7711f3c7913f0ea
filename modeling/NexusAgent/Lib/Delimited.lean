import Mathlib.Data.List.Infix
import NexusAgent.Lib.PyStr

/-!
# Delimited keys

A composite key joins its parts at a delimiter that the parts may contain as well. Cut at
every delimiter, a text is a list of pieces (`PyStr.split`), and the cut of a key is the cuts
of its parts one after the other (`split_delimited`). A text is its pieces (`split_inj`), so
keys are compared piece by piece.

* `split_prefix_iff`: the pieces of one text begin those of another exactly when the texts
  are equal or the second goes on with the delimiter where the first ends.
* `collide_iff`: two heads can be completed to one key exactly when the pieces of one begin
  those of the other. So a family of heads separates all completions when none of them begins
  another: this is the prefix condition on codes, for keys.
-/

namespace Lib
namespace PyStr

variable {c : Char} {a b a' b' : String}

/-- Two joins in a row have one delimiter between them. -/
theorem intercalate_append (c : Char) {xs ys : List (List Char)} (h_xs : xs ≠ []) (h_ys : ys ≠ []) :
    [c].intercalate (xs ++ ys) = [c].intercalate xs ++ c :: [c].intercalate ys := by
  induction xs with
  | nil => exact absurd rfl h_xs
  | cons x xs ih =>
    obtain ⟨y, ys, rfl⟩ := List.exists_cons_of_ne_nil h_ys
    cases xs with
    | nil => simp [List.intercalate]
    | cons x' xs =>
      have h_rest := ih (List.cons_ne_nil x' xs)
      simp only [List.intercalate, List.cons_append, List.intersperse_cons_cons,
        List.flatten_cons] at h_rest ⊢
      rw [h_rest]
      simp

/-- The delimiter as a text. -/
theorem toList_delimited (a b : String) :
    (a ++ String.singleton c ++ b).toList = a.toList ++ c :: b.toList := by
  simp

/-- The pieces of a delimited text. -/
theorem split_delimited (c : Char) (a b : String) :
    split c (a ++ String.singleton c ++ b) = split c a ++ split c b := by
  unfold split
  rw [toList_delimited, List.splitOn_append_cons_self, List.map_append]

theorem split_ne_nil (c : Char) (a : String) : split c a ≠ [] := by
  simp [split, List.splitOn_ne_nil]

/-- **A text is its pieces.** -/
theorem split_inj : split c a = split c b ↔ a = b := by
  constructor
  · intro h
    have h_pieces : a.toList.splitOn c = b.toList.splitOn c :=
      (List.map_injective_iff.mpr fun _ _ h_eq => String.ofList_inj.mp h_eq) h
    have h_list := congrArg [c].intercalate h_pieces
    rw [List.intercalate_splitOn, List.intercalate_splitOn] at h_list
    exact String.toList_inj.mp h_list
  · rintro rfl
    rfl

/-- The first piece of a text starts the text. -/
theorem prefix_of_split {s piece : String} {pieces : List String}
    (h : split c s = piece :: pieces) : piece.toList <+: s.toList := by
  have h_map : s.toList.splitOn c = piece.toList :: pieces.map String.toList := by
    have h_eq := congrArg (List.map String.toList) h
    simpa [split, Function.comp_def] using h_eq
  have h_join := congrArg [c].intercalate h_map
  rw [List.intercalate_splitOn] at h_join
  rw [h_join]
  cases pieces with
  | nil => simp [List.intercalate]
  | cons q qs => simp [List.intercalate, List.intersperse_cons_cons]

/-- The pieces of joined texts. -/
theorem split_join (c : Char) {xs : List String} (h : xs ≠ []) :
    split c (join (String.singleton c) xs) = xs.flatMap (split c) := by
  induction xs with
  | nil => exact absurd rfl h
  | cons x xs ih =>
    cases xs with
    | nil => simp [join]
    | cons y ys =>
      rw [join, split_delimited, ih (List.cons_ne_nil y ys)]
      rfl

/-- A text without the delimiter is one piece. -/
theorem split_eq_singleton (h : c ∉ a.toList) : split c a = [a] := by
  simp [split, List.splitOn_eq_singleton h]

/-- The pieces of one text begin those of another exactly when the second is the first, or
goes on with the delimiter where the first ends. -/
theorem split_prefix_iff :
    split c a <+: split c b ↔ a = b ∨ ∃ x, b = a ++ String.singleton c ++ x := by
  constructor
  · rintro ⟨rest, h_rest⟩
    -- the pieces of `b` are those of `a`, and some more or none
    rcases List.eq_nil_or_concat rest with rfl | ⟨_, _, h_ne⟩
    · rw [List.append_nil] at h_rest
      exact .inl (split_inj.mp h_rest)
    · refine .inr ⟨String.ofList ([c].intercalate (rest.map String.toList)), String.toList_inj.mp ?_⟩
      have h_pieces : b.toList.splitOn c = a.toList.splitOn c ++ rest.map String.toList := by
        have h_map := congrArg (List.map String.toList) h_rest
        simpa [split, Function.comp_def] using h_map.symm
      -- joined again, the further ones follow a delimiter
      have h_list := congrArg [c].intercalate h_pieces
      rw [List.intercalate_splitOn, intercalate_append c (List.splitOn_ne_nil c _) (by simp [h_ne]),
        List.intercalate_splitOn] at h_list
      rw [h_list, toList_delimited, String.toList_ofList]
  · rintro (rfl | ⟨x, rfl⟩)
    · exact List.prefix_rfl
    · exact ⟨split c x, (split_delimited c a x).symm⟩

/-- **Two heads can be completed to one key** exactly when the pieces of one begin those of
the other. -/
theorem collide_iff :
    (∃ b b', a ++ String.singleton c ++ b = a' ++ String.singleton c ++ b') ↔
      split c a <+: split c a' ∨ split c a' <+: split c a := by
  constructor
  · rintro ⟨b, b', h⟩
    -- two beginnings of the pieces of one text
    have h_pieces := congrArg (split c) h
    rw [split_delimited, split_delimited] at h_pieces
    exact List.prefix_or_prefix_of_prefix ⟨split c b, h_pieces⟩ ⟨split c b', rfl⟩
  · rintro (h | h)
    · -- the shorter one is completed by what the longer has more
      rcases split_prefix_iff.mp h with rfl | ⟨x, rfl⟩
      · exact ⟨"", "", rfl⟩
      · exact ⟨x ++ String.singleton c ++ "", "", String.toList_inj.mp (by simp)⟩
    · rcases split_prefix_iff.mp h with rfl | ⟨x, rfl⟩
      · exact ⟨"", "", rfl⟩
      · exact ⟨"", x ++ String.singleton c ++ "", String.toList_inj.mp (by simp)⟩

end PyStr
end Lib
