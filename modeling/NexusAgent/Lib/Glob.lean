import Mathlib.Data.List.Infix

/-!
# Shell patterns

`fnmatch` on lists of characters: a star stands for any text, a question mark for any character, and
brackets for one of a set of characters, with ranges and with `!` for the complement. A bracket that
is not closed stands for itself.

* `fnmatch_star_iff`: a plain text and a star match what the text begins.
-/

namespace Lib
namespace Glob

/-- A part of a pattern: any text, or one character. -/
inductive Item
  | many
  | one (test : Char → Bool)

/-- A character is one of a set written between brackets. -/
def inSet : List Char → Char → Bool
  | a :: '-' :: b :: set, c => (a ≤ c && c ≤ b) || inSet set c
  | a :: set, c => a = c || inSet set c
  | [], _ => false

/-- A character is one of those that brackets stand for. -/
def inBrackets (set : List Char) (c : Char) : Bool :=
  match set with
  | '!' :: set => !inSet set c
  | set => inSet set c

/-- A character that may stand at the front of a set. -/
def front (c : Char) (cs : List Char) : List Char × List Char :=
  match cs with
  | d :: rest => if d = c then ([d], rest) else ([], cs)
  | [] => ([], [])

/-- What stands before the bracket that closes a set, and after it. A bracket at the front is part
of the set. -/
def brackets (cs : List Char) : Option (List Char × List Char) :=
  let (negation, cs) := front '!' cs
  let (closing, cs) := front ']' cs
  match cs.span (· ≠ ']') with
  | (set, _ :: rest) => some (negation ++ closing ++ set, rest)
  | _ => none

/-- The parts of a pattern, at most as many as it has characters. -/
def items : ℕ → List Char → List Item
  | 0, _ => []
  | _ + 1, [] => []
  | n + 1, c :: cs =>
    if c = '*' then .many :: items n cs
    else if c = '?' then .one (fun _ => true) :: items n cs
    else if c = '[' then
      match brackets cs with
      | some (set, rest) => .one (inBrackets set) :: items n rest
      | none => .one (· = c) :: items n cs
    else .one (· = c) :: items n cs

/-- The parts stand for the text. -/
def matchItems : List Item → List Char → Bool
  | [], cs => cs.isEmpty
  | .many :: p, cs => cs.tails.any (matchItems p)
  | .one _ :: _, [] => false
  | .one test :: p, c :: cs => test c && matchItems p cs

/-- `fnmatch.fnmatchcase`. -/
def fnmatch (pattern text : List Char) : Bool := matchItems (items pattern.length pattern) text

/-- A character that stands for itself. -/
def Plain (c : Char) : Prop := c ≠ '*' ∧ c ≠ '?' ∧ c ≠ '['

instance (c : Char) : Decidable (Plain c) := inferInstanceAs (Decidable (_ ∧ _))

/-- **A plain text and a star** match what the text begins. -/
theorem fnmatch_star_iff {pre text : List Char} (h : ∀ c ∈ pre, Plain c) :
    fnmatch (pre ++ ['*']) text = true ↔ pre <+: text := by
  unfold fnmatch
  induction pre generalizing text with
  | nil =>
    -- the star takes whatever is left of the text
    refine iff_of_true (List.any_eq_true.mpr ⟨[], ?_, rfl⟩) List.nil_prefix
    exact (List.mem_tails [] text).mpr List.nil_suffix
  | cons c pre ih =>
    obtain ⟨h_star, h_mark, h_bracket⟩ := h c List.mem_cons_self
    rw [List.cons_append, List.length_cons, items, if_neg h_star, if_neg h_mark, if_neg h_bracket]
    cases text with
    | nil => exact iff_of_false Bool.false_ne_true fun h_prefix => by cases h_prefix.length_le
    | cons d text =>
      -- a plain character matches itself only
      rw [matchItems, Bool.and_eq_true, ih fun c' h_c' => h c' (List.mem_cons_of_mem c h_c'),
        List.cons_prefix_cons, decide_eq_true_iff, eq_comm]

end Glob
end Lib
