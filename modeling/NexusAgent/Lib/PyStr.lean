import Mathlib.Data.List.Infix
import Mathlib.Data.List.TakeWhile
import Mathlib.Data.Nat.Notation
import Mathlib.Tactic.Common

/-!
# String operations

The string methods of a language whose strings are sequences of code points:
stripping white space at the ends, splitting at a character, joining, and the
prefix and suffix tests. Each is read off the list of characters.
-/

namespace Lib
namespace PyStr

/-- What all characters of a text satisfy is decided along the text, not over every character
there is. -/
instance (priority := 2000) decidableForallMemChar (cs : List Char) (p : Char → Prop)
    [DecidablePred p] : Decidable (∀ c ∈ cs, p c) :=
  List.decidableBAll p cs

/-- The code points `str.isspace` accepts. -/
def isSpace (c : Char) : Bool :=
  let n := c.toNat
  (9 ≤ n && n ≤ 13) || (28 ≤ n && n ≤ 32) || n = 0x85 || n = 0xa0 || n = 0x1680 ||
    (0x2000 ≤ n && n ≤ 0x200a) || n = 0x2028 || n = 0x2029 || n = 0x202f || n = 0x205f ||
    n = 0x3000

/-- `s.rstrip()`, on characters. -/
def rstripChars (cs : List Char) : List Char := (cs.reverse.dropWhile isSpace).reverse

/-- `s.strip()`. -/
def strip (s : String) : String := String.ofList (rstripChars (s.toList.dropWhile isSpace))

/-- `s.rstrip()`. -/
def rstrip (s : String) : String := String.ofList (rstripChars s.toList)

/-- Whether `s.strip()` is empty. -/
def isBlank (s : String) : Bool := strip s = ""

/-- `s.split(c)` for a one-character separator. -/
def split (c : Char) (s : String) : List String := (s.toList.splitOn c).map String.ofList

/-- `s.startswith(p)`. -/
def startsWith (s p : String) : Bool := p.toList.isPrefixOf s.toList

/-- `s.endswith(p)`. -/
def endsWith (s p : String) : Bool := p.toList.isSuffixOf s.toList

/-- `s[n:]`. -/
def dropFirst (n : ℕ) (s : String) : String := String.ofList (s.toList.drop n)

/-- `s[:n]`. -/
def takeFirst (n : ℕ) (s : String) : String := String.ofList (s.toList.take n)

/-- `sep.join(parts)`. -/
def join (sep : String) : List String → String
  | [] => ""
  | [p] => p
  | p :: q :: ps => p ++ sep ++ join sep (q :: ps)

/-! ### Blank texts -/

/-- Stripping leaves nothing exactly of white space. -/
theorem stripChars_eq_nil_iff {cs : List Char} :
    rstripChars (cs.dropWhile isSpace) = [] ↔ ∀ c ∈ cs, isSpace c = true := by
  unfold rstripChars
  rw [List.reverse_eq_nil_iff, List.dropWhile_eq_nil_iff]
  constructor
  · intro h c h_c
    -- the leading white space, and the rest that is nothing but white space
    rw [← List.takeWhile_append_dropWhile (p := isSpace) (l := cs)] at h_c
    rcases List.mem_append.mp h_c with h_start | h_rest
    · exact List.mem_takeWhile_imp h_start
    · exact h c (List.mem_reverse.mpr h_rest)
  · intro h c h_c
    exact h c ((List.dropWhile_sublist isSpace).subset (List.mem_reverse.mp h_c))

theorem isBlank_iff {s : String} : isBlank s = true ↔ ∀ c ∈ s.toList, isSpace c = true := by
  unfold isBlank strip
  rw [decide_eq_true_iff, ← String.toList_inj, String.toList_ofList]
  exact stripChars_eq_nil_iff

/-- What is left of a text that is not blank is not blank. -/
theorem isBlank_strip {s : String} (h : isBlank s = false) : isBlank (strip s) = false := by
  -- a text that is not blank keeps something when stripped
  have h_some : rstripChars (s.toList.dropWhile isSpace) ≠ [] := by
    intro h_nil
    rw [isBlank_iff.mpr (stripChars_eq_nil_iff.mp h_nil)] at h
    cases h
  unfold rstripChars at h_some
  rw [Ne, List.reverse_eq_nil_iff] at h_some
  -- its last character is no white space
  have h_last := List.head_dropWhile_not isSpace h_some
  rw [← Bool.not_eq_true, isBlank_iff]
  intro h_all
  have h_space := h_all _ (by
    rw [strip, String.toList_ofList, rstripChars, List.mem_reverse]
    exact List.head_mem h_some)
  rw [h_last] at h_space
  cases h_space

end PyStr
end Lib
