import Mathlib
import NexusAgent.Lib.PyStr

/-!
# Character tables

What a language with Unicode strings knows of its characters, as far as the modelled code asks:
word characters (`\w`), digits (`\d`) and the lower case of a text. A table is any that treats the
ASCII characters as usual.
-/

namespace Lib

/-- The lower case of a text of ASCII characters. -/
def asciiLower (s : String) : String := String.ofList (s.toList.map Char.toLower)

/-- The lower case of a text. -/
structure Lowercase where
  lower : String → String
  lower_empty : lower "" = ""

/-- The word characters, the digits and the lower case of a character table. -/
structure CharTable extends Lowercase where
  word : Char → Bool
  digit : Char → Bool
  digit_word : ∀ c, digit c = true → word c = true
  word_ascii : ∀ c, c.toNat < 128 → word c = (c.isAlphanum || c = '_')
  digit_ascii : ∀ c, c.toNat < 128 → digit c = c.isDigit
  space_word : ∀ c, PyStr.isSpace c = true → word c = false
  lower_ascii : ∀ s : String, (∀ c ∈ s.toList, c.toNat < 128) → lower s = asciiLower s

/-- The table of the ASCII characters. -/
def CharTable.ascii : CharTable where
  lower := asciiLower
  lower_empty := rfl
  word c := c.isAlphanum || c = '_'
  digit := Char.isDigit
  digit_word c h := by simp [Char.isAlphanum, h]
  word_ascii _ _ := rfl
  digit_ascii _ _ := rfl
  lower_ascii _ _ := rfl
  space_word c h := by
    rw [Bool.eq_false_iff]
    intro h_word
    have h_range : c.toNat ≤ 32 ∨ 127 < c.toNat := by
      simp only [PyStr.isSpace, Bool.or_eq_true, Bool.and_eq_true, decide_eq_true_eq] at h
      omega
    have h_bounds : 47 < c.toNat ∧ c.toNat < 128 := by
      simp only [Char.isAlphanum, Char.isAlpha, Char.isUpper, Char.isLower, Char.isDigit,
        Bool.or_eq_true, Bool.and_eq_true, decide_eq_true_eq, ge_iff_le, UInt32.le_iff_toNat_le] at h_word
      rcases h_word with h_alnum | rfl
      · have h_nat : c.val.toNat = c.toNat := rfl
        simp at h_alnum
        omega
      · decide
    omega

end Lib
