import Mathlib

/-!
# Base64

The encoding of bytes in an alphabet of 64 characters, three bytes in four of them, and its lenient
reader: characters outside the alphabet are passed over, and a padding that completes a group ends
the text.
-/

namespace Lib
namespace Base64

/-- A byte. -/
abbrev Byte : Type := BitVec 8

/-- The characters of the alphabet. -/
def alphabet : List Char :=
  "ABCDEFGHIJKLMNOPQRSTUVWXYZabcdefghijklmnopqrstuvwxyz0123456789+/".toList

/-- The character of a value below 64. -/
def digit (n : ℕ) : Char := alphabet.getD n 'A'

/-- The value of a character. -/
def value? (c : Char) : Option ℕ :=
  if c ∈ alphabet then some (alphabet.idxOf c) else none

/-- The encoding, with the padding of the last group. -/
def encode : List Byte → List Char
  | a :: b :: c :: bytes =>
    digit (a.toNat / 4) :: digit (a.toNat % 4 * 16 + b.toNat / 16) ::
      digit (b.toNat % 16 * 4 + c.toNat / 64) :: digit (c.toNat % 64) :: encode bytes
  | [a, b] =>
    [digit (a.toNat / 4), digit (a.toNat % 4 * 16 + b.toNat / 16), digit (b.toNat % 16 * 4), '=']
  | [a] => [digit (a.toNat / 4), digit (a.toNat % 4 * 16), '=', '=']
  | [] => []

/-- How far a group has been read: how many characters, and the bits that are not in a byte yet. -/
inductive Group
  | fresh
  | one (left : ℕ)
  | two (left : ℕ)
  | three (left : ℕ)
  deriving DecidableEq

/-- How many characters of a group have been read. -/
def Group.read : Group → ℕ
  | .fresh => 0
  | .one _ => 1
  | .two _ => 2
  | .three _ => 3

/-- The byte that the next character completes, and the group behind it. -/
def Group.take (v : ℕ) : Group → List Byte × Group
  | .fresh => ([], .one v)
  | .one left => ([BitVec.ofNat 8 (left * 4 + v / 16)], .two (v % 16))
  | .two left => ([BitVec.ofNat 8 (left * 16 + v / 4)], .three (v % 4))
  | .three left => ([BitVec.ofNat 8 (left * 64 + v)], .fresh)

/-- The reader from within a group, with the paddings since the last character. A text that ends
within a group is not read. -/
def decodeFrom (group : Group) (pads : ℕ) : List Char → Option (List Byte)
  | [] => if group = .fresh then some [] else none
  | c :: cs =>
    if c = '=' then
      if 2 ≤ group.read then
        if 4 ≤ group.read + (pads + 1) then some [] else decodeFrom group (pads + 1) cs
      else decodeFrom group pads cs
    else
      match value? c with
      | none => decodeFrom group pads cs
      | some v => (decodeFrom (group.take v).2 0 cs).map ((group.take v).1 ++ ·)

/-- The reader; a text with other characters than those of ASCII is not read. -/
def decode (text : String) : Option (List Byte) :=
  if text.toList.all fun c => c.toNat < 128 then decodeFrom .fresh 0 text.toList else none

/-! ### What is encoded is decoded -/

theorem value?_digit {n : ℕ} (h : n < 64) : value? (digit n) = some n := by
  have h_all : ∀ m < 64, value? (digit m) = some m := by decide +kernel
  exact h_all n h

theorem digit_ne_pad {n : ℕ} (h : n < 64) : digit n ≠ '=' := by
  have h_all : ∀ m < 64, digit m ≠ '=' := by decide +kernel
  exact h_all n h

theorem digit_ascii {n : ℕ} (h : n < 64) : (digit n).toNat < 128 := by
  have h_all : ∀ m < 64, (digit m).toNat < 128 := by decide +kernel
  exact h_all n h

theorem decodeFrom_digit {n : ℕ} (h : n < 64) (group : Group) (pads : ℕ) (cs : List Char) :
    decodeFrom group pads (digit n :: cs) =
      (decodeFrom (group.take n).2 0 cs).map ((group.take n).1 ++ ·) := by
  rw [decodeFrom, if_neg (digit_ne_pad h), value?_digit h]

theorem byte_eq {b : Byte} {n : ℕ} (h : n = b.toNat) : BitVec.ofNat 8 n = b := by
  rw [h, BitVec.ofNat_toNat, BitVec.setWidth_eq]

/-- Decoding what was encoded gives the bytes back. -/
theorem decodeFrom_encode (bytes : List Byte) :
    decodeFrom .fresh 0 (encode bytes) = some bytes := by
  induction bytes using encode.induct with
  | case1 a b c bytes ih =>
    have h_a := a.isLt
    have h_b := b.isLt
    have h_c := c.isLt
    rw [encode, decodeFrom_digit (by omega), decodeFrom_digit (by omega),
      decodeFrom_digit (by omega), decodeFrom_digit (by omega)]
    simp only [Group.take, ih, Option.map_some, List.nil_append, List.cons_append,
      Option.some.injEq, List.cons.injEq, and_true]
    exact ⟨byte_eq (by omega), byte_eq (by omega), byte_eq (by omega)⟩
  -- two bytes left: three digits and one pad
  | case2 a b =>
    have h_a := a.isLt
    have h_b := b.isLt
    rw [encode, decodeFrom_digit (by omega), decodeFrom_digit (by omega),
      decodeFrom_digit (by omega)]
    have h_end : ∀ left, decodeFrom (.three left) 0 ['='] = some [] := fun _ => rfl
    simp only [Group.take, h_end, Option.map_some, List.nil_append, List.cons_append,
      Option.some.injEq, List.cons.injEq, and_true]
    exact ⟨byte_eq (by omega), byte_eq (by omega)⟩
  -- one byte left: two digits and two pads
  | case3 a =>
    have h_a := a.isLt
    rw [encode, decodeFrom_digit (by omega), decodeFrom_digit (by omega)]
    have h_end : ∀ left, decodeFrom (.two left) 0 ['=', '='] = some [] := fun _ => rfl
    simp only [Group.take, h_end, Option.map_some, List.nil_append, List.cons_append,
      Option.some.injEq, List.cons.injEq, and_true]
    exact byte_eq (by omega)
  | case4 => rfl

/-- Every character of an encoding is ASCII. -/
theorem encode_ascii (bytes : List Byte) : ∀ c ∈ encode bytes, c.toNat < 128 := by
  induction bytes using encode.induct with
  | case1 a b c bytes ih =>
    have h_a := a.isLt
    have h_b := b.isLt
    have h_c := c.isLt
    simp only [encode, List.forall_mem_cons]
    exact ⟨digit_ascii (by omega), digit_ascii (by omega), digit_ascii (by omega),
      digit_ascii (by omega), ih⟩
  -- the pad is ASCII as the digits are
  | case2 a b =>
    have h_a := a.isLt
    have h_b := b.isLt
    simp only [encode, List.forall_mem_cons]
    exact ⟨digit_ascii (by omega), digit_ascii (by omega), digit_ascii (by omega), by decide,
      List.forall_mem_nil _⟩
  | case3 a =>
    have h_a := a.isLt
    simp only [encode, List.forall_mem_cons]
    exact ⟨digit_ascii (by omega), digit_ascii (by omega), by decide, by decide,
      List.forall_mem_nil _⟩
  | case4 => exact List.forall_mem_nil _

/-- **What is encoded is decoded.** -/
theorem decode_encode (bytes : List Byte) :
    decode (String.ofList (encode bytes)) = some bytes := by
  rw [decode, if_pos, String.toList_ofList, decodeFrom_encode]
  rw [String.toList_ofList, List.all_eq_true]
  exact fun c h_c => decide_eq_true (encode_ascii bytes c h_c)

/-- Only no bytes are encoded by no text. -/
theorem encode_eq_nil {bytes : List Byte} : encode bytes = [] ↔ bytes = [] := by
  rcases bytes with _ | ⟨a, _ | ⟨b, _ | ⟨c, bytes⟩⟩⟩ <;> simp [encode]

end Base64
end Lib
