import Mathlib

/-!
# The mu-law codec

`nexus/realtime/audio/mulaw.py`: a telephone leg carries audio as mu-law bytes, the pipeline as
little-endian PCM16. A byte has a sign, a segment (`exponent`) and a step in it (`mantissa`). The
sample is clipped and biased to its *level*, between `132` and `32767`, and the levels of one byte
make up a cell, twice as long in each segment as in the one below.

* `ulaw_roundtrip`: a buffer that is decoded and encoded again is the same, apart from the second
  zero, and decoding never overflows.
* `pcm_roundtrip`: a buffer that is encoded and decoded keeps each sample up to one part in
  thirty-two of its level, keeps the order of the samples, and is kept as it is by a second leg.
-/

namespace Nexus.Voice.Mulaw

/-! ### The codec as written -/

/-- `_BIAS`. -/
def bias : ℕ := 0x84

/-- `_CLIP`. -/
def clip : ℕ := 32635

/-- The loop of `_encode_sample`: the first segment whose bit is set, from the highest down. -/
def findExponent (sample : ℕ) : ℕ → ℕ → ℕ
  | 0, _ => 0
  | exponent + 1, mask =>
    if sample &&& mask = 0 then findExponent sample exponent (mask >>> 1) else exponent + 1

/-- `_encode_sample`. -/
def encodeSample (sample : ℤ) : BitVec 8 :=
  let sign := if sample < 0 then 0x80 else 0x00
  let sample := if sample < 0 then (-sample).toNat else sample.toNat
  let sample := if sample > clip then clip else sample
  let sample := sample + bias
  let exponent := findExponent sample 7 0x4000
  let mantissa := (sample >>> (exponent + 3)) &&& 0x0F
  ~~~ BitVec.ofNat 8 (sign ||| (exponent <<< 4) ||| mantissa)

/-- `_decode_sample`. -/
def decodeSample (ulawByte : BitVec 8) : ℤ :=
  let ulawByte := (~~~ ulawByte).toNat
  let sign := ulawByte &&& 0x80
  let exponent := (ulawByte >>> 4) &&& 0x07
  let mantissa := ulawByte &&& 0x0F
  let sample : ℤ := (((mantissa <<< 3) + bias) <<< exponent : ℕ)
  let sample := sample - bias
  if sign = 0 then sample else -sample

/-- `int.from_bytes(.., "little", signed=True)` of two bytes. -/
def fromBytes (low high : BitVec 8) : ℤ :=
  let n := low.toNat + 256 * high.toNat
  if n < 32768 then n else n - 65536

/-- `to_bytes(2, "little", signed=True)`, with the `OverflowError`. -/
def toBytes (sample : ℤ) : Option (List (BitVec 8)) :=
  if -32768 ≤ sample ∧ sample < 32768 then
    some [BitVec.ofInt 8 sample, BitVec.ofInt 8 (sample / 256)]
  else none

/-- `pcm16_to_ulaw`: a last byte without its partner is left out. -/
def pcm16ToUlaw : List (BitVec 8) → List (BitVec 8)
  | low :: high :: pcm => encodeSample (fromBytes low high) :: pcm16ToUlaw pcm
  | _ => []

/-- `ulaw_to_pcm16`. -/
def ulawToPcm16 : List (BitVec 8) → Option (List (BitVec 8))
  | [] => some []
  | byte :: ulaw => do
    let frame ← toBytes (decodeSample byte)
    let out ← ulawToPcm16 ulaw
    return frame ++ out

/-! ### Bytes as fields -/

/-- The fields of a mu-law byte. -/
structure Code where
  negative : Bool
  exponent : Fin 8
  mantissa : Fin 16
  deriving DecidableEq

namespace Code

/-- The byte with these fields. -/
def byte (c : Code) : BitVec 8 :=
  ~~~ BitVec.ofNat 8 ((if c.negative then 0x80 else 0x00) ||| (c.exponent.val <<< 4) |||
    c.mantissa.val)

/-- The fields of a byte. -/
def ofByte (b : BitVec 8) : Code where
  negative := (~~~ b).toNat &&& 0x80 ≠ 0
  exponent := Fin.ofNat 8 ((~~~ b).toNat >>> 4)
  mantissa := Fin.ofNat 16 (~~~ b).toNat

/-- The lowest level of the cell. -/
def lower (c : Code) : ℕ := 2 ^ c.exponent.val * (8 * (16 + c.mantissa.val))

/-- The level in the middle of the cell. -/
def middle (c : Code) : ℕ := 2 ^ c.exponent.val * (8 * (16 + c.mantissa.val) + 4)

/-- The first level above the cell. -/
def upper (c : Code) : ℕ := 2 ^ c.exponent.val * (8 * (16 + c.mantissa.val) + 8)

/-- The sample in the middle of the cell. -/
def value (c : Code) : ℤ :=
  if c.negative then -((c.middle : ℤ) - bias) else c.middle - bias

set_option maxRecDepth 4000 in
theorem byte_ofByte (b : BitVec 8) : (ofByte b).byte = b := by
  revert b
  decide +kernel

theorem ofByte_byte (c : Code) : ofByte c.byte = c := by
  obtain ⟨negative, exponent, mantissa⟩ := c
  revert negative exponent mantissa
  decide +kernel

theorem decodeSample_byte (c : Code) : decodeSample c.byte = c.value := by
  obtain ⟨negative, exponent, mantissa⟩ := c
  revert negative exponent mantissa
  decide +kernel

theorem middle_bounds (c : Code) : 132 ≤ c.middle ∧ c.middle ≤ 32256 := by
  obtain ⟨negative, exponent, mantissa⟩ := c
  revert negative exponent mantissa
  decide

/-- Only the two zeroes have the lowest level. -/
theorem eq_zero_of_middle_le {c : Code} (h : c.middle ≤ 132) : c = ⟨c.negative, 0, 0⟩ := by
  obtain ⟨negative, exponent, mantissa⟩ := c
  revert negative exponent mantissa
  decide

end Code

/-! ### The cell of a sample -/

/-- The level of a sample: its clipped size, biased. -/
def level (sample : ℤ) : ℕ :=
  min sample.natAbs clip + bias

theorem level_bounds (sample : ℤ) : 2 ^ 7 ≤ level sample ∧ level sample < 2 ^ 15 := by
  unfold level clip bias
  omega

/-- The loop finds the segment that the level lies in. -/
theorem findExponent_spec {n : ℕ} (h_low : 2 ^ 7 ≤ n) (k : ℕ) (h_high : n < 2 ^ (k + 8)) :
    findExponent n k (2 ^ (k + 7)) ≤ k ∧ 2 ^ (findExponent n k (2 ^ (k + 7)) + 7) ≤ n ∧
      n < 2 ^ (findExponent n k (2 ^ (k + 7)) + 8) := by
  induction k with
  | zero => exact ⟨le_rfl, h_low, h_high⟩
  | succ k ih =>
    have h_mask : 2 ^ (k + 1 + 7) >>> 1 = 2 ^ (k + 7) := by
      rw [Nat.shiftRight_eq_div_pow, show k + 1 + 7 = (k + 7) + 1 by omega, pow_succ]
      simp
    rcases lt_or_ge n (2 ^ (k + 8)) with h_lt | h_ge
    · -- the bit of the mask is not set: one segment lower
      have h_bit : n &&& 2 ^ (k + 1 + 7) = 0 := by
        rw [Nat.and_two_pow, Nat.testBit_lt_two_pow (by rwa [show k + 1 + 7 = k + 8 by omega])]
        simp
      rw [findExponent, if_pos h_bit, h_mask]
      obtain ⟨h_le, h_bounds⟩ := ih h_lt
      exact ⟨Nat.le_succ_of_le h_le, h_bounds⟩
    · have h_bit : n &&& 2 ^ (k + 1 + 7) ≠ 0 := by
        rw [Nat.and_two_pow, Nat.testBit_of_two_pow_le_and_two_pow_add_one_gt
          (by rwa [show k + 1 + 7 = k + 8 by omega])
          (by rwa [show k + 1 + 7 + 1 = k + 1 + 8 by omega])]
        simp
      rw [findExponent, if_neg h_bit]
      exact ⟨le_rfl, by rwa [show k + 1 + 7 = k + 8 by omega], h_high⟩

/-- Every sample lies in a cell, and that cell's byte is its encoding. -/
theorem encodeSample_cell (sample : ℤ) :
    ∃ c : Code, encodeSample sample = c.byte ∧ c.negative = decide (sample < 0) ∧
      c.lower ≤ level sample ∧ level sample < c.upper := by
  obtain ⟨h_low, h_high⟩ := level_bounds sample
  obtain ⟨h_le, h_seg, h_seg'⟩ := findExponent_spec h_low 7 h_high
  have h_level : (if (if sample < 0 then (-sample).toNat else sample.toNat) > clip then clip
      else (if sample < 0 then (-sample).toNat else sample.toNat)) + bias = level sample := by
    unfold level
    split_ifs <;> omega
  generalize h_e : findExponent (level sample) 7 (2 ^ (7 + 7)) = e at *
  have h_shift : 2 ^ (e + 7) = 2 ^ (e + 3) * 16 ∧ 2 ^ (e + 8) = 2 ^ (e + 3) * 32 := by
    constructor <;> ring
  have h_pos : 0 < 2 ^ (e + 3) := Nat.two_pow_pos _
  -- the quotient by the length of the cell runs from 16 to 31 in every segment
  have h_q : 16 ≤ level sample / 2 ^ (e + 3) :=
    (Nat.le_div_iff_mul_le h_pos).2 (by linarith [h_shift.1, mul_comm (2 ^ (e + 3)) 16])
  have h_q' : level sample / 2 ^ (e + 3) < 32 :=
    (Nat.div_lt_iff_lt_mul h_pos).2 (by linarith [h_shift.2, mul_comm (2 ^ (e + 3)) 32])
  have h_mantissa : (level sample >>> (e + 3)) &&& 0x0F = level sample / 2 ^ (e + 3) - 16 := by
    rw [Nat.shiftRight_eq_div_pow, show 0x0F = 2 ^ 4 - 1 by rfl, Nat.and_two_pow_sub_one_eq_mod]
    omega
  refine ⟨⟨decide (sample < 0), ⟨e, by omega⟩, ⟨level sample / 2 ^ (e + 3) - 16, by omega⟩⟩,
    ?_, rfl, ?_, ?_⟩
  · unfold encodeSample Code.byte
    simp only [h_level, show (0x4000 : ℕ) = 2 ^ (7 + 7) by rfl, h_e, h_mantissa, decide_eq_true_eq]
  · have := Nat.div_mul_le_self (level sample) (2 ^ (e + 3))
    calc 2 ^ e * (8 * (16 + (level sample / 2 ^ (e + 3) - 16)))
        = level sample / 2 ^ (e + 3) * 2 ^ (e + 3) := by
          rw [Nat.add_sub_cancel' h_q]
          ring
      _ ≤ level sample := this
  · calc level sample < (level sample / 2 ^ (e + 3) + 1) * 2 ^ (e + 3) :=
          Nat.lt_mul_of_div_lt (Nat.lt_succ_self _) h_pos
      _ = 2 ^ e * (8 * (16 + (level sample / 2 ^ (e + 3) - 16)) + 8) := by
          rw [Nat.add_sub_cancel' h_q]
          ring

namespace Code

theorem two_pow_le_lower (c : Code) : 2 ^ (c.exponent.val + 7) ≤ c.lower := by
  calc 2 ^ (c.exponent.val + 7) = 2 ^ c.exponent.val * 128 := by ring
    _ ≤ c.lower := Nat.mul_le_mul_left _ (by omega)

theorem upper_le_two_pow (c : Code) : c.upper ≤ 2 ^ (c.exponent.val + 8) := by
  calc c.upper ≤ 2 ^ c.exponent.val * 256 := Nat.mul_le_mul_left _ (by omega)
    _ = 2 ^ (c.exponent.val + 8) := by ring

/-- The cells lie in the order of their segments and, in one segment, of their steps. -/
theorem le_of_lower_lt_upper {c c' : Code} (h : c.lower < c'.upper) :
    c.exponent < c'.exponent ∨ c.exponent = c'.exponent ∧ c.mantissa ≤ c'.mantissa := by
  -- by the exponents: the larger one has the larger segment
  rcases lt_trichotomy c.exponent c'.exponent with h_lt | h_eq | h_gt
  · exact Or.inl h_lt
  · refine Or.inr ⟨h_eq, ?_⟩
    unfold lower upper at h
    rw [h_eq] at h
    have h_step := Nat.lt_of_mul_lt_mul_left h
    exact Fin.le_def.2 (by omega)
  · have h_pow : 2 ^ (c'.exponent.val + 8) ≤ 2 ^ (c.exponent.val + 7) :=
      Nat.pow_le_pow_right (by norm_num) (by have := Fin.lt_def.1 h_gt; omega)
    have := c.two_pow_le_lower
    have := c'.upper_le_two_pow
    omega

theorem lower_le_middle (c : Code) : c.lower ≤ c.middle :=
  Nat.mul_le_mul_left _ (by omega)

theorem middle_lt_upper (c : Code) : c.middle < c.upper :=
  Nat.mul_lt_mul_of_pos_left (by omega) (Nat.two_pow_pos _)

/-- Codes that overlap are in order at their middles. -/
theorem middle_le_of_lower_lt_upper {c c' : Code} (h : c.lower < c'.upper) :
    c.middle ≤ c'.middle := by
  -- a segment below, or the same one
  rcases le_of_lower_lt_upper h with h_lt | ⟨h_eq, h_le⟩
  · have h_pow : 2 ^ (c.exponent.val + 8) ≤ 2 ^ (c'.exponent.val + 7) :=
      Nat.pow_le_pow_right (by norm_num) (by have := Fin.lt_def.1 h_lt; omega)
    calc c.middle ≤ c.upper := c.middle_lt_upper.le
      _ ≤ 2 ^ (c.exponent.val + 8) := c.upper_le_two_pow
      _ ≤ 2 ^ (c'.exponent.val + 7) := h_pow
      _ ≤ c'.lower := c'.two_pow_le_lower
      _ ≤ c'.middle := c'.lower_le_middle
  · unfold middle
    rw [h_eq]
    exact Nat.mul_le_mul_left _ (by have := Fin.le_def.1 h_le; omega)

/-- A level lies in one cell of each sign. -/
theorem eq_of_mem {c c' : Code} {n : ℕ} (h_sign : c.negative = c'.negative)
    (h_low : c.lower ≤ n) (h_high : n < c.upper) (h_low' : c'.lower ≤ n) (h_high' : n < c'.upper) :
    c = c' := by
  have h_le := le_of_lower_lt_upper (lt_of_le_of_lt h_low h_high')
  have h_ge := le_of_lower_lt_upper (lt_of_le_of_lt h_low' h_high)
  obtain ⟨negative, exponent, mantissa⟩ := c
  obtain ⟨negative', exponent', mantissa'⟩ := c'
  simp only [mk.injEq] at *
  refine ⟨h_sign, ?_, ?_⟩ <;> omega

/-- The middle of a cell is off by a thirty-second of the level at most. -/
theorem abs_middle_sub_le {c : Code} {n : ℕ} (h_low : c.lower ≤ n) (h_high : n < c.upper) :
    32 * |(c.middle : ℤ) - n| ≤ n := by
  -- the middle lies half a step above the lower end
  have h_half : (c.middle : ℤ) = c.lower + 4 * 2 ^ c.exponent.val ∧
      (c.upper : ℤ) = c.middle + 4 * 2 ^ c.exponent.val := by
    simp only [lower, middle, upper]
    push_cast
    constructor <;> ring
  -- a segment has at least sixteen steps of that size below it
  have h_seg : (128 : ℤ) * 2 ^ c.exponent.val ≤ c.lower := by
    have := c.two_pow_le_lower
    rw [pow_add] at this
    zify at this
    linarith
  have h_low' : (c.lower : ℤ) ≤ n := by exact_mod_cast h_low
  have h_high' : (n : ℤ) < c.upper := by exact_mod_cast h_high
  rcases abs_cases ((c.middle : ℤ) - n) with ⟨h_abs, _⟩ | ⟨h_abs, _⟩ <;> linarith

end Code

/-! ### One sample -/

/-- What is left of a sample after the clip. -/
def clamp (sample : ℤ) : ℤ :=
  max (-clip) (min sample clip)

/-- The level is the clamped size and the bias. -/
theorem level_eq (sample : ℤ) : (level sample : ℤ) = |clamp sample| + bias := by
  unfold level clamp clip bias
  push_cast
  rcases abs_cases (max (-(32635 : ℤ)) (min sample 32635)) with ⟨h_abs, _⟩ | ⟨h_abs, _⟩ <;>
    rcases abs_cases sample with ⟨h_abs', _⟩ | ⟨h_abs', _⟩ <;> omega

/-- `0x7F` and `0xFF` both stand for silence, and only the second is ever written for it. -/
def canonical (b : BitVec 8) : BitVec 8 :=
  if b = 0x7F then 0xFF else b

/-- A sample that a byte was decoded to is encoded as that byte again. -/
theorem encodeSample_decodeSample (b : BitVec 8) :
    encodeSample (decodeSample b) = canonical b := by
  obtain ⟨h_min, h_max⟩ := (Code.ofByte b).middle_bounds
  obtain ⟨c, h_enc, h_sign, h_low, h_high⟩ := encodeSample_cell (decodeSample b)
  rw [h_enc]
  have h_byte := Code.byte_ofByte b
  generalize Code.ofByte b = c₀ at *
  subst h_byte
  rw [Code.decodeSample_byte] at *
  have h_level : level c₀.value = c₀.middle := by
    unfold level Code.value clip bias at *
    split_ifs <;> omega
  rw [h_level] at h_low h_high
  by_cases h_zero : c₀ = ⟨true, 0, 0⟩
  · subst h_zero
    rw [(Code.eq_of_mem h_sign h_low h_high (by decide) (by decide) : c = ⟨false, 0, 0⟩)]
    decide
  · -- any other byte has the sign of its sample
    have h_sign' : c.negative = c₀.negative := by
      rw [h_sign]
      unfold Code.value bias
      cases h_neg : c₀.negative with
      | false => simpa using by exact_mod_cast h_min
      | true =>
        have h_ne : ¬ c₀.middle ≤ 132 := fun h_le =>
          h_zero (h_neg ▸ Code.eq_zero_of_middle_le h_le)
        simpa using by exact_mod_cast not_le.1 h_ne
    rw [Code.eq_of_mem h_sign' h_low h_high c₀.lower_le_middle c₀.middle_lt_upper, canonical,
      if_neg]
    intro h_eq
    apply h_zero
    rw [← c₀.ofByte_byte, h_eq]
    decide

/-- What is left of a sample on a telephone leg. -/
def viaUlaw (sample : ℤ) : ℤ :=
  decodeSample (encodeSample sample)

/-- The value of the cell has the size of its middle and the sign of the sample. -/
theorem viaUlaw_cell (sample : ℤ) :
    ∃ c : Code,
      viaUlaw sample = (if sample < 0 then -((c.middle : ℤ) - bias) else c.middle - bias) ∧
      c.lower ≤ level sample ∧ level sample < c.upper := by
  obtain ⟨c, h_enc, h_sign, h_low, h_high⟩ := encodeSample_cell sample
  refine ⟨c, ?_, h_low, h_high⟩
  rw [viaUlaw, h_enc, Code.decodeSample_byte, Code.value, h_sign]
  simp only [decide_eq_true_eq]

/-- What μ-law loses is a part of the level. -/
theorem viaUlaw_error (sample : ℤ) :
    32 * |viaUlaw sample - clamp sample| ≤ |clamp sample| + bias := by
  obtain ⟨c, h_via, h_low, h_high⟩ := viaUlaw_cell sample
  have h_err := Code.abs_middle_sub_le h_low h_high
  have h_level := level_eq sample
  rw [h_level] at h_err
  -- both are mirrored for a negative sample
  have h_abs : |viaUlaw sample - clamp sample| = |(c.middle : ℤ) - (|clamp sample| + bias)| := by
    by_cases h_neg : sample < 0
    · have h_clamp : |clamp sample| = -clamp sample := abs_of_nonpos (by unfold clamp clip; omega)
      rw [h_via, if_pos h_neg, h_clamp, ← abs_neg]
      congr 1
      ring
    · have h_clamp : |clamp sample| = clamp sample := abs_of_nonneg (by unfold clamp clip; omega)
      rw [h_via, if_neg h_neg, h_clamp]
      congr 1
      ring
  rwa [h_abs]

/-- The way through μ-law keeps the order. -/
theorem viaUlaw_mono {s t : ℤ} (h_st : s ≤ t) : viaUlaw s ≤ viaUlaw t := by
  -- each sample lies in the cell of its code
  obtain ⟨c, h_s, h_low, h_high⟩ := viaUlaw_cell s
  obtain ⟨c', h_t, h_low', h_high'⟩ := viaUlaw_cell t
  obtain ⟨h_min, _⟩ := c.middle_bounds
  obtain ⟨h_min', _⟩ := c'.middle_bounds
  rw [h_s, h_t]
  unfold level at h_low h_high h_low' h_high'
  -- negative samples are in the opposite order
  rcases lt_or_ge t 0 with h_neg | h_pos
  · have : c'.middle ≤ c.middle := Code.middle_le_of_lower_lt_upper (by omega)
    rw [if_pos (by omega), if_pos h_neg]
    omega
  · -- a negative one is below all others
    rw [if_neg (by omega : ¬ t < 0)]
    rcases lt_or_ge s 0 with h_neg' | h_pos'
    · rw [if_pos h_neg']
      unfold bias
      omega
    · have : c.middle ≤ c'.middle := Code.middle_le_of_lower_lt_upper (by omega)
      rw [if_neg (by omega)]
      omega

/-- The canonical code of a byte decodes to the same. -/
theorem decodeSample_canonical (b : BitVec 8) : decodeSample (canonical b) = decodeSample b := by
  unfold canonical
  split_ifs with h_eq
  · rw [h_eq]
    decide
  · rfl

/-! ### Buffers -/

/-- The samples of a PCM16 buffer. -/
def samples : List (BitVec 8) → List ℤ
  | low :: high :: pcm => fromBytes low high :: samples pcm
  | _ => []

/-- A decoded sample is within these bounds. -/
theorem decodeSample_bounds (b : BitVec 8) : -32124 ≤ decodeSample b ∧ decodeSample b ≤ 32124 := by
  rw [← Code.byte_ofByte b, Code.decodeSample_byte]
  have := (Code.ofByte b).middle_bounds
  unfold Code.value bias
  split_ifs <;> omega

/-- A sample in range is read back from its bytes. -/
theorem toBytes_eq {sample : ℤ} (h : -32768 ≤ sample ∧ sample < 32768) :
    ∃ low high, toBytes sample = some [low, high] ∧ fromBytes low high = sample := by
  refine ⟨_, _, if_pos h, ?_⟩
  unfold fromBytes
  simp only [BitVec.toNat_ofInt]
  split_ifs <;> omega

/-- Decoding never overflows, and its samples are those of the bytes. -/
theorem ulawToPcm16_spec (ulaw : List (BitVec 8)) :
    ∃ pcm, ulawToPcm16 ulaw = some pcm ∧ pcm.length = 2 * ulaw.length ∧
      samples pcm = ulaw.map decodeSample := by
  -- by induction on the bytes, a sample for each
  induction ulaw with
  | nil => exact ⟨[], rfl, rfl, rfl⟩
  | cons b ulaw ih =>
    obtain ⟨pcm, h_pcm, h_length, h_samples⟩ := ih
    have h_bounds := decodeSample_bounds b
    obtain ⟨low, high, h_frame, h_value⟩ :=
      toBytes_eq (⟨by omega, by omega⟩ : -32768 ≤ decodeSample b ∧ decodeSample b < 32768)
    refine ⟨low :: high :: pcm, ?_, ?_, ?_⟩
    · simp [ulawToPcm16, h_frame, h_pcm]
    · simp [h_length]
      omega
    · simp [samples, h_value, h_samples]

/-- Encoding goes sample by sample. -/
theorem pcm16ToUlaw_eq (pcm : List (BitVec 8)) :
    pcm16ToUlaw pcm = (samples pcm).map encodeSample := by
  induction pcm using samples.induct with
  | case1 low high pcm ih => simp [pcm16ToUlaw, samples, ih]
  | case2 pcm h_short => rw [pcm16ToUlaw, samples, List.map_nil] <;> exact h_short

theorem pcm16ToUlaw_decoded {ulaw pcm : List (BitVec 8)}
    (h_samples : samples pcm = ulaw.map decodeSample) : pcm16ToUlaw pcm = ulaw.map canonical := by
  rw [pcm16ToUlaw_eq, h_samples, List.map_map]
  exact List.map_congr_left fun b _ => encodeSample_decodeSample b

/-- The canonical codes decode to the same buffer. -/
theorem ulawToPcm16_canonical (ulaw : List (BitVec 8)) :
    ulawToPcm16 (ulaw.map canonical) = ulawToPcm16 ulaw := by
  induction ulaw with
  | nil => rfl
  | cons b ulaw ih => simp only [List.map_cons, ulawToPcm16, decodeSample_canonical, ih]

/-- **Bytes of a telephone leg survive the pipeline**: decoding a buffer never overflows and gives
two bytes for one, and what is encoded from them is the buffer again, with silence written in one
way. -/
theorem ulaw_roundtrip (ulaw : List (BitVec 8)) :
    ∃ pcm, ulawToPcm16 ulaw = some pcm ∧ pcm.length = 2 * ulaw.length ∧
      pcm16ToUlaw pcm = ulaw.map canonical := by
  obtain ⟨pcm, h_pcm, h_length, h_samples⟩ := ulawToPcm16_spec ulaw
  exact ⟨pcm, h_pcm, h_length, pcm16ToUlaw_decoded h_samples⟩

/-- **What a telephone leg does to PCM16**: the buffer comes back with as many samples, each off by
a thirty-second of its level at most, no two of them swapped in order, and a second leg changes
nothing more. -/
theorem pcm_roundtrip (pcm : List (BitVec 8)) :
    ∃ out, ulawToPcm16 (pcm16ToUlaw pcm) = some out ∧
      List.Forall₂ (fun s t => 32 * |t - clamp s| ≤ |clamp s| + bias) (samples pcm) (samples out) ∧
      (∀ i j : ℕ, ∀ s ∈ (samples pcm)[i]?, ∀ s' ∈ (samples pcm)[j]?, s ≤ s' →
        ∀ t ∈ (samples out)[i]?, ∀ t' ∈ (samples out)[j]?, t ≤ t') ∧
      ulawToPcm16 (pcm16ToUlaw out) = some out := by
  obtain ⟨out, h_out, -, h_samples⟩ := ulawToPcm16_spec (pcm16ToUlaw pcm)
  -- each sample goes through μ-law
  have h_via : samples out = (samples pcm).map viaUlaw := by
    rw [h_samples, pcm16ToUlaw_eq, List.map_map]
    rfl
  refine ⟨out, h_out, ?_, ?_, ?_⟩
  · -- the error of each sample
    rw [h_via, List.forall₂_map_right_iff]
    exact List.forall₂_same.2 fun s _ => viaUlaw_error s
  · -- the order of two samples
    intro i j s h_s s' h_s' h_le t h_t t' h_t'
    simp only [h_via, List.getElem?_map, Option.mem_def, Option.map_eq_some_iff] at *
    obtain ⟨_, h_i, rfl⟩ := h_t
    obtain ⟨_, h_j, rfl⟩ := h_t'
    rw [h_s] at h_i
    rw [h_s'] at h_j
    cases h_i
    cases h_j
    exact viaUlaw_mono h_le
  · -- what was decoded once is decoded to the same
    rw [pcm16ToUlaw_decoded h_samples, ulawToPcm16_canonical, h_out]

end Nexus.Voice.Mulaw
