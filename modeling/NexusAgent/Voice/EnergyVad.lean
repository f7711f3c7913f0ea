import Mathlib.Analysis.Real.Sqrt

/-!
# Turn detection

A VAD adapter reads the audio frame by frame and says where an utterance starts and ends.
The energy VAD does so by the loudness of each frame.

* `VADAdapter`: the interface of `adapters/vad/base.py`.
* `EnergyVAD.processFrame`: the detector of `adapters/vad/energy.py`.
* `isSpeech_iff`: the comparison it makes is that of the root mean square with the threshold.
* `EnergyVAD.processFrame_heard`: what a frame can do.
-/

namespace Nexus.Voice

/-- `VADEvent`. -/
inductive VADEvent
  | speechStart
  | speechEnd
  deriving DecidableEq, Repr

/-- The bytes of a PCM16 frame. -/
abbrev Frame := List UInt8

/-- `VADConfig`, without what only the other providers read. -/
structure VADConfig where
  threshold : ℚ := 2 / 100
  silenceMs : ℤ := 700
  minSpeechMs : ℤ := 200
  bargeInMinSpeechMs : ℤ := 250
  sampleRate : ℤ := 16000

/-- `VADAdapter`, over the type of its state. -/
structure VADAdapter (σ : Type) where
  processFrame : σ → Frame → Option VADEvent × σ
  /-- What was buffered since the last start of speech, and the buffer cleared. -/
  takeUtterance : σ → Frame × σ
  reset : σ → σ

/-! ### The loudness of a frame -/

/-- `int.from_bytes(.., "little", signed=True)` of two bytes. -/
def sample (lo hi : UInt8) : ℤ :=
  let v : ℤ := lo.toNat + 256 * hi.toNat
  if v < 32768 then v else v - 65536

/-- The samples of a frame; an odd last byte is none. -/
def samples : Frame → List ℤ
  | lo :: hi :: rest => sample lo hi :: samples rest
  | _ => []

/-- The sum of the squares. -/
def total (frame : Frame) : ℤ :=
  ((samples frame).map fun x => x * x).sum

/-- `_frame_rms`, in exact arithmetic. -/
noncomputable def frameRms (frame : Frame) : ℝ :=
  if samples frame = [] then 0 else √(total frame / (samples frame).length) / 32768

/-- `is_speech`: the root mean square reaches the threshold, compared by the squares. -/
def isSpeech (threshold : ℚ) (frame : Frame) : Bool :=
  decide (threshold ≤ 0 ∨ samples frame ≠ [] ∧
    (threshold * 32768) ^ 2 * (samples frame).length ≤ total frame)

/-- The energy of a frame is not negative. -/
theorem frameRms_nonneg (frame : Frame) : 0 ≤ frameRms frame := by
  unfold frameRms
  split
  · exact le_refl 0
  · positivity

/-- **The comparison of the squares** is that of `_frame_rms` with the threshold. -/
theorem isSpeech_iff (threshold : ℚ) (frame : Frame) :
    isSpeech threshold frame = true ↔ (threshold : ℝ) ≤ frameRms frame := by
  rw [isSpeech, decide_eq_true_iff]
  rcases le_or_gt threshold 0 with h_neg | h_pos
  · have h_real : (threshold : ℝ) ≤ 0 := by exact_mod_cast h_neg
    exact iff_of_true (.inl h_neg) (h_real.trans (frameRms_nonneg frame))
  · have h_real : (0 : ℝ) < threshold := by exact_mod_cast h_pos
    by_cases h_empty : samples frame = []
    · rw [frameRms, if_pos h_empty]
      exact iff_of_false (by simp [h_empty, h_pos.not_ge]) h_real.not_ge
    · have h_count : (0 : ℝ) < (samples frame).length := by
        exact_mod_cast List.length_pos_of_ne_nil h_empty
      rw [frameRms, if_neg h_empty, le_div_iff₀ (by norm_num),
        Real.le_sqrt' (by positivity), le_div_iff₀ h_count]
      simp only [h_pos.not_ge, false_or, ne_eq, h_empty, not_false_eq_true, true_and]
      -- both sides are the same comparison, of rationals and of reals
      exact_mod_cast Iff.rfl

/-! ### The energy VAD -/

/-- The fields of `EnergyVAD`. -/
structure EnergyVAD where
  inSpeech : Bool := false
  buffer : Frame := []
  silenceMs : ℚ := 0
  speechMs : ℚ := 0
  deriving DecidableEq

namespace EnergyVAD

/-- `EnergyVAD._frame_ms`. -/
def frameMs (cfg : VADConfig) (frame : Frame) : ℚ :=
  if cfg.sampleRate ≠ 0 then (frame.length / 2 : ℚ) / cfg.sampleRate * 1000 else 0

/-- `EnergyVAD.process_frame`. -/
def processFrame (cfg : VADConfig) (vad : EnergyVAD) (frame : Frame) :
    Option VADEvent × EnergyVAD :=
  if isSpeech cfg.threshold frame then
    if ¬vad.inSpeech then
      (some .speechStart, ⟨true, frame, 0, 0⟩)
    else
      (none, { vad with silenceMs := 0, speechMs := vad.speechMs + frameMs cfg frame,
                        buffer := vad.buffer ++ frame })
  else if vad.inSpeech then
    let heard := { vad with buffer := vad.buffer ++ frame,
                            silenceMs := vad.silenceMs + frameMs cfg frame }
    if (cfg.silenceMs : ℚ) ≤ heard.silenceMs then
      if (cfg.minSpeechMs : ℚ) ≤ heard.speechMs then
        (some .speechEnd, { heard with inSpeech := false })
      else
        -- too short to count as a turn
        (none, { heard with inSpeech := false, buffer := [] })
    else
      (none, heard)
  else
    (none, vad)

/-- `EnergyVAD.take_utterance`. -/
def takeUtterance (vad : EnergyVAD) : Frame × EnergyVAD :=
  (vad.buffer, { vad with buffer := [] })

/-- The energy VAD as an adapter. -/
def adapter (cfg : VADConfig) : VADAdapter EnergyVAD where
  processFrame := processFrame cfg
  takeUtterance := takeUtterance
  reset := fun _ => {}

variable {cfg : VADConfig} {vad : EnergyVAD} {frame : Frame}

/-- What a frame can do: its loudness, whether the detector was in speech, the event, and
whether it is in speech now. -/
inductive Heard : (loud was : Bool) → Option VADEvent → (now : Bool) → Prop
  | start : Heard true false (some .speechStart) true
  | speech : Heard true true none true
  | ending : Heard false true (some .speechEnd) false
  | click : Heard false true none false
  | pause : Heard false true none true
  | silence : Heard false false none false

/-- **What a frame did.** -/
theorem processFrame_heard (cfg : VADConfig) (vad : EnergyVAD) (frame : Frame) :
    Heard (isSpeech cfg.threshold frame) vad.inSpeech (processFrame cfg vad frame).1
      (processFrame cfg vad frame).2.inSpeech := by
  unfold processFrame
  cases h_loud : isSpeech cfg.threshold frame with
  | true =>
    cases h_in : vad.inSpeech with
    | false => simpa using Heard.start
    | true => simpa [h_in] using Heard.speech
  | false =>
    cases h_in : vad.inSpeech with
    | false => simpa [h_in] using Heard.silence
    | true =>
      -- the silence is short, or it ends a turn or a click
      simp only [Bool.false_eq_true, if_false, if_true]
      split
      · split
        · exact Heard.ending
        · exact Heard.click
      · simpa [h_in] using Heard.pause

end EnergyVAD

end Nexus.Voice
