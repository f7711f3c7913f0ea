import NexusAgent.Voice.EnergyVad

/-!
# The turns of the energy VAD

A turn starts with the first loud frame and lasts until enough quiet audio has followed; it
counts if enough of it was loud. `currentTurn` says so about the frames alone, and
`EnergyVAD.Tracks` says what the detector keeps of it. The loud audio it keeps is that of the
frames after the first one, since the counter starts at zero with the frame that starts the
speech.

* `track`: the detector follows the turns.
* `detectsTurns_iff`: when it ends the turns that are long enough, and only these.
-/

namespace Nexus.Voice

/-! ### Turns -/

/-- The duration of some audio. -/
def duration (cfg : VADConfig) (frames : List Frame) : ℚ :=
  (frames.map (EnergyVAD.frameMs cfg)).sum

/-- The loud audio of a turn. -/
def speech (cfg : VADConfig) (turn : List Frame) : ℚ :=
  duration cfg (turn.filter (isSpeech cfg.threshold))

/-- The quiet audio at the end of a turn. -/
def trailing (cfg : VADConfig) (turn : List Frame) : ℚ :=
  duration cfg (turn.reverse.takeWhile fun frame => !isSpeech cfg.threshold frame)

/-- `frame` is quiet, and with it the quiet audio at the end of the turn reaches `silence_ms`. -/
def Closes (cfg : VADConfig) (turn : List Frame) (frame : Frame) : Prop :=
  isSpeech cfg.threshold frame = false ∧ (cfg.silenceMs : ℚ) ≤ trailing cfg (turn ++ [frame])

instance (cfg : VADConfig) (turn : List Frame) (frame : Frame) :
    Decidable (Closes cfg turn frame) :=
  inferInstanceAs (Decidable (_ ∧ _))

/-- The turn that is open after a frame. -/
def listen (cfg : VADConfig) : Option (List Frame) → Frame → Option (List Frame)
  | none, frame => if isSpeech cfg.threshold frame then some [frame] else none
  | some turn, frame => if Closes cfg turn frame then none else some (turn ++ [frame])

/-- The turn that is open after the frames: those since the one that started it. -/
def currentTurn (cfg : VADConfig) (frames : List Frame) : Option (List Frame) :=
  frames.foldl (listen cfg) none

/-- The audio counts as a turn. -/
def LongEnough (cfg : VADConfig) (turn : List Frame) : Prop :=
  (cfg.minSpeechMs : ℚ) ≤ speech cfg turn

instance (cfg : VADConfig) (turn : List Frame) : Decidable (LongEnough cfg turn) :=
  inferInstanceAs (Decidable (_ ≤ _))

section Measures

variable (cfg : VADConfig) (turn : List Frame) {frame : Frame}

theorem speech_loud (h : isSpeech cfg.threshold frame = true) :
    speech cfg (turn ++ [frame]) = speech cfg turn + EnergyVAD.frameMs cfg frame := by
  simp [speech, duration, List.filter_append, h]

theorem speech_quiet (h : isSpeech cfg.threshold frame = false) :
    speech cfg (turn ++ [frame]) = speech cfg turn := by
  simp [speech, List.filter_append, h]

theorem trailing_loud (h : isSpeech cfg.threshold frame = true) :
    trailing cfg (turn ++ [frame]) = 0 := by
  simp [trailing, duration, h]

theorem trailing_quiet (h : isSpeech cfg.threshold frame = false) :
    trailing cfg (turn ++ [frame]) = trailing cfg turn + EnergyVAD.frameMs cfg frame := by
  simp [trailing, duration, h, add_comm]

end Measures

/-! ### The run of the detector -/

namespace EnergyVAD

/-- What the pipelines do with a frame: they feed it to the detector, and at the end of speech
they take the utterance. -/
def hear (cfg : VADConfig) (vad : EnergyVAD) (frame : Frame) : EnergyVAD :=
  let heard := processFrame cfg vad frame
  if heard.1 = some .speechEnd then (takeUtterance heard.2).2 else heard.2

/-- The detector after the frames. -/
def after (cfg : VADConfig) (frames : List Frame) : EnergyVAD :=
  frames.foldl (hear cfg) {}

/-- The event of the frame that comes next. -/
def eventAt (cfg : VADConfig) (frames : List Frame) (frame : Frame) : Option VADEvent :=
  (processFrame cfg (after cfg frames) frame).1

/-- What `take_utterance` returns after the frame that comes next. -/
def utteranceAt (cfg : VADConfig) (frames : List Frame) (frame : Frame) : Frame :=
  (takeUtterance (processFrame cfg (after cfg frames) frame).2).1

/-- The events of the frames. -/
def events (cfg : VADConfig) (vad : EnergyVAD) : List Frame → List VADEvent
  | [] => []
  | frame :: frames =>
    (processFrame cfg vad frame).1.toList ++ events cfg (hear cfg vad frame) frames

/-- What the detector keeps of the open turn. -/
inductive Tracks (cfg : VADConfig) : EnergyVAD → Option (List Frame) → Prop
  | idle {vad : EnergyVAD} : vad.inSpeech = false → Tracks cfg vad none
  | turn {first : Frame} {rest : List Frame} :
      Tracks cfg ⟨true, (first :: rest).flatten, trailing cfg (first :: rest), speech cfg rest⟩
        (some (first :: rest))

variable {cfg : VADConfig} {vad : EnergyVAD} {frame first : Frame} {rest : List Frame}

/-- Hearing a frame follows the detector. -/
theorem hear_inSpeech (cfg : VADConfig) (vad : EnergyVAD) (frame : Frame) :
    (hear cfg vad frame).inSpeech = (processFrame cfg vad frame).2.inSpeech := by
  unfold hear
  dsimp only
  split_ifs <;> rfl

/-- While nobody speaks, a loud frame starts a turn. -/
theorem processFrame_idle (h : vad.inSpeech = false) (frame : Frame) :
    processFrame cfg vad frame =
      if isSpeech cfg.threshold frame then (some .speechStart, ⟨true, frame, 0, 0⟩)
      else (none, vad) := by
  simp [processFrame, h]

/-- **A frame of an open turn**: it closes the turn, or the turn goes on. -/
theorem processFrame_turn (cfg : VADConfig) (first : Frame) (rest : List Frame) (frame : Frame) :
    processFrame cfg
        ⟨true, (first :: rest).flatten, trailing cfg (first :: rest), speech cfg rest⟩ frame =
      if Closes cfg (first :: rest) frame then
        if LongEnough cfg (rest ++ [frame]) then
          (some .speechEnd, ⟨false, (first :: rest ++ [frame]).flatten,
            trailing cfg (first :: rest ++ [frame]), speech cfg (rest ++ [frame])⟩)
        else
          (none, ⟨false, [], trailing cfg (first :: rest ++ [frame]),
            speech cfg (rest ++ [frame])⟩)
      else
        (none, ⟨true, (first :: rest ++ [frame]).flatten,
          trailing cfg (first :: rest ++ [frame]), speech cfg (rest ++ [frame])⟩) := by
  -- the frame joins the turn
  have h_flatten : (first :: rest ++ [frame]).flatten = (first :: rest).flatten ++ frame := by
    simp
  -- a loud frame goes on with the turn
  cases h_loud : isSpeech cfg.threshold frame with
  | true =>
    have h_open : ¬Closes cfg (first :: rest) frame := by simp [Closes, h_loud]
    rw [if_neg h_open, trailing_loud cfg _ h_loud, speech_loud cfg _ h_loud, h_flatten]
    simp [processFrame, h_loud]
  -- a quiet one may close it
  | false =>
    rw [speech_quiet cfg _ h_loud, h_flatten]
    simp only [processFrame, h_loud, Bool.false_eq_true, if_false, if_true, Closes, true_and,
      trailing_quiet cfg _ h_loud, LongEnough, speech_quiet cfg _ h_loud]

/-- **The detector follows the turns**, frame by frame. -/
theorem Tracks.step {current : Option (List Frame)} (h : Tracks cfg vad current) (frame : Frame) :
    Tracks cfg (hear cfg vad frame) (listen cfg current frame) := by
  cases h with
  | idle h_idle =>
    rw [hear, processFrame_idle h_idle, listen]
    by_cases h_loud : isSpeech cfg.threshold frame = true
    · have h_turn : Tracks cfg ⟨true, [frame].flatten, trailing cfg [frame], speech cfg []⟩
          (some [frame]) := .turn
      simpa [trailing, speech, duration, h_loud] using h_turn
    · have h_none : Tracks cfg vad none := .idle h_idle
      simpa [h_loud] using h_none
  | @turn first rest =>
    rw [hear, processFrame_turn, listen]
    by_cases h_closes : Closes cfg (first :: rest) frame
    · -- the turn ends, or it is dropped
      rw [if_pos h_closes, if_pos h_closes]
      by_cases h_long : LongEnough cfg (rest ++ [frame])
      · rw [if_pos h_long]
        exact .idle rfl
      · rw [if_neg h_long]
        exact .idle rfl
    · rw [if_neg h_closes, if_neg h_closes]
      exact .turn

/-- **The detector follows the turns** of any audio. -/
theorem track (cfg : VADConfig) (frames : List Frame) :
    Tracks cfg (after cfg frames) (currentTurn cfg frames) := by
  have h_run : ∀ (frames : List Frame) {vad : EnergyVAD} {current : Option (List Frame)},
      Tracks cfg vad current →
        Tracks cfg (frames.foldl (hear cfg) vad) (frames.foldl (listen cfg) current) := by
    intro frames
    induction frames with
    | nil => exact fun h => h
    | cons frame frames ih => exact fun h => ih (h.step frame)
  exact h_run frames (.idle rfl)

/-! ### The events -/

/-- Outside a turn no speech is heard. -/
theorem track_idle {frames : List Frame} (h : currentTurn cfg frames = none) :
    (after cfg frames).inSpeech = false := by
  have h_track := track cfg frames
  rw [h] at h_track
  generalize after cfg frames = vad at h_track
  cases h_track with
  | idle h_idle => exact h_idle

/-- The state after the frames is that of the current turn. -/
theorem track_turn {frames turn : List Frame} (h : currentTurn cfg frames = some turn) :
    ∃ first rest, turn = first :: rest ∧ after cfg frames =
      ⟨true, turn.flatten, trailing cfg turn, speech cfg rest⟩ := by
  have h_track := track cfg frames
  rw [h] at h_track
  generalize after cfg frames = vad at h_track
  cases h_track with
  | @turn first rest => exact ⟨first, rest, rfl, rfl⟩

/-- Outside a turn only a start is heard. -/
theorem eventAt_idle {frames : List Frame} (h : currentTurn cfg frames = none) (frame : Frame) :
    eventAt cfg frames frame =
      if isSpeech cfg.threshold frame then some .speechStart else none := by
  rw [eventAt, processFrame_idle (track_idle h)]
  split_ifs <;> rfl

/-- **The event of an open turn**: it ends if it closes, and its loud audio after the first frame
is enough. -/
theorem eventAt_turn {frames turn : List Frame} (h : currentTurn cfg frames = some turn)
    (frame : Frame) : eventAt cfg frames frame =
      if Closes cfg turn frame ∧ LongEnough cfg (turn ++ [frame]).tail then some .speechEnd
      else none := by
  obtain ⟨first, rest, rfl, h_vad⟩ := track_turn h
  rw [eventAt, h_vad, processFrame_turn, List.cons_append, List.tail_cons]
  split_ifs <;> simp_all

/-- **The utterance** of a turn that ends: all its frames. -/
theorem utteranceAt_turn {frames turn : List Frame} (h : currentTurn cfg frames = some turn)
    {frame : Frame} (h_end : eventAt cfg frames frame = some .speechEnd) :
    utteranceAt cfg frames frame = (turn ++ [frame]).flatten := by
  rw [eventAt_turn h] at h_end
  split_ifs at h_end with h_both
  obtain ⟨first, rest, rfl, h_vad⟩ := track_turn h
  rw [List.cons_append, List.tail_cons] at h_both
  rw [utteranceAt, h_vad, processFrame_turn, if_pos h_both.1, if_pos h_both.2]
  rfl

/-- No speech ends twice in a row. -/
def Alternate (events : List VADEvent) : Prop :=
  events.IsChain fun event event' => event = .speechEnd → event' = .speechStart

/-- **Starts and ends alternate**, after an event that left the detector where it is. -/
theorem alternate_events (cfg : VADConfig) (frames : List Frame) (vad : EnergyVAD)
    (event : VADEvent) (h : event = .speechEnd → vad.inSpeech = false) :
    Alternate (event :: events cfg vad frames) := by
  -- by induction on the frames
  induction frames generalizing vad event with
  | nil => exact .singleton event
  | cons frame frames ih =>
    -- by what was heard
    have h_heard := processFrame_heard cfg vad frame
    have h_next := ih (hear cfg vad frame)
    rw [← hear_inSpeech] at h_heard
    rw [events]
    generalize (processFrame cfg vad frame).1 = heard at h_heard ⊢
    generalize (hear cfg vad frame).inSpeech = now at h_heard h_next
    generalize vad.inSpeech = was at h h_heard
    generalize isSpeech cfg.threshold frame = loud at h_heard
    -- after a start comes an end, after an end a start
    cases h_heard with
    | start => exact .cons_cons (fun _ => rfl) (h_next .speechStart (by simp))
    | speech => exact h_next event (by simpa using h)
    | ending => exact .cons_cons (by simpa using h) (h_next .speechEnd (by simp))
    | click => exact h_next event (by simp)
    | pause => exact h_next event (by simpa using h)
    | silence => exact h_next event (by simp)

/-! ### The turns that are detected -/

/-- **Turn detection**, of the frames heard so far. -/
structure DetectsTurns (cfg : VADConfig) (frames : List Frame) : Prop where
  /-- The first event is a start, and after an end comes a start. -/
  alternate : Alternate (.speechEnd :: events cfg {} frames)
  /-- A start is the first loud frame while no turn is open. -/
  starts : ∀ before frame, before ++ [frame] <+: frames →
    (eventAt cfg before frame = some .speechStart ↔
      currentTurn cfg before = none ∧ isSpeech cfg.threshold frame = true)
  /-- A turn ends when it closes, if its loud audio is enough. -/
  ends : ∀ before frame, before ++ [frame] <+: frames →
    (eventAt cfg before frame = some .speechEnd ↔
      ∃ turn, currentTurn cfg before = some turn ∧ Closes cfg turn frame ∧
        LongEnough cfg (turn ++ [frame]))
  /-- The utterance is all the frames of the turn. -/
  utterance : ∀ before frame, before ++ [frame] <+: frames →
    eventAt cfg before frame = some .speechEnd →
      ∃ turn, currentTurn cfg before = some turn ∧
        utteranceAt cfg before frame = (turn ++ [frame]).flatten

/-- An event of a frame that ends speech is that of an open turn. -/
theorem eventAt_end_iff (cfg : VADConfig) (before : List Frame) (frame : Frame) :
    eventAt cfg before frame = some .speechEnd ↔
      ∃ turn, currentTurn cfg before = some turn ∧ Closes cfg turn frame ∧
        LongEnough cfg (turn ++ [frame]).tail := by
  cases h : currentTurn cfg before with
  | none =>
    rw [eventAt_idle h]
    split_ifs <;> simp
  | some turn =>
    rw [eventAt_turn h]
    split_ifs with h_both <;> simp [h_both]

/-- A turn starts with the first loud frame outside one. -/
theorem eventAt_start_iff (cfg : VADConfig) (before : List Frame) (frame : Frame) :
    eventAt cfg before frame = some .speechStart ↔
      currentTurn cfg before = none ∧ isSpeech cfg.threshold frame = true := by
  cases h : currentTurn cfg before with
  | none =>
    rw [eventAt_idle h]
    split_ifs with h_loud <;> simp [h_loud]
  | some turn =>
    rw [eventAt_turn h]
    split_ifs <;> simp

/-- **The turns are detected** just when no turn closes whose loud audio is enough only with
the frame that started it. -/
theorem detectsTurns_iff (cfg : VADConfig) (frames : List Frame) :
    DetectsTurns cfg frames ↔ ∀ before frame turn, before ++ [frame] <+: frames →
      currentTurn cfg before = some turn → Closes cfg turn frame →
        (LongEnough cfg (turn ++ [frame]) ↔ LongEnough cfg (turn ++ [frame]).tail) := by
  -- each end of a turn is found where it should be
  constructor
  · intro h before frame turn h_start h_turn h_closes
    have h_ends := (h.ends before frame h_start).symm.trans (eventAt_end_iff cfg before frame)
    simpa [h_turn, h_closes] using h_ends
  · -- starts, ends and utterances, each in turn
    intro h
    refine ⟨alternate_events cfg frames {} .speechEnd fun _ => rfl,
      fun before frame _ => eventAt_start_iff cfg before frame, ?_, ?_⟩
    · intro before frame h_start
      rw [eventAt_end_iff]
      refine exists_congr fun turn => and_congr_right fun h_turn => and_congr_right fun h_closes => ?_
      exact (h before frame turn h_start h_turn h_closes).symm
    · intro before frame _ h_end
      obtain ⟨turn, h_turn, -, -⟩ := (eventAt_end_iff cfg before frame).mp h_end
      exact ⟨turn, h_turn, utteranceAt_turn h_turn h_end⟩

/-- Two milliseconds of loud audio in one frame, and a pause. -/
theorem detectsTurns_blip : ¬∀ (cfg : VADConfig) (frames : List Frame), DetectsTurns cfg frames := by
  intro h
  let cfg : VADConfig := { silenceMs := 1, minSpeechMs := 2, sampleRate := 1000 }
  have h_ends := ((h cfg [[0, 64, 0, 64], [0, 0]]).ends [[0, 64, 0, 64]] [0, 0]
    (List.prefix_refl _)).mpr ⟨[[0, 64, 0, 64]], by decide +kernel, by decide +kernel,
      by decide +kernel⟩
  exact absurd h_ends (by decide +kernel)

end EnergyVAD

end Nexus.Voice
