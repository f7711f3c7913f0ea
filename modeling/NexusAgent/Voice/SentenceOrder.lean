import Mathlib.Data.List.TakeWhile
import NexusAgent.Lib.Trace
import NexusAgent.Voice.AgentStream

/-!
# The order of text and audio

However the reader, the worker and the generator interleave, a stream that completes has handed
on the audio of the sentences in their order, each after the text that it was cut from, and has
synthesised every queued sentence once.

* `StreamStep`: the cases of a step.
* `readChunk_cut`: a chunk's sentences are the next pieces of the text.
* `Conserved`, `Numbered`, `TextFirst`, `Sentinels`: the invariants.
* `audio_of_run`: the audio put is that which the adapter yielded.
* `overlap_in_order`: the order of a stream that completes.
-/

namespace Nexus.Voice

open Lib

variable {δ α : Type} {doSpeak : Bool} {s t : StreamState δ α}

/-! ### The steps -/

/-- What a step does. -/
inductive StreamStep (doSpeak : Bool) (s : StreamState δ α) : StreamState δ α → Prop
  | read {c : AgentChunk δ} {cs : List (AgentChunk δ)} (h_phase : s.phase = .streaming)
      (h_reading : s.readerPhase = .reading) (h_chunks : s.chunks = c :: cs) :
      StreamStep doSpeak s ({ s with chunks := cs, reader := (readChunk (α := α) doSpeak s.reader c).1 }.put
        (readChunk doSpeak s.reader c).2)
  | readEnd (h_phase : s.phase = .streaming) (h_reading : s.readerPhase = .reading)
      (h_chunks : s.chunks = []) :
      StreamStep doSpeak s (s.endReading doSpeak)
  | readFail (h_phase : s.phase = .streaming) (h_reading : s.readerPhase = .reading) :
      StreamStep doSpeak s { s with readerPhase := .failed, out := s.out ++ [.exc, .done] }
  | take {sentence : Text} {rest : List (Option Text)} (h_phase : s.phase = .streaming)
      (h_worker : s.worker = .waiting) (h_sentences : s.sentences = some sentence :: rest) :
      StreamStep doSpeak s { s with
        sentences := rest
        synthesized := s.synthesized ++ [sentence]
        worker := .speaking s.synthesized.length sentence true }
  | takeEnd {rest : List (Option Text)} (h_phase : s.phase = .streaming)
      (h_worker : s.worker = .waiting) (h_sentences : s.sentences = none :: rest) :
      StreamStep doSpeak s { s with
        sentences := rest, worker := .ended, out := s.out ++ [.done] }
  | audio (audio : α) {number : ℕ} {sentence : Text} {first : Bool}
      (h_phase : s.phase = .streaming) (h_worker : s.worker = .speaking number sentence first) :
      StreamStep doSpeak s (s.say number sentence first audio)
  | sentenceEnd {number : ℕ} {sentence : Text} {first : Bool} (h_phase : s.phase = .streaming)
      (h_worker : s.worker = .speaking number sentence first) :
      StreamStep doSpeak s { s with worker := .waiting }
  | speakFail {number : ℕ} {sentence : Text} {first : Bool} (h_phase : s.phase = .streaming)
      (h_worker : s.worker = .speaking number sentence first) :
      StreamStep doSpeak s { s with worker := .failed, out := s.out ++ [.exc, .done] }
  | getDone {rest : List (OutItem δ α)} (h_phase : s.phase = .streaming)
      (h_out : s.out = .done :: rest) :
      StreamStep doSpeak s { s with
        out := rest, running := s.running - 1
        phase := if s.running - 1 = 0 then .completed else .streaming }
  | getExc {rest : List (OutItem δ α)} (h_phase : s.phase = .streaming)
      (h_out : s.out = .exc :: rest) :
      StreamStep doSpeak s { s with out := rest, phase := .raised }
  | getEvent {e : VoiceEvent δ α} {rest : List (OutItem δ α)} (h_phase : s.phase = .streaming)
      (h_out : s.out = .event e :: rest) :
      StreamStep doSpeak s { s with out := rest, received := s.received ++ [e] }
  | close (h_phase : s.phase = .streaming) : StreamStep doSpeak s { s with phase := .closed }

/-- **Every step is one of these.** -/
theorem streamStep_cases {a : VoiceAction α} (h : streamStep doSpeak s a = some t) :
    StreamStep doSpeak s t := by
  cases a with
  | read =>
    simp only [streamStep] at h
    split at h
    · next h_phase h_reading h_chunks =>
      exact Option.some.inj h ▸ .read h_phase h_reading h_chunks
    · cases h
  | readEnd =>
    simp only [streamStep] at h
    split at h
    · next h_phase h_reading h_chunks =>
      exact Option.some.inj h ▸ .readEnd h_phase h_reading h_chunks
    · cases h
  | readFail =>
    simp only [streamStep] at h
    split at h
    · next h_phase h_reading => exact Option.some.inj h ▸ .readFail h_phase h_reading
    · cases h
  -- the queue decides: a sentence is taken, the mark of the end ends the worker
  | take =>
    simp only [streamStep] at h
    split at h
    · next h_phase h_worker h_sentences =>
      exact Option.some.inj h ▸ .take h_phase h_worker h_sentences
    · next h_phase h_worker h_sentences =>
      exact Option.some.inj h ▸ .takeEnd h_phase h_worker h_sentences
    · cases h
  | audio audio =>
    simp only [streamStep] at h
    split at h
    · next h_phase h_worker => exact Option.some.inj h ▸ .audio audio h_phase h_worker
    · cases h
  | sentenceEnd =>
    simp only [streamStep] at h
    split at h
    · next h_phase h_worker => exact Option.some.inj h ▸ .sentenceEnd h_phase h_worker
    · cases h
  | speakFail =>
    simp only [streamStep] at h
    split at h
    · next h_phase h_worker => exact Option.some.inj h ▸ .speakFail h_phase h_worker
    · cases h
  | get =>
    simp only [streamStep] at h
    split at h
    · next h_phase h_out => exact Option.some.inj h ▸ .getDone h_phase h_out
    · next h_phase h_out => exact Option.some.inj h ▸ .getExc h_phase h_out
    · next h_phase h_out => exact Option.some.inj h ▸ .getEvent h_phase h_out
    · cases h
  | close =>
    obtain ⟨h_phase, h_t⟩ := Option.ite_none_right_eq_some.mp h
    exact Option.some.inj h_t ▸ .close h_phase

/-! ### What was put -/

def OutItem.event? : OutItem δ α → Option (VoiceEvent δ α)
  | .event e => some e
  | .exc => none
  | .done => none

def VoiceEvent.isAudio : VoiceEvent δ α → Bool
  | .audio _ _ _ => true
  | _ => false

namespace StreamState

/-- The events put so far: those handed on, and those in `out`. -/
def eventsPut (s : StreamState δ α) : List (VoiceEvent δ α) :=
  s.received ++ s.out.filterMap OutItem.event?

/-- The sentences queued so far: those synthesised, and those in the queue. -/
def queued (s : StreamState δ α) : List Text :=
  s.synthesized ++ s.sentences.filterMap id

/-- What the reader will still put. -/
def toCome (doSpeak : Bool) (s : StreamState δ α) : List (Put δ α) :=
  if s.readerPhase = .reading then readAll doSpeak s.reader s.chunks else []

@[simp] theorem eventsPut_put (puts : List (Put δ α)) :
    (s.put puts).eventsPut = s.eventsPut ++ puts.filterMap Put.event? := by
  have h_map (es : List (VoiceEvent δ α)) :
      (es.map OutItem.event).filterMap OutItem.event? = es := by
    simp [List.filterMap_map, Function.comp_def, OutItem.event?]
  simp [eventsPut, put, h_map]

@[simp] theorem queued_put (puts : List (Put δ α)) :
    (s.put puts).queued = s.queued ++ puts.filterMap Put.sentence? := by
  simp [queued, put]

end StreamState

/-- The reader puts no audio. -/
theorem readDelta_not_isAudio (r : Reader) (delta : Text) :
    ∀ e ∈ (readDelta (δ := δ) (α := α) doSpeak r delta).2.filterMap Put.event?,
      e.isAudio = false := by
  unfold readDelta
  split <;> simp [List.filterMap_map, Function.comp_def, Put.event?, VoiceEvent.isAudio]

theorem flush_events (r : Reader) : (flush (δ := δ) (α := α) doSpeak r).filterMap Put.event? = [] := by
  unfold flush
  split <;> simp [Put.event?]

/-- A chunk puts no audio. -/
theorem readChunk_not_isAudio (r : Reader) (c : AgentChunk δ) :
    ∀ e ∈ (readChunk (α := α) doSpeak r c).2.filterMap Put.event?, e.isAudio = false := by
  -- only a content chunk reaches the sentences
  cases c with
  | content content =>
    simp only [readChunk]
    split
    · simp
    · split
      · simp
      · split
        · simp
        · exact readDelta_not_isAudio _ _
  | toolCall data => simp [readChunk, flush_events, Put.event?, VoiceEvent.isAudio]
  | toolResult content data => simp [readChunk, Put.event?, VoiceEvent.isAudio]
  | error content data => simp [readChunk, Put.event?, VoiceEvent.isAudio]
  | finalResponse content => simp [readChunk]
  | other => simp [readChunk]

/-- The end of the reply puts no event. -/
theorem readEnd_events (r : Reader) :
    (readEnd (δ := δ) (α := α) doSpeak r).filterMap Put.event? = [] := by
  unfold readEnd
  rw [List.filterMap_append, flush_events]
  split
  · split
    · split <;> simp [Put.event?]
    · simp
  · simp

namespace StreamState

@[simp] theorem eventsPut_endReading : (s.endReading doSpeak).eventsPut = s.eventsPut := by
  simp [eventsPut, endReading, put, readEnd_events, OutItem.event?]

@[simp] theorem queued_endReading : (s.endReading doSpeak).queued =
    s.queued ++ (readEnd (δ := δ) (α := α) doSpeak s.reader).filterMap Put.sentence? := by
  rw [← queued_put]
  simp [queued, endReading]

@[simp] theorem toCome_endReading : (s.endReading doSpeak).toCome doSpeak = [] := rfl

@[simp] theorem eventsPut_say (number : ℕ) (sentence : Text) (first : Bool) (audio : α) :
    (s.say number sentence first audio).eventsPut =
      s.eventsPut ++ [.audio number audio (if first then some sentence else none)] := by
  simp [eventsPut, say, OutItem.event?]

end StreamState

/-- Unless the reader failed, what was put and what is to come is what the reader puts. -/
structure Conserved (doSpeak : Bool) (chunks : List (AgentChunk δ)) (s : StreamState δ α) :
    Prop where
  events : s.readerPhase ≠ .failed →
    s.eventsPut.filter (!·.isAudio) ++ (s.toCome doSpeak).filterMap Put.event? =
      (readAll doSpeak {} chunks).filterMap Put.event?
  sentences : s.readerPhase ≠ .failed →
    s.queued ++ (s.toCome doSpeak).filterMap Put.sentence? =
      (readAll (α := α) doSpeak {} chunks).filterMap Put.sentence?

namespace Conserved

variable {chunks : List (AgentChunk δ)}

theorem init (doSpeak : Bool) (chunks : List (AgentChunk δ)) :
    Conserved doSpeak chunks (streamInit doSpeak chunks : StreamState δ α) where
  events _ := rfl
  sentences _ := rfl

/-- A step that puts and takes nothing but audio. -/
theorem of_eq (h : Conserved doSpeak chunks s) (h_reader : t.readerPhase = s.readerPhase)
    (h_come : t.toCome doSpeak = s.toCome doSpeak) (h_queued : t.queued = s.queued)
    (h_events : t.eventsPut.filter (!·.isAudio) = s.eventsPut.filter (!·.isAudio)) :
    Conserved doSpeak chunks t where
  events := by
    rw [h_reader, h_come, h_events]
    exact h.events
  sentences := by
    rw [h_reader, h_come, h_queued]
    exact h.sentences

/-- Each step conserves the text and the sentences. -/
theorem step (h : Conserved doSpeak chunks s) (h_step : StreamStep doSpeak s t) :
    Conserved doSpeak chunks t := by
  cases h_step with
  | @read c cs h_phase h_reading h_chunks =>
    -- reading moves the chunk from what is to come to what was put
    have h_come : s.toCome doSpeak = (readChunk doSpeak s.reader c).2 ++
        readAll doSpeak (readChunk (α := α) doSpeak s.reader c).1 cs := by
      rw [StreamState.toCome, if_pos h_reading, h_chunks]
      rfl
    refine ⟨fun _ => ?_, fun _ => ?_⟩
    · have h_events := h.events (by simp [h_reading])
      rw [h_come, List.filterMap_append, ← List.append_assoc] at h_events
      have h_new : ((readChunk doSpeak s.reader c).2.filterMap Put.event?).filter (!·.isAudio) =
          (readChunk (α := α) doSpeak s.reader c).2.filterMap Put.event? :=
        List.filter_eq_self.mpr fun e h_e => by simp [readChunk_not_isAudio s.reader c e h_e]
      rw [StreamState.eventsPut_put, List.filter_append, h_new, ← h_events]
      simp [StreamState.toCome, StreamState.put, h_reading, StreamState.eventsPut]
    · have h_sentences := h.sentences (by simp [h_reading])
      rw [h_come, List.filterMap_append, ← List.append_assoc] at h_sentences
      rw [StreamState.queued_put, ← h_sentences]
      simp [StreamState.toCome, StreamState.put, h_reading, StreamState.queued]
  | readEnd h_phase h_reading h_chunks =>
    have h_come : s.toCome doSpeak = readEnd doSpeak s.reader := by
      rw [StreamState.toCome, if_pos h_reading, h_chunks]
      rfl
    refine ⟨fun _ => ?_, fun _ => ?_⟩
    · have h_events := h.events (by simp [h_reading])
      rw [h_come, readEnd_events, List.append_nil] at h_events
      rw [StreamState.eventsPut_endReading, StreamState.toCome_endReading, ← h_events]
      simp
    · have h_sentences := h.sentences (by simp [h_reading])
      rw [h_come] at h_sentences
      rw [StreamState.queued_endReading, StreamState.toCome_endReading, ← h_sentences]
      simp
  -- after a failure nothing is claimed of the chunks left unread
  | readFail h_phase h_reading => exact ⟨fun h => absurd rfl h, fun h => absurd rfl h⟩
  | take h_phase h_worker h_sentences =>
    exact h.of_eq rfl rfl (by simp [StreamState.queued, h_sentences]) rfl
  | takeEnd h_phase h_worker h_sentences =>
    exact h.of_eq rfl rfl (by simp [StreamState.queued, h_sentences])
      (by simp [StreamState.eventsPut, OutItem.event?])
  -- audio is not among the events counted here
  | audio audio h_phase h_worker =>
    exact h.of_eq rfl rfl rfl (by simp [VoiceEvent.isAudio])
  | sentenceEnd h_phase h_worker => exact h.of_eq rfl rfl rfl rfl
  | speakFail h_phase h_worker =>
    exact h.of_eq rfl rfl rfl (by simp [StreamState.eventsPut, OutItem.event?])
  | getDone h_phase h_out =>
    exact h.of_eq rfl rfl rfl (by simp [StreamState.eventsPut, OutItem.event?, h_out, List.filterMap_cons])
  | getExc h_phase h_out =>
    exact h.of_eq rfl rfl rfl (by simp [StreamState.eventsPut, OutItem.event?, h_out, List.filterMap_cons])
  | getEvent h_phase h_out =>
    exact h.of_eq rfl rfl rfl (by simp [StreamState.eventsPut, OutItem.event?, h_out])
  | close h_phase => exact h.of_eq rfl rfl rfl rfl

end Conserved

/-! ### The end of the queue -/

/-- `None` ends the queue once the reader has ended, until the worker has taken it. -/
structure EndMarked (s : StreamState δ α) : Prop where
  reading : s.readerPhase ≠ .ended →
    (∃ xs : List Text, s.sentences = xs.map some) ∧ s.worker ≠ .ended
  ended : s.readerPhase = .ended → s.worker ≠ .ended →
    ∃ xs : List Text, s.sentences = xs.map some ++ [none]
  taken : s.worker = .ended → s.sentences = []

namespace EndMarked

/-- At the start nothing has ended. -/
theorem init (doSpeak : Bool) (chunks : List (AgentChunk δ)) :
    EndMarked (streamInit doSpeak chunks : StreamState δ α) where
  reading _ := ⟨⟨[], rfl⟩, by cases doSpeak <;> simp [streamInit]⟩
  ended h := by simp [streamInit] at h
  taken _ := rfl

/-- Only the sentences and who has ended matter. -/
theorem of_eq (h : EndMarked s) (h_sentences : t.sentences = s.sentences)
    (h_reader : t.readerPhase = .ended ↔ s.readerPhase = .ended)
    (h_worker : t.worker = .ended ↔ s.worker = .ended) : EndMarked t where
  reading := by
    rw [h_sentences, ne_eq, ne_eq, h_reader, h_worker]
    exact h.reading
  ended := by
    rw [h_sentences, ne_eq, h_reader, h_worker]
    exact h.ended
  taken := by
    rw [h_sentences, h_worker]
    exact h.taken

/-- Each step keeps the end marker last. -/
theorem step (h : EndMarked s) (h_step : StreamStep doSpeak s t) : EndMarked t := by
  cases h_step with
  | read h_phase h_reading h_chunks =>
    obtain ⟨⟨xs, h_xs⟩, h_worker⟩ := h.reading (by simp [h_reading])
    refine ⟨fun _ => ⟨?_, h_worker⟩, fun h_ended => ?_, fun h_ended => absurd h_ended h_worker⟩
    · exact ⟨_, by rw [StreamState.put, h_xs, ← List.map_append]⟩
    · simp [StreamState.put, h_reading] at h_ended
  | readEnd h_phase h_reading h_chunks =>
    obtain ⟨⟨xs, h_xs⟩, h_worker⟩ := h.reading (by simp [h_reading])
    refine ⟨fun h_ne => absurd rfl h_ne, fun _ _ => ?_, fun h_ended => absurd h_ended h_worker⟩
    exact ⟨_, by rw [StreamState.endReading, StreamState.put, h_xs, ← List.map_append]⟩
  | readFail h_phase h_reading => exact h.of_eq rfl (by simp [h_reading]) Iff.rfl
  -- the mark of the end stays last: what is taken here is a sentence
  | @take sentence rest h_phase h_worker h_sentences =>
    refine ⟨fun h_ne => ?_, fun h_ended _ => ?_, fun h_ended => by cases h_ended⟩
    · obtain ⟨⟨xs, h_xs⟩, -⟩ := h.reading h_ne
      rw [h_sentences] at h_xs
      obtain ⟨x, xs, -, -, rfl⟩ := List.map_eq_cons_iff.mp h_xs.symm
      exact ⟨⟨xs, rfl⟩, by simp⟩
    · obtain ⟨xs, h_xs⟩ := h.ended h_ended (by simp [h_worker])
      rw [h_sentences] at h_xs
      cases xs with
      | nil => cases h_xs
      | cons x xs => exact ⟨xs, (List.cons.inj h_xs).2⟩
  | @takeEnd rest h_phase h_worker h_sentences =>
    -- only a reader that has ended leaves the mark
    have h_ended : s.readerPhase = .ended := by
      by_contra h_ne
      obtain ⟨⟨xs, h_xs⟩, -⟩ := h.reading h_ne
      rw [h_sentences] at h_xs
      obtain ⟨x, xs, -, h_x, -⟩ := List.map_eq_cons_iff.mp h_xs.symm
      cases h_x
    refine ⟨fun h_ne => absurd h_ended h_ne, fun _ h_ne => absurd rfl h_ne, fun _ => ?_⟩
    obtain ⟨xs, h_xs⟩ := h.ended h_ended (by simp [h_worker])
    rw [h_sentences] at h_xs
    cases xs with
    | nil => exact (List.cons.inj h_xs).2
    | cons x xs => cases (List.cons.inj h_xs).1
  | audio audio h_phase h_worker => exact h.of_eq rfl Iff.rfl (by simp [h_worker])
  | sentenceEnd h_phase h_worker => exact h.of_eq rfl Iff.rfl (by simp [h_worker])
  | speakFail h_phase h_worker => exact h.of_eq rfl Iff.rfl (by simp [h_worker])
  | getDone h_phase h_out => exact h.of_eq rfl Iff.rfl Iff.rfl
  | getExc h_phase h_out => exact h.of_eq rfl Iff.rfl Iff.rfl
  | getEvent h_phase h_out => exact h.of_eq rfl Iff.rfl Iff.rfl
  | close h_phase => exact h.of_eq rfl Iff.rfl Iff.rfl

end EndMarked

/-! ### The ends of the tasks -/

def OutItem.isDone : OutItem δ α → Bool
  | .done => true
  | _ => false

def ReaderPhase.over : ReaderPhase → ℕ
  | .reading => 0
  | _ => 1

def WorkerPhase.over : WorkerPhase → ℕ
  | .ended => 1
  | .failed => 1
  | _ => 0

/-- An exception is followed by the end of its task. -/
def ExcThenDone (out : List (OutItem δ α)) : Prop :=
  ∀ pre post, out = pre ++ .exc :: post → .done ∈ post

/-- The error comes before the end in both parts. -/
theorem ExcThenDone.append {xs ys : List (OutItem δ α)} (h : ExcThenDone xs)
    (h' : ExcThenDone ys) : ExcThenDone (xs ++ ys) := by
  intro pre post h_split
  rcases Trace.append_eq_append_cons h_split with ⟨mid, h_xs, rfl⟩ | ⟨mid, -, h_ys⟩
  · exact List.mem_append_left _ (h pre mid h_xs)
  · exact h' mid post h_ys

theorem ExcThenDone.tail {x : OutItem δ α} {xs : List (OutItem δ α)} (h : ExcThenDone (x :: xs)) :
    ExcThenDone xs := by
  rintro pre post rfl
  exact h (x :: pre) post rfl

theorem excThenDone_of_notMem {xs : List (OutItem δ α)} (h : .exc ∉ xs) : ExcThenDone xs := by
  rintro pre post rfl
  simp at h

/-- The error comes before the end. -/
theorem excThenDone_pair : ExcThenDone ([.exc, .done] : List (OutItem δ α)) := by
  intro pre post h_split
  cases pre with
  | nil => simp [← (List.cons.inj h_split).2]
  | cons x pre =>
    have h_mem : .exc ∈ ([.done] : List (OutItem δ α)) := by
      rw [(List.cons.inj h_split).2]
      simp
    simp at h_mem

theorem countP_event (es : List (VoiceEvent δ α)) :
    (es.map OutItem.event).countP OutItem.isDone = 0 := by
  simp [List.countP_eq_zero, OutItem.isDone]

/-- Each task that is over has put its end, and before it an exception if it failed. -/
structure Sentinels (doSpeak : Bool) (s : StreamState δ α) : Prop where
  count : s.phase = .streaming ∨ s.phase = .completed →
    s.running + s.readerPhase.over + s.worker.over =
      (if doSpeak then 2 else 1) + s.out.countP OutItem.isDone
  completed : s.phase = .completed → s.running = 0
  absent : s.worker = .absent ↔ doSpeak = false
  failed : s.phase = .streaming ∨ s.phase = .completed →
    s.readerPhase = .failed ∨ s.worker = .failed → .exc ∈ s.out
  exc : ExcThenDone s.out
  last : s.readerPhase.over + s.worker.over = (if doSpeak then 2 else 1) →
    ∀ x ∈ s.out.getLast?, x = .done

namespace Sentinels

/-- At the start nothing was marked. -/
theorem init (doSpeak : Bool) (chunks : List (AgentChunk δ)) :
    Sentinels doSpeak (streamInit doSpeak chunks : StreamState δ α) where
  count _ := by cases doSpeak <;> rfl
  completed h := by simp [streamInit] at h
  absent := by cases doSpeak <;> simp [streamInit]
  failed _ h := by cases doSpeak <;> simp [streamInit] at h
  exc := excThenDone_of_notMem (by simp [streamInit])
  last _ x h := by simp [streamInit] at h

/-- A task is over at most once. -/
theorem over_le (h : Sentinels doSpeak s) :
    s.readerPhase.over ≤ 1 ∧ s.worker.over ≤ if doSpeak then 1 else 0 := by
  refine ⟨by cases s.readerPhase <;> simp [ReaderPhase.over], ?_⟩
  cases h_speak : doSpeak with
  | true => cases s.worker <;> simp [WorkerPhase.over]
  | false => simp [h.absent.mpr h_speak, WorkerPhase.over]

/-- A step that puts `ys`. -/
theorem of_put (h : Sentinels doSpeak s) (ys : List (OutItem δ α)) (h_out : t.out = s.out ++ ys)
    (h_phase : t.phase = s.phase) (h_running : t.running = s.running)
    (h_over : t.readerPhase.over + t.worker.over =
      s.readerPhase.over + s.worker.over + ys.countP OutItem.isDone)
    (h_absent : t.worker = .absent ↔ s.worker = .absent)
    (h_failed : t.readerPhase = .failed ∨ t.worker = .failed →
      (s.readerPhase = .failed ∨ s.worker = .failed) ∨ .exc ∈ ys)
    (h_exc : ExcThenDone ys)
    (h_last : t.readerPhase.over + t.worker.over = (if doSpeak then 2 else 1) →
      ∀ x ∈ ys.getLast?, x = .done) : Sentinels doSpeak t where
  count h_open := by
    have h_count := h.count (h_phase ▸ h_open)
    rw [h_running, h_out, List.countP_append]
    omega
  completed := by
    rw [h_phase, h_running]
    exact h.completed
  absent := h_absent.trans h.absent
  failed h_open h_any := by
    rw [h_out, List.mem_append]
    exact (h_failed h_any).imp_left (h.failed (h_phase ▸ h_open))
  exc := h_out ▸ h.exc.append h_exc
  last h_all x h_x := by
    rw [h_out, List.getLast?_append, Option.mem_def, Option.or_eq_some_iff] at h_x
    rcases h_x with h_x | ⟨h_none, h_x⟩
    · exact h_last h_all x h_x
    · -- nothing was put
      have h_nil : ys = [] := List.getLast?_eq_none_iff.mp h_none
      rw [h_nil, List.countP_nil, Nat.add_zero] at h_over
      exact h.last (h_over ▸ h_all) x h_x

/-- There is no more to take than the generator waits for. -/
theorem running_pos (h : Sentinels doSpeak s) (h_phase : s.phase = .streaming)
    {rest : List (OutItem δ α)} (h_out : s.out = .done :: rest) :
    s.running - 1 + s.readerPhase.over + s.worker.over =
      (if doSpeak then 2 else 1) + rest.countP OutItem.isDone := by
  have h_count := h.count (.inl h_phase)
  obtain ⟨h_reader, h_worker⟩ := h.over_le
  rw [h_out, List.countP_cons_of_pos (by rfl)] at h_count
  split at h_count <;> simp_all <;> omega

/-- With both sides over, the last item left is the end. -/
theorem last_tail (h : Sentinels doSpeak s) {item : OutItem δ α} {rest : List (OutItem δ α)}
    (h_out : s.out = item :: rest)
    (h_all : s.readerPhase.over + s.worker.over = if doSpeak then 2 else 1) :
    ∀ x ∈ rest.getLast?, x = .done := by
  intro x h_x
  refine h.last h_all x ?_
  rw [h_out, List.getLast?_cons, Option.mem_def.mp h_x]
  rfl

/-- While the reader reads, not every task is over. -/
theorem reading_not_over (h : Sentinels doSpeak s) (h_reading : s.readerPhase = .reading) :
    s.readerPhase.over + s.worker.over ≠ if doSpeak then 2 else 1 := by
  have h_worker := h.over_le.2
  rw [h_reading]
  cases doSpeak <;> simp [ReaderPhase.over] at h_worker ⊢ <;> omega

/-- While the worker works, not every task is over. -/
theorem working_not_over (h : Sentinels doSpeak s) (h_worker : s.worker ≠ .absent)
    (h_over : s.worker.over = 0) : s.readerPhase.over + s.worker.over ≠ if doSpeak then 2 else 1 := by
  have h_reader := h.over_le.1
  have h_speak : doSpeak = true := by
    by_contra h_speak
    exact h_worker (h.absent.mpr (by simpa using h_speak))
  simp only [h_over, h_speak, if_true]
  omega

/-- Each step keeps the markers in place. -/
theorem step (h : Sentinels doSpeak s) (h_step : StreamStep doSpeak s t) : Sentinels doSpeak t := by
  cases h_step with
  | @read c cs h_phase h_reading h_chunks =>
    refine h.of_put _ rfl rfl rfl ?_ Iff.rfl (fun h_any => .inl h_any)
      (excThenDone_of_notMem (by simp)) fun h_all => absurd h_all (h.reading_not_over h_reading)
    rw [countP_event]
    rfl
  | readEnd h_phase h_reading h_chunks =>
    refine h.of_put _ (List.append_assoc ..) rfl rfl ?_ Iff.rfl
      (fun h_any => .inl (h_any.imp_left (by simp))) (excThenDone_of_notMem (by simp)) (by simp)
    rw [List.countP_append, countP_event]
    simp [h_reading, ReaderPhase.over, OutItem.isDone]
    omega
  -- a task that fails puts its exception and then its end, like one that ends
  | readFail h_phase h_reading =>
    refine h.of_put [.exc, .done] rfl rfl rfl ?_ Iff.rfl (fun _ => .inr (by simp)) excThenDone_pair
      (by simp)
    simp [h_reading, ReaderPhase.over, OutItem.isDone]
    omega
  | take h_phase h_worker h_sentences =>
    refine h.of_put [] (by simp) rfl rfl ?_ (by simp [h_worker])
      (fun h_any => .inl (h_any.imp_right (by simp))) (excThenDone_of_notMem (by simp)) (by simp)
    simp [h_worker, WorkerPhase.over]
  | takeEnd h_phase h_worker h_sentences =>
    refine h.of_put [.done] rfl rfl rfl ?_ (by simp [h_worker])
      (fun h_any => .inl (h_any.imp_right (by simp))) (excThenDone_of_notMem (by simp)) (by simp)
    simp [h_worker, WorkerPhase.over, OutItem.isDone]
  | audio audio h_phase h_worker =>
    refine h.of_put _ rfl rfl rfl ?_ (by simp [h_worker])
      (fun h_any => .inl (h_any.imp_right (by simp))) (excThenDone_of_notMem (by simp))
      fun h_all => absurd h_all ?_
    · simp [h_worker, WorkerPhase.over, OutItem.isDone]
    · simpa [h_worker, WorkerPhase.over] using
        h.working_not_over (by simp [h_worker]) (by simp [h_worker, WorkerPhase.over])
  | sentenceEnd h_phase h_worker =>
    refine h.of_put [] (by simp) rfl rfl ?_ (by simp [h_worker])
      (fun h_any => .inl (h_any.imp_right (by simp))) (excThenDone_of_notMem (by simp)) (by simp)
    simp [h_worker, WorkerPhase.over]
  | speakFail h_phase h_worker =>
    refine h.of_put [.exc, .done] rfl rfl rfl ?_ (by simp [h_worker]) (fun _ => .inr (by simp))
      excThenDone_pair (by simp)
    simp [h_worker, WorkerPhase.over, OutItem.isDone]
  -- the consumer counts the ends it takes, and completes at the last
  | @getDone rest h_phase h_out =>
    refine ⟨fun _ => h.running_pos h_phase h_out, fun h_comp => ?_, h.absent, fun _ h_any => ?_,
      (h_out ▸ h.exc).tail, h.last_tail h_out⟩
    · dsimp only at h_comp ⊢
      by_contra h_ne
      simp [h_ne] at h_comp
    · simpa [h_out] using h.failed (.inl h_phase) h_any
  | @getExc rest h_phase h_out =>
    exact ⟨by simp, by simp, h.absent, by simp, (h_out ▸ h.exc).tail, h.last_tail h_out⟩
  | @getEvent e rest h_phase h_out =>
    refine ⟨fun _ => ?_, fun h_comp => ?_, h.absent, fun _ h_any => ?_, (h_out ▸ h.exc).tail,
      h.last_tail h_out⟩
    · simpa [h_out, OutItem.isDone] using h.count (.inl h_phase)
    · simp [h_phase] at h_comp
    · simpa [h_out] using h.failed (.inl h_phase) h_any
  | close h_phase => exact ⟨by simp, by simp, h.absent, by simp, h.exc, h.last⟩

/-- **A stream that completes**: both tasks have ended, and nothing is left. -/
theorem of_completed (h : Sentinels doSpeak s) (h_comp : s.phase = .completed) :
    s.readerPhase = .ended ∧ (doSpeak = true → s.worker = .ended) ∧ s.out = [] := by
  have h_count := h.count (.inr h_comp)
  obtain ⟨h_reader, h_worker⟩ := h.over_le
  rw [h.completed h_comp] at h_count
  have h_all : s.readerPhase.over + s.worker.over = if doSpeak then 2 else 1 := by
    cases doSpeak <;> simp at h_worker h_count ⊢ <;> omega
  -- what comes last in the queue is an end, and all of these have been taken
  have h_out : s.out = [] := by
    by_contra h_ne
    have h_last := h.last h_all (s.out.getLast h_ne) (List.getLast?_eq_getLast_of_ne_nil h_ne)
    have h_pos : 0 < s.out.countP OutItem.isDone :=
      List.countP_pos_iff.mpr ⟨_, h_last ▸ List.getLast_mem h_ne, rfl⟩
    omega
  have h_ok : ¬(s.readerPhase = .failed ∨ s.worker = .failed) := by
    intro h_failed
    simpa [h_out] using h.failed (.inr h_comp) h_failed
  refine ⟨?_, fun h_speak => ?_, h_out⟩
  · cases h_phase : s.readerPhase with
    | reading => exact absurd h_all (h.reading_not_over h_phase)
    | ended => rfl
    | failed => exact absurd (.inl h_phase) h_ok
  · have h_over : s.worker.over = 1 := by
      simp only [h_speak, if_true] at h_worker h_all
      omega
    cases h_phase : s.worker <;> simp_all [WorkerPhase.over]

end Sentinels

/-! ### The pieces of the text -/

/-- Only white space. -/
def Blank (text : Text) : Prop :=
  ∀ c ∈ text, PyStr.isSpace c = true

theorem strip_append_of_blank {gap : Text} (h : Blank gap) (text : Text) :
    strip (gap ++ text) = strip text := by
  rw [strip, strip, List.dropWhile_append_of_pos h]

theorem blank_of_strip {text : Text} (h : strip text = []) : Blank text :=
  PyStr.stripChars_eq_nil_iff.mp h

/-- The pieces and what is left are the buffer. -/
theorem cutPieces_flatten (buffer : Text) :
    (cutPieces buffer).1.flatten ++ (cutPieces buffer).2 = buffer := by
  -- by induction along the cuts
  induction buffer using cutPieces.induct with
  | case1 buffer h =>
    rw [cutPieces]
    split
    · rfl
    · simp_all
  | case2 buffer idx h ih =>
    rw [cutPieces]
    split
    · simp_all
    · next idx' h' =>
      obtain rfl : idx = idx' := Option.some.inj (h.symm.trans h')
      rw [List.flatten_cons, List.append_assoc, ih, List.take_append_drop]

/-- The pieces that are spoken, each with the white space before it. -/
theorem spoken_regroup {gap : Text} (h_gap : Blank gap) (raws : List Text) :
    ∃ (pieces : List Text) (gap' : Text), Blank gap' ∧ spoken raws = pieces.map strip ∧
      pieces.flatten ++ gap' = gap ++ raws.flatten := by
  -- by induction on the pieces: a blank one joins the gap
  induction raws generalizing gap with
  | nil => exact ⟨[], gap, h_gap, rfl, by simp⟩
  | cons raw raws ih =>
    -- blank: it is spoken with no sentence
    by_cases h_raw : strip raw = []
    · have h_blank : Blank (gap ++ raw) := by
        intro c h_c
        exact (List.mem_append.mp h_c).elim (h_gap c) (blank_of_strip h_raw c)
      obtain ⟨pieces, gap', h_gap', h_spoken, h_flat⟩ := ih h_blank
      refine ⟨pieces, gap', h_gap', ?_, by rw [h_flat]; simp⟩
      rw [← h_spoken]
      simp [spoken, h_raw]
    · -- not blank: the gap before it is stripped
      have h_nil : Blank [] := by simp [Blank]
      obtain ⟨pieces, gap', h_gap', h_spoken, h_flat⟩ := ih h_nil
      refine ⟨(gap ++ raw) :: pieces, gap', h_gap', ?_, ?_⟩
      · rw [List.map_cons, strip_append_of_blank h_gap, ← h_spoken]
        simp [spoken, h_raw]
      · simpa using h_flat

/-- The text of an event. -/
def VoiceEvent.delta : VoiceEvent δ α → Text
  | .textDelta text => text
  | _ => []

/-- The text of the deltas. -/
def textOf (es : List (VoiceEvent δ α)) : Text :=
  es.flatMap VoiceEvent.delta

@[simp] theorem textOf_append (xs ys : List (VoiceEvent δ α)) :
    textOf (xs ++ ys) = textOf xs ++ textOf ys := List.flatMap_append

/-- What is spoken of a text in pieces, of which the last white space is still held back. -/
structure CutFrom (gap buffer text : Text) (pieces : List Text) (gap' buffer' : Text) : Prop where
  blank : Blank gap'
  flatten : pieces.flatten ++ gap' ++ buffer' = gap ++ buffer ++ text

/-- A delta puts the sentences that it completes. -/
theorem readDelta_cut {gap : Text} (h_gap : Blank gap) (r : Reader) (delta : Text) :
    ∃ pieces gap', CutFrom gap r.sentenceBuffer
        (textOf ((readDelta (δ := δ) (α := α) true r delta).2.filterMap Put.event?)) pieces gap'
        (readDelta (δ := δ) (α := α) true r delta).1.sentenceBuffer ∧
      (readDelta (δ := δ) (α := α) true r delta).2.filterMap Put.sentence? = pieces.map strip ∧
      (readDelta (δ := δ) (α := α) true r delta).1.spokeAudio =
        (r.spokeAudio || decide (pieces ≠ [])) := by
  -- the pieces cut off are regrouped around the blanks
  obtain ⟨pieces, gap', h_blank, h_spoken, h_flat⟩ :=
    spoken_regroup h_gap (cutPieces (r.sentenceBuffer ++ delta)).1
  refine ⟨pieces, gap', ⟨h_blank, ?_⟩, ?_, ?_⟩
  · -- the pieces and the gap make up the text
    have h_cut := cutPieces_flatten (r.sentenceBuffer ++ delta)
    simp only [readDelta, if_true, textOf, List.filterMap_cons, Put.event?, List.filterMap_map]
    rw [h_flat, List.append_assoc, h_cut]
    simp [Function.comp_def, VoiceEvent.delta, Put.event?]
  · -- the sentences are the pieces
    simp [readDelta, List.filterMap_cons, Put.sentence?, List.filterMap_map, Function.comp_def,
      ← h_spoken]
  · simp [readDelta, h_spoken]

/-- The flush puts what is left as the last sentence. -/
theorem strip_flush {gap : Text} (h_gap : Blank gap) (r : Reader) :
    ∃ pieces gap', Blank gap' ∧ pieces.flatten ++ gap' = gap ++ r.sentenceBuffer ∧
      (flush (δ := δ) (α := α) true r).filterMap Put.sentence? = pieces.map strip ∧
      (pieces ≠ [] ↔ strip r.sentenceBuffer ≠ []) := by
  by_cases h_strip : strip r.sentenceBuffer = []
  · refine ⟨[], gap ++ r.sentenceBuffer, fun c h_c => ?_, rfl, by simp [flush, h_strip], by simp [h_strip]⟩
    exact (List.mem_append.mp h_c).elim (h_gap c) (blank_of_strip h_strip c)
  · refine ⟨[gap ++ r.sentenceBuffer], [], by simp [Blank], by simp, ?_, by simp [h_strip]⟩
    simp [flush, h_strip, Put.sentence?, strip_append_of_blank h_gap]

/-- The end of the reader queues the trailing sentence, or one text if nothing was spoken. -/
theorem readEnd_sentences (r : Reader) :
    (readEnd (δ := δ) (α := α) true r).filterMap Put.sentence? =
        (flush (δ := δ) (α := α) true r).filterMap Put.sentence? ∨
      r.spokeAudio = false ∧ strip r.sentenceBuffer = [] ∧
        ∃ text, (readEnd (δ := δ) (α := α) true r).filterMap Put.sentence? = [text] := by
  -- the text of the reply is spoken only if nothing else was
  unfold readEnd
  rw [List.filterMap_append]
  split
  · -- nothing was spoken, so nothing is flushed
    next h_silent =>
    simp only [true_and, not_or, ne_eq, not_not, Bool.not_eq_true] at h_silent
    have h_flush : flush (δ := δ) (α := α) true r = [] := by simp [flush, h_silent.2]
    rw [h_flush]
    split
    · split
      · exact .inr ⟨h_silent.1, h_silent.2, _, rfl⟩
      · exact .inl rfl
    · exact .inl rfl
  · exact .inl (by simp)

/-- **A chunk**: its sentences are the next pieces of the text. -/
theorem readChunk_cut {gap : Text} (h_gap : Blank gap) (r : Reader) (c : AgentChunk δ) :
    ∃ pieces gap', CutFrom gap r.sentenceBuffer
        (textOf ((readChunk (α := α) true r c).2.filterMap Put.event?)) pieces gap'
        (readChunk (α := α) true r c).1.sentenceBuffer ∧
      (readChunk (α := α) true r c).2.filterMap Put.sentence? = pieces.map strip ∧
      (readChunk (α := α) true r c).1.spokeAudio = (r.spokeAudio || decide (pieces ≠ [])) := by
  have h_none : CutFrom gap r.sentenceBuffer (textOf ([] : List (VoiceEvent δ α))) [] gap
      r.sentenceBuffer := ⟨h_gap, by simp [textOf]⟩
  cases c with
  | content content =>
    simp only [readChunk]
    split
    · exact ⟨[], gap, h_none, rfl, by simp⟩
    · split
      · exact ⟨[], gap, h_none, rfl, by simp⟩
      · split
        · exact ⟨[], gap, h_none, rfl, by simp⟩
        · exact readDelta_cut h_gap { r with rawContent := _, visibleEmitted := _ } _
  -- a tool call flushes the buffer: the rest of a sentence is spoken before the tool runs
  | toolCall data =>
    obtain ⟨pieces, gap', h_blank, h_flat, h_sentences, h_iff⟩ :=
      strip_flush (δ := δ) (α := α) h_gap r
    by_cases h_strip : strip r.sentenceBuffer = []
    · refine ⟨[], gap, ⟨h_gap, ?_⟩, ?_, ?_⟩
      · simp [readChunk, flush, h_strip, textOf, Put.event?, VoiceEvent.delta]
      · simp [readChunk, flush, h_strip, Put.sentence?]
      · simp [readChunk, h_strip]
    · refine ⟨pieces, gap', ⟨h_blank, ?_⟩, ?_, ?_⟩
      · simp [readChunk, flush, h_strip, textOf, Put.event?, VoiceEvent.delta, h_flat]
      · simpa [readChunk, List.filterMap_cons, Put.sentence?] using h_sentences
      · simp [readChunk, h_strip, h_iff.mpr h_strip]
  | toolResult content data =>
    exact ⟨[], gap, ⟨h_gap, by simp [readChunk, Put.event?, textOf, VoiceEvent.delta]⟩,
      by simp [readChunk, Put.sentence?], by simp [readChunk]⟩
  | error content data =>
    exact ⟨[], gap, ⟨h_gap, by simp [readChunk, Put.event?, textOf, VoiceEvent.delta]⟩,
      by simp [readChunk, Put.sentence?], by simp [readChunk]⟩
  | finalResponse content => exact ⟨[], gap, h_none, rfl, by simp [readChunk]⟩
  | other => exact ⟨[], gap, h_none, rfl, by simp [readChunk]⟩

/-! ### The numbers of the audio -/

/-- The number of the sentence of an audio chunk. -/
def VoiceEvent.number? : VoiceEvent δ α → Option ℕ
  | .audio number _ _ => some number
  | _ => none

/-- The audio comes in the order of the sentences that were synthesised, and its first chunk
carries the sentence. -/
structure Numbered (s : StreamState δ α) : Prop where
  speaking : ∀ number sentence first, s.worker = .speaking number sentence first →
    number + 1 = s.synthesized.length ∧ s.synthesized[number]? = some sentence
  order : (s.eventsPut.filterMap VoiceEvent.number?).Pairwise (· ≤ ·)
  bound : ∀ n ∈ s.eventsPut.filterMap VoiceEvent.number?, n < s.synthesized.length
  text : ∀ n a sentence, .audio n a (some sentence) ∈ s.eventsPut →
    s.synthesized[n]? = some sentence

namespace Numbered

/-- At the start nothing is numbered. -/
theorem init (doSpeak : Bool) (chunks : List (AgentChunk δ)) :
    Numbered (streamInit doSpeak chunks : StreamState δ α) where
  speaking n sentence first h := by cases doSpeak <;> simp [streamInit] at h
  order := by simp [streamInit, StreamState.eventsPut]
  bound := by simp [streamInit, StreamState.eventsPut]
  text := by simp [streamInit, StreamState.eventsPut]

/-- A step that puts no audio and starts no sentence. -/
theorem of_not_audio (h : Numbered s) (es : List (VoiceEvent δ α))
    (h_events : t.eventsPut = s.eventsPut ++ es) (h_es : ∀ e ∈ es, e.isAudio = false)
    (h_synth : t.synthesized = s.synthesized)
    (h_worker : ∀ number sentence first, t.worker = .speaking number sentence first →
      s.worker = .speaking number sentence first) : Numbered t := by
  -- none of the new events has a number
  have h_none : es.filterMap VoiceEvent.number? = [] := by
    rw [List.filterMap_eq_nil_iff]
    intro e h_e
    have h_audio := h_es e h_e
    cases e <;> first | rfl | cases h_audio
  -- so the numbers are those from before
  have h_numbers : t.eventsPut.filterMap VoiceEvent.number? =
      s.eventsPut.filterMap VoiceEvent.number? := by
    rw [h_events, List.filterMap_append, h_none, List.append_nil]
  -- field by field
  refine ⟨fun n sentence first h_w => ?_, ?_, ?_, fun n a sentence h_mem => ?_⟩
  · rw [h_synth]
    exact h.speaking n sentence first (h_worker n sentence first h_w)
  · rw [h_numbers]
    exact h.order
  · rw [h_numbers, h_synth]
    exact h.bound
  · rw [h_synth]
    rw [h_events, List.mem_append] at h_mem
    refine h_mem.elim (h.text n a sentence) fun h_new => ?_
    cases h_es _ h_new

/-- Each step keeps the numbers in order. -/
theorem step (h : Numbered s) (h_step : StreamStep doSpeak s t) : Numbered t := by
  have h_nil : ∀ e ∈ ([] : List (VoiceEvent δ α)), e.isAudio = false := by simp
  cases h_step with
  | @read c cs h_phase h_reading h_chunks =>
    exact h.of_not_audio _ (StreamState.eventsPut_put _) (readChunk_not_isAudio s.reader c) rfl
      fun _ _ _ h_w => h_w
  | readEnd h_phase h_reading h_chunks =>
    refine h.of_not_audio [] ?_ h_nil rfl fun _ _ _ h_w => h_w
    simp
  | readFail h_phase h_reading =>
    refine h.of_not_audio [] ?_ h_nil rfl fun _ _ _ h_w => h_w
    simp [StreamState.eventsPut, OutItem.event?]
  -- the sentence taken is the next one, so the older numbers still point where they did
  | @take sentence rest h_phase h_worker h_sentences =>
    refine ⟨fun n sentence' first h_w => ?_, h.order, fun n h_n => ?_, fun n a sentence' h_mem => ?_⟩
    · obtain ⟨rfl, rfl, -⟩ := WorkerPhase.speaking.inj h_w
      simp
    · exact (h.bound n h_n).trans (by simp)
    · have h_some := h.text n a sentence' h_mem
      obtain ⟨h_lt, -⟩ := List.getElem?_eq_some_iff.mp h_some
      rw [List.getElem?_append_left h_lt, h_some]
  | takeEnd h_phase h_worker h_sentences =>
    refine h.of_not_audio [] ?_ h_nil rfl fun _ _ _ h_w => by cases h_w
    simp [StreamState.eventsPut, OutItem.event?]
  | @audio audio number sentence first h_phase h_worker =>
    obtain ⟨h_len, h_some⟩ := h.speaking number sentence first h_worker
    have h_events := StreamState.eventsPut_say (s := s) number sentence first audio
    refine ⟨fun n sentence' first' h_w => ?_, ?_, ?_, ?_⟩
    · obtain ⟨rfl, rfl, -⟩ := WorkerPhase.speaking.inj h_w
      exact ⟨h_len, h_some⟩
    · rw [h_events, List.filterMap_append, List.pairwise_append]
      refine ⟨h.order, by simp [VoiceEvent.number?], fun n h_n m h_m => ?_⟩
      -- the new chunk has the number being spoken, which bounds all the earlier ones
      obtain rfl : m = number := by simpa [VoiceEvent.number?] using h_m
      have h_lt := h.bound n h_n
      omega
    · rw [h_events, List.filterMap_append]
      intro n h_n
      rcases List.mem_append.mp h_n with h_old | h_new
      · exact h.bound n h_old
      · obtain rfl : n = number := by simpa [VoiceEvent.number?] using h_new
        change n < s.synthesized.length
        omega
    · intro n a sentence' h_mem
      rw [h_events, List.mem_append] at h_mem
      rcases h_mem with h_old | h_new
      · exact h.text n a sentence' h_old
      · -- only the first chunk of a sentence carries its text
        cases first with
        | true =>
          obtain ⟨rfl, -, rfl⟩ : n = number ∧ a = audio ∧ sentence' = sentence := by
            simpa using h_new
          exact h_some
        | false => simp at h_new
  | sentenceEnd h_phase h_worker =>
    exact h.of_not_audio [] (by simp [StreamState.eventsPut]) h_nil rfl
      fun _ _ _ h_w => by cases h_w
  | speakFail h_phase h_worker =>
    refine h.of_not_audio [] ?_ h_nil rfl fun _ _ _ h_w => by cases h_w
    simp [StreamState.eventsPut, OutItem.event?]
  | getDone h_phase h_out =>
    refine h.of_not_audio [] ?_ h_nil rfl fun _ _ _ h_w => h_w
    simp [StreamState.eventsPut, OutItem.event?, h_out, List.filterMap_cons]
  | getExc h_phase h_out =>
    refine h.of_not_audio [] ?_ h_nil rfl fun _ _ _ h_w => h_w
    simp [StreamState.eventsPut, OutItem.event?, h_out, List.filterMap_cons]
  | getEvent h_phase h_out =>
    refine h.of_not_audio [] ?_ h_nil rfl fun _ _ _ h_w => h_w
    simp [StreamState.eventsPut, OutItem.event?, h_out]
  | close h_phase =>
    exact h.of_not_audio [] (by simp [StreamState.eventsPut]) h_nil rfl fun _ _ _ h_w => h_w

end Numbered

/-! ### Text before audio -/

/-- The sentences so far are `pieces` of the text so far, and the audio of a piece comes after
the text up to its end. At its end the reader may have queued the final text instead, if the
text was blank. -/
structure TextFirst (s : StreamState δ α) (pieces : List Text) : Prop where
  reading : s.readerPhase = .reading → s.queued = pieces.map strip ∧
    s.reader.spokeAudio = decide (pieces ≠ []) ∧
      ∃ gap, Blank gap ∧ pieces.flatten ++ gap ++ s.reader.sentenceBuffer = textOf s.eventsPut
  ended : s.readerPhase = .ended → s.queued = pieces.map strip ∨
    pieces = [] ∧ Blank (textOf s.eventsPut) ∧ ∃ text, s.queued = [text]
  whole : pieces.flatten <+: textOf s.eventsPut
  audio : ∀ pre n a text post, s.eventsPut = pre ++ .audio n a text :: post → n < pieces.length →
    (pieces.take (n + 1)).flatten <+: textOf pre

namespace TextFirst

variable {pieces : List Text}

/-- At the start nothing was cut. -/
theorem init (doSpeak : Bool) (chunks : List (AgentChunk δ)) :
    TextFirst (streamInit doSpeak chunks : StreamState δ α) [] where
  reading _ := ⟨rfl, rfl, [], by simp [Blank], rfl⟩
  ended _ := .inl rfl
  whole := List.nil_prefix
  audio _ n _ _ _ _ h := by simp at h

/-- A step of the other parties that puts nothing. -/
theorem of_eq (h : TextFirst s pieces) (h_reader : t.reader = s.reader)
    (h_phase : t.readerPhase = s.readerPhase) (h_queued : t.queued = s.queued)
    (h_events : t.eventsPut = s.eventsPut) : TextFirst t pieces where
  reading := by
    rw [h_phase, h_queued, h_reader, h_events]
    exact h.reading
  ended := by
    rw [h_phase, h_queued, h_events]
    exact h.ended
  whole := h_events ▸ h.whole
  audio := h_events ▸ h.audio

/-- The audio so far, when more pieces and more text come after it. -/
theorem audio_append (h : TextFirst s pieces) (h_num : Numbered s)
    (h_queued : s.queued = pieces.map strip) (more : List Text) (es : List (VoiceEvent δ α))
    (h_es : ∀ e ∈ es, e.isAudio = false) (pre : List (VoiceEvent δ α)) (n : ℕ) (a : α)
    (text : Option Text) (post : List (VoiceEvent δ α))
    (h_split : s.eventsPut ++ es = pre ++ .audio n a text :: post) :
    ((pieces ++ more).take (n + 1)).flatten <+: textOf pre := by
  rcases Trace.append_eq_append_cons h_split with ⟨mid, h_old, -⟩ | ⟨mid, -, h_new⟩
  · -- its sentence was synthesised, so it is one of the pieces there were
    have h_bound := h_num.bound n (by simp [h_old, VoiceEvent.number?])
    have h_len : pieces.length = s.queued.length := by rw [h_queued, List.length_map]
    have h_lt : n < pieces.length := by
      rw [h_len, StreamState.queued, List.length_append]
      omega
    rw [List.take_append_of_le_length h_lt]
    exact h.audio pre n a text mid h_old h_lt
  · cases h_es (.audio n a text) (by simp [h_new])

/-- Each step keeps the text before the audio. -/
theorem step (h : TextFirst s pieces) (h_num : Numbered s) (h_step : StreamStep true s t) :
    ∃ pieces', TextFirst t pieces' := by
  cases h_step with
  | @read c cs h_phase h_reading h_chunks =>
    obtain ⟨h_queued, h_spoke, gap, h_gap, h_text⟩ := h.reading h_reading
    obtain ⟨new, gap', h_cut, h_new, h_spoke'⟩ := readChunk_cut (α := α) h_gap s.reader c
    have h_flat : (pieces ++ new).flatten ++ gap' ++ (readChunk (α := α) true s.reader c).1.sentenceBuffer =
        textOf (s.eventsPut ++ (readChunk (α := α) true s.reader c).2.filterMap Put.event?) := by
      calc (pieces ++ new).flatten ++ gap' ++ (readChunk (α := α) true s.reader c).1.sentenceBuffer
          = pieces.flatten ++ (new.flatten ++ gap' ++
              (readChunk (α := α) true s.reader c).1.sentenceBuffer) := by simp
        _ = pieces.flatten ++ gap ++ s.reader.sentenceBuffer ++
              textOf ((readChunk (α := α) true s.reader c).2.filterMap Put.event?) := by
            rw [h_cut.flatten]
            simp
        _ = _ := by rw [h_text, textOf_append]
    refine ⟨pieces ++ new, fun _ => ⟨?_, ?_, gap', h_cut.blank, ?_⟩, fun h_ended => ?_, ?_, ?_⟩
    · rw [StreamState.queued_put, h_new, List.map_append, ← h_queued]
      rfl
    · refine h_spoke'.trans ?_
      rw [h_spoke]
      cases pieces <;> simp
    · rw [StreamState.eventsPut_put]
      exact h_flat
    · simp [StreamState.put, h_reading] at h_ended
    · rw [StreamState.eventsPut_put]
      exact ⟨_, by rw [← List.append_assoc]; exact h_flat⟩
    · rw [StreamState.eventsPut_put]
      exact fun pre n a text post h_split _ =>
        h.audio_append h_num h_queued new _ (readChunk_not_isAudio s.reader c) pre n a text post
          h_split
  | readEnd h_phase h_reading h_chunks =>
    obtain ⟨h_queued, h_spoke, gap, h_gap, h_text⟩ := h.reading h_reading
    obtain ⟨new, gap', h_gap', h_flat, h_new, h_iff⟩ :=
      strip_flush (δ := δ) (α := α) h_gap s.reader
    have h_events : (s.endReading true).eventsPut = s.eventsPut :=
      StreamState.eventsPut_endReading
    have h_queued' : (s.endReading true).queued =
        s.queued ++ (readEnd (δ := δ) (α := α) true s.reader).filterMap Put.sentence? :=
      StreamState.queued_endReading
    refine ⟨pieces ++ new, ⟨fun h_reading => (by cases h_reading), fun _ => ?_, ?_, ?_⟩⟩
    · rw [h_queued']
      rcases readEnd_sentences (δ := δ) (α := α) s.reader with h_same | ⟨h_silent, h_strip, text, h_final⟩
      · rw [h_same, h_new, h_queued, ← List.map_append]
        exact .inl rfl
      · have h_pieces : pieces = [] := by simpa [h_silent] using h_spoke
        have h_nil : new = [] := by
          by_contra h_ne
          exact h_iff.mp h_ne h_strip
        refine .inr ⟨by simp [h_pieces, h_nil], ?_, text, ?_⟩
        · rw [h_events, ← h_text, h_pieces]
          intro c h_c
          exact (List.mem_append.mp h_c).elim (h_gap c) (blank_of_strip h_strip c)
        rw [h_final, h_queued, h_pieces]
        rfl
    · rw [h_events, ← h_text, List.flatten_append, List.append_assoc, ← h_flat,
        ← List.append_assoc]
      exact List.prefix_append ..
    · rw [h_events]
      exact fun pre n a text post h_split _ =>
        h.audio_append h_num h_queued new [] (by simp) pre n a text post
          (by rwa [List.append_nil])
  | readFail h_phase h_reading =>
    refine ⟨pieces, ⟨fun h_ne => (by cases h_ne), fun h_ne => (by cases h_ne), ?_, ?_⟩⟩
    · simpa [StreamState.eventsPut, OutItem.event?, List.filterMap_cons] using h.whole
    · simpa [StreamState.eventsPut, OutItem.event?, List.filterMap_cons] using h.audio
  | take h_phase h_worker h_sentences =>
    exact ⟨pieces, h.of_eq rfl rfl (by simp [StreamState.queued, h_sentences]) rfl⟩
  | takeEnd h_phase h_worker h_sentences =>
    exact ⟨pieces, h.of_eq rfl rfl (by simp [StreamState.queued, h_sentences])
      (by simp [StreamState.eventsPut, OutItem.event?])⟩
  | @audio audio number sentence first h_phase h_worker =>
    have h_events := StreamState.eventsPut_say (s := s) number sentence first audio
    have h_text : textOf (s.say number sentence first audio).eventsPut = textOf s.eventsPut := by
      rw [h_events, textOf_append]
      simp [textOf, VoiceEvent.delta]
    refine ⟨pieces, ⟨fun h_reading => ?_, ?_, ?_, ?_⟩⟩
    · obtain ⟨h_queued, h_spoke, gap, h_gap, h_cut⟩ := h.reading h_reading
      exact ⟨h_queued, h_spoke, gap, h_gap, h_cut.trans h_text.symm⟩
    · rw [h_text]
      exact h.ended
    · rw [h_text]
      exact h.whole
    · rw [h_events]
      intro pre n a text post h_split h_lt
      rcases Trace.append_eq_append_cons h_split with ⟨mid, h_old, -⟩ | ⟨mid, rfl, -⟩
      · exact h.audio pre n a text mid h_old h_lt
      · -- the text up to here is there in whole
        rw [textOf_append]
        have h_take : (pieces.take (n + 1)).flatten <+: pieces.flatten := by
          conv_rhs => rw [← List.take_append_drop (n + 1) pieces, List.flatten_append]
          exact List.prefix_append ..
        exact (h_take.trans h.whole).trans (List.prefix_append ..)
  | sentenceEnd h_phase h_worker => exact ⟨pieces, h.of_eq rfl rfl rfl rfl⟩
  | speakFail h_phase h_worker =>
    exact ⟨pieces, h.of_eq rfl rfl rfl (by simp [StreamState.eventsPut, OutItem.event?])⟩
  | getDone h_phase h_out =>
    exact ⟨pieces, h.of_eq rfl rfl rfl
      (by simp [StreamState.eventsPut, OutItem.event?, h_out, List.filterMap_cons])⟩
  | getExc h_phase h_out =>
    exact ⟨pieces, h.of_eq rfl rfl rfl
      (by simp [StreamState.eventsPut, OutItem.event?, h_out, List.filterMap_cons])⟩
  | getEvent h_phase h_out =>
    exact ⟨pieces, h.of_eq rfl rfl rfl (by simp [StreamState.eventsPut, OutItem.event?, h_out])⟩
  | close h_phase => exact ⟨pieces, h.of_eq rfl rfl rfl rfl⟩

end TextFirst

/-! ### The audio of the sentences -/

/-- The audio events of a run: `n` sentences were taken, and the last of them has no audio yet if
`first` holds. A chunk comes with the number of its sentence, the first of a sentence with its
text. -/
def audioOf (sentences : List Text) : ℕ → Bool → List (VoiceAction α) → List (VoiceEvent δ α)
  | _, _, [] => []
  | n, first, action :: actions =>
    match action with
    | .take => audioOf sentences (n + 1) true actions
    | .audio audio =>
      .audio (n - 1) audio (if first then sentences[n - 1]? else none) ::
        audioOf sentences n false actions
    | _ => audioOf sentences n first actions

/-- What an action does to the audio. -/
inductive Voices (s : StreamState δ α) : VoiceAction α → StreamState δ α → Prop
  | speaks {audio : α} {number : ℕ} {sentence : Text} {first : Bool}
      (h_worker : s.worker = .speaking number sentence first) :
      Voices s (.audio audio) (s.say number sentence first audio)
  | takes {sentence : Text} {t : StreamState δ α} (h_worker : s.worker = .waiting)
      (h_synth : t.synthesized = s.synthesized ++ [sentence])
      (h_next : t.worker = .speaking s.synthesized.length sentence true)
      (h_events : t.eventsPut = s.eventsPut) : Voices s .take t
  | ends {t : StreamState δ α} (h_synth : t.synthesized = s.synthesized)
      (h_next : t.worker = .ended) (h_events : t.eventsPut = s.eventsPut) : Voices s .take t
  | silent {action : VoiceAction α} {t : StreamState δ α} (h_take : action ≠ .take)
      (h_audio : ∀ audio, action ≠ .audio audio) (h_synth : t.synthesized = s.synthesized)
      (h_next : t.worker = s.worker ∨
        s.worker ≠ .ended ∧ ∀ number sentence first, t.worker ≠ .speaking number sentence first)
      (h_events : t.eventsPut.filter (·.isAudio) = s.eventsPut.filter (·.isAudio)) :
      Voices s action t

/-- **What every step does to the audio.** -/
theorem voices_of_step {a : VoiceAction α} (h : streamStep doSpeak s a = some t) : Voices s a t := by
  -- events that are no audio do not change the audio put
  have h_silent (es : List (VoiceEvent δ α)) (h_es : ∀ e ∈ es, e.isAudio = false) :
      (s.eventsPut ++ es).filter (·.isAudio) = s.eventsPut.filter (·.isAudio) := by
    have h_none : es.filter (·.isAudio) = [] :=
      List.filter_eq_nil_iff.mpr fun e h_e => by simp [h_es e h_e]
    rw [List.filter_append, h_none, List.append_nil]
  cases a with
  | read =>
    simp only [streamStep] at h
    split at h
    · next c cs _ _ _ =>
      obtain rfl := Option.some.inj h
      refine .silent nofun nofun rfl (.inl rfl) ?_
      exact (congrArg _ (StreamState.eventsPut_put _)).trans
        (h_silent _ (readChunk_not_isAudio s.reader c))
    · cases h
  | readEnd =>
    simp only [streamStep] at h
    split at h
    · obtain rfl := Option.some.inj h
      exact .silent nofun nofun rfl (.inl rfl) (by rw [StreamState.eventsPut_endReading])
    · cases h
  | readFail =>
    simp only [streamStep] at h
    split at h
    · obtain rfl := Option.some.inj h
      exact .silent nofun nofun rfl (.inl rfl) (by simp [StreamState.eventsPut, OutItem.event?])
    · cases h
  | take =>
    simp only [streamStep] at h
    split at h
    · next h_worker _ =>
      obtain rfl := Option.some.inj h
      exact .takes h_worker rfl rfl rfl
    · obtain rfl := Option.some.inj h
      -- the mark of the end was taken: the worker never speaks again
      exact .ends rfl rfl (by simp [StreamState.eventsPut, OutItem.event?])
    · cases h
  | audio audio =>
    simp only [streamStep] at h
    split at h
    · next h_worker =>
      obtain rfl := Option.some.inj h
      exact .speaks h_worker
    · cases h
  | sentenceEnd =>
    simp only [streamStep] at h
    split at h
    · next h_worker =>
      obtain rfl := Option.some.inj h
      exact .silent nofun nofun rfl (.inr ⟨by rw [h_worker]; nofun, nofun⟩) rfl
    · cases h
  | speakFail =>
    simp only [streamStep] at h
    split at h
    · next h_worker =>
      obtain rfl := Option.some.inj h
      exact .silent nofun nofun rfl (.inr ⟨by rw [h_worker]; nofun, nofun⟩)
        (by simp [StreamState.eventsPut, OutItem.event?])
    · cases h
  | get =>
    simp only [streamStep] at h
    split at h
    · next h_out =>
      obtain rfl := Option.some.inj h
      exact .silent nofun nofun rfl (.inl rfl)
        (by simp [StreamState.eventsPut, OutItem.event?, h_out, List.filterMap_cons])
    · next h_out =>
      obtain rfl := Option.some.inj h
      exact .silent nofun nofun rfl (.inl rfl)
        (by simp [StreamState.eventsPut, OutItem.event?, h_out, List.filterMap_cons])
    · next h_out =>
      obtain rfl := Option.some.inj h
      exact .silent nofun nofun rfl (.inl rfl)
        (by simp [StreamState.eventsPut, OutItem.event?, h_out])
    · cases h
  | close =>
    obtain ⟨-, h_t⟩ := Option.ite_none_right_eq_some.mp h
    obtain rfl := Option.some.inj h_t
    exact .silent nofun nofun rfl (.inl rfl) rfl

/-- Other actions give no audio. -/
theorem audioOf_silent {sentences : List Text} {n : ℕ} {first : Bool} {action : VoiceAction α}
    {actions : List (VoiceAction α)} (h_take : action ≠ .take)
    (h_audio : ∀ audio, action ≠ .audio audio) :
    audioOf (δ := δ) sentences n first (action :: actions) = audioOf sentences n first actions := by
  cases action with
  | take => exact absurd rfl h_take
  | audio audio => exact absurd rfl (h_audio audio)
  | _ => rfl

/-- **The audio of a run**, from any state: what was put is what the actions spoke. -/
theorem audio_of_run {as : List (VoiceAction α)} (h_num : Numbered s)
    (h_run : runSteps (streamStep doSpeak) s as = some t) (n : ℕ) (first : Bool)
    (h_at : s.worker = .ended ∨ n = s.synthesized.length ∧
      ∀ number sentence f, s.worker = .speaking number sentence f → f = first) :
    s.synthesized <+: t.synthesized ∧
      t.eventsPut.filter (·.isAudio) =
        s.eventsPut.filter (·.isAudio) ++ audioOf t.synthesized n first as := by
  induction as generalizing s n first with
  | nil =>
    obtain rfl := Option.some.inj h_run
    exact ⟨List.prefix_rfl, (List.append_nil _).symm⟩
  | cons a as ih =>
    obtain ⟨u, h_step, h_rest⟩ := Option.bind_eq_some_iff.mp h_run
    have h_num' : Numbered u := h_num.step (streamStep_cases h_step)
    cases voices_of_step h_step with
    | @speaks audio number sentence f h_worker =>
      rcases h_at with h_ended | ⟨rfl, h_first⟩
      · cases h_ended.symm.trans h_worker
      · obtain rfl := h_first number sentence f h_worker
        obtain ⟨h_len, h_some⟩ := h_num.speaking number sentence f h_worker
        obtain ⟨h_initial, h_audio⟩ := ih h_num' h_rest s.synthesized.length false
          (.inr ⟨rfl, fun n' sentence' f' h_w => (WorkerPhase.speaking.inj h_w).2.2.symm⟩)
        have h_text : t.synthesized[number]? = some sentence := by
          obtain ⟨rest, h_eq⟩ := h_initial
          obtain ⟨h_lt, -⟩ := List.getElem?_eq_some_iff.mp h_some
          rw [← h_eq]
          exact (List.getElem?_append_left h_lt).trans h_some
        -- the worker speaks the sentence it took last
        have h_number : s.synthesized.length - 1 = number := by omega
        refine ⟨h_initial, ?_⟩
        rw [h_audio, StreamState.eventsPut_say, List.filter_append, audioOf, h_number, h_text,
          List.append_assoc]
        rfl
    | @takes sentence _ h_worker h_synth h_next h_events =>
      rcases h_at with h_ended | ⟨rfl, -⟩
      · cases h_ended.symm.trans h_worker
      · obtain ⟨h_initial, h_audio⟩ := ih h_num' h_rest (s.synthesized.length + 1) true
          (.inr ⟨by simp [h_synth], fun n' sentence' f' h_w =>
            (WorkerPhase.speaking.inj (h_w.symm.trans h_next)).2.2⟩)
        rw [h_synth] at h_initial
        rw [h_events] at h_audio
        exact ⟨(List.prefix_append ..).trans h_initial, h_audio⟩
    -- after the end no action speaks, so the count may run on
    | ends h_synth h_next h_events =>
      obtain ⟨h_initial, h_audio⟩ := ih h_num' h_rest (n + 1) true (.inl h_next)
      rw [h_synth] at h_initial
      rw [h_events] at h_audio
      exact ⟨h_initial, h_audio⟩
    | silent h_take h_audio h_synth h_next h_events =>
      obtain ⟨h_initial, h_said⟩ := ih h_num' h_rest n first (by
        rw [h_synth]
        rcases h_next with h_same | ⟨h_ended, h_silent⟩
        · rw [h_same]
          exact h_at
        · obtain ⟨h_n, -⟩ := h_at.resolve_left h_ended
          exact .inr ⟨h_n, fun number sentence f h_w => absurd h_w (h_silent number sentence f)⟩)
      rw [h_synth] at h_initial
      rw [h_events] at h_said
      exact ⟨h_initial, h_said.trans (by rw [audioOf_silent h_take h_audio])⟩

/-! ### A stream that completes -/

/-- Without speech, nothing is queued. -/
theorem readAll_silent (r : Reader) (chunks : List (AgentChunk δ)) :
    (readAll (α := α) false r chunks).filterMap Put.sentence? = [] := by
  -- by induction on the chunks
  induction chunks generalizing r with
  | nil => simp [readAll, readEnd, flush]
  | cons c cs ih =>
    rw [readAll, List.filterMap_append, ih, List.append_nil]
    -- only a content chunk reaches the sentences
    cases c with
    | content content =>
      simp only [readChunk]
      split
      · rfl
      · split
        · rfl
        · split
          · rfl
          · simp [readDelta, List.filterMap_cons, Put.sentence?]
    | _ => simp [readChunk, flush, List.filterMap_cons, Put.sentence?]

/-- The invariants of a run. -/
structure Ordered (doSpeak : Bool) (chunks : List (AgentChunk δ)) (s : StreamState δ α) : Prop where
  conserved : Conserved doSpeak chunks s
  marked : EndMarked s
  sentinels : Sentinels doSpeak s
  numbered : Numbered s
  text : doSpeak = true → ∃ pieces, TextFirst s pieces

/-- A run from the start is in order. -/
theorem Ordered.of_run {chunks : List (AgentChunk δ)} {as : List (VoiceAction α)}
    (h_run : runSteps (streamStep doSpeak) (streamInit doSpeak chunks) as = some s) :
    Ordered doSpeak chunks s := by
  refine runSteps_invariant ⟨.init doSpeak chunks, .init doSpeak chunks, .init doSpeak chunks,
    .init doSpeak chunks, fun _ => ⟨[], .init doSpeak chunks⟩⟩ (fun s a t h h_step => ?_) h_run
  have h_step := streamStep_cases h_step
  refine ⟨h.conserved.step h_step, h.marked.step h_step, h.sentinels.step h_step,
    h.numbered.step h_step, fun h_speak => ?_⟩
  subst h_speak
  obtain ⟨pieces, h_text⟩ := h.text rfl
  exact h_text.step h.numbered h_step

/-- **The order of a stream that completes**, for every reply and every interleaving. The text
and tool events are handed on as the reader put them; every queued sentence is synthesised once,
in the order of the queue; the audio is that which the adapter yielded, each chunk once and with
the number of its sentence, and comes in the order of the sentences, its first chunk with the
sentence; and the sentences are pieces of the text, each of whose audio comes after the text up
to the end of the piece, unless the text is blank and the one sentence is the final text. -/
theorem overlap_in_order (doSpeak : Bool) (chunks : List (AgentChunk δ)) (as : List (VoiceAction α))
    (s : StreamState δ α)
    (h_run : runSteps (streamStep doSpeak) (streamInit doSpeak chunks) as = some s)
    (h_done : s.phase = .completed) :
    s.received.filter (!·.isAudio) = (readAll doSpeak {} chunks).filterMap Put.event? ∧
      s.synthesized = (readAll (α := α) doSpeak {} chunks).filterMap Put.sentence? ∧
      s.received.filter (·.isAudio) = audioOf s.synthesized 0 true as ∧
      (s.received.filterMap VoiceEvent.number?).Pairwise (· ≤ ·) ∧
      (∀ n a sentence, .audio n a (some sentence) ∈ s.received →
        s.synthesized[n]? = some sentence) ∧
      ∃ pieces : List Text,
        (s.synthesized = pieces.map strip ∨
          pieces = [] ∧ Blank (textOf s.received) ∧ ∃ text, s.synthesized = [text]) ∧
        pieces.flatten <+: textOf s.received ∧
        ∀ pre n a text post, s.received = pre ++ .audio n a text :: post → n < pieces.length →
          (pieces.take (n + 1)).flatten <+: textOf pre := by
  have h := Ordered.of_run h_run
  obtain ⟨h_reader, h_worker, h_out⟩ := h.sentinels.of_completed h_done
  have h_events : s.eventsPut = s.received := by simp [StreamState.eventsPut, h_out]
  have h_come : s.toCome doSpeak = [] := by simp [StreamState.toCome, h_reader]
  have h_queued := h.conserved.sentences (by simp [h_reader])
  rw [h_come, List.filterMap_nil, List.append_nil] at h_queued
  -- the queue is empty, or without speech never had a sentence
  have h_synth : s.queued = s.synthesized := by
    cases h_speak : doSpeak with
    | true => simp [StreamState.queued, h.marked.taken (h_worker h_speak)]
    | false =>
      rw [h_speak, readAll_silent] at h_queued
      have h_nil := List.append_eq_nil_iff.mp h_queued
      rw [StreamState.queued, h_nil.2, List.append_nil]
  have h_audio := h.conserved.events (by simp [h_reader])
  rw [h_come, List.filterMap_nil, List.append_nil, h_events] at h_audio
  have h_init : (streamInit doSpeak chunks : StreamState δ α).worker = .ended ∨
      0 = (streamInit doSpeak chunks : StreamState δ α).synthesized.length ∧
        ∀ number sentence f,
          (streamInit doSpeak chunks : StreamState δ α).worker = .speaking number sentence f →
            f = true :=
    .inr ⟨rfl, fun n sentence f h_w => by cases doSpeak <;> simp [streamInit] at h_w⟩
  obtain ⟨-, h_said⟩ := audio_of_run (.init doSpeak chunks) h_run 0 true h_init
  rw [h_events] at h_said
  refine ⟨h_audio, h_synth ▸ h_queued, h_said, h_events ▸ h.numbered.order,
    h_events ▸ h.numbered.text, ?_⟩
  cases h_speak : doSpeak with
  | true =>
    obtain ⟨pieces, h_text⟩ := h.text h_speak
    refine ⟨pieces, ?_, h_events ▸ h_text.whole, h_events ▸ h_text.audio⟩
    rw [← h_synth, ← h_events]
    exact h_text.ended h_reader
  | false =>
    rw [h_speak, readAll_silent, h_synth] at h_queued
    exact ⟨[], .inl h_queued, List.nil_prefix, fun _ _ _ _ _ _ h_lt => by simp at h_lt⟩

/-- A reply of two sentences, cut across its deltas. -/
def twoSentences : List (AgentChunk Unit) :=
  [.content (some "One. T".toList), .content (some "wo".toList)]

/-- Its audio comes while the rest of the text is read. -/
def twoSentencesRun : List (VoiceAction Bool) :=
  [.read, .take, .get, .audio true, .read, .readEnd, .audio false, .get, .sentenceEnd, .take,
    .audio true, .sentenceEnd, .take, .get, .get, .get, .get, .get]

theorem twoSentences_completed :
    (runSteps (streamStep true) (streamInit true twoSentences) twoSentencesRun).map (·.phase) =
      some .completed := by
  decide +kernel

/-- Both sentences are synthesised, once and in order. -/
theorem twoSentences_in_order :
    ∃ s, runSteps (streamStep true) (streamInit true twoSentences) twoSentencesRun = some s ∧
      s.synthesized = ["One.".toList, "Two".toList] := by
  obtain ⟨s, h_run, h_phase⟩ := Option.map_eq_some_iff.mp twoSentences_completed
  have h := overlap_in_order true twoSentences twoSentencesRun s h_run h_phase
  exact ⟨s, h_run, h.2.1.trans (by decide +kernel)⟩

end Nexus.Voice
