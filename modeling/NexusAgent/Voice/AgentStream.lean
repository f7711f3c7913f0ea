import NexusAgent.Lib.PyStr
import NexusAgent.Lib.Steps

/-!
# Overlapped text and audio

`_agent_stream` runs two tasks: one reads the agent's reply, puts its text and tool events into
`out` and queues its sentences; the other synthesises the queued sentences one at a time and
puts their audio into `out`. The generator hands on what it takes from `out` until both tasks
are done.

* `stripThink`, `visibleThinkLen`, `firstBoundary`: what is text, and where a sentence ends.
* `readChunk`, `readEnd`: `_read_llm`, event by event, and its end.
* `StreamState`, `VoiceAction`, `streamStep`: the two tasks and the generator.
-/

namespace Nexus.Voice

open Lib

/-- A text, as its code points. -/
abbrev Text := List Char

/-- `text.strip()`. -/
def strip (text : Text) : Text :=
  PyStr.rstripChars (text.dropWhile PyStr.isSpace)

/-! ### Reasoning traces -/

def thinkTag : Text := "<think>".toList

def thinkEnd : Text := "</think>".toList

/-- The text before and after the first occurrence of `tag`. -/
def splitAtTag (tag : Text) : Text → Option (Text × Text)
  | [] => if tag = [] then some ([], []) else none
  | c :: cs =>
    if tag.isPrefixOf (c :: cs) then some ([], (c :: cs).drop tag.length)
    else (splitAtTag tag cs).map fun parts => (c :: parts.1, parts.2)

/-- `_THINK_BLOCK_RE.sub("", text)`: a tag that is not closed is no block, and none after it is.
Each block shortens what is left, so `text.length` rounds remove them all. -/
def removeBlocks : ℕ → Text → Text
  | 0, text => text
  | fuel + 1, text =>
    match splitAtTag thinkTag text with
    | none => text
    | some (before, inside) =>
      match splitAtTag thinkEnd inside with
      | none => text
      | some (_, after) => before ++ removeBlocks fuel after

/-- `_strip_think`. -/
def stripThink (text : Text) : Text :=
  let text := removeBlocks text.length text
  match splitAtTag thinkTag text with
  | some (before, _) => before
  | none => text

/-- `_visible_think_len`: a partial tag at the end is held back, the longest first. -/
def visibleThinkLen (raw : Text) : ℕ :=
  let visible := stripThink raw
  match [6, 5, 4, 3, 2, 1].find? fun k => (thinkTag.take k).isSuffixOf visible with
  | some k => visible.length - k
  | none => visible.length

/-! ### Sentences -/

/-- `first_boundary`: a line break, or a closing mark before white space. -/
def firstBoundary : Text → Option ℕ
  | [] => none
  | c :: cs =>
    if c = '\n' ∨ c ∈ ['.', '!', '?', ';', '।'] ∧ cs.head?.any PyStr.isSpace then some 0
    else (firstBoundary cs).map (· + 1)

/-- A boundary lies within the text. -/
theorem firstBoundary_lt {text : Text} {idx : ℕ} (h : firstBoundary text = some idx) :
    idx < text.length := by
  induction text generalizing idx with
  | nil => cases h
  | cons c cs ih =>
    simp only [firstBoundary] at h
    split at h
    · obtain rfl := Option.some.inj h
      simp
    · obtain ⟨k, h_k, rfl⟩ := Option.map_eq_some_iff.mp h
      simpa using ih h_k

/-- The loop that cuts a buffer at its boundaries: the pieces, and what is left. -/
def cutPieces (buffer : Text) : List Text × Text :=
  match h : firstBoundary buffer with
  | none => ([], buffer)
  | some idx =>
    let cut := cutPieces (buffer.drop (idx + 1))
    (buffer.take (idx + 1) :: cut.1, cut.2)
termination_by buffer.length
decreasing_by
  have h_lt := firstBoundary_lt h
  rw [List.length_drop]
  omega

/-! ### The reader -/

variable {δ α : Type}

/-- The events of `run_stream` that are read; the other ones are passed over. -/
inductive AgentChunk (δ : Type)
  | content (content : Option Text)
  | toolCall (data : δ)
  | toolResult (content : Option Text) (data : δ)
  | error (content : Option Text) (data : δ)
  | finalResponse (content : Option Text)
  | other

/-- The events of the pipeline. An audio chunk has the number of its sentence, which the event
itself does not carry, and the text of the sentence if it is its first one. -/
inductive VoiceEvent (δ α : Type)
  | textDelta (text : Text)
  | toolCall (data : δ)
  | toolResult (content : Option Text) (data : δ)
  | error (content : Option Text) (data : δ)
  | audio (number : ℕ) (audio : α) (text : Option Text)

/-- What the reader puts, in its order: an event into `out`, a sentence into `sentences`. -/
inductive Put (δ α : Type)
  | event (e : VoiceEvent δ α)
  | sentence (text : Text)

/-- The variables of `_read_llm`. -/
structure Reader where
  finalText : Option Text := none
  sentenceBuffer : Text := []
  spokeAudio : Bool := false
  rawContent : Text := []
  visibleEmitted : ℕ := 0

/-- The sentences that pieces are queued as. -/
def spoken (pieces : List Text) : List Text :=
  (pieces.map strip).filter (· ≠ [])

/-- A visible text delta. -/
def readDelta (doSpeak : Bool) (r : Reader) (delta : Text) : Reader × List (Put δ α) :=
  if doSpeak then
    let cut := cutPieces (r.sentenceBuffer ++ delta)
    ({ r with sentenceBuffer := cut.2, spokeAudio := r.spokeAudio || spoken cut.1 ≠ [] },
      .event (.textDelta delta) :: (spoken cut.1).map .sentence)
  else (r, [.event (.textDelta delta)])

/-- `sentence_buffer.strip()` is queued, unless it is empty. -/
def flush (doSpeak : Bool) (r : Reader) : List (Put δ α) :=
  if doSpeak ∧ strip r.sentenceBuffer ≠ [] then [.sentence (strip r.sentenceBuffer)] else []

/-- One turn of the loop of `_read_llm`. -/
def readChunk (doSpeak : Bool) (r : Reader) : AgentChunk δ → Reader × List (Put δ α)
  | .content content =>
    let text := content.getD []
    if text = [] then (r, [])
    else
      let raw := r.rawContent ++ text
      let visible := visibleThinkLen raw
      if visible ≤ r.visibleEmitted then ({ r with rawContent := raw }, [])
      else
        let delta := ((stripThink raw).take visible).drop r.visibleEmitted
        let r := { r with rawContent := raw, visibleEmitted := visible }
        if delta = [] then (r, []) else readDelta doSpeak r delta
  | .toolCall data =>
    -- text before a tool call is complete
    (if doSpeak ∧ strip r.sentenceBuffer ≠ [] then
        { r with sentenceBuffer := [], spokeAudio := true } else r,
      flush doSpeak r ++ [.event (.toolCall data)])
  | .toolResult content data => (r, [.event (.toolResult content data)])
  | .error content data => (r, [.event (.error content data)])
  | .finalResponse content =>
    let text := strip (stripThink (content.getD []))
    ({ r with finalText := if text = [] then none else some text }, [])
  | .other => (r, [])

/-- The end of `_read_llm`: the trailing sentence, or the final text if nothing was spoken. -/
def readEnd (doSpeak : Bool) (r : Reader) : List (Put δ α) :=
  flush doSpeak r ++
    if doSpeak ∧ ¬(r.spokeAudio = true ∨ strip r.sentenceBuffer ≠ []) then
      match r.finalText with
      | some text => if strip text ≠ [] then [.sentence (strip text)] else []
      | none => []
    else []

/-- Everything that the reader puts. -/
def readAll (doSpeak : Bool) (r : Reader) : List (AgentChunk δ) → List (Put δ α)
  | [] => readEnd doSpeak r
  | c :: cs => (readChunk doSpeak r c).2 ++ readAll doSpeak (readChunk (α := α) doSpeak r c).1 cs

def Put.event? : Put δ α → Option (VoiceEvent δ α)
  | .event e => some e
  | .sentence _ => none

def Put.sentence? : Put δ α → Option Text
  | .event _ => none
  | .sentence text => some text

/-! ### The tasks and the generator -/

/-- An item of `out`: an event, an exception, the end of a task. -/
inductive OutItem (δ α : Type)
  | event (e : VoiceEvent δ α)
  | exc
  | done

inductive ReaderPhase
  | reading
  | ended
  | failed
  deriving DecidableEq

/-- The worker waits for a sentence, or synthesises one; without speech there is none. -/
inductive WorkerPhase
  | absent
  | waiting
  | speaking (number : ℕ) (sentence : Text) (first : Bool)
  | ended
  | failed
  deriving DecidableEq

/-- How the generator stands: it may have handed on everything, raised, or been closed. -/
inductive StreamPhase
  | streaming
  | completed
  | raised
  | closed
  deriving DecidableEq

structure StreamState (δ α : Type) where
  /-- What `run_stream` will still yield. -/
  chunks : List (AgentChunk δ)
  reader : Reader := {}
  readerPhase : ReaderPhase := .reading
  /-- The queue, with `None` as its end. -/
  sentences : List (Option Text) := []
  worker : WorkerPhase
  /-- The sentences that `stream_synthesize` was called for, in order. -/
  synthesized : List Text := []
  out : List (OutItem δ α) := []
  running : ℕ
  received : List (VoiceEvent δ α) := []
  phase : StreamPhase := .streaming

inductive VoiceAction (α : Type)
  /-- The reader gets the next event. -/
  | read
  /-- `run_stream` ends. -/
  | readEnd
  /-- `run_stream` raises. -/
  | readFail
  /-- The worker gets an item of `sentences`. -/
  | take
  /-- The TTS adapter yields a chunk. -/
  | audio (audio : α)
  /-- It is through with the sentence. -/
  | sentenceEnd
  /-- It raises. -/
  | speakFail
  /-- The generator takes an item of `out`. -/
  | get
  /-- The generator is closed. -/
  | close

namespace StreamState

/-- What the reader puts, into the two queues. -/
def put (s : StreamState δ α) (puts : List (Put δ α)) : StreamState δ α :=
  { s with out := s.out ++ (puts.filterMap Put.event?).map .event
           sentences := s.sentences ++ (puts.filterMap Put.sentence?).map some }

/-- The reader ends: `None` ends the sentences, and `done` its part of `out`. -/
def endReading (doSpeak : Bool) (s : StreamState δ α) : StreamState δ α :=
  let t := s.put (readEnd doSpeak s.reader)
  { t with readerPhase := .ended, sentences := t.sentences ++ [none], out := t.out ++ [.done] }

/-- A chunk of audio, with the sentence if it is the first one. -/
def say (s : StreamState δ α) (number : ℕ) (sentence : Text) (first : Bool) (audio : α) :
    StreamState δ α :=
  { s with worker := .speaking number sentence false
           out := s.out ++ [.event (.audio number audio (if first then some sentence else none))] }

variable {s : StreamState δ α} {doSpeak : Bool}

@[simp] theorem put_readerPhase (puts : List (Put δ α)) :
    (s.put puts).readerPhase = s.readerPhase := rfl

@[simp] theorem put_worker (puts : List (Put δ α)) : (s.put puts).worker = s.worker := rfl

@[simp] theorem endReading_readerPhase : (s.endReading doSpeak).readerPhase = .ended := rfl

@[simp] theorem endReading_worker : (s.endReading doSpeak).worker = s.worker := rfl

@[simp] theorem say_readerPhase (number : ℕ) (sentence : Text) (first : Bool) (audio : α) :
    (s.say number sentence first audio).readerPhase = s.readerPhase := rfl

@[simp] theorem say_worker (number : ℕ) (sentence : Text) (first : Bool) (audio : α) :
    (s.say number sentence first audio).worker = .speaking number sentence false := rfl

end StreamState

/-- One action. The tasks of a generator that is through with them are cancelled. -/
def streamStep (doSpeak : Bool) (s : StreamState δ α) : VoiceAction α → Option (StreamState δ α)
  | .read =>
    match s.phase, s.readerPhase, s.chunks with
    | .streaming, .reading, c :: cs =>
      let r := readChunk doSpeak s.reader c
      some ({ s with chunks := cs, reader := r.1 }.put r.2)
    | _, _, _ => none
  | .readEnd =>
    match s.phase, s.readerPhase, s.chunks with
    | .streaming, .reading, [] => some (s.endReading doSpeak)
    | _, _, _ => none
  | .readFail =>
    match s.phase, s.readerPhase with
    | .streaming, .reading => some { s with readerPhase := .failed, out := s.out ++ [.exc, .done] }
    | _, _ => none
  | .take =>
    match s.phase, s.worker, s.sentences with
    | .streaming, .waiting, some sentence :: rest =>
      some { s with sentences := rest, synthesized := s.synthesized ++ [sentence]
                    worker := .speaking s.synthesized.length sentence true }
    | .streaming, .waiting, none :: rest =>
      some { s with sentences := rest, worker := .ended, out := s.out ++ [.done] }
    | _, _, _ => none
  | .audio audio =>
    match s.phase, s.worker with
    | .streaming, .speaking number sentence first => some (s.say number sentence first audio)
    | _, _ => none
  | .sentenceEnd =>
    match s.phase, s.worker with
    | .streaming, .speaking _ _ _ => some { s with worker := .waiting }
    | _, _ => none
  | .speakFail =>
    match s.phase, s.worker with
    | .streaming, .speaking _ _ _ =>
      some { s with worker := .failed, out := s.out ++ [.exc, .done] }
    | _, _ => none
  | .get =>
    match s.phase, s.out with
    | .streaming, .done :: rest =>
      some { s with out := rest, running := s.running - 1
                    phase := if s.running - 1 = 0 then .completed else .streaming }
    | .streaming, .exc :: rest => some { s with out := rest, phase := .raised }
    | .streaming, .event e :: rest => some { s with out := rest, received := s.received ++ [e] }
    | _, _ => none
  | .close => if s.phase = .streaming then some { s with phase := .closed } else none

/-- The state when the generator has made its tasks. -/
def streamInit (doSpeak : Bool) (chunks : List (AgentChunk δ)) : StreamState δ α where
  chunks := chunks
  worker := if doSpeak then .waiting else .absent
  running := if doSpeak then 2 else 1

end Nexus.Voice
