import Mathlib
import NexusAgent.Lib.Base64
import NexusAgent.Lib.JsonRead
import NexusAgent.Voice.Mulaw

/-!
# The media stream of a telephone call

`TwilioMediaStreamTransport` of `nexus/realtime/transport/sip.py`. A carrier sends the frames of a
call as JSON texts: a `start` with the ids of the call, `media` with mu-law bytes in base64, `dtmf`
with a key that was pressed, and a `stop`. The transport sends `media`, `mark` and `clear` back.

* `call_received`: what the pipeline is given of a call.
* `media_loopback`: what a receiver of this kind makes of what a transport sends.
-/

open Lib

namespace Nexus.Voice

open Mulaw

/-! ### Reading frames -/

/-- The truth value of what `json.loads` gives; `isZero` tells which float texts are zero. -/
def truthy (isZero : String → Bool) : Json → Bool
  | .null => false
  | .bool b => b
  | .int n => n ≠ 0
  | .float t => !isZero t
  | .str s => s ≠ ""
  | .arr xs => !xs.isEmpty
  | .obj fields => !fields.isEmpty

/-- `TwilioMediaStreamTransport`: the ids of the call, `null` before they are known. -/
structure MediaStream where
  streamSid : Json := .null
  callSid : Json := .null
  deriving DecidableEq

/-- What the pipeline is given: a buffer, or a key by `on_dtmf`. -/
inductive Received
  | audio (pcm : List (BitVec 8))
  | digit (s : String)
  deriving DecidableEq

/-- Whether the reader goes on, has come to an end, or has raised. -/
inductive Flow
  | goesOn
  | stopped
  | raised
  deriving DecidableEq

/-- What Python makes of values: which floats are zero, the `str` of a value, and the limits of its
JSON reader. -/
structure Python where
  isZero : String → Bool
  str : Json → String
  str_str : ∀ s, str (.str s) = s
  limits : Json.Limits := {}

namespace MediaStream

variable (py : Python)

/-- A `start` frame. -/
def onStart (t : MediaStream) (msg : Dict String Json) : Flow × MediaStream × List Received :=
  let sid := (msg.get? "streamSid").getD .null
  match (msg.get? "start").getD (.obj []) with
  | .obj start =>
    let streamSid := if truthy py.isZero sid then sid else (Dict.get? start "streamSid").getD .null
    (.goesOn, { streamSid, callSid := (Dict.get? start "callSid").getD .null }, [])
  | _ => (.raised, if truthy py.isZero sid then { t with streamSid := sid } else t, [])

/-- A `media` frame. -/
def onMedia (t : MediaStream) (msg : Dict String Json) : Flow × MediaStream × List Received :=
  match (msg.get? "media").getD (.obj []) with
  | .obj media =>
    match (Dict.get? media "payload").getD .null with
    | .str payload =>
      if payload = "" then (.goesOn, t, [])
      else
        match (Base64.decode payload).bind ulawToPcm16 with
        | some pcm => (.goesOn, t, [.audio pcm])
        | none => (.raised, t, [])
    | payload => (if truthy py.isZero payload then .raised else .goesOn, t, [])
  | _ => (.raised, t, [])

/-- A `dtmf` frame. -/
def onDtmf (t : MediaStream) (msg : Dict String Json) : Flow × MediaStream × List Received :=
  match (msg.get? "dtmf").getD (.obj []) with
  | .obj dtmf =>
    let digit := (Dict.get? dtmf "digit").getD .null
    (.goesOn, t, if truthy py.isZero digit then [.digit (py.str digit)] else [])
  | _ => (.raised, t, [])

/-- The body of the loop of `receive_audio`: a text that is no JSON is passed over; one that is no
object, or is beyond the limits of the reader, raises. -/
def handle (t : MediaStream) (raw : String) : Flow × MediaStream × List Received :=
  match Json.load py.limits raw with
  | .error .decode => (.goesOn, t, [])
  | .error .limit => (.raised, t, [])
  | .ok (.obj msg) =>
    let event := (Dict.get? msg "event").getD .null
    if event = .str "start" then t.onStart py msg
    else if event = .str "media" then t.onMedia py msg
    else if event = .str "dtmf" then t.onDtmf py msg
    else if event = .str "stop" then (.stopped, t, [])
    else (.goesOn, t, [])
  | .ok _ => (.raised, t, [])

/-- `receive_audio`, over the texts that come before the connection is closed. -/
def receive (t : MediaStream) : List String → Flow × MediaStream × List Received
  | [] => (.stopped, t, [])
  | raw :: raws =>
    match t.handle py raw with
    | (.goesOn, t', out) =>
      let (flow, t'', outs) := t'.receive raws
      (flow, t'', out ++ outs)
    | ended => ended

/-! ### Sending frames -/

/-- What the pipeline sends: a buffer, or an event of some type. -/
inductive Outgoing
  | audio (chunk : List (BitVec 8))
  | event (eventType : String)

/-- `send_audio`, for the resampling to 8 kHz. -/
def sendAudio (downsample : List (BitVec 8) → List (BitVec 8)) (t : MediaStream)
    (chunk : List (BitVec 8)) : Option String :=
  if truthy py.isZero t.streamSid then
    let payload := String.ofList (Base64.encode (pcm16ToUlaw (downsample chunk)))
    some (Json.dumps (.obj [("event", .str "media"), ("streamSid", t.streamSid),
      ("media", .obj [("payload", .str payload)])]))
  else none

/-- `send_event`. -/
def sendEvent (t : MediaStream) (eventType : String) : Option String :=
  if truthy py.isZero t.streamSid then
    if eventType = "final_response" ∨ eventType = "turn_end" then
      some (Json.dumps (.obj [("event", .str "mark"), ("streamSid", t.streamSid),
        ("mark", .obj [("name", .str eventType)])]))
    else if eventType = "barge_in" then
      some (Json.dumps (.obj [("event", .str "clear"), ("streamSid", t.streamSid)]))
    else none
  else none

/-- The text that goes out, if any. -/
def send (downsample : List (BitVec 8) → List (BitVec 8)) (t : MediaStream) :
    Outgoing → Option String
  | .audio chunk => t.sendAudio py downsample chunk
  | .event eventType => t.sendEvent py eventType

/-! ### What frames carry -/

/-- What a frame of a running call says. -/
inductive CallFrame
  | media (ulaw : List (BitVec 8))
  | dtmf (digit : String)
  | other (event : String)

/-- A text is a JSON object with this event, and the reader's limits allow it. -/
def HasEvent (raw event : String) (msg : Dict String Json) : Prop :=
  Json.load py.limits raw = .ok (.obj msg) ∧ Dict.get? msg "event" = some (.str event)

/-- A text carries a frame, whatever other fields it has. -/
def Carries (raw : String) : CallFrame → Prop
  | .media ulaw => ∃ msg media, HasEvent py raw "media" msg ∧
      Dict.get? msg "media" = some (.obj media) ∧
      Dict.get? media "payload" = some (.str (String.ofList (Base64.encode ulaw)))
  | .dtmf digit => ∃ msg dtmf, HasEvent py raw "dtmf" msg ∧
      Dict.get? msg "dtmf" = some (.obj dtmf) ∧ Dict.get? dtmf "digit" = some (.str digit)
  | .other event =>
    (∃ msg, HasEvent py raw event msg) ∧ event ∉ ["start", "media", "dtmf", "stop"]

/-- What the pipeline is given of a frame: nothing of silence without length, and of no key. -/
def heard : CallFrame → List Received
  | .media ulaw => if ulaw = [] then [] else ((ulawToPcm16 ulaw).map .audio).toList
  | .dtmf digit => if digit = "" then [] else [.digit digit]
  | .other _ => []

variable {py}

/-- A message is handled by its event. -/
theorem handle_event {t : MediaStream} {raw event : String} {msg : Dict String Json}
    (h : HasEvent py raw event msg) :
    t.handle py raw =
      if event = "start" then t.onStart py msg
      else if event = "media" then t.onMedia py msg
      else if event = "dtmf" then t.onDtmf py msg
      else if event = "stop" then (.stopped, t, [])
      else (.goesOn, t, []) := by
  unfold handle
  rw [h.1]
  simp only [h.2, Option.getD_some, Json.str.injEq]

/-- **One frame.** -/
theorem handle_carries (t : MediaStream) {raw : String} {frame : CallFrame}
    (h : Carries py raw frame) : t.handle py raw = (.goesOn, t, heard frame) := by
  cases frame with
  | media ulaw =>
    obtain ⟨msg, media, h_event, h_media, h_payload⟩ := h
    rw [handle_event h_event, if_neg (by decide), if_pos rfl]
    unfold onMedia
    simp only [h_media, h_payload, Option.getD_some, heard]
    -- an empty payload is skipped, and carries nothing
    by_cases h_nil : ulaw = []
    · subst h_nil
      rfl
    · have h_text : String.ofList (Base64.encode ulaw) ≠ "" := by
        intro h_eq
        have h_chars := congrArg String.toList h_eq
        rw [String.toList_ofList] at h_chars
        exact h_nil (Base64.encode_eq_nil.mp h_chars)
      obtain ⟨pcm, h_pcm, -⟩ := ulawToPcm16_spec ulaw
      simp [h_text, h_nil, Base64.decode_encode, h_pcm]
  | dtmf digit =>
    obtain ⟨msg, dtmf, h_event, h_dtmf, h_digit⟩ := h
    rw [handle_event h_event, if_neg (by decide), if_neg (by decide), if_pos rfl]
    unfold onDtmf
    simp only [h_dtmf, h_digit, Option.getD_some, heard, truthy, py.str_str]
    by_cases h_empty : digit = "" <;> simp [h_empty]
  | other event =>
    obtain ⟨⟨msg, h_event⟩, h_other⟩ := h
    simp only [List.mem_cons, List.not_mem_nil, or_false, not_or] at h_other
    obtain ⟨h_start, h_media, h_dtmf, h_stop⟩ := h_other
    rw [handle_event h_event, if_neg h_start, if_neg h_media, if_neg h_dtmf, if_neg h_stop]
    rfl

/-- A message after which the call goes on is followed by the others. -/
theorem receive_of_goesOn {t t' : MediaStream} {raw : String} {out : List Received}
    (h : t.handle py raw = (.goesOn, t', out)) (raws : List String) :
    t.receive py (raw :: raws) =
      ((t'.receive py raws).1, (t'.receive py raws).2.1, out ++ (t'.receive py raws).2.2) := by
  rw [receive, h]

variable (py) in
/-- **Frames in a row** are heard one after the other, and change no id. -/
theorem receive_carries (t : MediaStream) {raws : List String} {frames : List CallFrame}
    (h : List.Forall₂ (Carries py) raws frames) (rest : List String) :
    t.receive py (raws ++ rest) = ((t.receive py rest).1, (t.receive py rest).2.1,
      frames.flatMap heard ++ (t.receive py rest).2.2) := by
  induction h with
  | nil => rfl
  | cons h_frame _ ih =>
    rw [List.cons_append, receive_of_goesOn (t.handle_carries h_frame), ih,
      List.flatMap_cons, List.append_assoc]

variable (py) in
/-- **A call**: its `start` sets the ids, the buffers and keys between `start` and `stop` are
received in their order, and nothing after `stop`. -/
theorem call_received (t : MediaStream) {startRaw stopRaw sid : String}
    {startMsg stopMsg start : Dict String Json} (h_start : HasEvent py startRaw "start" startMsg)
    (h_sid : Dict.get? startMsg "streamSid" = some (.str sid)) (h_given : sid ≠ "")
    (h_info : Dict.get? startMsg "start" = some (.obj start)) {raws : List String}
    {frames : List CallFrame} (h : List.Forall₂ (Carries py) raws frames)
    (h_stop : HasEvent py stopRaw "stop" stopMsg) (late : List String) :
    t.receive py (startRaw :: raws ++ stopRaw :: late) =
      (.stopped, ⟨.str sid, (Dict.get? start "callSid").getD .null⟩, frames.flatMap heard) := by
  -- the first message starts the stream
  have h_begin : t.handle py startRaw =
      (.goesOn, ⟨.str sid, (Dict.get? start "callSid").getD .null⟩, []) := by
    rw [handle_event h_start, if_pos rfl]
    unfold onStart
    simp [h_sid, h_info, truthy, h_given]
  -- the stop ends it, and what comes late is not read
  have h_end : ∀ u : MediaStream, u.receive py (stopRaw :: late) = (.stopped, u, []) := by
    intro u
    rw [receive, handle_event h_stop]
    rfl
  rw [List.cons_append, receive_of_goesOn h_begin, receive_carries py _ h, h_end, List.append_nil]
  rfl

/-! ### What is sent -/

/-- The frame that goes out. -/
def frameOf (downsample : List (BitVec 8) → List (BitVec 8)) : Outgoing → Option CallFrame
  | .audio chunk => some (.media (pcm16ToUlaw (downsample chunk)))
  | .event eventType =>
    if eventType = "final_response" ∨ eventType = "turn_end" then some (.other "mark")
    else if eventType = "barge_in" then some (.other "clear")
    else none

/-- An event that is sent is read back. -/
theorem hasEvent_dumps {event sid : String} {fields : List (String × Json)}
    (h : Json.Valid (.obj (("event", .str event) :: ("streamSid", .str sid) :: fields)))
    (h_fits : Json.FitsFields py.limits 1 fields) :
    HasEvent py (Json.dumps (.obj (("event", .str event) :: ("streamSid", .str sid) :: fields)))
      event (("event", .str event) :: ("streamSid", .str sid) :: fields) :=
  have h_shallow := py.limits.shallow
  ⟨Json.load_dumps h ⟨by omega, trivial, trivial, h_fits⟩, rfl⟩

variable (py) in
/-- **One text that is sent** carries its frame. -/
theorem send_carries (downsample : List (BitVec 8) → List (BitVec 8)) {t : MediaStream}
    {sid : String} (h_sid : t.streamSid = .str sid) (h_given : sid ≠ "") (item : Outgoing) :
    Option.Rel (Carries py) (t.send py downsample item) (frameOf downsample item) := by
  have h_truthy : truthy py.isZero t.streamSid = true := by simp [h_sid, truthy, h_given]
  have h_shallow := py.limits.shallow
  -- an audio item carries its chunk, an event its name
  cases item with
  | audio chunk =>
    rw [send, sendAudio, if_pos h_truthy, h_sid]
    refine .some ⟨_, [("payload", _)], hasEvent_dumps ?_ ?_, rfl, rfl⟩
    · simp [Json.Valid, Json.ValidFields, Dict.keys]
    · exact ⟨⟨by omega, trivial, trivial⟩, trivial⟩
  | event eventType =>
    rw [send, sendEvent, if_pos h_truthy, h_sid, frameOf]
    split_ifs
    · refine .some ⟨⟨_, hasEvent_dumps ?_ ⟨⟨by omega, trivial, trivial⟩, trivial⟩⟩, by decide⟩
      simp [Json.Valid, Json.ValidFields, Dict.keys]
    · refine .some ⟨⟨_, hasEvent_dumps ?_ trivial⟩, by decide⟩
      simp [Json.Valid, Json.ValidFields, Dict.keys]
    · exact .none

/-- Filtering keeps a relation between two lists. -/
theorem forall₂_filterMap {α β γ : Type} {R : β → γ → Prop} {f : α → Option β} {g : α → Option γ}
    (h : ∀ x, Option.Rel R (f x) (g x)) (xs : List α) :
    List.Forall₂ R (xs.filterMap f) (xs.filterMap g) := by
  -- by induction on the list
  induction xs with
  | nil => exact .nil
  | cons x xs ih =>
    rw [List.filterMap_cons, List.filterMap_cons]
    have h_x := h x
    generalize f x = y at h_x ⊢
    generalize g x = z at h_x ⊢
    -- both keep the item, or neither does
    cases h_x with
    | some h_x => exact .cons h_x ih
    | none => exact ih

variable (py) in
/-- **A leg in a loop**: of what a transport with a stream sends, in any order, a receiver makes the
buffers after one way through mu-law, those without a sample left out, and nothing else; no text
makes it raise. -/
theorem media_loopback {t : MediaStream} {sid : String} (h_sid : t.streamSid = .str sid)
    (h_given : sid ≠ "") (downsample : List (BitVec 8) → List (BitVec 8)) (peer : MediaStream)
    (items : List Outgoing) :
    peer.receive py (items.filterMap (t.send py downsample)) =
      (.stopped, peer, (items.filterMap (frameOf downsample)).flatMap heard) := by
  have h_frames := forall₂_filterMap (send_carries py downsample h_sid h_given) items
  have h_receive := receive_carries py peer h_frames []
  rwa [List.append_nil, receive, List.append_nil] at h_receive

/-- No float text is zero, and `str` of other values is their JSON. -/
def plainPython : Python where
  isZero _ := false
  str
    | .str s => s
    | v => v.dumps
  str_str _ := rfl

/-- The first frame of a call. -/
def startFrame : Dict String Json :=
  [("event", .str "start"), ("streamSid", .str "MZ1"), ("start", .obj [("callSid", .str "CA1")])]

/-- A frame with one byte of silence. -/
def silentFrame : Dict String Json :=
  [("event", .str "media"), ("sequenceNumber", .str "2"),
    ("media", .obj [("payload", .str "/w==")])]

/-- A call with one frame of silence. -/
theorem call_received_silence :
    ({} : MediaStream).receive plainPython [Json.dumps (.obj startFrame),
        Json.dumps (.obj silentFrame), Json.dumps (.obj [("event", .str "stop")]), "late"] =
      (.stopped, ⟨.str "MZ1", .str "CA1"⟩, [.audio [0, 0]]) := by
  -- the three messages are read back
  have h_loads : ∀ msg ∈ [startFrame, silentFrame, [("event", .str "stop")]],
      Json.load plainPython.limits (Json.dumps (.obj msg)) = .ok (.obj msg) := by
    intro msg h_msg
    simp only [List.mem_cons, List.not_mem_nil, or_false] at h_msg
    rcases h_msg with rfl | rfl | rfl <;> exact Json.load_dumps
      (by simp [startFrame, silentFrame, Json.Valid, Json.ValidFields, Dict.keys])
      (by simp [startFrame, silentFrame, plainPython, Json.Fits, Json.FitsFields])
  -- the frame of silence is one sample
  have h_silent : Carries plainPython (Json.dumps (.obj silentFrame)) (.media [0xFF]) :=
    ⟨silentFrame, [("payload", .str "/w==")], ⟨h_loads _ (by simp), rfl⟩, rfl, by decide +kernel⟩
  have h_call := call_received plainPython {} ⟨h_loads startFrame (by simp), rfl⟩ rfl
    (by decide : "MZ1" ≠ "") rfl (.cons h_silent .nil)
    ⟨h_loads [("event", .str "stop")] (by simp), rfl⟩ ["late"]
  exact h_call.trans (by decide +kernel)

/-- What the other side hears of a frame of silence. -/
theorem media_loopback_silence :
    ({} : MediaStream).receive plainPython
        ([.event "barge_in", .audio [0, 0], .audio [], .event "turn_end"].filterMap
          (MediaStream.send plainPython id ⟨.str "MZ1", .null⟩)) =
      (.stopped, {}, [.audio [0, 0]]) :=
  (media_loopback plainPython rfl (by decide : "MZ1" ≠ "") id {} _).trans (by decide +kernel)

end MediaStream

end Nexus.Voice
