import NexusAgent.Lib.Grouping
import NexusAgent.Runner.LlmTurn

/-!
# Streams that concatenate to a reply

A provider can send a reply at once or in chunks. `Concatenates` says that chunks carry the
reply: their texts joined are its texts, the deltas of each tool call carry its id, its name
and its argument text, and the last usage report is its usage. Deltas of different calls
may take turns, a text may be cut anywhere, and ids and names may be repeated.

Two pieces of code then build the response: `_parse_response` of the adapter from the whole
reply, and the accumulation of the runner from the chunks. `RawReply.Alike` lists the
replies they build the same response from (`response_eq_iff`).
-/

open Lib

namespace Nexus

/-! ### What chunks carry -/

/-- The id a delta gives. -/
def ToolCallDelta.givenId (delta : ToolCallDelta) : Option String := truthy delta.id

/-- The name a delta gives, in its `function` part or outside. -/
def ToolCallDelta.givenName (delta : ToolCallDelta) : Option String :=
  (truthy (delta.function.getD {}).name).or (truthy delta.name)

/-- The argument text a delta adds. -/
def ToolCallDelta.text (delta : ToolCallDelta) : String :=
  delta.arguments.getD "" ++ (delta.function.getD {}).arguments.getD ""

/-- All tool-call deltas of a stream. -/
def toolCallDeltas (chunks : List LLMStreamChunk) : List ToolCallDelta :=
  chunks.flatMap LLMStreamChunk.toolCalls

/-- The deltas of one tool call. -/
def deltasAt (chunks : List LLMStreamChunk) (i : ℕ) : List ToolCallDelta :=
  (toolCallDeltas chunks).filter fun delta => delta.index = i

/-- The deltas of a tool call carry it. -/
structure Assembles (deltas : List ToolCallDelta) (tc : RawToolCall) : Prop where
  id : (deltas.filterMap ToolCallDelta.givenId).getLast? = truthy tc.id
  name : (deltas.filterMap ToolCallDelta.givenName).getLast? = truthy tc.name
  arguments : PyStr.join "" (deltas.map ToolCallDelta.text) = tc.arguments.getD ""

/-- **The chunks of a stream concatenate to a reply.** The indices of the deltas name the
calls of the reply, in its order. -/
structure Concatenates (chunks : List LLMStreamChunk) (reply : RawReply) : Prop where
  content : PyStr.join "" (chunks.map fun c => c.content.getD "") = reply.content.getD ""
  reasoning : PyStr.join "" (chunks.map fun c => c.reasoning.getD "") = reply.reasoning.getD ""
  toolCalls : ∃ indices : List ℕ, indices.Pairwise (· < ·) ∧
    (∀ delta ∈ toolCallDeltas chunks, delta.index ∈ indices) ∧
    List.Forall₂ (fun i tc => Assembles (deltasAt chunks i) tc) indices reply.toolCalls
  usage : (chunks.filterMap LLMStreamChunk.usage).getLast?.getD {} = reply.usage

/-! ### Replies both pieces of code read alike -/

section Alike

variable (limits : Json.Limits)

/-- The value of a call's arguments: an empty text and one that is not JSON count as no
arguments, and a text beyond the limits of the interpreter has no value. -/
def RawToolCall.input (tc : RawToolCall) : Option Json :=
  parseArguments limits ((truthy tc.arguments).getD "\x7b\x7d")

/-- Whether there is a value, and it is an object. -/
def isObject : Option Json → Bool
  | some (.obj _) => true
  | _ => false

/-- A call both pieces of code read alike: it has a name and an id, and arguments that are an
object, or else it has neither a name nor such arguments, and both drop it. -/
def RawToolCall.Alike (tc : RawToolCall) : Prop :=
  if truthy tc.name = none then isObject (tc.input limits) = false
  else truthy tc.id ≠ none ∧ isObject (tc.input limits) = true

instance (tc : RawToolCall) : Decidable (tc.Alike limits) := by
  unfold RawToolCall.Alike
  infer_instance

/-- A reply both pieces of code read alike. -/
def RawReply.Alike (reply : RawReply) : Prop :=
  reply.content ≠ some "" ∧ ∀ tc ∈ reply.toolCalls, tc.Alike limits

instance (reply : RawReply) : Decidable (reply.Alike limits) :=
  inferInstanceAs (Decidable (_ ∧ _))

end Alike

/-! ### Joining texts -/

/-- Joining starts with the first text. -/
theorem join_cons (text : String) (texts : List String) :
    PyStr.join "" (text :: texts) = text ++ PyStr.join "" texts := by
  cases texts with
  | nil => simp [PyStr.join]
  | cons next texts => simp [PyStr.join]

theorem truthy_some_getD (text : Option String) : truthy (some (text.getD "")) = truthy text := by
  cases text <;> simp [truthy]

/-- Leaving out empty texts does not change what texts join to. -/
theorem join_truthy (texts : List (Option String)) :
    PyStr.join "" (texts.filterMap truthy) = PyStr.join "" (texts.map (·.getD "")) := by
  induction texts with
  | nil => rfl
  | cons text texts ih =>
    rw [List.map_cons, join_cons, ← ih]
    -- an empty or missing text adds nothing to the join
    cases text with
    | none =>
      rw [List.filterMap_cons_none rfl]
      simp
    | some s =>
      by_cases h : s = ""
      · rw [List.filterMap_cons_none (by simp [truthy, h])]
        simp [h]
      · rw [List.filterMap_cons_some (b := s) (by simp [truthy, h]), join_cons]
        rfl

/-- The text of the parts that were collected. -/
theorem joinParts_truthy (texts : List (Option String)) :
    joinParts (texts.filterMap truthy) =
      truthy (some (PyStr.join "" (texts.map (·.getD "")))) := by
  rw [← join_truthy]
  cases h : texts.filterMap truthy with
  | nil => simp [joinParts, truthy, PyStr.join]
  | cons text rest =>
    -- a text that is kept is not empty, so the join is not
    have h_mem : text ∈ texts.filterMap truthy := by
      rw [h]
      exact List.mem_cons_self
    obtain ⟨o, -, h_o⟩ := List.mem_filterMap.mp h_mem
    have h_ne : text ≠ "" := by
      rintro rfl
      cases o <;> simp [truthy] at h_o
    simp [joinParts, truthy, join_cons, h_ne]

/-! ### The accumulated stream -/

theorem toList_append_filterMap {α β : Type} (f : α → Option β) (x : α) (xs : List α) :
    (f x).toList ++ xs.filterMap f = (x :: xs).filterMap f := by
  cases h : f x <;> simp [h]

/-- The last value given by a list, from its first element on. -/
theorem getLast?_filterMap_cons {α β : Type} (f : α → Option β) (x : α) (xs : List α) :
    ((x :: xs).filterMap f).getLast? = (xs.filterMap f).getLast?.or (f x) := by
  rw [← toList_append_filterMap, List.getLast?_append]
  cases f x <;> rfl

theorem getD_or {α : Type} (o o' : Option α) (x : α) : (o.or o').getD x = o.getD (o'.getD x) := by
  cases o <;> rfl

/-- What a stream has collected at its end. -/
theorem foldl_add (chunks : List LLMStreamChunk) (acc : StreamAcc) :
    chunks.foldl StreamAcc.add acc =
      { contentParts := acc.contentParts ++ (chunks.map LLMStreamChunk.content).filterMap truthy
        reasoningParts :=
          acc.reasoningParts ++ (chunks.map LLMStreamChunk.reasoning).filterMap truthy
        toolCalls := Dict.collect ToolCallDelta.index AccEntry.merge {} acc.toolCalls
          (toolCallDeltas chunks)
        usage := (chunks.filterMap LLMStreamChunk.usage).getLast?.getD acc.usage } := by
  induction chunks generalizing acc with
  | nil => simp [toolCallDeltas, Dict.collect]
  | cons chunk chunks ih =>
    -- the deltas of this chunk come first
    have h_deltas : toolCallDeltas (chunk :: chunks) = chunk.toolCalls ++ toolCallDeltas chunks :=
      List.flatMap_cons
    rw [List.foldl_cons, ih, getLast?_filterMap_cons, getD_or, h_deltas, List.map_cons,
      List.map_cons, ← toList_append_filterMap, ← toList_append_filterMap, ← List.append_assoc,
      ← List.append_assoc]
    congr 1
    exact (List.foldl_append ..).symm

/-- The entry the deltas of a call add up to. -/
theorem foldl_merge (deltas : List ToolCallDelta) (entry : AccEntry) :
    deltas.foldl AccEntry.merge entry =
      { id := (deltas.filterMap ToolCallDelta.givenId).getLast?.or entry.id
        name := (deltas.filterMap ToolCallDelta.givenName).getLast?.getD entry.name
        arguments := entry.arguments ++ PyStr.join "" (deltas.map ToolCallDelta.text) } := by
  induction deltas generalizing entry with
  | nil => simp [PyStr.join]
  | cons delta deltas ih =>
    -- the last id and name count, the arguments are put together
    rw [List.foldl_cons, ih, getLast?_filterMap_cons, getLast?_filterMap_cons, getD_or,
      Option.or_assoc, List.map_cons, join_cons]
    unfold AccEntry.merge ToolCallDelta.text ToolCallDelta.givenId ToolCallDelta.givenName
    simp only [String.append_assoc]

/-! ### The requests -/

variable (limits : Json.Limits)

/-- The entry of a call that was assembled. -/
def RawToolCall.entry (tc : RawToolCall) : AccEntry where
  id := truthy tc.id
  name := (truthy tc.name).getD ""
  arguments := tc.arguments.getD ""

theorem Assembles.entry {deltas : List ToolCallDelta} {tc : RawToolCall}
    (h : Assembles deltas tc) : deltas.foldl AccEntry.merge {} = tc.entry := by
  rw [foldl_merge, h.id, h.name, h.arguments, Option.or_none, String.empty_append]
  rfl

/-- The requests a stream makes of the calls of a reply; `none` is an error. -/
def streamedRequests (indices : List ℕ) (tcs : List RawToolCall) :
    List (Option ToolCallRequest) :=
  (indices.zip tcs).filterMap fun p => p.2.entry.request limits p.1

/-- The entries the deltas of a stream add up to. -/
def accumulated (chunks : List LLMStreamChunk) : Dict ℕ AccEntry :=
  Dict.collect ToolCallDelta.index AccEntry.merge {} [] (toolCallDeltas chunks)

/-- The requests accumulated from chunks that carry the calls. -/
theorem toolCallsFromAccumulated_eq {chunks : List LLMStreamChunk} {indices : List ℕ}
    {tcs : List RawToolCall} (h_indices : indices.Pairwise (· < ·))
    (h_deltas : ∀ delta ∈ toolCallDeltas chunks, delta.index ∈ indices)
    (h : List.Forall₂ (fun i tc => Assembles (deltasAt chunks i) tc) indices tcs) :
    toolCallsFromAccumulated limits (accumulated chunks) =
      (streamedRequests limits indices tcs).mapM id := by
  -- each raw call is what its fragments add up to
  have h_along : (indices.filterMap fun i =>
      ((deltasAt chunks i).foldl AccEntry.merge {}).request limits i) =
      streamedRequests limits indices tcs := by
    clear h_indices h_deltas
    unfold streamedRequests
    induction h with
    | nil => rfl
    | cons h_tc _ ih => rw [List.filterMap_cons, h_tc.entry, ih, List.zip_cons_cons, List.filterMap_cons]
  have h_nodup : (Dict.keys (accumulated chunks)).Nodup :=
    Dict.nodup_keys_collect _ (by simp [Dict.keys])
  have h_sub : ∀ i ∈ Dict.keys (accumulated chunks), i ∈ indices :=
    Dict.keys_collect_subset _ (by simp [Dict.keys]) h_deltas
  -- an index without fragments gives no call
  have h_init : ∀ i, AccEntry.request limits i {} = none := fun _ => rfl
  unfold toolCallsFromAccumulated
  rw [Dict.filterMap_sorted h_nodup h_indices h_sub (fun i entry => entry.request limits i) h_init,
    ← h_along]
  congr 1
  apply List.filterMap_congr
  intro i _
  rw [accumulated, Dict.get?_collect]
  rfl

/-- The response a stream that carries a reply ends with. -/
theorem Concatenates.response {chunks : List LLMStreamChunk} {reply : RawReply}
    (h : Concatenates chunks reply) : ∃ indices : List ℕ,
      indices.length = reply.toolCalls.length ∧
      (chunks.foldl StreamAcc.add {}).response limits =
        ((streamedRequests limits indices reply.toolCalls).mapM id).map fun calls =>
          { content := truthy reply.content
            reasoning := truthy reply.reasoning
            toolCalls := calls
            usage := reply.usage } := by
  obtain ⟨indices, h_indices, h_deltas, h_calls⟩ := h.toolCalls
  refine ⟨indices, h_calls.length_eq, ?_⟩
  -- the texts of the chunks join to the text of the reply
  have h_parts : ∀ part : LLMStreamChunk → Option String, ∀ text : Option String,
      PyStr.join "" (chunks.map fun c => (part c).getD "") = text.getD "" →
      joinParts ((chunks.map part).filterMap truthy) = truthy text := by
    intro part text h_text
    rw [joinParts_truthy, List.map_map, ← truthy_some_getD text, ← h_text]
    rfl
  rw [foldl_add]
  unfold StreamAcc.response
  rw [← toolCallsFromAccumulated_eq limits h_indices h_deltas h_calls, List.nil_append, List.nil_append,
    h_parts _ _ h.content, h_parts _ _ h.reasoning, h.usage]
  rfl

/-! ### Reading a call twice -/

theorem truthy_getD (text : Option String) : (truthy text).getD "" = text.getD "" := by
  cases text with
  | none => rfl
  | some s => by_cases h : s = "" <;> simp [truthy, h]

theorem isObject_iff {v : Option Json} : isObject v = true ↔ ∃ fields, v = some (.obj fields) := by
  rcases v with _ | v
  · simp [isObject]
  · cases v <;> simp [isObject]

/-- Only an object is a tool call. -/
theorem ToolCallRequest.validate_eq_none {callId name : String} {v : Option Json}
    (h : isObject v = false) : v.bind (ToolCallRequest.validate callId name) = none := by
  rcases v with _ | v
  · rfl
  · cases v with
    | obj fields => cases h
    | _ => rfl

/-- The arguments of an entry are read as those of the call. -/
theorem RawToolCall.entry_input (tc : RawToolCall) :
    (if tc.entry.arguments = "" then some (.obj [])
      else parseArguments limits tc.entry.arguments) = tc.input limits := by
  unfold RawToolCall.input RawToolCall.entry
  cases tc.arguments with
  | none => exact (parseArguments_braces limits).symm
  | some text =>
    by_cases h : text = ""
    · subst h
      exact (parseArguments_braces limits).symm
    · simp [truthy, h]

/-- What streaming makes of a call. -/
theorem RawToolCall.entry_request (tc : RawToolCall) (i : ℕ) :
    tc.entry.request limits i = if truthy tc.name = none then none else
      some ((tc.input limits).bind (ToolCallRequest.validate
        ((truthy tc.id).getD ("call_stream_" ++ toString i)) (tc.name.getD ""))) := by
  -- a call without a name is dropped
  have h_name : tc.entry.name = "" ↔ truthy tc.name = none := by
    unfold RawToolCall.entry
    cases tc.name with
    | none => simp [truthy]
    | some name => by_cases h : name = "" <;> simp [truthy, h]
  unfold AccEntry.request
  dsimp only
  rw [tc.entry_input limits, ← truthy_getD tc.name]
  simp only [h_name]
  rfl

/-- What the adapter makes of a call. -/
theorem parseToolCallsFrom_cons (done : List ToolCallRequest) (tc : RawToolCall)
    (tcs : List RawToolCall) :
    parseToolCallsFrom limits done (tc :: tcs) = parseToolCallsFrom limits
      (done ++ ((tc.input limits).bind (ToolCallRequest.validate
        ((truthy tc.id).getD ("call_" ++ toString done.length)) (tc.name.getD ""))).toList)
      tcs := by
  rw [parseToolCallsFrom]
  simp only [RawToolCall.input]
  cases Option.bind _ (ToolCallRequest.validate _ _) with
  | none => simp
  | some req => rfl

/-- The ids the two pieces of code make up differ. -/
theorem madeUp_ids_ne (i n : ℕ) : "call_stream_" ++ toString i ≠ "call_" ++ toString n := by
  intro h
  -- behind the common beginning a word would have to be a number
  have h_chars : "stream_".toList ++ (toString i).toList = (toString n).toList := by
    have h_list := congrArg String.toList h
    rw [String.toList_append, String.toList_append] at h_list
    have h_prefix : "call_".toList ++ ("stream_".toList ++ (toString i).toList) =
        "call_".toList ++ (toString n).toList := h_list
    exact List.append_cancel_left h_prefix
  -- which has no letters
  have h_mem : 's' ∈ Nat.toDigits 10 n := by
    have h_digits : (toString n).toList = Nat.toDigits 10 n := by simp
    rw [← h_digits, ← h_chars]
    simp
  have h_digit := Nat.isDigit_of_mem_toDigits (by decide) (by decide) h_mem
  exact absurd h_digit (by decide)

/-! ### The calls of a reply -/

/-- Parsing keeps the calls that are done. -/
theorem prefix_parseToolCallsFrom (done : List ToolCallRequest) (tcs : List RawToolCall) :
    done <+: parseToolCallsFrom limits done tcs := by
  induction tcs generalizing done with
  | nil => exact List.prefix_refl done
  | cons tc tcs ih =>
    rw [parseToolCallsFrom_cons]
    exact (List.prefix_append _ _).trans (ih _)

/-- Each streamed call gives a request, or is dropped. -/
theorem streamedRequests_cons (i : ℕ) (indices : List ℕ) (tc : RawToolCall)
    (tcs : List RawToolCall) :
    streamedRequests limits (i :: indices) (tc :: tcs) =
      (tc.entry.request limits i).toList ++ streamedRequests limits indices tcs := by
  unfold streamedRequests
  rw [List.zip_cons_cons, toList_append_filterMap
    (fun p : ℕ × RawToolCall => p.2.entry.request limits p.1)
    (i, tc)]

/-- The requests of a stream exist when those of every call do. -/
theorem mapM_cons_eq_some {req : Option ToolCallRequest} {reqs : List (Option ToolCallRequest)}
    {calls : List ToolCallRequest} :
    (req :: reqs).mapM id = some calls ↔
      ∃ call rest, req = some call ∧ reqs.mapM id = some rest ∧ calls = call :: rest := by
  rw [List.mapM_cons]
  cases req with
  | none => simp
  | some call =>
    cases reqs.mapM id with
    | none => simp
    | some rest => simp [eq_comm]

/-- A stream that raises no validation error makes no more requests than the adapter. -/
theorem length_streamed_le (tcs : List RawToolCall) (indices : List ℕ)
    (done calls : List ToolCallRequest) (h_length : indices.length = tcs.length)
    (h : (streamedRequests limits indices tcs).mapM id = some calls) :
    done.length + calls.length ≤ (parseToolCallsFrom limits done tcs).length := by
  induction tcs generalizing indices done calls with
  | nil =>
    obtain rfl := List.length_eq_zero_iff.mp h_length
    cases h
    simp [parseToolCallsFrom]
  | cons tc tcs ih =>
    obtain ⟨i, indices, rfl⟩ := List.exists_cons_of_length_eq_add_one h_length
    rw [List.length_cons, List.length_cons, Nat.add_right_cancel_iff] at h_length
    rw [streamedRequests_cons, tc.entry_request] at h
    rw [parseToolCallsFrom_cons]
    split_ifs at h with h_name
    · refine le_trans ?_ (ih indices _ calls h_length h)
      simp
    · obtain ⟨call, rest, h_call, h_rest, rfl⟩ := mapM_cons_eq_some.mp h
      -- a call that is accepted has an object as its input
      have h_object : isObject (tc.input limits) = true := by
        by_contra h_no
        rw [ToolCallRequest.validate_eq_none (by simpa using h_no)] at h_call
        cases h_call
      obtain ⟨fields, h_input⟩ := isObject_iff.mp h_object
      refine le_trans ?_ (ih indices _ rest h_length h_rest)
      rw [h_input]
      simp [ToolCallRequest.validate]
      omega

/-- **When both pieces of code make the same requests of the calls**: exactly when they read
each call alike. -/
theorem streamed_eq_parsed_iff (tcs : List RawToolCall) (indices : List ℕ)
    (done : List ToolCallRequest) (h_length : indices.length = tcs.length) :
    (∃ calls, (streamedRequests limits indices tcs).mapM id = some calls ∧
      parseToolCallsFrom limits done tcs = done ++ calls) ↔ ∀ tc ∈ tcs, tc.Alike limits := by
  induction tcs generalizing indices done with
  | nil =>
    obtain rfl := List.length_eq_zero_iff.mp h_length
    simp [streamedRequests, parseToolCallsFrom]
  | cons tc tcs ih =>
    obtain ⟨i, indices, rfl⟩ := List.exists_cons_of_length_eq_add_one h_length
    rw [List.length_cons, List.length_cons, Nat.add_right_cancel_iff] at h_length
    have h_alike : tc.Alike limits ↔ if truthy tc.name = none then isObject (tc.input limits) = false
        else truthy tc.id ≠ none ∧ isObject (tc.input limits) = true := Iff.rfl
    rw [List.forall_mem_cons, streamedRequests_cons, tc.entry_request, parseToolCallsFrom_cons,
      h_alike]
    by_cases h_name : truthy tc.name = none
    · rw [if_pos h_name, if_pos h_name]
      by_cases h_object : isObject (tc.input limits) = true
      · -- only the adapter keeps the call
        obtain ⟨fields, h_input⟩ := isObject_iff.mp h_object
        constructor
        · rintro ⟨calls, h_calls, h_eq⟩
          rw [h_input] at h_eq
          have h_le := length_streamed_le limits tcs indices (done ++ [⟨(truthy tc.id).getD
            ("call_" ++ toString done.length), tc.name.getD "", fields⟩]) calls h_length h_calls
          have h_more := congrArg List.length h_eq
          simp only [Option.bind_some, ToolCallRequest.validate, Option.toList_some, List.length_append] at h_le h_more
          simp only [List.length_singleton] at h_le
          omega
        · rintro ⟨h_no, -⟩
          rw [h_object] at h_no
          cases h_no
      · -- both drop it
        rw [Bool.not_eq_true] at h_object
        rw [ToolCallRequest.validate_eq_none h_object]
        simpa [h_object] using ih indices done h_length
    · rw [if_neg h_name, if_neg h_name]
      by_cases h_object : isObject (tc.input limits) = true
      · obtain ⟨fields, h_input⟩ := isObject_iff.mp h_object
        rw [h_input]
        simp only [Option.bind_some, ToolCallRequest.validate, Option.toList_some, List.cons_append, List.nil_append]
        cases h_id : truthy tc.id with
        | some callId =>
          -- the same request
          simp only [Option.getD_some]
          rw [← ih indices (done ++ [⟨callId, tc.name.getD "", fields⟩]) h_length]
          constructor
          · rintro ⟨calls, h_calls, h_eq⟩
            obtain ⟨call, rest, h_call, h_rest, rfl⟩ := mapM_cons_eq_some.mp h_calls
            obtain rfl := Option.some.inj h_call
            exact ⟨⟨by simp, rfl⟩, rest, h_rest, by rw [h_eq, List.append_assoc]; rfl⟩
          · rintro ⟨-, rest, h_rest, h_eq⟩
            refine ⟨_, mapM_cons_eq_some.mpr ⟨_, rest, rfl, h_rest, rfl⟩, ?_⟩
            rw [h_eq, List.append_assoc]
            rfl
        | none =>
          -- each makes up an id of its own
          constructor
          · rintro ⟨calls, h_calls, h_eq⟩
            obtain ⟨call, rest, h_call, -, rfl⟩ := mapM_cons_eq_some.mp h_calls
            obtain rfl := Option.some.inj h_call
            obtain ⟨later, h_later⟩ := prefix_parseToolCallsFrom limits
              (done ++ [⟨"call_" ++ toString done.length, tc.name.getD "", fields⟩]) tcs
            rw [Option.getD_none, ← h_later, List.append_assoc] at h_eq
            have h_head := (List.cons.inj (List.append_cancel_left h_eq)).1
            exact absurd (congrArg ToolCallRequest.id h_head).symm (madeUp_ids_ne i done.length)
          · rintro ⟨⟨h_some, -⟩, -⟩
            exact absurd rfl h_some
      · -- the stream raises
        rw [Bool.not_eq_true] at h_object
        rw [ToolCallRequest.validate_eq_none h_object]
        constructor
        · rintro ⟨calls, h_calls, -⟩
          obtain ⟨call, rest, h_call, -⟩ := mapM_cons_eq_some.mp h_calls
          cases h_call
        · rintro ⟨⟨-, h_true⟩, -⟩
          rw [h_object] at h_true
          cases h_true

/-- **When both pieces of code build the same response**: a reply they read alike. -/
theorem Concatenates.response_eq_iff {chunks : List LLMStreamChunk} {reply : RawReply}
    (h : Concatenates chunks reply) :
    (chunks.foldl StreamAcc.add {}).response limits = some (parseResponse limits reply) ↔
      reply.Alike limits := by
  obtain ⟨indices, h_length, h_response⟩ := h.response limits
  rw [h_response, RawReply.Alike, ← streamed_eq_parsed_iff limits reply.toolCalls indices [] h_length,
    Option.map_eq_some_iff]
  -- an empty text streams as no text
  have h_content : truthy reply.content = reply.content ↔ reply.content ≠ some "" := by
    cases reply.content with
    | none => simp [truthy]
    | some text => by_cases h : text = "" <;> simp [truthy, h]
  unfold parseResponse parseToolCalls
  constructor
  · -- equal responses have equal calls and texts
    rintro ⟨calls, h_calls, h_eq⟩
    exact ⟨h_content.mp (congrArg LLMResponse.content h_eq), calls, h_calls,
      (congrArg LLMResponse.toolCalls h_eq).symm⟩
  · -- and the other way round
    rintro ⟨h_text, calls, h_calls, h_eq⟩
    refine ⟨calls, h_calls, ?_⟩
    rw [h_content.mpr h_text, h_eq, List.nil_append]

end Nexus
