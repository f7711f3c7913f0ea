import NexusAgent.Voice.ThinkFilter

/-!
# Sentences and chunks

The reader looks for sentence boundaries in a buffer that grows with every chunk. A boundary
needs the character after it, so more text shows boundaries that were not there before, but none
before the first one (`firstBoundary_append`). So cutting as the chunks come in and cutting the
whole text give the same pieces (`cutPieces_append`), and what is left is flushed in the end.

* `nonSpace_cutPieces`: the pieces hold every character of the text that is not white space.
* `sentences_chunked`: the sentences of a reply without `<`, however it is cut into chunks.
-/

namespace Nexus.Voice

open Lib

/-! ### Boundaries -/

theorem firstBoundary_cons (c : Char) (cs : Text) : firstBoundary (c :: cs) =
    if c = '\n' ∨ c ∈ ['.', '!', '?', ';', '।'] ∧ cs.head?.any PyStr.isSpace then some 0
    else (firstBoundary cs).map (· + 1) := rfl

/-- **The first boundary stays** when the text goes on. -/
theorem firstBoundary_append {text : Text} {idx : ℕ} (h : firstBoundary text = some idx)
    (x : Text) : firstBoundary (text ++ x) = some idx := by
  induction text generalizing idx with
  | nil => cases h
  | cons c cs ih =>
    cases cs with
    | nil =>
      -- the last character is a boundary without another one only if it breaks the line
      simp only [firstBoundary, List.head?_nil, Option.any_none, Bool.false_eq_true, and_false,
        or_false, Option.map_none] at h
      split_ifs at h with h_line
      obtain rfl := Option.some.inj h
      simp [firstBoundary, h_line]
    | cons d ds =>
      rw [firstBoundary_cons] at h
      have h_head : (d :: ds ++ x).head? = (d :: ds).head? := rfl
      rw [List.cons_append, firstBoundary_cons, h_head]
      split_ifs at h ⊢ with h_here
      · exact h
      · obtain ⟨k, h_k, rfl⟩ := Option.map_eq_some_iff.mp h
        rw [ih h_k]
        rfl

/-- Without a boundary nothing is cut. -/
theorem cutPieces_of_none {buffer : Text} (h : firstBoundary buffer = none) :
    cutPieces buffer = ([], buffer) := by
  rw [cutPieces]
  split
  · rfl
  · next h' => rw [h] at h'; cases h'

/-- A buffer is cut at its first boundary. -/
theorem cutPieces_of_some {buffer : Text} {idx : ℕ} (h : firstBoundary buffer = some idx) :
    cutPieces buffer = (buffer.take (idx + 1) :: (cutPieces (buffer.drop (idx + 1))).1,
      (cutPieces (buffer.drop (idx + 1))).2) := by
  rw [cutPieces]
  split
  · next h' => rw [h] at h'; cases h'
  · next h' =>
    rw [h] at h'
    obtain rfl := Option.some.inj h'
    rfl

/-- **Cutting as the text comes in**: the pieces of the first part, and those of what is left
of it with the second part. -/
theorem cutPieces_append (buffer x : Text) :
    cutPieces (buffer ++ x) =
      ((cutPieces buffer).1 ++ (cutPieces ((cutPieces buffer).2 ++ x)).1,
        (cutPieces ((cutPieces buffer).2 ++ x)).2) := by
  induction buffer using cutPieces.induct with
  | case1 buffer h => rw [cutPieces_of_none h, List.nil_append]
  | case2 buffer idx h ih =>
    have h_lt := firstBoundary_lt h
    rw [cutPieces_of_some h, cutPieces_of_some (firstBoundary_append h x),
      List.take_append_of_le_length h_lt, List.drop_append_of_le_length h_lt, ih]
    rfl

/-! ### What is spoken of the text -/

/-- The text without white space. -/
def nonSpace (text : Text) : Text := text.filter fun c => !PyStr.isSpace c

@[simp] theorem nonSpace_append (s t : Text) : nonSpace (s ++ t) = nonSpace s ++ nonSpace t :=
  List.filter_append _ _

theorem nonSpace_of_blank {text : Text} (h : Blank text) : nonSpace text = [] :=
  List.filter_eq_nil_iff.mpr fun c h_c => by simp [h c h_c]

/-- Dropping spaces keeps what is no space. -/
theorem nonSpace_dropWhile (text : Text) :
    nonSpace (text.dropWhile PyStr.isSpace) = nonSpace text := by
  have h_start : Blank (text.takeWhile PyStr.isSpace) := fun c h_c => List.mem_takeWhile_imp h_c
  calc nonSpace (text.dropWhile PyStr.isSpace)
      = nonSpace (text.takeWhile PyStr.isSpace ++ text.dropWhile PyStr.isSpace) := by
        rw [nonSpace_append, nonSpace_of_blank h_start, List.nil_append]
    _ = nonSpace text := by rw [List.takeWhile_append_dropWhile]

/-- Stripping keeps what is no space. -/
theorem nonSpace_strip (text : Text) : nonSpace (strip text) = nonSpace text := by
  unfold strip PyStr.rstripChars
  have h_reverse : ∀ t : Text, nonSpace t.reverse = (nonSpace t).reverse := fun t => by
    simp [nonSpace, List.filter_reverse]
  rw [h_reverse, nonSpace_dropWhile, h_reverse, List.reverse_reverse, nonSpace_dropWhile]

/-- Stripping and dropping blank pieces keeps what is no space. -/
theorem nonSpace_spoken (pieces : List Text) :
    nonSpace (spoken pieces).flatten = nonSpace pieces.flatten := by
  induction pieces with
  | nil => rfl
  | cons piece pieces ih =>
    rw [List.flatten_cons, nonSpace_append, ← ih, ← nonSpace_strip piece]
    by_cases h : strip piece = []
    · simp [spoken, h, nonSpace]
    · simp [spoken, h]

/-- **Nothing is lost** when the text is cut. -/
theorem nonSpace_cutPieces (text : Text) :
    nonSpace (spoken (cutPieces text).1).flatten ++ nonSpace (strip (cutPieces text).2) =
      nonSpace text := by
  rw [nonSpace_spoken, nonSpace_strip, ← nonSpace_append, cutPieces_flatten]

/-- A text of which nothing is spoken is blank. -/
theorem blank_of_silent {text : Text} (h_pieces : spoken (cutPieces text).1 = [])
    (h_rest : strip (cutPieces text).2 = []) : strip text = [] := by
  have h_none := nonSpace_cutPieces text
  rw [h_pieces, h_rest] at h_none
  refine PyStr.stripChars_eq_nil_iff.mpr fun c h_c => ?_
  have h_not := List.filter_eq_nil_iff.mp h_none.symm c h_c
  simpa using h_not

/-! ### Texts without a tag -/

section Untagged

variable {text : Text}

/-- A text without tags is not split. -/
theorem splitAtTag_untagged (h : '<' ∉ text) : splitAtTag thinkTag text = none := by
  cases h_split : splitAtTag thinkTag text with
  | none => rfl
  | some parts =>
    refine (h ?_).elim
    rw [splitAtTag_some h_split]
    have h_tag : '<' ∈ thinkTag := by decide
    simp [h_tag]

theorem stripThink_untagged (h : '<' ∉ text) : stripThink text = text := by
  have h_none := splitAtTag_untagged h
  rw [stripThink_eq, outside_of_none h_none, cutTag, h_none]

/-- Nothing is held back. -/
theorem settled_untagged (h : '<' ∉ text) : settled text = text := by
  -- what is held back would begin a tag
  obtain ⟨k, h_k, h_text, -⟩ := settled_append text
  rw [stripThink_untagged h] at h_text
  rcases Nat.eq_zero_or_pos k with rfl | h_pos
  · -- nothing is held back
    rw [List.take_zero, List.append_nil] at h_text
    exact h_text.symm
  · have h_sign : ∀ k, 0 < k → '<' ∈ thinkTag.take k := by
      intro k h_pos
      obtain ⟨k, rfl⟩ := Nat.exists_eq_succ_of_ne_zero h_pos.ne'
      exact List.mem_cons_self
    refine (h ?_).elim
    rw [h_text]
    exact List.mem_append_right _ (h_sign k h_pos)

theorem visibleThinkLen_untagged (h : '<' ∉ text) : visibleThinkLen text = text.length := by
  rw [← length_settled, settled_untagged h]

end Untagged

/-! ### The reader -/

section Reply

variable {δ α : Type}

/-- The stream of a reply that comes in the given chunks, and then with its final response. -/
def reply (texts : List Text) (final : Option Text) : List (AgentChunk δ) :=
  (texts.map fun t => .content (some t)) ++ [.finalResponse final]

/-- The sentences that the reader queues. -/
def sentencesOf (chunks : List (AgentChunk δ)) : List Text :=
  (readAll (α := Unit) true {} chunks).filterMap Put.sentence?

/-- The reader after the chunks of a text without a tag. -/
def readerAfter (text : Text) : Reader where
  sentenceBuffer := (cutPieces text).2
  spokeAudio := spoken (cutPieces text).1 ≠ []
  rawContent := text
  visibleEmitted := text.length

theorem readerAfter_nil : readerAfter [] = {} := by
  have h_cut : cutPieces [] = ([], []) := cutPieces_of_none rfl
  simp [readerAfter, h_cut, spoken]

theorem spoken_append (xs ys : List Text) : spoken (xs ++ ys) = spoken xs ++ spoken ys := by
  simp [spoken]

/-- **A chunk**: the reader queues the pieces it completes. -/
theorem readChunk_readerAfter {text x : Text} (h : '<' ∉ text ++ x) :
    (readChunk (α := α) true (readerAfter text) (.content (some x) : AgentChunk δ)).1 =
        readerAfter (text ++ x) ∧
      spoken (cutPieces text).1 ++
          (readChunk (α := α) true (readerAfter text)
            (.content (some x) : AgentChunk δ)).2.filterMap Put.sentence? =
        spoken (cutPieces (text ++ x)).1 := by
  by_cases h_x : x = []
  · subst h_x
    have h_read : readChunk (α := α) true (readerAfter text)
        (.content (some []) : AgentChunk δ) = (readerAfter text, []) := by simp [readChunk]
    rw [h_read, List.append_nil]
    exact ⟨rfl, List.append_nil _⟩
  · -- without a tag the visible text is the whole text, so its length only grows
    have h_visible := visibleThinkLen_untagged h
    have h_more : ¬(text ++ x).length ≤ text.length := by
      have h_pos := List.length_pos_iff.mpr h_x
      rw [List.length_append]
      omega
    -- the delta handed on is exactly the new piece
    have h_read : readChunk (α := α) true (readerAfter text) (.content (some x) : AgentChunk δ) =
        readDelta true { readerAfter text with
          rawContent := text ++ x, visibleEmitted := (text ++ x).length } x := by
      have h_delta : ((text ++ x).take (text ++ x).length).drop text.length = x := by
        rw [List.take_length, List.drop_left]
      simp only [readChunk, Option.getD_some, if_neg h_x]
      rw [show (readerAfter text).rawContent = text from rfl, h_visible, stripThink_untagged h,
        show (readerAfter text).visibleEmitted = text.length from rfl, if_neg h_more, h_delta,
        if_neg h_x]
    -- what was cut off before stays cut; only the rest is looked at again with the new piece
    have h_cut := cutPieces_append text x
    rw [h_read]
    constructor
    · have h_spoke : (decide (spoken (cutPieces text).1 ≠ []) ||
          decide (spoken (cutPieces ((cutPieces text).2 ++ x)).1 ≠ [])) =
            decide (spoken (cutPieces (text ++ x)).1 ≠ []) := by
        rw [h_cut, spoken_append, ← Bool.decide_or]
        simp [List.append_eq_nil_iff, or_iff_not_imp_left]
      have h_rest : (cutPieces (text ++ x)).2 = (cutPieces ((cutPieces text).2 ++ x)).2 := by
        rw [h_cut]
      show ({ sentenceBuffer := (cutPieces ((cutPieces text).2 ++ x)).2
              spokeAudio := decide (spoken (cutPieces text).1 ≠ []) ||
                decide (spoken (cutPieces ((cutPieces text).2 ++ x)).1 ≠ [])
              rawContent := text ++ x
              visibleEmitted := (text ++ x).length } : Reader) = readerAfter (text ++ x)
      rw [h_spoke, ← h_rest]
      rfl
    · have h_sentences : (readDelta (δ := δ) (α := α) true { readerAfter text with
          rawContent := text ++ x, visibleEmitted := (text ++ x).length } x).2.filterMap
            Put.sentence? = spoken (cutPieces ((cutPieces text).2 ++ x)).1 := by
        simp [readDelta, readerAfter, List.filterMap_cons, Put.sentence?, List.filterMap_map,
          Function.comp_def]
      rw [h_sentences, h_cut, spoken_append]

/-- What is queued once the whole text is there. -/
def lastSentences (text : Text) (final : Option Text) : List Text :=
  (readAll (α := Unit) true (readerAfter text)
    [(.finalResponse final : AgentChunk Unit)]).filterMap Put.sentence?

/-- **However the text is cut into chunks**, what is queued only depends on the text. -/
theorem readAll_readerAfter (text : Text) (texts : List Text) (final : Option Text)
    (h : '<' ∉ text ++ texts.flatten) :
    spoken (cutPieces text).1 ++ (readAll (α := Unit) true (readerAfter text)
        (reply texts final : List (AgentChunk Unit))).filterMap Put.sentence? =
      spoken (cutPieces (text ++ texts.flatten)).1 ++ lastSentences (text ++ texts.flatten) final := by
  -- by induction on the deltas that are left
  induction texts generalizing text with
  | nil => rw [List.flatten_nil, List.append_nil]; rfl
  | cons x texts ih =>
    rw [List.flatten_cons, ← List.append_assoc] at h ⊢
    -- no tag ends in this delta
    have h_x : '<' ∉ text ++ x := fun h_sign => h (List.mem_append_left _ h_sign)
    obtain ⟨h_reader, h_sentences⟩ := readChunk_readerAfter (δ := Unit) (α := Unit) h_x
    have h_reply : (reply (x :: texts) final : List (AgentChunk Unit)) =
        .content (some x) :: reply texts final := rfl
    rw [h_reply, readAll, List.filterMap_append, ← List.append_assoc, h_sentences, h_reader, ih _ h]

/-- The sentences of a reply are those of its text. -/
theorem sentencesOf_reply (texts : List Text) (final : Option Text) (h : '<' ∉ texts.flatten) :
    sentencesOf (reply texts final : List (AgentChunk Unit)) =
      spoken (cutPieces texts.flatten).1 ++ lastSentences texts.flatten final := by
  have h_all := readAll_readerAfter [] texts final h
  rw [readerAfter_nil, cutPieces_of_none (show firstBoundary [] = none from rfl)] at h_all
  exact h_all

/-- At the end what is left of the text is queued, and nothing for a blank text. -/
theorem lastSentences_eq {text : Text} (h : '<' ∉ text) :
    lastSentences text (some text) =
      if strip (cutPieces text).2 ≠ [] then [strip (cutPieces text).2] else [] := by
  let r : Reader := { readerAfter text with
    finalText := if strip text = [] then none else some (strip text) }
  have h_read : readAll (α := Unit) true (readerAfter text)
      [(.finalResponse (some text) : AgentChunk Unit)] = readEnd true r := by
    simp [readAll, readChunk, stripThink_untagged h, r]
  have h_flush : (flush (δ := Unit) (α := Unit) true r).filterMap Put.sentence? =
      if strip (cutPieces text).2 ≠ [] then [strip (cutPieces text).2] else [] := by
    have h_buffer : r.sentenceBuffer = (cutPieces text).2 := rfl
    unfold flush
    rw [h_buffer]
    split_ifs <;> simp_all [Put.sentence?]
  rw [lastSentences, h_read, ← h_flush]
  rcases readEnd_sentences (δ := Unit) (α := Unit) r with h_end | ⟨h_silent, h_rest, said, h_said⟩
  · exact h_end
  · -- nothing was queued, so the text is blank, and so is the final response
    have h_pieces : spoken (cutPieces text).1 = [] := by
      have h_spoke : decide (spoken (cutPieces text).1 ≠ []) = false := h_silent
      simpa using h_spoke
    have h_blank := blank_of_silent h_pieces h_rest
    have h_final : r.finalText = none := if_pos h_blank
    unfold readEnd
    rw [h_final]
    simp

/-- **The sentences of a reply** without `<`, whose final response is its text: they are the same
however it is cut into chunks, and hold each character that is not white space once, in the
order of the text. -/
theorem sentences_chunked (texts : List Text) (h : '<' ∉ texts.flatten) :
    sentencesOf (reply texts (some texts.flatten) : List (AgentChunk Unit)) =
        sentencesOf (reply [texts.flatten] (some texts.flatten) : List (AgentChunk Unit)) ∧
      nonSpace (sentencesOf (reply texts (some texts.flatten) : List (AgentChunk Unit))).flatten =
        nonSpace texts.flatten := by
  constructor
  · -- the sentences depend on the whole text only
    have h_one : [texts.flatten].flatten = texts.flatten := by simp
    rw [sentencesOf_reply texts _ h, sentencesOf_reply [texts.flatten] _ (by rwa [h_one]), h_one]
  · -- and they lose nothing but spaces
    rw [sentencesOf_reply texts _ h, lastSentences_eq h, List.flatten_append, nonSpace_append,
      ← nonSpace_cutPieces texts.flatten]
    split_ifs with h_rest
    · simp
    · rw [not_not] at h_rest
      simp [h_rest, nonSpace]

/-- A reply cut within a sentence, and before the space that ends one. -/
theorem sentences_chunked_version :
    sentencesOf (reply ["It is v0".toList, ".4.".toList, " Fine".toList]
        (some "It is v0.4. Fine".toList) : List (AgentChunk Unit)) =
      sentencesOf (reply ["It is v0.4. Fine".toList]
        (some "It is v0.4. Fine".toList) : List (AgentChunk Unit)) :=
  (sentences_chunked ["It is v0".toList, ".4.".toList, " Fine".toList] (by decide)).1

end Reply

end Nexus.Voice
