import Mathlib.Algebra.Order.BigOperators.Group.List
import NexusAgent.Lib.Split

/-!
# Chunking

`chunk_text` and `_recursive_split` of `nexus/rag/chunking.py`, on lists of characters. A text that
is too long is cut at the first separator of the list that it contains, and the parts are gathered
again as long as they fit. The separators between what was gathered are dropped, and one of them is
not white space only.

* `length_recursiveSplit`: no piece is too long.
* `recursiveSplit_iff`: the texts of which nothing but white space is lost.
-/

open Lib

namespace Nexus.Rag

/-! ### The splitters -/

/-- The chunks of `chunk_text` from a start on. -/
def chunksFrom (chunkSize overlap : ℕ) (text : List Char) (start : ℕ) : List (List Char) :=
  if start < text.length then
    let stop := min (start + chunkSize) text.length
    (text.drop start).take (stop - start) ::
      if text.length ≤ stop then []
      else chunksFrom chunkSize overlap text (max (stop - overlap) (start + 1))
  else []
termination_by text.length - start

/-- `chunk_text`. -/
def chunkText (chunkSize overlap : ℕ) (text : List Char) : List (List Char) :=
  if text = [] then [] else chunksFrom chunkSize overlap text 0

/-- The separators of `_recursive_split`, in order. -/
def separators : List (List Char) := ["\n\n".toList, "\n".toList, ". ".toList, " ".toList]

/-- The parts, gathered behind `buf` as long as they fit. -/
def buffers (chunkSize : ℕ) (sep : List Char) : List Char → List (List Char) → List (List Char)
  | buf, [] => if buf = [] then [] else [buf]
  | buf, part :: parts =>
    let candidate := if buf = [] then part else buf ++ sep ++ part
    if candidate.length ≤ chunkSize then buffers chunkSize sep candidate parts
    else (if buf = [] then [] else [buf]) ++ buffers chunkSize sep part parts

/-- A buffer is the one at hand, one of the parts, or fits. -/
theorem mem_buffers {chunkSize : ℕ} {sep buf b : List Char} {parts : List (List Char)}
    (h : b ∈ buffers chunkSize sep buf parts) : b = buf ∨ b ∈ parts ∨ b.length ≤ chunkSize := by
  -- an empty buffer is not given out
  have h_own : ∀ {buf : List Char}, b ∈ (if buf = [] then [] else [buf]) → b = buf := by
    intro buf h_b
    split_ifs at h_b
    · cases h_b
    · exact List.mem_singleton.mp h_b
  induction parts generalizing buf with
  | nil => exact .inl (h_own h)
  | cons part parts ih =>
    simp only [buffers] at h
    split_ifs at h with h_empty h_fits h_fits
    · -- nothing to join: the part becomes the buffer
      rcases ih h with rfl | h_rest
      · exact .inr (.inl List.mem_cons_self)
      · exact .inr (h_rest.imp_left (List.mem_cons_of_mem part))
    · rcases ih h with rfl | h_rest
      · exact .inr (.inl List.mem_cons_self)
      · exact .inr (h_rest.imp_left (List.mem_cons_of_mem part))
    · rcases ih h with rfl | h_rest
      · exact .inr (.inr h_fits)
      · exact .inr (h_rest.imp_left (List.mem_cons_of_mem part))
    · rcases List.mem_append.mp h with h_buf | h_rest
      · exact .inl (List.mem_singleton.mp h_buf)
      · rcases ih h_rest with rfl | h_rest
        · exact .inr (.inl List.mem_cons_self)
        · exact .inr (h_rest.imp_left (List.mem_cons_of_mem part))

theorem separators_ne_nil : ∀ sep ∈ separators, sep ≠ [] := by decide

/-- What is gathered from a text that is too long is shorter. -/
theorem length_lt_of_mem_buffers {chunkSize : ℕ} {sep text b : List Char}
    (h_long : ¬ text.length ≤ chunkSize) (h_sep : separators.find? (· <:+: text) = some sep)
    (h : b ∈ buffers chunkSize sep [] (PyStr.splitAll sep text)) : b.length < text.length := by
  have h_ne := separators_ne_nil sep (List.mem_of_find?_eq_some h_sep)
  have h_in : sep <:+: text := by simpa using List.find?_some h_sep
  rcases mem_buffers h with rfl | h_part | h_fits
  · -- the buffer at hand is empty, and the text is not
    obtain ⟨c, cs, rfl⟩ := List.exists_cons_of_ne_nil h_ne
    exact Nat.lt_of_lt_of_le (Nat.succ_pos _) h_in.length_le
  · -- a part has no separator in it, and the text has one
    refine lt_of_le_of_ne (PyStr.infix_of_mem_splitAll h_part).length_le fun h_length => ?_
    have h_eq := (PyStr.infix_of_mem_splitAll h_part).eq_of_length h_length
    exact PyStr.not_infix_of_mem_splitAll h_ne h_part (h_eq ▸ h_in)
  · omega

/-- `_recursive_split`. -/
def recursiveSplit (chunkSize : ℕ) (text : List Char) : List (List Char) :=
  if _h_long : text.length ≤ chunkSize then (if text = [] then [] else [text])
  else
    match _h_sep : separators.find? (· <:+: text) with
    | some sep =>
      (buffers chunkSize sep [] (PyStr.splitAll sep text)).attach.flatMap fun b =>
        recursiveSplit chunkSize b.1
    | none => chunkText chunkSize 0 text
termination_by text.length
decreasing_by exact length_lt_of_mem_buffers _h_long _h_sep b.2

/-! ### One call -/

section Call

variable {chunkSize : ℕ} {text sep : List Char}

theorem recursiveSplit_of_le (h : text.length ≤ chunkSize) :
    recursiveSplit chunkSize text = if text = [] then [] else [text] := by
  rw [recursiveSplit, dif_pos h]

/-- A long text with a separator is split at it, and each buffer again. -/
theorem recursiveSplit_of_some (h : ¬ text.length ≤ chunkSize)
    (h_sep : separators.find? (· <:+: text) = some sep) :
    recursiveSplit chunkSize text =
      (buffers chunkSize sep [] (PyStr.splitAll sep text)).flatMap (recursiveSplit chunkSize) := by
  rw [recursiveSplit, dif_neg h]
  split
  · next sep' h_sep' =>
    cases h_sep.symm.trans h_sep'
    rw [List.flatMap_subtype (g := recursiveSplit chunkSize) (fun _ _ => rfl), List.unattach_attach]
  · next h_none => cases h_sep.symm.trans h_none

/-- Without a separator the text is cut by its length. -/
theorem recursiveSplit_of_none (h : ¬ text.length ≤ chunkSize)
    (h_sep : separators.find? (· <:+: text) = none) :
    recursiveSplit chunkSize text = chunkText chunkSize 0 text := by
  rw [recursiveSplit, dif_neg h]
  split
  · next sep' h_sep' => cases h_sep.symm.trans h_sep'
  · rfl

/-- A property of all texts, by the call on them. -/
theorem recursiveSplit_induction {P : List Char → Prop}
    (h_short : ∀ text : List Char, text.length ≤ chunkSize → P text)
    (h_some : ∀ (text sep : List Char), ¬ text.length ≤ chunkSize →
      separators.find? (· <:+: text) = some sep →
      (∀ b ∈ buffers chunkSize sep [] (PyStr.splitAll sep text), P b) → P text)
    (h_none : ∀ text : List Char, ¬ text.length ≤ chunkSize →
      separators.find? (· <:+: text) = none → P text) (text : List Char) : P text := by
  induction h_n : text.length using Nat.strong_induction_on generalizing text with
  | _ n ih =>
    subst h_n
    by_cases h_le : text.length ≤ chunkSize
    · -- a short text, one without separators, or shorter buffers
      exact h_short text h_le
    · cases h_sep : separators.find? (· <:+: text) with
      | none => exact h_none text h_le h_sep
      | some sep =>
        refine h_some text sep h_le h_sep fun b h_b => ?_
        exact ih b.length (length_lt_of_mem_buffers h_le h_sep h_b) b rfl

end Call

/-! ### Chunks -/

section Chunks

variable {chunkSize overlap : ℕ} {text : List Char}

/-- No chunk is longer than the size. -/
theorem length_chunksFrom {start : ℕ} :
    ∀ chunk ∈ chunksFrom chunkSize overlap text start, chunk.length ≤ chunkSize := by
  induction start using chunksFrom.induct chunkSize overlap text with
  | case1 start h_start stop ih =>
    rw [chunksFrom, if_pos h_start]
    intro chunk h_chunk
    -- the first chunk, or one behind it
    rcases List.mem_cons.mp h_chunk with rfl | h_later
    · rw [List.length_take]
      omega
    · split_ifs at h_later
      · cases h_later
      · exact ih chunk h_later
  | case2 start h_start =>
    rw [chunksFrom, if_neg h_start]
    exact List.forall_mem_nil _

/-- No chunk is longer than the chunk size. -/
theorem length_chunkText :
    ∀ chunk ∈ chunkText chunkSize overlap text, chunk.length ≤ chunkSize := by
  unfold chunkText
  split_ifs
  · exact List.forall_mem_nil _
  · exact length_chunksFrom

/-- Chunks that do not overlap make up the text. -/
theorem flatten_chunksFrom (h : 1 ≤ chunkSize) (start : ℕ) :
    (chunksFrom chunkSize 0 text start).flatten = text.drop start := by
  induction start using chunksFrom.induct chunkSize 0 text with
  | case1 start h_start stop ih =>
    rw [chunksFrom, if_pos h_start, List.flatten_cons]
    split_ifs with h_end
    · -- the last chunk
      rw [List.flatten_nil, List.append_nil]
      refine List.take_of_length_le ?_
      rw [List.length_drop]
      omega
    · have h_next : max (stop - 0) (start + 1) = start + (stop - start) := by omega
      rw [ih, h_next, ← List.drop_drop, List.take_append_drop]
  | case2 start h_start =>
    rw [chunksFrom, if_neg h_start, List.drop_eq_nil_of_le (Nat.le_of_not_lt h_start)]
    rfl

/-- Without overlap the chunks make up the text. -/
theorem flatten_chunkText (h : 1 ≤ chunkSize) : (chunkText chunkSize 0 text).flatten = text := by
  unfold chunkText
  split_ifs with h_empty
  · exact h_empty.symm
  · exact flatten_chunksFrom h 0

end Chunks

/-! ### No piece is too long -/

/-- **No piece is longer** than the chunk size. -/
theorem length_recursiveSplit (chunkSize : ℕ) (text : List Char) :
    ∀ piece ∈ recursiveSplit chunkSize text, piece.length ≤ chunkSize := by
  induction text using @recursiveSplit_induction chunkSize with
  | h_short text h_le =>
    intro piece h_piece
    -- one piece, or none if it is blank
    rw [recursiveSplit_of_le h_le] at h_piece
    split_ifs at h_piece
    · cases h_piece
    · exact List.mem_singleton.mp h_piece ▸ h_le
  | h_some text sep h_long h_sep ih =>
    intro piece h_piece
    rw [recursiveSplit_of_some h_long h_sep] at h_piece
    obtain ⟨b, h_b, h_piece⟩ := List.mem_flatMap.mp h_piece
    exact ih b h_b piece h_piece
  | h_none text h_long h_sep =>
    rw [recursiveSplit_of_none h_long h_sep]
    exact length_chunkText

/-! ### What is lost -/

section Lost

variable {chunkSize : ℕ} {sep : List Char}

/-- The characters that are not white space. -/
def inked (text : List Char) : List Char := text.filter fun c => !PyStr.isSpace c

theorem inked_append (a b : List Char) : inked (a ++ b) = inked a ++ inked b := List.filter_append ..

theorem buffers_nil_cons (part : List Char) (parts : List (List Char)) :
    buffers chunkSize sep [] (part :: parts) = buffers chunkSize sep part parts := by
  simp [buffers]

/-- What is gathered, with the gathered part in hand. -/
theorem buffers_cons {buf : List Char} (h : buf ≠ []) (part : List Char) (parts : List (List Char)) :
    buffers chunkSize sep buf (part :: parts) =
      if (buf ++ sep ++ part).length ≤ chunkSize then buffers chunkSize sep (buf ++ sep ++ part) parts
      else buf :: buffers chunkSize sep part parts := by
  rw [buffers]
  simp only [h, if_false]
  rfl

/-- What is in the buffer comes out of it. -/
theorem flatten_buffers_nil (buf : List Char) : (buffers chunkSize sep buf []).flatten = buf := by
  rw [buffers]
  split_ifs with h_empty
  · exact h_empty.symm
  · exact List.append_nil buf

/-- A separator of white space may be dropped. -/
theorem inked_buffers (h_sep : inked sep = []) (buf : List Char) (parts : List (List Char)) :
    inked (buffers chunkSize sep buf parts).flatten =
      inked (buf ++ parts.flatMap (sep ++ ·)) := by
  induction parts generalizing buf with
  | nil => rw [flatten_buffers_nil, List.flatMap_nil, List.append_nil]
  | cons part parts ih =>
    -- an empty buffer takes the part
    by_cases h_empty : buf = []
    · subst h_empty
      rw [buffers_nil_cons, ih, List.nil_append, List.flatMap_cons]
      simp only [inked_append, h_sep, List.nil_append]
    · rw [buffers_cons h_empty]
      -- the part is joined to the buffer, or starts the next one
      split_ifs
      · rw [ih, List.flatMap_cons]
        simp only [inked_append, List.append_assoc]
      · rw [List.flatten_cons, inked_append, ih, List.flatMap_cons]
        simp only [inked_append, h_sep, List.nil_append]

/-- No full stop is won. -/
theorem count_buffers_le (buf : List Char) (parts : List (List Char)) :
    (buffers chunkSize sep buf parts).flatten.count '.' ≤
      (buf ++ parts.flatMap (sep ++ ·)).count '.' := by
  induction parts generalizing buf with
  | nil => rw [flatten_buffers_nil, List.flatMap_nil, List.append_nil]
  | cons part parts ih =>
    -- a point goes only with a separator
    by_cases h_empty : buf = []
    · subst h_empty
      have h_rest := ih part
      rw [buffers_nil_cons]
      simp only [List.flatMap_cons, List.count_append] at h_rest ⊢
      omega
    · rw [buffers_cons h_empty]
      split_ifs
      · have h_rest := ih (buf ++ sep ++ part)
        simp only [List.flatMap_cons, List.count_append] at h_rest ⊢
        omega
      · have h_rest := ih part
        simp only [List.flatten_cons, List.flatMap_cons, List.count_append] at h_rest ⊢
        omega

/-- A separator is dropped from a text that does not fit, and a full stop in it is lost. -/
theorem count_buffers_lt (h_sep : 0 < sep.count '.') (buf : List Char) (parts : List (List Char))
    (h : chunkSize < (buf ++ parts.flatMap (sep ++ ·)).length)
    (h_parts : parts ≠ [] ∨ buf.length ≤ chunkSize) :
    (buffers chunkSize sep buf parts).flatten.count '.' <
      (buf ++ parts.flatMap (sep ++ ·)).count '.' := by
  induction parts generalizing buf with
  | nil =>
    rw [List.flatMap_nil, List.append_nil] at h
    rcases h_parts with h_nil | h_le
    · exact absurd rfl h_nil
    · omega
  | cons part parts ih =>
    have h_rest := @count_buffers_le chunkSize sep part parts
    by_cases h_empty : buf = []
    · subst h_empty
      rw [buffers_nil_cons]
      simp only [List.flatMap_cons, List.count_append] at h_rest ⊢
      omega
    · rw [buffers_cons h_empty]
      split_ifs with h_fits
      · -- joined with its separator, which keeps the dot
        have h_text : buf ++ (part :: parts).flatMap (sep ++ ·) =
            buf ++ sep ++ part ++ parts.flatMap (sep ++ ·) := by simp
        rw [h_text] at h ⊢
        exact ih _ h (.inr h_fits)
      · -- given out without the separator: its dot is lost here
        simp only [List.flatten_cons, List.flatMap_cons, List.count_append] at h_rest ⊢
        omega

/-- A part that is too long is gathered alone. -/
theorem mem_buffers_of_lt {b : List Char} (h_long : chunkSize < b.length) (buf : List Char)
    (parts : List (List Char)) (h : b = buf ∨ b ∈ parts) : b ∈ buffers chunkSize sep buf parts := by
  have h_ne : ∀ {buf : List Char}, b = buf → buf ≠ [] := by
    rintro buf rfl rfl
    exact Nat.not_lt_zero _ h_long
  induction parts generalizing buf with
  | nil =>
    obtain rfl := h.resolve_right List.not_mem_nil
    rw [buffers, if_neg (h_ne rfl)]
    exact List.mem_singleton.mpr rfl
  | cons part parts ih =>
    by_cases h_empty : buf = []
    · rw [h_empty, buffers_nil_cons]
      refine ih part ?_
      rcases h with h_buf | h_part
      · exact absurd h_empty (h_ne h_buf)
      · exact List.mem_cons.mp h_part
    · rw [buffers_cons h_empty]
      split_ifs with h_fits
      · -- nothing that is too long fits
        refine ih _ ?_
        simp only [List.length_append] at h_fits
        rcases h with rfl | h_part
        · omega
        · rcases List.mem_cons.mp h_part with rfl | h_rest
          · omega
          · exact .inr h_rest
      · rcases h with rfl | h_part
        · exact List.mem_cons_self
        · exact List.mem_cons_of_mem _ (ih part (List.mem_cons.mp h_part))

/-! ### Separators -/

/-- A stretch of the text without a newline that does not fit, with a full stop before a space. -/
def LongSentences (chunkSize : ℕ) (text : List Char) : Prop :=
  ∃ line, line <:+: text ∧ '\n' ∉ line ∧ chunkSize < line.length ∧ ". ".toList <:+: line

/-- What is known about a text by the separator it is cut at. -/
theorem find?_separators {text : List Char} (h : separators.find? (· <:+: text) = some sep) :
    (sep ≠ [] ∧ ∀ c ∈ sep, c = '\n') ∨
      (sep = ". ".toList ∧ ". ".toList <:+: text ∧ '\n' ∉ text) ∨
      (sep = " ".toList ∧ ¬ ". ".toList <:+: text) := by
  -- a text without a line break as a part has none as a character
  have h_newline : ¬ "\n".toList <:+: text → '\n' ∉ text := by
    intro h_not h_mem
    obtain ⟨a, b, rfl⟩ := List.append_of_mem h_mem
    exact h_not ⟨a, b, by simp⟩
  simp only [separators, List.find?_cons, List.find?_nil] at h
  split at h
  · obtain rfl := Option.some.inj h
    exact .inl ⟨by decide, by decide⟩
  · split at h
    · obtain rfl := Option.some.inj h
      exact .inl ⟨by decide, by decide⟩
    · next h_line =>
      split at h
      · next h_stop =>
        obtain rfl := Option.some.inj h
        exact .inr (.inl ⟨rfl, of_decide_eq_true h_stop, h_newline (of_decide_eq_false h_line)⟩)
      · next h_stop =>
        split at h
        · obtain rfl := Option.some.inj h
          exact .inr (.inr ⟨rfl, of_decide_eq_false h_stop⟩)
        · cases h

theorem not_infix_of_find?_none {text : List Char}
    (h : separators.find? (· <:+: text) = none) : ¬ ". ".toList <:+: text := by
  have h_all := List.find?_eq_none.mp h ". ".toList (by decide)
  simpa using h_all

/-- A stretch without newlines does not reach over newlines. -/
theorem infix_of_newlines {line rest : List Char} (h_line : '\n' ∉ line)
    (h_sep : ∀ c ∈ sep, c = '\n') (h : line <:+: sep ++ rest) : line <:+: rest := by
  induction sep with
  | nil => exact h
  | cons c sep ih =>
    obtain rfl := h_sep c List.mem_cons_self
    have h_cut : line <:+: [] ++ '\n' :: (sep ++ rest) := h
    rcases PyStr.infix_append_cons h_cut h_line with h_nil | h_rest
    · rw [List.eq_nil_of_infix_nil h_nil]
      exact List.nil_infix
    · exact ih (fun c h_c => h_sep c (List.mem_cons_of_mem _ h_c)) h_rest

/-- A stretch without newlines lies in one part. -/
theorem infix_part {line : List Char} (h_line : '\n' ∉ line) (h_ne : sep ≠ [])
    (h_sep : ∀ c ∈ sep, c = '\n') (part : List Char) (parts : List (List Char))
    (h : line <:+: part ++ parts.flatMap (sep ++ ·)) : ∃ p ∈ part :: parts, line <:+: p := by
  induction parts generalizing part with
  | nil =>
    rw [List.flatMap_nil, List.append_nil] at h
    exact ⟨part, List.mem_cons_self, h⟩
  | cons next parts ih =>
    -- the separator is a line break and more of them
    obtain ⟨c, sep', rfl⟩ := List.exists_cons_of_ne_nil h_ne
    obtain rfl := h_sep c List.mem_cons_self
    rw [List.flatMap_cons, List.cons_append, List.cons_append] at h
    -- the line lies in the first part, or in the rest
    rcases PyStr.infix_append_cons h h_line with h_part | h_rest
    · exact ⟨part, List.mem_cons_self, h_part⟩
    · rw [List.append_assoc] at h_rest
      have h_next := infix_of_newlines h_line (fun c h_c => h_sep c (List.mem_cons_of_mem _ h_c)) h_rest
      obtain ⟨p, h_p, h_in⟩ := ih next h_next
      exact ⟨p, List.mem_cons_of_mem part h_p, h_in⟩

/-! ### Pieces of pieces -/

variable {f : List Char → List (List Char)} {bs : List (List Char)}

/-- Splitting each piece keeps the ink. -/
theorem inked_flatMap (h : ∀ b ∈ bs, inked (f b).flatten = inked b) :
    inked (bs.flatMap f).flatten = inked bs.flatten := by
  induction bs with
  | nil => rfl
  | cons b bs ih =>
    rw [List.flatMap_cons, List.flatten_append, List.flatten_cons, inked_append, inked_append,
      h b List.mem_cons_self, ih fun b' h_b' => h b' (List.mem_cons_of_mem b h_b')]

/-- Points are lost or kept by each buffer. -/
theorem count_flatMap_le (h : ∀ b ∈ bs, (f b).flatten.count '.' ≤ b.count '.') :
    (bs.flatMap f).flatten.count '.' ≤ bs.flatten.count '.' := by
  induction bs with
  | nil => exact le_rfl
  | cons b bs ih =>
    have h_b := h b List.mem_cons_self
    have h_bs := ih fun b' h_b' => h b' (List.mem_cons_of_mem b h_b')
    rw [List.flatMap_cons, List.flatten_append, List.flatten_cons, List.count_append,
      List.count_append]
    omega

/-- If one buffer loses a point, the whole does. -/
theorem count_flatMap_lt (h : ∀ b ∈ bs, (f b).flatten.count '.' ≤ b.count '.') {b : List Char}
    (h_mem : b ∈ bs) (h_lt : (f b).flatten.count '.' < b.count '.') :
    (bs.flatMap f).flatten.count '.' < bs.flatten.count '.' := by
  obtain ⟨u, v, rfl⟩ := List.append_of_mem h_mem
  have h_u := @count_flatMap_le f u fun b' h_b' => h b' (List.mem_append_left _ h_b')
  have h_v := @count_flatMap_le f v fun b' h_b' =>
    h b' (List.mem_append_right _ (List.mem_cons_of_mem b h_b'))
  simp only [List.flatMap_append, List.flatMap_cons, List.flatten_append, List.flatten_cons,
    List.count_append] at h_u h_v ⊢
  omega

end Lost

/-! ### Texts of which nothing is lost -/

section Lossless

variable {chunkSize : ℕ} {text : List Char}

theorem LongSentences.lt_length (h : LongSentences chunkSize text) : chunkSize < text.length := by
  obtain ⟨line, h_in, -, h_long, -⟩ := h
  exact lt_of_lt_of_le h_long h_in.length_le

theorem LongSentences.of_infix {text' : List Char} (h : LongSentences chunkSize text)
    (h_in : text <:+: text') : LongSentences chunkSize text' := by
  obtain ⟨line, h_line, h_rest⟩ := h
  exact ⟨line, h_line.trans h_in, h_rest⟩

/-- What is gathered from a text without long sentences has none. -/
theorem not_longSentences_of_mem {sep b : List Char} (h : ¬ LongSentences chunkSize text)
    (h_b : b ∈ buffers chunkSize sep [] (PyStr.splitAll sep text)) : ¬ LongSentences chunkSize b := by
  intro h_long
  have h_length := h_long.lt_length
  rcases mem_buffers h_b with rfl | h_part | h_fits
  · exact absurd h_length (Nat.not_lt_zero _)
  · exact h (h_long.of_infix (PyStr.infix_of_mem_splitAll h_part))
  · omega

/-- **No full stop is won**, and one is lost from long sentences. -/
theorem count_recursiveSplit (h : 1 ≤ chunkSize) (text : List Char) :
    (recursiveSplit chunkSize text).flatten.count '.' ≤ text.count '.' ∧
      (LongSentences chunkSize text →
        (recursiveSplit chunkSize text).flatten.count '.' < text.count '.') := by
  induction text using @recursiveSplit_induction chunkSize with
  | h_short text h_le =>
    refine ⟨?_, fun h_long => absurd h_long.lt_length (not_lt.mpr h_le)⟩
    rw [recursiveSplit_of_le h_le]
    split_ifs
    · exact Nat.zero_le _
    · rw [List.flatten_cons, List.flatten_nil, List.append_nil]
  | h_some text sep h_long h_sep ih =>
    have h_ne := separators_ne_nil sep (List.mem_of_find?_eq_some h_sep)
    have h_in : sep <:+: text := by simpa using List.find?_some h_sep
    obtain ⟨part, parts, h_split, h_parts, h_text⟩ := PyStr.splitAll_of_infix h_ne h_in
    have h_pieces := count_flatMap_le fun b h_b => (ih b h_b).1
    have h_gathered := @count_buffers_le chunkSize sep part parts
    rw [recursiveSplit_of_some h_long h_sep]
    rw [h_split, buffers_nil_cons] at h_pieces ih ⊢
    rw [← h_text] at h_gathered
    refine ⟨h_pieces.trans h_gathered, ?_⟩
    rintro ⟨line, h_line, h_newline, h_size, h_stop⟩
    rcases find?_separators h_sep with ⟨-, h_all⟩ | ⟨rfl, -, -⟩ | ⟨-, h_none⟩
    · -- the sentences lie in a part that is gathered alone
      rw [h_text] at h_line
      obtain ⟨p, h_p, h_in_p⟩ := infix_part h_newline h_ne h_all part parts h_line
      have h_long_p : LongSentences chunkSize p := ⟨line, h_in_p, h_newline, h_size, h_stop⟩
      have h_mem := @mem_buffers_of_lt chunkSize sep p h_long_p.lt_length part parts
        (List.mem_cons.mp h_p)
      exact (count_flatMap_lt (fun b h_b => (ih b h_b).1) h_mem ((ih p h_mem).2 h_long_p)).trans_le
        h_gathered
    · rw [not_le, h_text] at h_long
      have h_lt := count_buffers_lt (by decide) part parts h_long (.inl h_parts)
      rw [← h_text] at h_lt
      exact h_pieces.trans_lt h_lt
    · exact absurd (h_stop.trans h_line) h_none
  | h_none text h_long h_sep =>
    rw [recursiveSplit_of_none h_long h_sep, flatten_chunkText h]
    refine ⟨le_rfl, ?_⟩
    rintro ⟨line, h_line, -, -, h_stop⟩
    exact absurd (h_stop.trans h_line) (not_infix_of_find?_none h_sep)

/-- **Without long sentences** only white space is lost. -/
theorem inked_recursiveSplit (h : 1 ≤ chunkSize) (text : List Char)
    (h_text : ¬ LongSentences chunkSize text) :
    inked (recursiveSplit chunkSize text).flatten = inked text := by
  induction text using @recursiveSplit_induction chunkSize with
  | h_short text h_le =>
    rw [recursiveSplit_of_le h_le]
    split_ifs with h_empty
    · rw [h_empty]
      rfl
    · rw [List.flatten_cons, List.flatten_nil, List.append_nil]
  | h_some text sep h_long h_sep ih =>
    have h_ne := separators_ne_nil sep (List.mem_of_find?_eq_some h_sep)
    have h_in : sep <:+: text := by simpa using List.find?_some h_sep
    obtain ⟨part, parts, h_split, -, h_join⟩ := PyStr.splitAll_of_infix h_ne h_in
    have h_pieces := inked_flatMap fun b h_b => ih b h_b (not_longSentences_of_mem h_text h_b)
    have h_blank : inked sep = [] := by
      rcases find?_separators h_sep with ⟨-, h_all⟩ | ⟨rfl, h_stop, h_newline⟩ | ⟨rfl, -⟩
      · refine List.filter_eq_nil_iff.mpr fun c h_c => ?_
        rw [h_all c h_c]
        decide
      · -- a dot is only lost in a sentence that is too long, which the text has not
        exact absurd ⟨text, List.infix_rfl, h_newline, not_le.mp h_long, h_stop⟩ h_text
      · decide
    rw [recursiveSplit_of_some h_long h_sep, h_pieces, h_split, buffers_nil_cons,
      inked_buffers h_blank, ← h_join]
  | h_none text h_long h_sep =>
    rw [recursiveSplit_of_none h_long h_sep, flatten_chunkText h]

/-- The characters are kept exactly where no long text has to be split at sentences. -/
theorem inked_recursiveSplit_iff (h : 1 ≤ chunkSize) :
    inked (recursiveSplit chunkSize text).flatten = inked text ↔ ¬ LongSentences chunkSize text := by
  refine ⟨fun h_inked h_long => ?_, inked_recursiveSplit h text⟩
  have h_count : ∀ t : List Char, (inked t).count '.' = t.count '.' := fun t =>
    List.count_filter (by decide)
  have h_lt := (count_recursiveSplit h text).2 h_long
  rw [← h_count, ← h_count text, h_inked] at h_lt
  exact lt_irrefl _ h_lt

/-- **The pieces fit, and nothing but white space is lost**, exactly if no stretch of the text without
a newline that is longer than the chunk size has a full stop before a space. -/
theorem recursiveSplit_iff (chunkSize : ℕ) (h : 1 ≤ chunkSize) (text : List Char) :
    ((∀ piece ∈ recursiveSplit chunkSize text, piece.length ≤ chunkSize) ∧
      inked (recursiveSplit chunkSize text).flatten = inked text) ↔
      ¬ LongSentences chunkSize text :=
  (and_iff_right (length_recursiveSplit chunkSize text)).trans (inked_recursiveSplit_iff h)

/-- Two lines that fit, and one that is cut at its space. -/
theorem recursiveSplit_iff_lines :
    (∀ piece ∈ recursiveSplit 4 "ab\ncd.\nef gh".toList, piece.length ≤ 4) ∧
      inked (recursiveSplit 4 "ab\ncd.\nef gh".toList).flatten = inked "ab\ncd.\nef gh".toList := by
  refine (recursiveSplit_iff 4 (by decide) "ab\ncd.\nef gh".toList).mpr ?_
  rintro ⟨line, h_line, -, -, h_stop⟩
  -- no full stop of the text has a space behind it
  exact absurd (h_stop.trans h_line) (by decide)

/-- The full stop between two sentences that do not fit together is lost. -/
theorem recursiveSplit_sentences :
    ¬ ((∀ piece ∈ recursiveSplit 4 "ab. cd".toList, piece.length ≤ 4) ∧
      inked (recursiveSplit 4 "ab. cd".toList).flatten = inked "ab. cd".toList) := by
  rintro ⟨-, h_inked⟩
  refine (inked_recursiveSplit_iff (by decide)).mp h_inked ?_
  exact ⟨"ab. cd".toList, List.infix_rfl, by decide, by decide, by decide⟩

end Lossless

end Nexus.Rag
