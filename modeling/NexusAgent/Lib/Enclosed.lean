import NexusAgent.Lib.Regex

/-!
# Enclosed texts

A pattern that takes an opening, anything up to the first place where a closing literal stands, and
the closing literal. The letters of a literal match in the way the caller says, as when case is
ignored.

* `taken_enclosed`: a body without the closing literal is taken as a whole, whatever follows it.
* `scan_document`: a text made of such pieces and of texts without openings is cut into them.
-/

namespace Lib
namespace Regex

variable {r s : Regex} {before rest : List Char}

/-! ### The match at a place -/

/-- The first hit of a sequence is made of the first hits of its parts. -/
theorem first_seq {h k : Hit} (h_r : first r before rest = some h)
    (h_s : first s (h.text.reverse ++ before) h.rest = some k) :
    first (.seq r s) before rest =
      some { text := h.text ++ k.text, rest := k.rest, groups := h.groups ++ k.groups } := by
  obtain ⟨others, h_ends⟩ := List.head?_eq_some_iff.mp h_r
  obtain ⟨others', h_ends'⟩ := List.head?_eq_some_iff.mp h_s
  rw [first, ends, h_ends, List.flatMap_cons, h_ends']
  rfl

theorem first_seq_none (h : first r before rest = none) : first (.seq r s) before rest = none := by
  rw [first, List.head?_eq_none_iff] at h ⊢
  rw [ends, h]
  rfl

/-- A group is found with what it encloses. -/
theorem first_group {n : ℕ} {h : Hit} (h_r : first r before rest = some h) :
    first (.group n r) before rest = some { h with groups := (n, h.text) :: h.groups } := by
  obtain ⟨others, h_ends⟩ := List.head?_eq_some_iff.mp h_r
  rw [first, ends, h_ends]
  rfl

theorem first_one {p : Char → Bool} {c : Char} (h : p c = true) :
    first (.one p) before (c :: rest) = some { text := [c], rest := rest } := by
  rw [first, ends, if_pos h]
  rfl

/-- The longest beginning with characters of a class comes last. -/
theorem spans_append {p : Char → Bool} {text : List Char} (h : ∀ c ∈ text, p c = true)
    (h_rest : ∀ c ∈ rest.head?, p c = false) :
    ∃ shorter, spans p (text ++ rest) = shorter ++ [(text, rest)] := by
  induction text with
  | nil =>
    -- the character behind the text is not in the class
    cases rest with
    | nil => exact ⟨[], rfl⟩
    | cons c rest =>
      refine ⟨[], ?_⟩
      rw [List.nil_append, spans, h_rest c rfl]
      rfl
  | cons c text ih =>
    rw [List.forall_mem_cons] at h
    -- each run within the text is one character longer, and the empty one comes first
    obtain ⟨shorter, h_spans⟩ := ih h.2
    refine ⟨([], c :: (text ++ rest)) :: shorter.map fun s => (c :: s.1, s.2), ?_⟩
    rw [List.cons_append, spans, if_pos h.1, h_spans, List.map_append]
    rfl

/-- A greedy run takes all the characters of the class. -/
theorem first_many {p : Char → Bool} {text : List Char} (h_text : text ≠ [])
    (h : ∀ c ∈ text, p c = true) (h_rest : ∀ c ∈ rest.head?, p c = false) :
    first (.many p 1 none false) before (text ++ rest) = some { text := text, rest := rest } := by
  obtain ⟨shorter, h_spans⟩ := spans_append h h_rest
  have h_length : 1 ≤ text.length ∧ ∀ n ∈ (none : Option ℕ), text.length ≤ n :=
    ⟨List.length_pos_iff.mpr h_text, by simp⟩
  rw [first, ends, h_spans]
  rw [List.filter_append, List.filter_cons_of_pos (by simpa using h_length), List.filter_nil,
    if_neg Bool.false_ne_true, List.reverse_append, List.reverse_singleton, List.singleton_append,
    List.map_cons, List.head?_cons]

/-! ### Literals -/

section Literal

variable (same : Char → Char → Bool)

/-- A literal text, its letters matching as `same` says. -/
def literal : List Char → Regex
  | [] => .many (fun _ => false) 0 (some 0) false
  | c :: cs => .seq (.one (same c)) (literal cs)

/-- The literal stands at the front. -/
def beginsWith : List Char → List Char → Bool
  | [], _ => true
  | _ :: _, [] => false
  | a :: t, c :: cs => same a c && beginsWith t cs

/-- The literal stands somewhere. -/
def contains (t : List Char) : List Char → Bool
  | [] => beginsWith same t []
  | c :: cs => beginsWith same t (c :: cs) || contains t cs

variable {same} {t : List Char}

/-- A literal ends in one way, or none. -/
theorem ends_literal (t before cs : List Char) :
    ends (literal same t) before cs =
      if beginsWith same t cs then [{ text := cs.take t.length, rest := cs.drop t.length }]
      else [] := by
  induction t generalizing before cs with
  | nil => cases cs <;> rfl
  | cons a t ih =>
    rw [literal, ends]
    cases cs with
    | nil => rfl
    | cons c cs =>
      -- the first character decides whether the others are read
      rw [ends, beginsWith]
      cases h_c : same a c with
      | false => rfl
      | true =>
        rw [if_pos rfl, List.flatMap_singleton, ih]
        cases beginsWith same t cs <;> rfl

theorem first_literal_none {cs : List Char} (h : beginsWith same t cs = false) :
    first (literal same t) before cs = none := by
  rw [first, ends_literal, h]
  rfl

/-- A literal that stands at the front is its own beginning. -/
theorem beginsWith_self (h : ∀ a ∈ t, same a a = true) (rest : List Char) :
    beginsWith same t (t ++ rest) = true := by
  induction t with
  | nil => rfl
  | cons a t ih =>
    rw [List.forall_mem_cons] at h
    rw [List.cons_append, beginsWith, h.1, ih h.2]
    rfl

/-- A literal is found where it stands. -/
theorem first_literal (h : ∀ a ∈ t, same a a = true) (before rest : List Char) :
    first (literal same t) before (t ++ rest) = some { text := t, rest := rest } := by
  rw [first, ends_literal, if_pos (beginsWith_self h rest), List.take_left', List.drop_left']
  · rfl
  · rfl
  · rfl

/-- The literal opens with a character that matches nothing else, and that nothing in the rest of
it matches. -/
structure Tag (same : Char → Char → Bool) (x : Char) (t : List Char) : Prop where
  opens : ∃ u, t = x :: u ∧ ∀ a ∈ u, same a x = false
  head : ∀ c, same x c = true → c = x
  refl : ∀ a ∈ t, same a a = true

/-- The text ends here, or goes on with the character that opens tags. -/
def TagNext (x : Char) (rest : List Char) : Prop := ∀ c ∈ rest.head?, c = x

theorem tagNext_nil (x : Char) : TagNext x [] := by
  intro c h_c
  cases h_c

theorem tagNext_cons (x : Char) (cs : List Char) : TagNext x (x :: cs) :=
  fun _ h_c => (Option.some.inj h_c).symm

variable {x : Char}

/-- Letters that the opening character does not match do not go on there. -/
theorem beginsWith_append_inner {u : List Char} (h : ∀ a ∈ u, same a x = false)
    (h_rest : TagNext x rest) (cs : List Char) :
    beginsWith same u (cs ++ rest) = beginsWith same u cs := by
  induction cs generalizing u with
  | nil =>
    cases u with
    | nil => rfl
    | cons a u =>
      -- the text is at its end: what follows begins with another character
      cases rest with
      | nil => rfl
      | cons c rest =>
        obtain rfl := h_rest c rfl
        show (same a c && beginsWith same u rest) = false
        rw [h a List.mem_cons_self]
        rfl
  | cons c cs ih =>
    cases u with
    | nil => rfl
    | cons a u =>
      rw [List.forall_mem_cons] at h
      rw [List.cons_append, beginsWith, beginsWith, ih h.2]

/-- A tag that begins before a place where tags may begin ends before it. -/
theorem Tag.beginsWith_append (h : Tag same x t) (h_rest : TagNext x rest) {cs : List Char}
    (h_cs : cs ≠ []) : beginsWith same t (cs ++ rest) = beginsWith same t cs := by
  obtain ⟨u, rfl, h_u⟩ := h.opens
  obtain ⟨c, cs, rfl⟩ := List.exists_cons_of_ne_nil h_cs
  rw [List.cons_append, beginsWith, beginsWith, beginsWith_append_inner h_u h_rest]

theorem Tag.ne_nil (h : Tag same x t) : t ≠ [] := by
  obtain ⟨u, rfl, -⟩ := h.opens
  exact List.cons_ne_nil x u

theorem Tag.contains_nil (h : Tag same x t) : contains same t [] = false := by
  obtain ⟨u, rfl, -⟩ := h.opens
  rfl

/-- **A tag stands in one of two parts**, if the second begins where tags may begin. -/
theorem Tag.contains_append (h : Tag same x t) (h_rest : TagNext x rest) (cs : List Char) :
    contains same t (cs ++ rest) = (contains same t cs || contains same t rest) := by
  induction cs with
  | nil => rw [List.nil_append, h.contains_nil, Bool.false_or]
  | cons c cs ih =>
    have h_here := h.beginsWith_append h_rest (List.cons_ne_nil c cs)
    rw [List.cons_append] at h_here ⊢
    rw [contains, contains, h_here, ih, Bool.or_assoc]

/-- No tag begins in a text without the character that opens tags. -/
theorem Tag.contains_skip (h : Tag same x t) {text : List Char} (h_text : x ∉ text)
    (cs : List Char) : contains same t (text ++ cs) = contains same t cs := by
  obtain ⟨u, rfl, -⟩ := h.opens
  induction text with
  | nil => rfl
  | cons c text ih =>
    rw [List.mem_cons, not_or] at h_text
    have h_c : same x c = false :=
      Bool.eq_false_iff.mpr fun h_same => h_text.1 (h.head c h_same).symm
    rw [List.cons_append, contains, ih h_text.2, beginsWith, h_c, Bool.false_and, Bool.false_or]

/-- A tag that is not in a text does not begin within it. -/
theorem beginsWith_of_suffix {cs s : List Char} (h : contains same t cs = false) (h_s : s <:+ cs) :
    beginsWith same t s = false := by
  induction cs with
  | nil =>
    obtain rfl := List.suffix_nil.mp h_s
    exact h
  | cons c cs ih =>
    rw [contains, Bool.or_eq_false_iff] at h
    rcases List.suffix_cons_iff.mp h_s with rfl | h_later
    · exact h.1
    · exact ih h.2 h_later

end Literal

/-! ### Enclosed texts -/

/-- An opening, anything, and the first closing literal after it. -/
def enclosed (n : ℕ) (opening : Regex) (same : Char → Char → Bool) (close : List Char) : Regex :=
  .seq opening (.seq (.group n (.many (fun _ => true) 0 none true)) (literal same close))

section Enclosed

variable {same : Char → Char → Bool} {x : Char} {close : List Char}

/-- The beginnings of a text that begin later. -/
theorem spans_cons (c : Char) (rest : List Char) :
    spans (fun _ => true) (c :: rest) =
      ([], c :: rest) :: (spans (fun _ => true) rest).map fun s => (c :: s.1, s.2) := rfl

/-- The shortest text that the pattern follows is taken. -/
theorem first_lazy {body : List Char} {k : Hit} (n : ℕ)
    (h_none : ∀ pre post, body = pre ++ post → post ≠ [] →
      first r (pre.reverse ++ before) (post ++ rest) = none)
    (h_some : first r (body.reverse ++ before) rest = some k) :
    first (.seq (.group n (.many (fun _ => true) 0 none true)) r) before (body ++ rest) =
      some { text := body ++ k.text, rest := k.rest, groups := (n, body) :: k.groups } := by
  have h_all : ∀ (l : List (List Char × List Char)),
      l.filter (fun s => decide (0 ≤ s.1.length ∧ ∀ n ∈ (none : Option ℕ), s.1.length ≤ n)) = l := by
    intro l
    rw [List.filter_eq_self]
    simp
  rw [first, ends, ends, ends]
  rw [if_pos rfl, h_all, List.map_map, List.flatMap_map]
  -- the beginnings are tried one by one; `before` and the text passed move along
  have h_spans : ∀ (passed : List Char) {body : List Char},
      (∀ pre post, body = pre ++ post → post ≠ [] →
        first r (pre.reverse ++ (passed.reverse ++ before)) (post ++ rest) = none) →
      first r (body.reverse ++ (passed.reverse ++ before)) rest = some k →
      ((spans (fun _ => true) (body ++ rest)).flatMap fun s =>
        (ends r ((passed ++ s.1).reverse ++ before) s.2).map fun k =>
          ({ text := passed ++ s.1 ++ k.text, rest := k.rest,
             groups := (n, passed ++ s.1) :: k.groups } : Hit)).head? =
        some { text := passed ++ body ++ k.text, rest := k.rest,
               groups := (n, passed ++ body) :: k.groups } := by
    intro passed body
    induction body generalizing passed with
    | nil =>
      intro _ h_here
      obtain ⟨others, h_ends⟩ := List.head?_eq_some_iff.mp h_here
      rw [List.reverse_nil, List.nil_append] at h_ends
      have h_first : ∃ later, spans (fun _ => true) rest = ([], rest) :: later := by
        cases rest with
        | nil => exact ⟨_, rfl⟩
        | cons c rest => exact ⟨_, rfl⟩
      obtain ⟨later, h_later⟩ := h_first
      rw [List.nil_append, h_later, List.flatMap_cons, List.append_nil, h_ends]
      rfl
    | cons c body ih =>
      intro h_before h_here
      have h_not := h_before [] (c :: body) rfl (List.cons_ne_nil c body)
      rw [List.reverse_nil, List.nil_append, first, List.head?_eq_none_iff] at h_not
      have h_shift := ih (passed ++ [c]) (by
        intro pre post h_eq h_post
        have h_later := h_before (c :: pre) post (by rw [h_eq, List.cons_append]) h_post
        simpa using h_later) (by simpa using h_here)
      rw [List.cons_append] at h_not ⊢
      rw [spans_cons, List.flatMap_cons, List.append_nil, h_not, List.map_nil, List.nil_append,
        List.flatMap_map]
      simpa using h_shift
  have h_start := @h_spans [] body (by simpa using h_none) (by simpa using h_some)
  simpa using h_start

/-- Wherever it stands, the text is the match, with these groups. -/
def Taken (r : Regex) (text : List Char) (groups : Dict ℕ (List Char)) : Prop :=
  ∀ before rest, first r before (text ++ rest) = some { text := text, rest := rest, groups := groups }

theorem taken_literal {t : List Char} (h : ∀ a ∈ t, same a a = true) :
    Taken (literal same t) t [] := fun before rest => first_literal h before rest

/-- **A body without the closing literal** is taken up to it. -/
theorem taken_enclosed {opening : Regex} {text body : List Char} {groups : Dict ℕ (List Char)}
    (h_open : Taken opening text groups) (h_close : Tag same x close)
    (h_body : contains same close body = false) (n : ℕ) :
    Taken (enclosed n opening same close) (text ++ (body ++ close)) (groups ++ [(n, body)]) := by
  intro before rest
  have h_first := h_open before (body ++ (close ++ rest))
  -- what follows the body begins with the tag's own character
  have h_next : TagNext x (close ++ rest) := by
    obtain ⟨u, rfl, -⟩ := h_close.opens
    exact tagNext_cons x _
  have h_lazy : first (.seq (.group n (.many (fun _ => true) 0 none true)) (literal same close))
      (text.reverse ++ before) (body ++ (close ++ rest)) =
        some { text := body ++ close, rest := rest, groups := [(n, body)] } := by
    refine first_lazy n ?_ (first_literal h_close.refl _ rest)
    -- within the body the closing tag begins nowhere
    intro pre post h_eq h_post
    refine first_literal_none ?_
    rw [h_close.beginsWith_append h_next h_post]
    exact beginsWith_of_suffix h_body ⟨pre, h_eq.symm⟩
  rw [List.append_assoc, List.append_assoc, enclosed, first_seq h_first h_lazy]

/-- The pattern takes no empty text. -/
theorem consumes_enclosed {opening : Regex} (n : ℕ) (h : close ≠ []) :
    Consumes (enclosed n opening same close) := by
  obtain ⟨a, t, rfl⟩ := List.exists_cons_of_ne_nil h
  rintro before text after ⟨_, _, rfl, -, body, _, rfl, -, _, _, rfl, ⟨c, rfl, -⟩, -⟩
  simp

/-! ### Documents -/

/-- A text, and a piece that is a match. -/
structure Piece where
  between : List Char
  text : List Char
  groups : Dict ℕ (List Char)

/-- The texts and pieces in their order, and the text after them. -/
def document (pieces : List Piece) (last : List Char) : List Char :=
  (pieces.flatMap fun p => p.between ++ p.text) ++ last

/-- No match begins in the text, if it ends where tags may begin. -/
def Passed (r : Regex) (x : Char) (text : List Char) : Prop :=
  ∀ pre post before rest, text = pre ++ post → post ≠ [] → TagNext x rest →
    first r before (post ++ rest) = none

theorem Passed.tail {c : Char} {text : List Char} (h : Passed r x (c :: text)) : Passed r x text := by
  intro pre post before rest h_eq
  exact h (c :: pre) post before rest (by rw [h_eq, List.cons_append])

/-- Where no opening stands, no match begins. -/
theorem passed_of_not_contains {t text : List Char} (h_tag : Tag same x t)
    (h : contains same t text = false) : Passed (.seq (literal same t) r) x text := by
  intro pre post before rest h_eq h_post h_rest
  refine first_seq_none (first_literal_none ?_)
  rw [h_tag.beginsWith_append h_rest h_post]
  exact beginsWith_of_suffix h ⟨pre, h_eq.symm⟩

theorem passed_nil : Passed r x [] := by
  intro pre post before rest h_eq h_post
  exact absurd (List.append_eq_nil_iff.mp h_eq.symm).2 h_post

/-- A text that the pattern passes over is copied as it is. -/
theorem scan_passed {text : List Char} (h : Passed r x text) (h_rest : TagNext x rest) :
    scan r before 0 (text ++ rest) =
      text.map Sum.inl ++ scan r (text.reverse ++ before) 0 rest := by
  induction text generalizing before with
  | nil => rfl
  | cons c text ih =>
    have h_here := h [] (c :: text) before rest rfl (List.cons_ne_nil c text) h_rest
    rw [List.cons_append] at h_here ⊢
    rw [scan_char h_here, ih h.tail, List.map_cons, List.reverse_cons, List.append_assoc]
    rfl

/-- A cut of a text, the texts after the matches left out. -/
def outline (cut : List (Char ⊕ Hit)) : List (Char ⊕ (List Char × Dict ℕ (List Char))) :=
  cut.map (Sum.map id fun h => (h.text, h.groups))

/-- **A document is cut into its texts and its pieces.** -/
theorem scan_document (h_r : Consumes r) (before : List Char) {pieces : List Piece} {last : List Char}
    (h : ∀ p ∈ pieces, Passed r x p.between ∧ Taken r p.text p.groups ∧ ∃ u, p.text = x :: u)
    (h_last : Passed r x last) :
    outline (scan r before 0 (document pieces last)) =
      (pieces.flatMap fun p => p.between.map Sum.inl ++ [.inr (p.text, p.groups)]) ++
        last.map Sum.inl := by
  have h_chars : ∀ text : List Char, outline (text.map Sum.inl) = text.map Sum.inl := by
    intro text
    rw [outline, List.map_map]
    rfl
  induction pieces generalizing before with
  | nil =>
    have h_scan := @scan_passed r before [] x last h_last (tagNext_nil x)
    rw [List.append_nil, scan, List.append_nil] at h_scan
    rw [document, List.flatMap_nil, List.nil_append, h_scan, h_chars]
    rfl
  | cons p pieces ih =>
    rw [List.forall_mem_cons] at h
    obtain ⟨⟨h_between, h_text, u, h_u⟩, h_more⟩ := h
    have h_doc : document (p :: pieces) last = p.between ++ (p.text ++ document pieces last) := by
      simp [document]
    -- the text between two pieces ends where the next tag opens
    have h_next : TagNext x (p.text ++ document pieces last) := by
      rw [h_u]
      exact tagNext_cons x _
    have h_hit := scan_hit h_r (h_text (p.between.reverse ++ before) (document pieces last))
    rw [h_doc, scan_passed h_between h_next, h_hit]
    dsimp only
    have h_rest := ih (p.text.reverse ++ (p.between.reverse ++ before)) h_more
    rw [List.flatMap_cons, List.append_assoc, List.append_assoc, ← h_rest, ← h_chars]
    simp [outline]

/-- The matches of a document are its pieces. -/
theorem finditer_document (h_r : Consumes r) (pieces : List Piece) (last : List Char)
    (h : ∀ p ∈ pieces, Passed r x p.between ∧ Taken r p.text p.groups ∧ ∃ u, p.text = x :: u)
    (h_last : Passed r x last) :
    (finditer r (document pieces last)).map Hit.groups = pieces.map Piece.groups := by
  have h_scan := congrArg (fun cut => (cut.filterMap Sum.getRight?).map Prod.snd)
    (scan_document h_r [] h h_last)
  have h_outline : ∀ cut : List (Char ⊕ Hit),
      ((outline cut).filterMap Sum.getRight?).map Prod.snd =
        (cut.filterMap Sum.getRight?).map Hit.groups := by
    intro cut
    induction cut with
    | nil => rfl
    | cons piece cut ih =>
      cases piece with
      | inl c => exact ih
      | inr k => exact congrArg (k.groups :: ·) ih
  have h_chars : ∀ text : List Char,
      (text.map Sum.inl : List (Char ⊕ (List Char × Dict ℕ (List Char)))).filterMap Sum.getRight? =
        [] := by
    intro text
    simp [List.filterMap_eq_nil_iff]
  rw [finditer, ← h_outline]
  refine h_scan.trans ?_
  rw [List.filterMap_append, h_chars, List.append_nil]
  -- the texts between give no hit, so the hits are those of the pieces
  clear h_scan h
  induction pieces with
  | nil => rfl
  | cons p pieces ih =>
    rw [List.flatMap_cons, List.filterMap_append, List.filterMap_append, h_chars, List.nil_append,
      List.map_append, ih]
    rfl

/-- Without its pieces a document is the texts between them. -/
theorem sub_document (h_r : Consumes r) (pieces : List Piece) (last : List Char)
    (h : ∀ p ∈ pieces, Passed r x p.between ∧ Taken r p.text p.groups ∧ ∃ u, p.text = x :: u)
    (h_last : Passed r x last) :
    sub r [] (document pieces last) = pieces.flatMap Piece.between ++ last := by
  have h_scan := congrArg (fun cut => cut.flatMap (Sum.elim (fun c => [c]) fun _ => []))
    (scan_document h_r [] h h_last)
  have h_outline : ∀ cut : List (Char ⊕ Hit),
      (outline cut).flatMap (Sum.elim (fun c => [c]) fun _ => []) = cut.flatMap (put []) := by
    intro cut
    induction cut with
    | nil => rfl
    | cons piece cut ih =>
      cases piece with
      | inl c => exact congrArg (c :: ·) ih
      | inr k => exact ih
  have h_chars : ∀ text : List Char,
      (text.map Sum.inl : List (Char ⊕ (List Char × Dict ℕ (List Char)))).flatMap
        (Sum.elim (fun c => [c]) fun _ => []) = text := by
    intro text
    induction text with
    | nil => rfl
    | cons c text ih => exact congrArg (c :: ·) ih
  rw [sub, ← h_outline]
  refine h_scan.trans ?_
  rw [List.flatMap_append, h_chars]
  congr 1
  -- the pieces give nothing, so what is left is the texts between
  clear h_scan h
  induction pieces with
  | nil => rfl
  | cons p pieces ih =>
    rw [List.flatMap_cons, List.flatMap_append, List.flatMap_append, h_chars, ih, List.flatMap_cons]
    simp

end Enclosed

end Regex
end Lib
