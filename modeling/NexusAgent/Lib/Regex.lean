import Mathlib
import NexusAgent.Lib.Dict

/-!
# Patterns

The patterns a backtracking matcher knows, without alternatives and with repetition of single
characters only. `ends` lists the ways to match at a place in the order in which the matcher
tries them, `Matches` says which there are, and `scan` cuts a text into its matches from the left
and the characters between them, as searching, finding all and substituting do.

* `mem_ends`: the matcher finds what matches.
* `not_occurs_sub`: after a substitution there is no match left, if the matches have fenced ends
  and the text put in cannot take part in one.
* `infix_subFrom`: what stands in a text after a substitution stood there before, or in what was put
  in.
-/

namespace Lib

/-- A pattern. `many p lo hi lazy` repeats a character class, from `lo` to at most `hi` times. -/
inductive Regex
  | one (p : Char → Bool)
  | many (p : Char → Bool) (lo : ℕ) (hi : Option ℕ) (lazy : Bool)
  | seq (r s : Regex)
  | group (n : ℕ) (r : Regex)
  | edge (word : Char → Bool)

namespace Regex

/-- A match at a place: the text matched, what follows, and the groups. -/
structure Hit where
  text : List Char
  rest : List Char
  groups : Dict ℕ (List Char) := []
  deriving DecidableEq, Repr

/-- The beginnings of a text in which every character is in the class, shortest first. -/
def spans (p : Char → Bool) : List Char → List (List Char × List Char)
  | [] => [([], [])]
  | c :: rest =>
    ([], c :: rest) :: if p c then (spans p rest).map fun s => (c :: s.1, s.2) else []

/-- `\b`: a word character on one side only. The text before the place is in reverse. -/
def isEdge (word : Char → Bool) (before rest : List Char) : Bool :=
  before.head?.any word != rest.head?.any word

/-- The matches at a place, in the order in which they are tried. The text before the place is in
reverse. -/
def ends : Regex → List Char → List Char → List Hit
  | one p, _, rest =>
    match rest with
    | [] => []
    | c :: rest => if p c then [{ text := [c], rest := rest }] else []
  | many p lo hi lazy, _, rest =>
    let found := (spans p rest).filter fun s => lo ≤ s.1.length ∧ ∀ n ∈ hi, s.1.length ≤ n
    -- the longest first, or for a lazy one the shortest
    (if lazy then found else found.reverse).map fun s => { text := s.1, rest := s.2 }
  | seq r s, before, rest =>
    (ends r before rest).flatMap fun h =>
      (ends s (h.text.reverse ++ before) h.rest).map fun k =>
        { text := h.text ++ k.text, rest := k.rest, groups := h.groups ++ k.groups }
  | group n r, before, rest =>
    (ends r before rest).map fun h => { h with groups := (n, h.text) :: h.groups }
  | edge word, before, rest => if isEdge word before rest then [{ text := [], rest := rest }] else []

/-- The match at a place. -/
def first (r : Regex) (before rest : List Char) : Option Hit := (ends r before rest).head?

/-- The matches of a text from the left, none of them overlapping, and the characters between
them; `n` characters of a match are still to be passed. The pattern matches no empty text. -/
def scan (r : Regex) (before : List Char) : ℕ → List Char → List (Char ⊕ Hit)
  | _, [] => []
  | n + 1, c :: rest => scan r (c :: before) n rest
  | 0, c :: rest =>
    match first r before (c :: rest) with
    | none => .inl c :: scan r (c :: before) 0 rest
    | some h => .inr h :: scan r (c :: before) (h.text.length - 1) rest

/-- `finditer`. -/
def finditer (r : Regex) (cs : List Char) : List Hit := (scan r [] 0 cs).filterMap Sum.getRight?

/-- `search`. -/
def search (r : Regex) (cs : List Char) : Option Hit := (finditer r cs).head?

/-- What a piece of a text becomes when `repl` is put in for the matches. -/
def put (repl : List Char) : Char ⊕ Hit → List Char := Sum.elim (fun c => [c]) fun _ => repl

/-- `sub`. -/
def sub (r : Regex) (repl cs : List Char) : List Char := (scan r [] 0 cs).flatMap (put repl)

/-- `sub` with a function of the match. -/
def subWith (r : Regex) (f : Hit → List Char) (cs : List Char) : List Char :=
  (scan r [] 0 cs).flatMap (Sum.elim (fun c => [c]) f)

/-- `m.group(n)`. -/
def Hit.group (m : Hit) (n : ℕ) : String := String.ofList ((Dict.get? m.groups n).getD [])

/-! ### What matches -/

/-- The pattern matches the text between what stands before it, in reverse, and after it. -/
def Matches : Regex → List Char → List Char → List Char → Prop
  | one p, _, text, _ => ∃ c, text = [c] ∧ p c = true
  | many p lo hi _, _, text, _ =>
    (lo ≤ text.length ∧ ∀ n ∈ hi, text.length ≤ n) ∧ ∀ c ∈ text, p c = true
  | seq r s, before, text, after =>
    ∃ t u, text = t ++ u ∧ Matches r before t (u ++ after) ∧ Matches s (t.reverse ++ before) u after
  | group _ r, before, text, after => Matches r before text after
  | edge word, before, text, after => text = [] ∧ isEdge word before after = true

/-- A span is a beginning whose characters are all in the class. -/
theorem mem_spans {p : Char → Bool} {rest : List Char} {s : List Char × List Char} :
    s ∈ spans p rest ↔ s.1 ++ s.2 = rest ∧ ∀ c ∈ s.1, p c = true := by
  obtain ⟨text, after⟩ := s
  induction rest generalizing text with
  | nil => cases text <;> simp [spans]
  | cons c rest ih =>
    rw [spans, List.mem_cons]
    cases text with
    -- the empty span is the first one, and no longer one is empty
    | nil =>
      have h_not : ([], after) ∉ (if p c then (spans p rest).map fun s => (c :: s.1, s.2) else []) := by
        split_ifs <;> simp
      simp [h_not]
    | cons d text =>
      by_cases h_c : p c = true
      · simp only [h_c, if_true, List.mem_map, Prod.mk.injEq, List.cons_append, List.cons.injEq]
        constructor
        · rintro (⟨h_nil, -⟩ | ⟨⟨text', after'⟩, h_mem, ⟨rfl, rfl⟩, rfl⟩)
          · cases h_nil
          · obtain ⟨h_eq, h_all⟩ := (ih text').mp h_mem
            exact ⟨⟨rfl, h_eq⟩, List.forall_mem_cons.mpr ⟨h_c, h_all⟩⟩
        · rintro ⟨⟨rfl, h_eq⟩, h_all⟩
          exact .inr ⟨(text, after), (ih text).mpr ⟨h_eq, (List.forall_mem_cons.mp h_all).2⟩,
            ⟨rfl, rfl⟩, rfl⟩
      · simp only [h_c, Bool.false_eq_true, if_false, List.not_mem_nil, or_false, Prod.mk.injEq,
          List.cons_append, List.cons.injEq]
        constructor
        · rintro ⟨h_nil, -⟩
          cases h_nil
        · rintro ⟨⟨rfl, -⟩, h_all⟩
          exact absurd (h_all d List.mem_cons_self) h_c

/-- **The matcher finds what matches.** -/
theorem mem_ends {r : Regex} {before rest text after : List Char} :
    (∃ h ∈ ends r before rest, h.text = text ∧ h.rest = after) ↔
      text ++ after = rest ∧ Matches r before text after := by
  induction r generalizing before rest text after with
  | one p =>
    cases rest with
    | nil =>
      simp only [ends, List.not_mem_nil, false_and, exists_false, List.append_eq_nil_iff, false_iff]
      rintro ⟨⟨rfl, -⟩, c, h_nil, -⟩
      cases h_nil
    | cons d rest =>
      rw [ends]
      constructor
      · rintro ⟨h, h_mem, rfl, rfl⟩
        split_ifs at h_mem with h_d
        · obtain rfl := List.mem_singleton.mp h_mem
          exact ⟨rfl, d, rfl, h_d⟩
        · cases h_mem
      · rintro ⟨h_eq, c, rfl, h_c⟩
        obtain ⟨rfl, rfl⟩ := List.cons.inj h_eq
        rw [if_pos h_c]
        exact ⟨_, List.mem_singleton_self _, rfl, rfl⟩
  | many p lo hi lazy =>
    -- greedy and lazy ends differ in their order only
    have h_found : ∀ s : List Char × List Char,
        s ∈ (if lazy then (spans p rest).filter fun s => lo ≤ s.1.length ∧ ∀ n ∈ hi, s.1.length ≤ n
          else ((spans p rest).filter fun s => lo ≤ s.1.length ∧ ∀ n ∈ hi, s.1.length ≤ n).reverse) ↔
          s.1 ++ s.2 = rest ∧ Matches (.many p lo hi lazy) before s.1 s.2 := by
      intro s
      have h_filter : s ∈ ((spans p rest).filter fun s =>
          lo ≤ s.1.length ∧ ∀ n ∈ hi, s.1.length ≤ n) ↔
          s.1 ++ s.2 = rest ∧ Matches (.many p lo hi lazy) before s.1 s.2 := by
        rw [List.mem_filter, mem_spans, decide_eq_true_iff, Matches]
        tauto
      split_ifs
      · exact h_filter
      · rw [List.mem_reverse]
        exact h_filter
    rw [ends]
    simp only [List.mem_map]
    constructor
    · rintro ⟨h, ⟨s, h_s, rfl⟩, rfl, rfl⟩
      exact (h_found s).mp h_s
    · intro h
      exact ⟨_, ⟨(text, after), (h_found (text, after)).mpr h, rfl⟩, rfl, rfl⟩
  | seq r s ih_r ih_s =>
    simp only [ends, List.mem_flatMap, List.mem_map]
    constructor
    · rintro ⟨_, ⟨h, h_mem, k, k_mem, rfl⟩, rfl, rfl⟩
      -- the second part starts where the first one ended
      obtain ⟨h_rest, h_matches⟩ := ih_r.mp ⟨h, h_mem, rfl, rfl⟩
      obtain ⟨k_rest, k_matches⟩ := ih_s.mp ⟨k, k_mem, rfl, rfl⟩
      rw [← k_rest] at h_rest h_matches
      exact ⟨by rw [List.append_assoc, h_rest], h.text, k.text, rfl, h_matches, k_matches⟩
    · rintro ⟨h_eq, t, u, rfl, h_r, h_s⟩
      rw [List.append_assoc] at h_eq
      obtain ⟨h, h_mem, rfl, h_rest⟩ := ih_r.mpr ⟨h_eq, h_r⟩
      obtain ⟨k, k_mem, rfl, rfl⟩ := ih_s.mpr ⟨h_rest.symm, h_s⟩
      exact ⟨_, ⟨h, h_mem, k, k_mem, rfl⟩, rfl, rfl⟩
  | group n r ih =>
    simp only [ends, List.mem_map, Matches]
    rw [← ih]
    constructor
    · rintro ⟨_, ⟨h, h_mem, rfl⟩, h_text, h_rest⟩
      exact ⟨h, h_mem, h_text, h_rest⟩
    · rintro ⟨h, h_mem, h_text, h_rest⟩
      exact ⟨_, ⟨h, h_mem, rfl⟩, h_text, h_rest⟩
  | edge word =>
    rw [ends]
    constructor
    · rintro ⟨h, h_mem, rfl, rfl⟩
      split_ifs at h_mem with h_edge
      · obtain rfl := List.mem_singleton.mp h_mem
        exact ⟨rfl, rfl, h_edge⟩
      · cases h_mem
    · rintro ⟨h_eq, rfl, h_edge⟩
      obtain rfl : after = rest := h_eq
      rw [if_pos h_edge]
      exact ⟨_, List.mem_singleton_self _, rfl, rfl⟩

/-- The match taken at a place is one. -/
theorem first_some {r : Regex} {before rest : List Char} {h : Hit}
    (h_first : first r before rest = some h) :
    h.text ++ h.rest = rest ∧ Matches r before h.text h.rest :=
  mem_ends.mp ⟨h, List.mem_of_mem_head? h_first, rfl, rfl⟩

/-- Where none is taken there is none. -/
theorem first_none {r : Regex} {before text after : List Char}
    (h_first : first r before (text ++ after) = none) : ¬ Matches r before text after := by
  intro h_matches
  obtain ⟨h, h_mem, -⟩ := mem_ends.mpr ⟨rfl, h_matches⟩
  rw [first, List.head?_eq_none_iff] at h_first
  rw [h_first] at h_mem
  cases h_mem

/-! ### Cutting a text -/

/-- No empty text matches. -/
def Consumes (r : Regex) : Prop := ∀ before text after, Matches r before text after → text ≠ []

/-- A pass over matched characters goes on behind them. -/
theorem scan_pass (r : Regex) (before : List Char) (n : ℕ) (rest : List Char) :
    scan r before n rest = scan r ((rest.take n).reverse ++ before) 0 (rest.drop n) := by
  induction rest generalizing before n with
  | nil => simp [scan]
  | cons c rest ih =>
    cases n with
    | zero => rfl
    | succ n => rw [scan, ih, List.take_succ_cons, List.drop_succ_cons, List.reverse_cons,
        List.append_assoc, List.singleton_append]

theorem scan_char {r : Regex} {before rest : List Char} {c : Char}
    (h : first r before (c :: rest) = none) :
    scan r before 0 (c :: rest) = .inl c :: scan r (c :: before) 0 rest := by
  rw [scan, h]

/-- A hit is given, and the scan goes on behind it. -/
theorem scan_hit {r : Regex} {before rest : List Char} {h : Hit} (h_r : Consumes r)
    (h_first : first r before rest = some h) :
    scan r before 0 rest = .inr h :: scan r (h.text.reverse ++ before) 0 h.rest := by
  obtain ⟨h_eq, h_matches⟩ := first_some h_first
  -- the match is not empty, so its first character starts it
  obtain ⟨c, text, h_text⟩ := List.exists_cons_of_ne_nil (h_r _ _ _ h_matches)
  rw [← h_eq, h_text, List.cons_append] at h_first ⊢
  rw [scan, h_first]
  simp only [h_text]
  rw [scan_pass, List.length_cons, Nat.add_sub_cancel, List.take_left', List.drop_left',
    List.reverse_cons, List.append_assoc, List.singleton_append]
  · rfl
  · rfl

/-- **A text is cut from the left**: its end, a character at which nothing matches, or a match. -/
theorem scan_induction {r : Regex} (h_r : Consumes r)
    {motive : List Char → List Char → Prop} (nil : ∀ before, motive before [])
    (char : ∀ before c rest, first r before (c :: rest) = none → motive (c :: before) rest →
      motive before (c :: rest))
    (hit : ∀ before rest h, first r before rest = some h →
      motive (h.text.reverse ++ before) h.rest → motive before rest)
    (before rest : List Char) : motive before rest := by
  induction h_length : rest.length using Nat.strongRecOn generalizing before rest with
  | ind n ih =>
    subst h_length
    -- no match here: one character further; a match: behind it
    cases h_first : first r before rest with
    | none =>
      cases rest with
      | nil => exact nil before
      | cons c rest => exact char before c rest h_first (ih _ (Nat.lt_succ_self _) _ rest rfl)
    | some h =>
      refine hit before rest h h_first (ih _ ?_ _ h.rest rfl)
      -- what is left is shorter by the match
      obtain ⟨h_eq, h_matches⟩ := first_some h_first
      rw [← h_eq, List.length_append]
      exact Nat.lt_add_of_pos_left (List.length_pos_iff.mpr (h_r _ _ _ h_matches))

/-! ### Substituting -/

/-- What is left of a text, from a place on, when `repl` is put in for the matches. -/
def subFrom (r : Regex) (repl before rest : List Char) : List Char :=
  (scan r before 0 rest).flatMap (put repl)

section Sub

variable {r : Regex} {repl before rest : List Char}

theorem subFrom_nil : subFrom r repl before [] = [] := rfl

/-- A character that starts no match is kept. -/
theorem subFrom_char {c : Char} (h : first r before (c :: rest) = none) :
    subFrom r repl before (c :: rest) = c :: subFrom r repl (c :: before) rest := by
  unfold subFrom
  rw [scan_char h]
  rfl

/-- A match is replaced, and the search goes on behind it. -/
theorem subFrom_hit {h : Hit} (h_r : Consumes r) (h_first : first r before rest = some h) :
    subFrom r repl before rest = repl ++ subFrom r repl (h.text.reverse ++ before) h.rest := by
  unfold subFrom
  rw [scan_hit h_r h_first]
  rfl

/-- The text opens and closes with characters of its own. -/
structure Bracketed (repl : List Char) (x y : Char) : Prop where
  opens : ∃ inner, repl = x :: inner
  closes : ∃ inner, repl = inner ++ [y]

/-- What begins in a text and does not contain its last character begins and ends in it. -/
theorem prefix_of_closes {v t a w : List Char} {y : Char} (h_closes : ∃ inner, v = inner ++ [y])
    (h : v ++ w = t ++ a) (h_y : y ∉ t) : t <+: v := by
  obtain ⟨inner, rfl⟩ := h_closes
  have h_t : t <+: inner ++ [y] ++ w := ⟨a, h.symm⟩
  rcases List.prefix_or_prefix_of_prefix h_t (List.prefix_append _ w) with h_in | h_over
  · exact h_in
  · exact absurd (h_over.subset (by simp)) h_y

/-- The end of a text closes with its last character. -/
theorem closes_of_append {u v : List Char} {y : Char} (h_closes : ∃ inner, u ++ v = inner ++ [y])
    (h : v ≠ []) : ∃ inner, v = inner ++ [y] := by
  obtain ⟨inner, h_inner⟩ := h_closes
  have h_ne : u ++ v ≠ [] := List.append_ne_nil_of_right_ne_nil u h
  have h_last : (u ++ v).getLast h_ne = y := by simp [h_inner]
  rw [List.getLast_append_of_ne_nil h_ne h] at h_last
  exact ⟨v.dropLast, by rw [← h_last, List.dropLast_concat_getLast]⟩

/-- The same for what stands anywhere. -/
theorem infix_append_of_closes {v t w : List Char} {y : Char} (h_closes : ∃ inner, v = inner ++ [y])
    (h : t <:+: v ++ w) (h_y : y ∉ t) : t <:+: v ∨ t <:+: w := by
  obtain ⟨u, a, h_eq⟩ := h
  rw [List.append_assoc] at h_eq
  rcases List.append_eq_append_iff.mp h_eq with ⟨v', rfl, h_v⟩ | ⟨w', rfl, h_w⟩
  · by_cases h_nil : v' = []
    · subst h_nil
      exact .inr ⟨[], a, h_v⟩
    · have h_in := prefix_of_closes (closes_of_append h_closes h_nil) h_v.symm h_y
      exact .inl (h_in.isInfix.trans (List.suffix_append u v').isInfix)
  · exact .inr ⟨w', a, by rw [List.append_assoc]; exact h_w.symm⟩

/-- What stands in the text before something else is put in, up to its end, is kept. -/
theorem subFrom_eq_append (h_r : Consumes r) {x y : Char} (h_repl : Bracketed repl x y)
    {t a : List Char} (h : subFrom r repl before rest = t ++ a) (h_x : x ∉ t) :
    ∃ a', rest = t ++ a' ∧ a = subFrom r repl (t.reverse ++ before) a' := by
  induction t generalizing before rest with
  | nil => exact ⟨rest, rfl, h.symm⟩
  | cons c t ih =>
    rw [List.mem_cons, not_or] at h_x
    cases h_first : first r before rest with
    | some k =>
      -- a match would open with what `t` does not contain
      obtain ⟨inner, h_inner⟩ := h_repl.opens
      rw [subFrom_hit h_r h_first, h_inner, List.cons_append, List.cons_append] at h
      exact absurd (List.cons.inj h).1 h_x.1
    | none =>
      cases rest with
      | nil => cases h
      | cons d rest =>
        rw [subFrom_char h_first, List.cons_append] at h
        obtain ⟨rfl, h_rest⟩ := List.cons.inj h
        obtain ⟨a', rfl, h_a⟩ := ih h_rest h_x.2
        exact ⟨a', rfl, by rw [h_a, List.reverse_cons, List.append_assoc, List.singleton_append]⟩

/-- **What stands in a text after a substitution** stood in it before, or in what was put in. -/
theorem infix_subFrom (h_r : Consumes r) {x y : Char} (h_repl : Bracketed repl x y)
    {t : List Char} (h_x : x ∉ t) (h_y : y ∉ t) (h : t <:+: subFrom r repl before rest) :
    t <:+: repl ∨ t <:+: rest := by
  induction before, rest using scan_induction h_r with
  | nil before =>
    exact .inr h
  | char before c rest h_first ih =>
    rw [subFrom_char h_first] at h
    rcases List.infix_cons_iff.mp h with ⟨a, h_prefix⟩ | h_later
    · -- at this place: up to its end nothing is put in
      rw [← subFrom_char h_first] at h_prefix
      obtain ⟨a', h_eq, -⟩ := subFrom_eq_append h_r h_repl h_prefix.symm h_x
      exact .inr ⟨[], a', h_eq.symm⟩
    · exact (ih h_later).imp_right fun h_rest => h_rest.trans (List.suffix_cons c rest).isInfix
  | hit before rest k h_first ih =>
    have h_rest : k.rest <:+: rest := ⟨k.text, [], by simpa using (first_some h_first).1⟩
    rw [subFrom_hit h_r h_first] at h
    rcases infix_append_of_closes h_repl.closes h h_y with h_repl | h_later
    · exact .inl h_repl
    · exact (ih h_later).imp_right fun h_k => h_k.trans h_rest

/-! ### No match is left -/

/-- The pattern matches somewhere in the text, `before` standing before it. -/
def OccursFrom (r : Regex) (before cs : List Char) : Prop :=
  ∃ pre text after, cs = pre ++ (text ++ after) ∧ Matches r (pre.reverse ++ before) text after

/-- The pattern matches somewhere in the text. -/
def Occurs (r : Regex) (cs : List Char) : Prop := OccursFrom r [] cs

/-- The text ends here, or goes on with a character of the class. -/
def HeadIn (fence : Char → Bool) (cs : List Char) : Prop := ∀ c ∈ cs.head?, fence c = true

/-- What a pattern matches is a matter of the text matched and of the characters at both sides,
which are in a class; where a match begins with such a character, one can end with it, and the
other way round. -/
structure Fenced (r : Regex) (fence : Char → Bool) (T : List Char → Prop) : Prop where
  iff : ∀ {before text after},
    Matches r before text after ↔ T text ∧ HeadIn fence before ∧ HeadIn fence after
  consumes : ∀ {text}, T text → text ≠ []
  left : ∀ {t u}, T t → T u → HeadIn fence t → HeadIn fence u.reverse
  right : ∀ {t u}, T t → T u → HeadIn fence t.reverse → HeadIn fence u

theorem Fenced.consumes_regex {fence : Char → Bool} {T : List Char → Prop} (h : Fenced r fence T) :
    Consumes r := fun _ _ _ h_matches => h.consumes (h.iff.mp h_matches).1

theorem headIn_append {fence : Char → Bool} {t a : List Char} (h : t ≠ []) :
    HeadIn fence (t ++ a) ↔ HeadIn fence t := by
  obtain ⟨c, t, rfl⟩ := List.exists_cons_of_ne_nil h
  rfl

/-- The text a substitution has written so far, and the text it has read so far: they end with the
same character, or a match has just ended. -/
def Linked (r : Regex) (written before rest : List Char) : Prop :=
  written.head? = before.head? ∨
    ∃ u b, before = u.reverse ++ b ∧ Matches r b u rest

/-- **A substitution leaves no match.** -/
theorem not_occursFrom_subFrom {fence : Char → Bool} {T : List Char → Prop} (h : Fenced r fence T)
    {x y : Char} (h_repl : Bracketed repl x y) (h_T : ∀ t, T t → x ∉ t ∧ y ∉ t ∧ ¬ t <:+: repl)
    {written : List Char} (h_linked : Linked r written before rest) :
    ¬ OccursFrom r written (subFrom r repl before rest) := by
  have h_r := h.consumes_regex
  induction before, rest using scan_induction h_r generalizing written with
  | nil before =>
    rintro ⟨pre, text, after, h_eq, h_matches⟩
    rw [subFrom_nil, eq_comm, List.append_eq_nil_iff, List.append_eq_nil_iff] at h_eq
    exact h_r _ _ _ h_matches h_eq.2.1
  | char before c rest h_first ih =>
    rintro ⟨pre, text, after, h_eq, h_matches⟩
    cases pre with
    | cons d pre =>
      -- it begins later
      rw [subFrom_char h_first, List.cons_append] at h_eq
      obtain ⟨rfl, h_rest⟩ := List.cons.inj h_eq
      rw [List.reverse_cons, List.append_assoc, List.singleton_append] at h_matches
      have h_linked' : Linked r (c :: written) (c :: before) rest := .inl rfl
      exact ih h_linked' ⟨pre, text, after, h_rest, h_matches⟩
    | nil =>
      -- it begins here, and was there before
      rw [List.nil_append] at h_eq
      obtain ⟨h_text, h_before, h_after⟩ := h.iff.mp h_matches
      obtain ⟨after', h_here, h_then⟩ := subFrom_eq_append h_r h_repl h_eq (h_T text h_text).1
      rw [h_here] at h_first h_linked
      refine first_none h_first (h.iff.mpr ⟨h_text, ?_, ?_⟩)
      · rcases h_linked with h_same | ⟨u, b, rfl, h_u⟩
        · exact fun d h_d => h_before d (h_same ▸ h_d)
        · obtain ⟨h_u, -, h_start⟩ := h.iff.mp h_u
          have h_start' := (headIn_append (h.consumes h_text)).mp h_start
          have h_ne : u.reverse ≠ [] := by simpa using h.consumes h_u
          exact (headIn_append h_ne).mpr (h.left h_text h_u h_start')
      · cases h_next : first r (text.reverse ++ before) after' with
        | some k =>
          obtain ⟨h_k, k_matches⟩ := first_some h_next
          obtain ⟨k_text, k_before, -⟩ := h.iff.mp k_matches
          have h_ne : text.reverse ≠ [] := by simpa using h.consumes h_text
          rw [← h_k]
          exact (headIn_append (h.consumes k_text)).mpr
            (h.right h_text k_text ((headIn_append h_ne).mp k_before))
        | none =>
          cases after' with
          | nil =>
            intro d h_d
            cases h_d
          | cons d after' =>
            rw [subFrom_char h_next] at h_then
            rw [h_then] at h_after
            exact h_after
  | hit before rest k h_first ih =>
    obtain ⟨h_k, k_matches⟩ := first_some h_first
    rintro ⟨pre, text, after, h_eq, h_matches⟩
    obtain ⟨h_text, -, -⟩ := h.iff.mp h_matches
    rw [subFrom_hit h_r h_first] at h_eq
    rcases List.append_eq_append_iff.mp h_eq with ⟨pre', rfl, h_pre⟩ | ⟨v, rfl, h_v⟩
    · -- it begins after what was put in
      rw [List.reverse_append, List.append_assoc] at h_matches
      exact ih (.inr ⟨k.text, before, rfl, k_matches⟩) ⟨pre', text, after, h_pre, h_matches⟩
    · by_cases h_nil : v = []
      · subst h_nil
        rw [List.append_nil] at h_v ih
        exact ih (.inr ⟨k.text, before, rfl, k_matches⟩) ⟨[], text, after, h_v.symm, h_matches⟩
      · -- it does not stand in what was put in
        have h_in := prefix_of_closes (closes_of_append h_repl.closes h_nil) h_v.symm
          (h_T text h_text).2.1
        exact (h_T text h_text).2.2 (h_in.isInfix.trans (List.suffix_append pre v).isInfix)

/-- **A substitution leaves no match**, in a whole text. -/
theorem not_occurs_sub {fence : Char → Bool} {T : List Char → Prop} (h : Fenced r fence T)
    {x y : Char} (h_repl : Bracketed repl x y) (h_T : ∀ t, T t → x ∉ t ∧ y ∉ t ∧ ¬ t <:+: repl)
    (cs : List Char) : ¬ Occurs r (sub r repl cs) :=
  not_occursFrom_subFrom h h_repl h_T (.inl rfl)

end Sub

/-- Where no match stands nothing is put in. -/
theorem subFrom_eq_self {r : Regex} {repl before rest : List Char}
    (h : ¬ OccursFrom r before rest) : subFrom r repl before rest = rest := by
  induction rest generalizing before with
  | nil => rfl
  | cons c rest ih =>
    -- a match here is one in the text
    have h_here : first r before (c :: rest) = none := by
      rw [Option.eq_none_iff_forall_ne_some]
      intro k h_k
      obtain ⟨h_eq, h_matches⟩ := first_some h_k
      exact h ⟨[], k.text, k.rest, h_eq.symm, h_matches⟩
    rw [subFrom_char h_here, ih]
    -- and so is a match further on
    rintro ⟨pre, text, after, rfl, h_matches⟩
    refine h ⟨c :: pre, text, after, rfl, ?_⟩
    rwa [List.reverse_cons, List.append_assoc]

/-! ### Runs of characters -/

section Runs

variable {p : Char → Bool} {lazy : Bool}

theorem consumes_many : Consumes (.many p 1 none lazy) := by
  rintro before text after ⟨⟨h_length, -⟩, -⟩ rfl
  exact absurd h_length (by decide)

/-- After runs of characters of a class were replaced, there are none of them but those put in. -/
theorem mem_subFrom_many {repl before rest : List Char} {c : Char}
    (h : c ∈ subFrom (.many p 1 none lazy) repl before rest) : p c = false ∨ c ∈ repl := by
  induction before, rest using scan_induction (@consumes_many p lazy) with
  | nil before => cases h
  | char before d rest h_first ih =>
    rw [subFrom_char h_first] at h
    rcases List.mem_cons.mp h with rfl | h_later
    · refine .inl (Bool.eq_false_iff.mpr fun h_c => ?_)
      -- the character alone would match
      have h_none : first (.many p 1 none lazy) before ([c] ++ rest) = none := h_first
      refine first_none h_none ⟨⟨Nat.le_refl 1, by simp⟩, ?_⟩
      simpa using h_c
    · exact ih h_later
  | hit before rest k h_first ih =>
    rw [subFrom_hit consumes_many h_first] at h
    rcases List.mem_append.mp h with h_repl | h_later
    · exact .inr h_repl
    · exact ih h_later

/-- A class that is not in the text does not occur in it. -/
theorem not_occurs_many {cs : List Char} (h : ∀ c ∈ cs, p c = false) :
    ¬ Occurs (.many p 1 none lazy) cs := by
  rintro ⟨pre, text, after, rfl, ⟨h_length, -⟩, h_all⟩
  obtain ⟨c, text, rfl⟩ := List.exists_cons_of_ne_nil (List.length_pos_iff.mp h_length)
  have h_c := h_all c List.mem_cons_self
  rw [h c (by simp)] at h_c
  cases h_c

end Runs

/-! ### Patterns without edges -/

/-- The pattern has no edges in it. -/
def Plain : Regex → Prop
  | one _ | many _ _ _ _ => True
  | seq r s => Plain r ∧ Plain s
  | group _ r => Plain r
  | edge _ => False

/-- Every class of the pattern is in this one. -/
def Over (q : Char → Bool) : Regex → Prop
  | one p | many p _ _ _ => ∀ c, p c = true → q c = true
  | seq r s => Over q r ∧ Over q s
  | group _ r => Over q r
  | edge _ => True

variable {r : Regex}

/-- What a pattern without edges matches does not depend on what stands around. -/
theorem Plain.congr (h : Plain r) {before after text : List Char} (before' after' : List Char) :
    Matches r before text after ↔ Matches r before' text after' := by
  induction r generalizing before after text before' after' with
  | one p => rfl
  | many p lo hi lazy => rfl
  | seq r s ih_r ih_s =>
    refine exists_congr fun t => exists_congr fun u => and_congr_right fun _ => ?_
    exact and_congr (ih_r h.1 _ _) (ih_s h.2 _ _)
  | group n r ih => exact ih h _ _
  | edge word => exact h.elim

/-- A pattern over a class of characters matches nothing else. -/
theorem Over.mem {q : Char → Bool} (h : Over q r) {before text after : List Char}
    (h_matches : Matches r before text after) : ∀ c ∈ text, q c = true := by
  induction r generalizing before text after with
  | one p =>
    obtain ⟨c, rfl, h_c⟩ := h_matches
    simpa using h c h_c
  | many p lo hi lazy => exact fun c h_mem => h c (h_matches.2 c h_mem)
  | seq r s ih_r ih_s =>
    obtain ⟨t, u, rfl, h_t, h_u⟩ := h_matches
    exact List.forall_mem_append.mpr ⟨ih_r h.1 h_t, ih_s h.2 h_u⟩
  | group n r ih => exact ih h h_matches
  | edge word =>
    obtain ⟨rfl, -⟩ := h_matches
    exact List.forall_mem_nil _

/-- Whether a pattern without edges matches is a matter of the text matched. -/
theorem Plain.fenced (h : Plain r) (h_consumes : ∀ t, Matches r [] t [] → t ≠ []) :
    Fenced r (fun _ => true) fun t => Matches r [] t [] where
  iff := by
    intro before text after
    simp [HeadIn, h.congr [] []]
  consumes := h_consumes _
  left := by simp [HeadIn]
  right := by simp [HeadIn]

/-- With an edge at both sides it is a matter of the characters there as well, if what the pattern
matches begins and ends with a word character. -/
theorem Plain.fenced_edges (h : Plain r) {word : Char → Bool}
    (h_word : ∀ t, Matches r [] t [] → ∃ c ∈ t.head?, word c = true)
    (h_word' : ∀ t, Matches r [] t [] → ∃ c ∈ t.reverse.head?, word c = true) :
    Fenced (.seq (.edge word) (.seq r (.edge word))) (fun c => !word c)
      fun t => Matches r [] t [] where
  iff := by
    intro before text after
    -- an edge next to a word character asks that the other side is none
    have h_any : ∀ cs : List Char, cs.head?.any word = false ↔ HeadIn (fun c => !word c) cs := by
      intro cs
      cases cs <;> simp [HeadIn]
    constructor
    · rintro ⟨_, _, rfl, ⟨rfl, h_before⟩, t, _, rfl, h_r, rfl, h_after⟩
      rw [h.congr [] []] at h_r
      -- the match starts and ends with word characters, so the edges look outwards
      obtain ⟨c, h_c, c_word⟩ := h_word t h_r
      obtain ⟨d, h_d, d_word⟩ := h_word' t h_r
      obtain ⟨t', h_t⟩ : ∃ t', t = c :: t' := List.head?_eq_some_iff.mp h_c
      obtain ⟨u, h_u⟩ : ∃ u, t.reverse = d :: u := List.head?_eq_some_iff.mp h_d
      refine ⟨by simpa using h_r, ?_, ?_⟩
      · rw [← h_any]
        simpa [isEdge, h_t, c_word] using h_before
      · rw [← h_any]
        simpa [isEdge, h_u, d_word] using h_after
    · rintro ⟨h_r, h_before, h_after⟩
      obtain ⟨c, h_c, c_word⟩ := h_word text h_r
      obtain ⟨d, h_d, d_word⟩ := h_word' text h_r
      obtain ⟨t', h_t⟩ : ∃ t', text = c :: t' := List.head?_eq_some_iff.mp h_c
      obtain ⟨u, h_u⟩ : ∃ u, text.reverse = d :: u := List.head?_eq_some_iff.mp h_d
      rw [← h_any] at h_before h_after
      refine ⟨[], text, rfl, ⟨rfl, ?_⟩, text, [], by simp, (h.congr _ _).mp h_r, rfl, ?_⟩
      · simp [isEdge, h_before, h_t, c_word]
      · simp [isEdge, h_after, h_u, d_word]
  consumes := by
    rintro text h_text rfl
    obtain ⟨c, h_c, -⟩ := h_word [] h_text
    cases h_c
  left := by
    intro t u h_t _ h_head
    obtain ⟨c, h_c, c_word⟩ := h_word t h_t
    simpa [c_word] using h_head c h_c
  right := by
    intro t u h_t _ h_head
    obtain ⟨c, h_c, c_word⟩ := h_word' t h_t
    simpa [c_word] using h_head c h_c

end Regex
end Lib
