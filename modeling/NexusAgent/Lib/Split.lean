import NexusAgent.Lib.PyStr

/-!
# Splitting texts

Texts cut at a separator of several characters, cut into lines, and stripped of a set of
characters, on lists of characters, and the reader of integers.

* `cut_append`, `cut_le`: a text is cut at the first place where the separator stands.
* `countP_stripBy`: stripping takes characters of the set only.
* `splitlines_line`, `splitlines_last`: the lines of a text, one by one.
* `pyInt_repr`: a number written is read back.
-/

namespace Lib
namespace PyStr

/-! ### Cutting at a separator -/

/-- What stands before and after the first occurrence of a separator. -/
def cut (sep : List Char) : List Char → Option (List Char × List Char)
  | [] => none
  | c :: cs =>
    if sep <+: c :: cs then some ([], (c :: cs).drop sep.length)
    else (cut sep cs).map fun p => (c :: p.1, p.2)

/-- `s.split(sep, n)`, on characters. -/
def splitMax (sep : List Char) : ℕ → List Char → List (List Char)
  | 0, cs => [cs]
  | n + 1, cs =>
    match cut sep cs with
    | none => [cs]
    | some (before, after) => before :: splitMax sep n after

/-- `s.split(sep)`, on characters: a text has no more separators than characters. -/
def splitAll (sep cs : List Char) : List (List Char) := splitMax sep cs.length cs

section Cut

variable {sep cs a b : List Char}

theorem cut_prefix (h_sep : sep ≠ []) (b : List Char) : cut sep (sep ++ b) = some ([], b) := by
  obtain ⟨c, sep, rfl⟩ := List.exists_cons_of_ne_nil h_sep
  have h_prefix : c :: sep <+: c :: (sep ++ b) := List.prefix_append (c :: sep) b
  rw [List.cons_append, cut, if_pos h_prefix, ← List.cons_append, List.drop_left]

/-- **The first occurrence** of a separator. -/
theorem cut_append (h_sep : sep ≠ []) (a b : List Char)
    (h : ∀ v, v <:+ a → v ≠ [] → ¬ sep <+: v ++ (sep ++ b)) :
    cut sep (a ++ (sep ++ b)) = some (a, b) := by
  induction a with
  | nil => exact cut_prefix h_sep b
  | cons c a ih =>
    have h_rest := ih fun v h_v => h v (h_v.trans (List.suffix_cons c a))
    have h_here := h (c :: a) List.suffix_rfl (List.cons_ne_nil c a)
    rw [List.cons_append] at h_here ⊢
    rw [cut, if_neg h_here, h_rest]
    rfl

/-- A text is what was cut. -/
theorem cut_some (h : cut sep cs = some (a, b)) : cs = a ++ (sep ++ b) := by
  induction cs generalizing a with
  | nil => cases h
  | cons c cs ih =>
    rw [cut] at h
    split_ifs at h with h_prefix
    · obtain ⟨rfl, rfl⟩ := Prod.mk.inj (Option.some.inj h)
      exact (List.prefix_iff_eq_append.mp h_prefix).symm
    · obtain ⟨⟨a', b'⟩, h_cut, h_eq⟩ := Option.map_eq_some_iff.mp h
      obtain ⟨rfl, rfl⟩ := Prod.mk.inj h_eq
      rw [ih h_cut, List.cons_append]

/-- Where the separator stands, the text is cut there or before. -/
theorem cut_le (h_sep : sep ≠ []) (u v : List Char) :
    ∃ a b, cut sep (u ++ (sep ++ v)) = some (a, b) ∧ a.length ≤ u.length := by
  induction u with
  | nil => exact ⟨[], v, cut_prefix h_sep v, le_rfl⟩
  | cons c u ih =>
    rw [List.cons_append, cut]
    split_ifs
    · exact ⟨_, _, rfl, Nat.zero_le _⟩
    · obtain ⟨a, b, h_cut, h_le⟩ := ih
      rw [h_cut]
      exact ⟨c :: a, b, rfl, Nat.succ_le_succ h_le⟩

/-- The separator does not stand before the place where a text is cut. -/
theorem not_infix_of_cut (h_sep : sep ≠ []) (h : cut sep cs = some (a, b)) : ¬ sep <:+: a := by
  rintro ⟨x, y, rfl⟩
  have h_text : cs = x ++ (sep ++ (y ++ (sep ++ b))) := by
    rw [cut_some h]
    simp
  obtain ⟨a', b', h_cut, h_le⟩ := cut_le h_sep x (y ++ (sep ++ b))
  rw [h_text, h_cut] at h
  obtain ⟨rfl, rfl⟩ := Prod.mk.inj (Option.some.inj h)
  have h_pos := List.length_pos_iff.mpr h_sep
  simp only [List.length_append] at h_le
  omega

/-- Nothing is cut where the separator does not occur. -/
theorem cut_eq_none_iff (h_sep : sep ≠ []) : cut sep cs = none ↔ ¬ sep <:+: cs := by
  constructor
  · rintro h ⟨x, y, rfl⟩
    obtain ⟨a, b, h_cut, -⟩ := cut_le h_sep x y
    rw [List.append_assoc, h_cut] at h
    cases h
  · intro h
    cases h_cut : cut sep cs with
    | none => rfl
    | some p => exact absurd ⟨p.1, p.2, by rw [List.append_assoc]; exact (cut_some h_cut).symm⟩ h

/-- **The parts of a text**, joined again. -/
theorem splitMax_join (n : ℕ) (cs : List Char) :
    ∃ part parts, splitMax sep n cs = part :: parts ∧ cs = part ++ parts.flatMap (sep ++ ·) := by
  induction n generalizing cs with
  | zero => exact ⟨cs, [], rfl, (List.append_nil cs).symm⟩
  | succ n ih =>
    rw [splitMax]
    cases h_cut : cut sep cs with
    | none => exact ⟨cs, [], rfl, (List.append_nil cs).symm⟩
    | some p =>
      -- the part in front of the first separator, and the parts of the rest
      obtain ⟨part, parts, h_parts, h_rest⟩ := ih p.2
      refine ⟨p.1, part :: parts, by simp only [h_parts], ?_⟩
      rw [List.flatMap_cons, List.append_assoc, ← h_rest]
      exact cut_some h_cut

/-- **No part** has the separator in it. -/
theorem not_infix_of_mem_splitAll (h_sep : sep ≠ []) {part : List Char} (h : part ∈ splitAll sep cs) :
    ¬ sep <:+: part := by
  have h_max : ∀ n (cs : List Char), cs.length ≤ n → ∀ part ∈ splitMax sep n cs, ¬ sep <:+: part := by
    intro n
    induction n with
    | zero =>
      intro cs h_le part h_part
      obtain rfl := List.mem_singleton.mp h_part
      obtain rfl := List.eq_nil_of_length_eq_zero (Nat.le_zero.mp h_le)
      exact fun h_in => h_sep (List.eq_nil_of_infix_nil h_in)
    | succ n ih =>
      intro cs h_le part h_part
      rw [splitMax] at h_part
      cases h_cut : cut sep cs with
      | none =>
        rw [h_cut] at h_part
        obtain rfl := List.mem_singleton.mp h_part
        exact (cut_eq_none_iff h_sep).mp h_cut
      | some p =>
        rw [h_cut] at h_part
        rcases List.mem_cons.mp h_part with rfl | h_rest
        · -- before the first separator there is none
          exact not_infix_of_cut h_sep h_cut
        · have h_length := congrArg List.length (cut_some h_cut)
          -- the rest is shorter by at least the separator
          have h_pos := List.length_pos_iff.mpr h_sep
          simp only [List.length_append] at h_length
          exact ih p.2 (by omega) part h_rest
  exact h_max cs.length cs le_rfl part h

/-- A text with the separator in it has more than one part. -/
theorem splitAll_of_infix (h_sep : sep ≠ []) (h : sep <:+: cs) :
    ∃ part parts, splitAll sep cs = part :: parts ∧ parts ≠ [] ∧
      cs = part ++ parts.flatMap (sep ++ ·) := by
  obtain ⟨part, parts, h_parts, h_join⟩ := @splitMax_join sep cs.length cs
  refine ⟨part, parts, h_parts, ?_, h_join⟩
  rintro rfl
  have h_part : part ∈ splitAll sep cs := by
    rw [splitAll, h_parts]
    exact List.mem_singleton.mpr rfl
  rw [List.flatMap_nil, List.append_nil] at h_join
  exact not_infix_of_mem_splitAll h_sep h_part (h_join ▸ h)

/-- A part of a text stands in it. -/
theorem infix_of_mem_splitAll {part : List Char} (h : part ∈ splitAll sep cs) : part <:+: cs := by
  obtain ⟨first, parts, h_parts, h_join⟩ := @splitMax_join sep cs.length cs
  rw [splitAll, h_parts] at h
  rw [h_join]
  rcases List.mem_cons.mp h with rfl | h_rest
  · exact ⟨[], _, rfl⟩
  · obtain ⟨u, v, rfl⟩ := List.append_of_mem h_rest
    exact ⟨first ++ u.flatMap (sep ++ ·) ++ sep, v.flatMap (sep ++ ·), by simp⟩

/-- A text cut before a place that ends with the separator and `b`: this stays in what follows. -/
theorem suffix_of_cut {u v : List Char} (h_sep : sep ≠ []) (h_u : sep <:+: u)
    (h : cut sep (u ++ v) = some (a, b)) : v <:+ b := by
  obtain ⟨x, y, rfl⟩ := h_u
  obtain ⟨a', b', h_cut, h_le⟩ := cut_le h_sep x (y ++ v)
  -- the cut does not come after the separator in the first part
  have h_text : x ++ sep ++ y ++ v = x ++ (sep ++ (y ++ v)) := by simp
  rw [h_text] at h
  -- so it is the one found there
  obtain ⟨rfl, rfl⟩ := Prod.mk.inj (Option.some.inj (h_cut.symm.trans h))
  have h_eq := cut_some h_cut
  have h_b : b' <:+ x ++ (sep ++ (y ++ v)) := ⟨a' ++ sep, by rw [h_eq, List.append_assoc]⟩
  have h_v : v <:+ x ++ (sep ++ (y ++ v)) := ⟨x ++ (sep ++ y), by simp⟩
  -- what is behind it is at least as long as `v`
  have h_length := congrArg List.length h_eq
  simp only [List.length_append] at h_length
  exact List.suffix_of_suffix_length_le h_v h_b (by omega)

/-- What stands around a character it does not contain stands on one side of it. -/
theorem infix_append_cons {t a b : List Char} {c : Char} (h : t <:+: a ++ c :: b) (h_c : c ∉ t) :
    t <:+: a ∨ t <:+: b := by
  obtain ⟨u, w, h_eq⟩ := h
  -- the character lies behind the infix, in it or before it
  rcases List.append_eq_append_iff.mp h_eq with ⟨x, rfl, -⟩ | ⟨y, h_ut, h_cb⟩
  · exact .inl ⟨u, x, rfl⟩
  · cases y with
    | nil =>
      rw [List.append_nil] at h_ut
      exact .inl ⟨u, [], by rw [List.append_nil, h_ut]⟩
    | cons d y =>
      rw [List.cons_append] at h_cb
      obtain ⟨rfl, rfl⟩ := List.cons.inj h_cb
      rcases List.append_eq_append_iff.mp h_ut with ⟨z, -, rfl⟩ | ⟨z, -, h_z⟩
      · exact absurd (by simp) h_c
      · cases z with
        | nil =>
          rw [List.nil_append] at h_z
          exact absurd (h_z ▸ List.mem_cons_self) h_c
        | cons e z =>
          rw [List.cons_append] at h_z
          obtain ⟨-, rfl⟩ := List.cons.inj h_z
          exact .inr ⟨z, w, rfl⟩

end Cut

/-! ### Stripping -/

/-- `s.strip(chars)`, on characters. -/
def stripBy (p : Char → Bool) (cs : List Char) : List Char :=
  ((cs.dropWhile p).reverse.dropWhile p).reverse

section Strip

variable {p q : Char → Bool}

/-- What is dropped in front is not counted. -/
theorem countP_dropWhile (h : ∀ c, p c = true → q c = false) (cs : List Char) :
    (cs.dropWhile p).countP q = cs.countP q := by
  conv_rhs => rw [← List.takeWhile_append_dropWhile (p := p) (l := cs), List.countP_append]
  have h_zero : (cs.takeWhile p).countP q = 0 := by
    rw [List.countP_eq_zero]
    intro c h_c
    rw [h c (List.mem_takeWhile_imp h_c)]
    exact Bool.false_ne_true
  rw [h_zero, Nat.zero_add]

/-- Stripping takes characters of the set only. -/
theorem countP_stripBy (h : ∀ c, p c = true → q c = false) (cs : List Char) :
    (stripBy p cs).countP q = cs.countP q := by
  unfold stripBy
  rw [List.countP_reverse, countP_dropWhile h, List.countP_reverse, countP_dropWhile h]

/-- A text that neither begins nor ends with a character of the set. -/
def Stripped (p : Char → Bool) (cs : List Char) : Prop :=
  (∀ c ∈ cs.head?, p c = false) ∧ ∀ c ∈ cs.reverse.head?, p c = false

instance (p : Char → Bool) (cs : List Char) : Decidable (Stripped p cs) :=
  inferInstanceAs (Decidable (_ ∧ _))

/-- Nothing is dropped where the first character stays. -/
theorem dropWhile_eq_self {cs : List Char} (h : ∀ c ∈ cs.head?, p c = false) :
    cs.dropWhile p = cs := by
  cases cs with
  | nil => rfl
  | cons c cs => rw [List.dropWhile_cons, h c rfl, if_neg Bool.false_ne_true]

/-- What is left does not start with a character that is dropped. -/
theorem dropWhile_head (cs : List Char) : ∀ c ∈ (cs.dropWhile p).head?, p c = false := by
  intro c h_c
  have h_head := List.head?_dropWhile_not p cs
  rw [Option.mem_def.mp h_c] at h_head
  simpa using h_head

/-- A prefix that is dropped is dropped first. -/
theorem dropWhile_append {xs cs : List Char} (h : ∀ c ∈ xs, p c = true) :
    (xs ++ cs).dropWhile p = cs.dropWhile p := by
  induction xs with
  | nil => rfl
  | cons x xs ih =>
    rw [List.forall_mem_cons] at h
    rw [List.cons_append, List.dropWhile_cons, h.1, if_pos rfl, ih h.2]

/-- **Stripping** takes what surrounds a text that begins and ends with other characters. -/
theorem stripBy_surrounded {xs cs ys : List Char} (h_xs : ∀ c ∈ xs, p c = true)
    (h_ys : ∀ c ∈ ys, p c = true) (h : Stripped p cs) : stripBy p (xs ++ (cs ++ ys)) = cs := by
  unfold stripBy
  rw [dropWhile_append h_xs]
  cases cs with
  -- nothing between the two runs: both are dropped as one
  | nil =>
    rw [List.nil_append, List.dropWhile_eq_nil_iff.mpr h_ys]
    rfl
  | cons c cs =>
    -- what is kept neither begins nor ends with a dropped character
    have h_head : ∀ d ∈ (c :: cs ++ ys).head?, p d = false := h.1
    rw [dropWhile_eq_self h_head, List.reverse_append,
      dropWhile_append (by simpa using h_ys), dropWhile_eq_self h.2, List.reverse_reverse]

/-- A text without such characters. -/
theorem stripped_of_forall {cs : List Char} (h : ∀ c ∈ cs, p c = false) : Stripped p cs :=
  ⟨fun c h_c => h c (List.mem_of_mem_head? h_c),
    fun c h_c => h c (List.mem_reverse.mp (List.mem_of_mem_head? h_c))⟩

theorem stripBy_eq_self {cs : List Char} (h : Stripped p cs) : stripBy p cs = cs := by
  have h_alone := @stripBy_surrounded p [] cs [] (by simp) (by simp) h
  rwa [List.nil_append, List.append_nil] at h_alone

/-- A stripped text is stripped. -/
theorem stripped_stripBy (cs : List Char) : Stripped p (stripBy p cs) := by
  unfold stripBy
  constructor
  · -- the first character was the first before the end was stripped
    intro c h_c
    have h_prefix : ((cs.dropWhile p).reverse.dropWhile p).reverse <+: cs.dropWhile p := by
      rw [← List.reverse_suffix, List.reverse_reverse]
      exact List.dropWhile_suffix p
    refine dropWhile_head cs c ?_
    obtain ⟨rest, h_rest⟩ := h_prefix
    rw [← h_rest, List.head?_append, Option.mem_def.mp h_c]
    rfl
  · rw [List.reverse_reverse]
    exact dropWhile_head _

end Strip

theorem strip_eq_stripBy (s : String) : strip s = String.ofList (stripBy isSpace s.toList) := rfl

/-! ### Lines -/

/-- The characters that end a line. -/
def isLineBreak (c : Char) : Bool :=
  let n := c.toNat
  (10 ≤ n && n ≤ 13) || (28 ≤ n && n ≤ 30) || n = 0x85 || n = 0x2028 || n = 0x2029

/-- `s.splitlines()`, on characters. -/
def splitlines : List Char → List (List Char)
  | [] => []
  | c :: cs =>
    if c = '\r' ∧ cs.head? = some '\n' then splitlines cs
    else if isLineBreak c then [] :: splitlines cs
    else
      match splitlines cs with
      | [] => [[c]]
      | line :: lines => (c :: line) :: lines

/-- A character that is no line break belongs to the first line. -/
theorem splitlines_char {c : Char} (h : isLineBreak c = false) (cs : List Char) :
    splitlines (c :: cs) =
      match splitlines cs with
      | [] => [[c]]
      | line :: lines => (c :: line) :: lines := by
  have h_return : ¬ (c = '\r' ∧ cs.head? = some '\n') := by
    rintro ⟨rfl, -⟩
    revert h
    decide
  rw [splitlines, if_neg h_return, h, if_neg Bool.false_ne_true]

/-- A line and the ones that follow. -/
theorem splitlines_line {line : List Char} (h : ∀ c ∈ line, isLineBreak c = false)
    (rest : List Char) : splitlines (line ++ '\n' :: rest) = line :: splitlines rest := by
  induction line with
  | nil =>
    rw [List.nil_append, splitlines, if_neg (by simp), if_pos (by decide)]
  | cons c line ih =>
    rw [List.forall_mem_cons] at h
    rw [List.cons_append, splitlines_char h.1, ih h.2]

/-- The last line. -/
theorem splitlines_last {line : List Char} (h : ∀ c ∈ line, isLineBreak c = false)
    (h_line : line ≠ []) : splitlines line = [line] := by
  induction line with
  | nil => exact absurd rfl h_line
  | cons c line ih =>
    rw [List.forall_mem_cons] at h
    rw [splitlines_char h.1]
    cases line with
    | nil => rfl
    | cons d line => rw [ih h.2 (List.cons_ne_nil d line)]

/-- What a text file is read as: every line ends with a line feed. -/
def universalNewlines : List Char → List Char
  | [] => []
  | c :: cs =>
    if c = '\r' then
      if cs.head? = some '\n' then universalNewlines cs else '\n' :: universalNewlines cs
    else c :: universalNewlines cs

/-- Text without a carriage return is kept as it is. -/
theorem universalNewlines_append {cs : List Char} (h : '\r' ∉ cs) (rest : List Char) :
    universalNewlines (cs ++ rest) = cs ++ universalNewlines rest := by
  induction cs with
  | nil => rfl
  | cons c cs ih =>
    rw [List.mem_cons, not_or] at h
    rw [List.cons_append, universalNewlines, if_neg (Ne.symm h.1), ih h.2, List.cons_append]

theorem universalNewlines_eq_self {cs : List Char} (h : '\r' ∉ cs) : universalNewlines cs = cs := by
  simpa [universalNewlines] using universalNewlines_append h []

/-- The line feed at the end. -/
theorem universalNewlines_concat {cs : List Char} (h : ∀ c ∈ cs.reverse.head?, c ≠ '\r') :
    universalNewlines (cs ++ ['\n']) = universalNewlines cs ++ ['\n'] := by
  induction cs with
  | nil => rfl
  | cons c cs ih =>
    cases cs with
    | nil =>
      -- the last character before the break is no carriage return
      have h_c : c ≠ '\r' := h c rfl
      rw [List.cons_append, universalNewlines, if_neg h_c, universalNewlines, if_neg h_c]
      rfl
    | cons d cs =>
      -- the rest ends as before, with one line break more
      have h_rest : universalNewlines (d :: cs ++ ['\n']) = universalNewlines (d :: cs) ++ ['\n'] := by
        refine ih fun e h_e => h e ?_
        have h_ne : (d :: cs).reverse ≠ [] := by simp
        rw [List.reverse_cons, List.head?_append_of_ne_nil _ h_ne]
        exact h_e
      -- the first character of the rest is the same
      have h_head : (d :: cs ++ ['\n']).head? = (d :: cs).head? := rfl
      rw [List.cons_append, universalNewlines, h_rest, h_head]
      conv_rhs => rw [universalNewlines]
      split_ifs <;> rfl

/-- No carriage return is left. -/
theorem return_notMem_universalNewlines (cs : List Char) : '\r' ∉ universalNewlines cs := by
  induction cs with
  | nil => exact List.not_mem_nil
  | cons c cs ih =>
    rw [universalNewlines]
    split_ifs with h_c
    · exact ih
    · simpa using ih
    · rw [List.mem_cons, not_or]
      exact ⟨Ne.symm h_c, ih⟩

/-! ### Integers -/

/-- The digits of a number in which single underscores may stand between digits. -/
def intDigits : Bool → List Char → Option (List Char)
  | after, [] => if after then some [] else none
  | after, c :: cs =>
    if c.isDigit then (intDigits true cs).map (c :: ·)
    else if c = '_' ∧ after then intDigits false cs
    else none

/-- `int(s)` for a text without white space around it, on characters; its digits are ASCII. -/
def pyInt (cs : List Char) : Option ℤ :=
  let magnitude (ds : List Char) : Option ℤ :=
    (intDigits false ds).map fun ds => (Nat.ofDigitChars 10 ds 0 : ℤ)
  match cs with
  | '-' :: ds => (magnitude ds).map (- ·)
  | '+' :: ds => magnitude ds
  | ds => magnitude ds

/-- Digits without underscores are read as they are. -/
theorem intDigits_eq_self {cs : List Char} (h : ∀ c ∈ cs, c.isDigit = true) (after : Bool)
    (h_some : cs ≠ [] ∨ after = true) : intDigits after cs = some cs := by
  induction cs generalizing after with
  | nil => rw [intDigits, if_pos (h_some.resolve_left (· rfl))]
  | cons c cs ih =>
    rw [List.forall_mem_cons] at h
    rw [intDigits, if_pos h.1, ih h.2 true (.inr rfl)]
    rfl

/-- The digits of a natural number. -/
theorem toDigits_isDigit (n : ℕ) : ∀ c ∈ Nat.toDigits 10 n, c.isDigit = true :=
  fun _ h => Nat.isDigit_of_mem_toDigits (by decide) (by decide) h

theorem intDigits_toDigits (n : ℕ) :
    intDigits false (Nat.toDigits 10 n) = some (Nat.toDigits 10 n) :=
  intDigits_eq_self (toDigits_isDigit n) false (.inl Nat.toDigits_ne_nil)

/-- The characters of an integer: a sign or none, and digits. -/
theorem toList_toString (n : ℤ) :
    (toString n).toList =
      if n < 0 then '-' :: Nat.toDigits 10 n.natAbs else Nat.toDigits 10 n.natAbs := by
  -- the sign is written for negative numbers only
  cases n with
  | ofNat n =>
    have h_not : ¬ (Int.ofNat n) < 0 := by simp
    rw [if_neg h_not]
    exact Nat.toList_repr
  | negSucc n =>
    rw [if_pos (Int.negSucc_lt_zero n)]
    show ("-" ++ (n + 1).repr).toList = _
    rw [String.toList_append, Nat.toList_repr]
    rfl

/-- Without a sign all of it is digits. -/
theorem pyInt_of_isDigit {cs : List Char} (h : ∀ c ∈ cs, c.isDigit = true) :
    pyInt cs = (intDigits false cs).map fun ds => (Nat.ofDigitChars 10 ds 0 : ℤ) := by
  unfold pyInt
  split
  · exact absurd (h '-' List.mem_cons_self) (by decide)
  · exact absurd (h '+' List.mem_cons_self) (by decide)
  · rfl

/-- **A number written is read back.** -/
theorem pyInt_repr (n : ℤ) : pyInt (toString n).toList = some n := by
  rw [toList_toString]
  split_ifs with h_neg
  · simp only [pyInt, intDigits_toDigits, Option.map_some, Nat.ofDigitChars_ten_toDigits]
    congr 1
    omega
  · rw [pyInt_of_isDigit (toDigits_isDigit _), intDigits_toDigits, Option.map_some,
      Nat.ofDigitChars_ten_toDigits]
    congr 1
    omega

end PyStr
end Lib
