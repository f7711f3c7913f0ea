import NexusAgent.Lib.Json
import NexusAgent.Lib.Split

/-!
# Strings and numbers of JSON

What the writer puts out for a string is read back as the string, and a number is read back
whatever follows it, as long as no number goes on there.

* `stringBody_quote`: a string literal is read back.
* `number_extend`: what follows a number does not matter.
* `number_toString`: an integer is read back.
-/

namespace Lib
namespace Json

/-! ### String literals -/

/-- The code units of a character. -/
def units (c : Char) : List ℕ :=
  if c.toNat < 0x10000 then [c.toNat]
  else [0xd800 + (c.toNat - 0x10000) / 1024, 0xdc00 + (c.toNat - 0x10000) % 1024]

/-- A character is no surrogate, and there are none from `0x110000` on. -/
theorem toNat_cases (c : Char) : c.toNat < 0xd800 ∨ 0xdfff < c.toNat ∧ c.toNat < 0x110000 := c.valid

/-- The code of a character is read as this character. -/
theorem joinUnits_char (c : Char) (us : List ℕ) :
    joinUnits (c.toNat :: us) = c :: joinUnits us := by
  have h_char : (if c.toNat.isValidChar then Char.ofNat c.toNat else '\ufffd') = c := by
    have h_valid : c.toNat.isValidChar := c.valid
    rw [if_pos h_valid, Char.ofNat_toNat]
  cases us with
  | nil => exact congrArg (fun d => [d]) h_char
  | cons l us =>
    -- a character is no surrogate, so it is not taken for half of a pair
    have h_not : ¬ (0xd800 ≤ c.toNat ∧ c.toNat < 0xdc00 ∧ 0xdc00 ≤ l ∧ l < 0xe000) := by
      have h_c := toNat_cases c
      omega
    rw [joinUnits, if_neg h_not, h_char]

/-- The code units of a character are joined to it again. -/
theorem joinUnits_units (c : Char) (us : List ℕ) : joinUnits (units c ++ us) = c :: joinUnits us := by
  unfold units
  split_ifs with h_small
  · exact joinUnits_char c us
  · have h_c := toNat_cases c
    -- a large code is written as a pair of surrogates
    have h_pair : 0xd800 ≤ 0xd800 + (c.toNat - 0x10000) / 1024 ∧
        0xd800 + (c.toNat - 0x10000) / 1024 < 0xdc00 ∧
        0xdc00 ≤ 0xdc00 + (c.toNat - 0x10000) % 1024 ∧
        0xdc00 + (c.toNat - 0x10000) % 1024 < 0xe000 := by omega
    -- which are put together to the same code
    have h_sum : 0x10000 + (0xd800 + (c.toNat - 0x10000) / 1024 - 0xd800) * 1024 +
        (0xdc00 + (c.toNat - 0x10000) % 1024 - 0xdc00) = c.toNat := by omega
    rw [List.cons_append, List.cons_append, joinUnits, if_pos h_pair, h_sum, Char.ofNat_toNat,
      List.nil_append]

theorem joinUnits_flatMap (cs : List Char) : joinUnits (cs.flatMap units) = cs := by
  induction cs with
  | nil => rfl
  | cons c cs ih => rw [List.flatMap_cons, joinUnits_units, ih]

theorem hexVal_digitChar {n : ℕ} (h : n < 16) : hexVal n.digitChar = some n := by
  have h_all : ∀ n < 16, hexVal n.digitChar = some n := by decide
  exact h_all n h

/-- Four hexadecimal digits are read as the unit they write. -/
theorem stringUnits_hex4 {n : ℕ} (h : n < 0x10000) (cs : List Char) :
    stringUnits ('\\' :: 'u' :: (hex4 n ++ cs)) = (stringUnits cs).map fun p => (n :: p.1, p.2) := by
  have h_sum : n / 4096 % 16 * 4096 + n / 256 % 16 * 256 + n / 16 % 16 * 16 + n % 16 = n := by omega
  simp only [hex4, List.map_cons, List.map_nil, List.cons_append, List.nil_append]
  rw [stringUnits]
  simp only [hexVal_digitChar (Nat.mod_lt _ (by decide : 0 < 16)), Option.bind_eq_bind,
    Option.bind_some, h_sum]
  cases stringUnits cs <;> rfl

/-- A one-letter escape. -/
theorem stringUnits_letter {c : Char} {n : ℕ} (h : unescape c = some n) (cs : List Char) :
    stringUnits ('\\' :: c :: cs) = (stringUnits cs).map fun p => (n :: p.1, p.2) := by
  have h_u : c ≠ 'u' := by
    rintro rfl
    cases h
  rw [stringUnits]
  · simp only [h, Option.bind_eq_bind, Option.bind_some]
    cases stringUnits cs <;> rfl
  · rintro a b d e cs' rfl
    exact absurd rfl h_u

/-- A character that needs no escape. -/
theorem stringUnits_plain {c : Char} (h_quote : c ≠ '"') (h_slash : c ≠ '\\') (h : 32 ≤ c.toNat)
    (cs : List Char) :
    stringUnits (c :: cs) = (stringUnits cs).map fun p => (c.toNat :: p.1, p.2) := by
  rw [stringUnits]
  · rw [if_neg (by omega)]
    cases stringUnits cs <;> rfl
  · exact h_quote
  · rintro a b d e cs' rfl
    exact absurd rfl h_slash
  · rintro d cs' rfl
    exact absurd rfl h_slash

/-- **An escaped character is read as its code units.** -/
theorem stringUnits_escape (c : Char) (cs : List Char) :
    stringUnits (escape c ++ cs) = (stringUnits cs).map fun p => (units c ++ p.1, p.2) := by
  have h_units : ∀ {n : ℕ}, c.toNat = n → n < 0x10000 → units c = [n] := by
    rintro n rfl h_n
    exact if_pos h_n
  have h_c := toNat_cases c
  unfold escape
  simp only []
  split_ifs with h_quote h_slash h_nl h_cr h_tab h_bs h_ff h_plain h_small
  · rw [h_units (by rw [h_quote]; rfl : c.toNat = 34) (by decide)]
    exact stringUnits_letter rfl cs
  · rw [h_units (by rw [h_slash]; rfl : c.toNat = 92) (by decide)]
    exact stringUnits_letter rfl cs
  · rw [h_units (by rw [h_nl]; rfl : c.toNat = 10) (by decide)]
    exact stringUnits_letter rfl cs
  · rw [h_units (by rw [h_cr]; rfl : c.toNat = 13) (by decide)]
    exact stringUnits_letter rfl cs
  · rw [h_units (by rw [h_tab]; rfl : c.toNat = 9) (by decide)]
    exact stringUnits_letter rfl cs
  · rw [h_units h_bs (by decide)]
    exact stringUnits_letter rfl cs
  · rw [h_units h_ff (by decide)]
    exact stringUnits_letter rfl cs
  · rw [h_units rfl (by omega)]
    exact stringUnits_plain h_quote h_slash h_plain.1 cs
  · rw [h_units rfl h_small]
    exact stringUnits_hex4 h_small cs
  · -- two units, one after the other
    have h_high : 0xd800 + (c.toNat - 0x10000) / 1024 < 0x10000 := by omega
    have h_low : 0xdc00 + (c.toNat - 0x10000) % 1024 < 0x10000 := by omega
    simp only [List.append_assoc, List.cons_append, List.nil_append]
    rw [stringUnits_hex4 h_high, stringUnits_hex4 h_low, units, if_neg h_small, Option.map_map]
    rfl

/-- The units of an escaped text are those of its characters. -/
theorem stringUnits_flatMap (s cs : List Char) :
    stringUnits (s.flatMap escape ++ '"' :: cs) = some (s.flatMap units, cs) := by
  induction s with
  | nil => rw [List.flatMap_nil, List.nil_append, stringUnits, List.flatMap_nil]
  | cons c s ih =>
    rw [List.flatMap_cons, List.append_assoc, stringUnits_escape, ih, Option.map_some,
      List.flatMap_cons]

theorem toList_quote (s : String) : (quote s).toList = '"' :: (s.toList.flatMap escape ++ ['"']) := by
  unfold quote
  simp

/-- **A string literal is read back.** -/
theorem stringBody_quote (s : String) (cs : List Char) :
    stringBody (s.toList.flatMap escape ++ '"' :: cs) = some (s, cs) := by
  rw [stringBody, stringUnits_flatMap, Option.map_some, joinUnits_flatMap, String.ofList_toList]

/-! ### Numbers -/

/-- The characters of numbers. -/
def numeric (c : Char) : Bool := c.isDigit || c = '.' || c = 'e' || c = 'E' || c = '+' || c = '-'

/-- No number goes on here. -/
def NumberEnds (rest : List Char) : Prop := ∀ c ∈ rest.head?, numeric c = false

/-- A reader of the front of a text that takes characters of numbers, and takes no more if
something else follows. -/
structure Front (f : List Char → List Char × List Char) : Prop where
  append : ∀ cs, (f cs).1 ++ (f cs).2 = cs
  numeric : ∀ cs, ∀ c ∈ (f cs).1, numeric c = true
  extend : ∀ {cs rest}, NumberEnds rest → f (cs ++ rest) = ((f cs).1, (f cs).2 ++ rest)

theorem spanDigits_eq (cs : List Char) :
    spanDigits cs = (cs.takeWhile Char.isDigit, cs.dropWhile Char.isDigit) :=
  List.span_eq_takeWhile_dropWhile Char.isDigit cs

/-- The digits at the front are taken off. -/
theorem spanDigits_front : Front spanDigits where
  append cs := by
    rw [spanDigits_eq]
    exact List.takeWhile_append_dropWhile
  numeric cs c h := by
    rw [spanDigits_eq] at h
    simp [Json.numeric, List.mem_takeWhile_imp h]
  extend {cs rest} h := by
    simp only [spanDigits_eq]
    induction cs with
    | nil =>
      cases rest with
      | nil => rfl
      | cons c rest =>
        -- what follows a number is no digit, or it would be part of it
        have h_c : c.isDigit = false := by
          have h_not := h c rfl
          simp only [Json.numeric, Bool.or_eq_false_iff] at h_not
          exact h_not.1.1.1.1.1
        simp [h_c]
    | cons c cs ih =>
      rw [Prod.mk.injEq] at ih
      cases h_c : c.isDigit <;> simp [h_c, ih.1, ih.2]

/-- The digits before the fraction. -/
def intPart (cs : List Char) : List Char × List Char :=
  match cs with
  | '0' :: r => (['0'], r)
  | _ => spanDigits cs

/-- A number that does not start with a zero is read by its digits. -/
theorem intPart_other {cs : List Char} (h : cs.head? ≠ some '0') : intPart cs = spanDigits cs := by
  unfold intPart
  split
  · exact absurd rfl h
  · rfl

/-- What ends a number is no character of it. -/
theorem NumberEnds.head_ne {rest : List Char} (h : NumberEnds rest) {c : Char}
    (h_c : numeric c = true) : rest.head? ≠ some c := by
  intro h_head
  rw [h c h_head] at h_c
  cases h_c

/-- What stands at the front of a text that something else follows. -/
theorem head_append_ne {cs rest : List Char} {c : Char} (h : cs.head? ≠ some c)
    (h' : rest.head? ≠ some c) : (cs ++ rest).head? ≠ some c := by
  cases cs with
  | nil => exact h'
  | cons d cs => exact h

/-- So is the part in front of the point. -/
theorem intPart_front : Front intPart where
  append cs := by
    unfold intPart
    split
    · rfl
    · exact spanDigits_front.append cs
  numeric cs := by
    unfold intPart
    split
    · simp [Json.numeric]
    · exact spanDigits_front.numeric cs
  extend {cs rest} h := by
    -- a zero stands alone, other digits go on
    by_cases h_zero : cs.head? = some '0'
    · obtain ⟨r, rfl⟩ := List.head?_eq_some_iff.mp h_zero
      rfl
    · have h_zero' := head_append_ne h_zero (h.head_ne (by decide))
      rw [intPart_other h_zero, intPart_other h_zero', spanDigits_front.extend h]

/-- A fraction needs a digit behind its dot. -/
theorem fraction_dot (r : List Char) :
    fraction ('.' :: r) =
      if (spanDigits r).1 = [] then ([], '.' :: r) else ('.' :: (spanDigits r).1, (spanDigits r).2) := by
  rw [fraction]
  split <;> simp_all

/-- Without a dot there is no fraction. -/
theorem fraction_other {cs : List Char} (h : cs.head? ≠ some '.') : fraction cs = ([], cs) := by
  unfold fraction
  split
  · exact absurd rfl h
  · rfl

/-- So is the fraction. -/
theorem fraction_front : Front fraction where
  append cs := by
    by_cases h_dot : cs.head? = some '.'
    · obtain ⟨r, rfl⟩ := List.head?_eq_some_iff.mp h_dot
      rw [fraction_dot]
      split_ifs
      · rfl
      · exact congrArg ('.' :: ·) (spanDigits_front.append r)
    · rw [fraction_other h_dot]
      rfl
  numeric cs := by
    by_cases h_dot : cs.head? = some '.'
    · obtain ⟨r, rfl⟩ := List.head?_eq_some_iff.mp h_dot
      rw [fraction_dot]
      split_ifs
      · simp
      · exact List.forall_mem_cons.mpr ⟨by decide, spanDigits_front.numeric r⟩
    · rw [fraction_other h_dot]
      simp
  extend {cs rest} h := by
    by_cases h_dot : cs.head? = some '.'
    · obtain ⟨r, rfl⟩ := List.head?_eq_some_iff.mp h_dot
      rw [List.cons_append, fraction_dot, fraction_dot, spanDigits_front.extend h]
      split_ifs <;> rfl
    · -- what follows the number begins with no dot, so none is found
      have h_dot' := head_append_ne h_dot (h.head_ne (by decide))
      rw [fraction_other h_dot, fraction_other h_dot']

/-- The sign of an exponent. -/
def exponentSign (r : List Char) : List Char × List Char :=
  match r with
  | '-' :: r' => (['-'], r')
  | '+' :: r' => (['+'], r')
  | _ => ([], r)

/-- So is the sign of the exponent. -/
theorem exponentSign_front : Front exponentSign where
  append r := by
    unfold exponentSign
    split <;> rfl
  numeric r := by
    unfold exponentSign
    split <;> simp [Json.numeric]
  extend {r rest} h := by
    cases r with
    | nil =>
      -- an empty front, and what follows is no sign either
      have h_minus := h.head_ne (c := '-') (by decide)
      have h_plus := h.head_ne (c := '+') (by decide)
      rw [List.nil_append]
      unfold exponentSign
      split
      · exact absurd rfl h_minus
      · exact absurd rfl h_plus
      · rfl
    | cons c r =>
      rw [List.cons_append]
      by_cases h_minus : c = '-'
      · subst h_minus
        rfl
      · -- neither sign: nothing is read, whatever follows
        by_cases h_plus : c = '+'
        · subst h_plus
          rfl
        · have h_none : ∀ r, exponentSign (c :: r) = ([], c :: r) := by
            intro r
            unfold exponentSign
            split
            · rename_i h_eq
              exact absurd (List.cons.inj h_eq).1 h_minus
            · rename_i h_eq
              exact absurd (List.cons.inj h_eq).1 h_plus
            · rfl
          rw [h_none, h_none]
          rfl

/-- An exponent needs a digit behind its sign. -/
theorem exponent_sign (e : Char) (r : List Char) :
    exponent (e :: r) =
      if e = 'e' ∨ e = 'E' then
        match exponentSign r with
        | (sgn, r') =>
          match spanDigits r' with
          | ([], _) => ([], e :: r)
          | (ds, r'') => (e :: (sgn ++ ds), r'')
      else ([], e :: r) := rfl

/-- An exponent: its letter, sign and digits. -/
theorem exponent_cons (e : Char) (r : List Char) :
    exponent (e :: r) =
      if e = 'e' ∨ e = 'E' then
        if (spanDigits (exponentSign r).2).1 = [] then ([], e :: r)
        else (e :: ((exponentSign r).1 ++ (spanDigits (exponentSign r).2).1),
          (spanDigits (exponentSign r).2).2)
      else ([], e :: r) := by
  rw [exponent_sign]
  rcases exponentSign r with ⟨sgn, r'⟩
  dsimp only
  rcases spanDigits r' with ⟨_ | ⟨d, ds⟩, r''⟩ <;> rfl

/-- An exponent begins with its letter and needs a digit. -/
theorem exponent_letter {e : Char} (h : e = 'e' ∨ e = 'E') (r : List Char) :
    exponent (e :: r) =
      if (spanDigits (exponentSign r).2).1 = [] then ([], e :: r)
      else (e :: ((exponentSign r).1 ++ (spanDigits (exponentSign r).2).1),
        (spanDigits (exponentSign r).2).2) := by
  rw [exponent_cons, if_pos h]

/-- Without its letter there is no exponent. -/
theorem exponent_other {cs : List Char} (h : ∀ e ∈ cs.head?, ¬ (e = 'e' ∨ e = 'E')) :
    exponent cs = ([], cs) := by
  cases cs with
  | nil => rfl
  | cons e r => rw [exponent_cons, if_neg (h e rfl)]

/-- The exponent is taken off the front. -/
theorem exponent_front : Front exponent where
  append cs := by
    by_cases h_letter : ∃ e ∈ cs.head?, e = 'e' ∨ e = 'E'
    · obtain ⟨e, h_head, h_e⟩ := h_letter
      obtain ⟨r, rfl⟩ := List.head?_eq_some_iff.mp h_head
      rw [exponent_letter h_e]
      split_ifs
      · rfl
      · rw [List.cons_append, List.append_assoc, spanDigits_front.append,
          exponentSign_front.append]
    · rw [exponent_other fun e h_head h_e => h_letter ⟨e, h_head, h_e⟩]
      rfl
  numeric cs := by
    by_cases h_letter : ∃ e ∈ cs.head?, e = 'e' ∨ e = 'E'
    · obtain ⟨e, h_head, h_e⟩ := h_letter
      obtain ⟨r, rfl⟩ := List.head?_eq_some_iff.mp h_head
      have h_numeric : numeric e = true := by
        rcases h_e with rfl | rfl <;> rfl
      rw [exponent_letter h_e]
      split_ifs
      · simp
      · exact List.forall_mem_cons.mpr ⟨h_numeric, List.forall_mem_append.mpr
          ⟨exponentSign_front.numeric r, spanDigits_front.numeric _⟩⟩
    · rw [exponent_other fun e h_head h_e => h_letter ⟨e, h_head, h_e⟩]
      simp
  extend {cs rest} h := by
    by_cases h_letter : ∃ e ∈ cs.head?, e = 'e' ∨ e = 'E'
    · obtain ⟨e, h_head, h_e⟩ := h_letter
      obtain ⟨r, rfl⟩ := List.head?_eq_some_iff.mp h_head
      rw [List.cons_append, exponent_letter h_e, exponent_letter h_e, exponentSign_front.extend h,
        spanDigits_front.extend h]
      split_ifs <;> rfl
    · -- no exponent starts here, nor with what follows
      have h_letter' : ∀ e ∈ (cs ++ rest).head?, ¬ (e = 'e' ∨ e = 'E') := by
        rintro e h_head (rfl | rfl)
        · exact head_append_ne (fun h_cs => h_letter ⟨'e', h_cs, .inl rfl⟩)
            (h.head_ne (by decide)) h_head
        · exact head_append_ne (fun h_cs => h_letter ⟨'E', h_cs, .inr rfl⟩)
            (h.head_ne (by decide)) h_head
      rw [exponent_other fun e h_head h_e => h_letter ⟨e, h_head, h_e⟩, exponent_other h_letter']

/-- A number after its sign. -/
def unsigned (neg : Bool) (cs : List Char) : Option (Json × List Char) :=
  let ds := intPart cs
  let f := fraction ds.2
  let e := exponent f.2
  if ds.1 = [] then none
  else if f.1 = [] ∧ e.1 = [] then
    some (.int (if neg then -(natOfDigits ds.1) else natOfDigits ds.1), e.2)
  else some (.float (String.ofList ((if neg then ['-'] else []) ++ ds.1 ++ f.1 ++ e.1)), e.2)

/-- The source's reading of a number is made of its three parts. -/
theorem unsigned_eq (neg : Bool) (cs : List Char) :
    (match intPart cs with
      | ([], _) => none
      | (ds, r) =>
        let (f, r) := fraction r
        let (e, r) := exponent r
        if f = [] ∧ e = [] then
          some (Json.int (if neg then -(natOfDigits ds) else natOfDigits ds), r)
        else some (.float (String.ofList ((if neg then ['-'] else []) ++ ds ++ f ++ e)), r)) =
      unsigned neg cs := by
  unfold unsigned
  rcases intPart cs with ⟨_ | ⟨d, ds⟩, r⟩ <;> rfl

theorem number_minus (r : List Char) : number ('-' :: r) = unsigned true r := unsigned_eq true r

/-- Without a minus sign the number is not negative. -/
theorem number_plain {cs : List Char} (h : cs.head? ≠ some '-') : number cs = unsigned false cs := by
  rw [← unsigned_eq]
  unfold number
  split
  rename_i h_sign
  split at h_sign
  · exact absurd rfl h
  · obtain ⟨rfl, rfl⟩ := Prod.mk.inj h_sign
    rfl

/-- What follows a number does not change it. -/
theorem unsigned_extend (neg : Bool) (cs : List Char) {rest : List Char} (h : NumberEnds rest) :
    unsigned neg (cs ++ rest) = (unsigned neg cs).map fun p => (p.1, p.2 ++ rest) := by
  unfold unsigned
  simp only [intPart_front.extend h, fraction_front.extend h, exponent_front.extend h]
  split_ifs <;> rfl

/-- **A number is read the same** when no number goes on after it. -/
theorem number_extend (cs : List Char) {rest : List Char} (h : NumberEnds rest) :
    number (cs ++ rest) = (number cs).map fun p => (p.1, p.2 ++ rest) := by
  by_cases h_minus : cs.head? = some '-'
  · obtain ⟨r, rfl⟩ := List.head?_eq_some_iff.mp h_minus
    rw [List.cons_append, number_minus, number_minus, unsigned_extend true r h]
  · have h_minus' := head_append_ne h_minus (h.head_ne (by decide))
    rw [number_plain h_minus, number_plain h_minus', unsigned_extend false cs h]

/-- What is read as a number has nothing but characters of numbers. -/
theorem unsigned_numeric {neg : Bool} {cs : List Char} {v : Json}
    (h : unsigned neg cs = some (v, [])) : ∀ c ∈ cs, numeric c = true := by
  have h_rest : (exponent (fraction (intPart cs).2).2).2 = [] := by
    unfold unsigned at h
    dsimp only at h
    split_ifs at h <;> exact congrArg Prod.snd (Option.some.inj h)
  have h_exponent := exponent_front.append (fraction (intPart cs).2).2
  rw [h_rest, List.append_nil] at h_exponent
  -- the three parts are the whole text
  have h_parts : (intPart cs).1 ++ ((fraction (intPart cs).2).1 ++
      (exponent (fraction (intPart cs).2).2).1) = cs := by
    rw [h_exponent, fraction_front.append, intPart_front.append]
  rw [← h_parts]
  exact List.forall_mem_append.mpr ⟨intPart_front.numeric cs, List.forall_mem_append.mpr
    ⟨fraction_front.numeric _, exponent_front.numeric _⟩⟩

/-- The characters of a text that is read as a number. -/
theorem number_numeric {cs : List Char} {v : Json} (h : number cs = some (v, [])) :
    ∀ c ∈ cs, numeric c = true := by
  by_cases h_minus : cs.head? = some '-'
  · obtain ⟨r, rfl⟩ := List.head?_eq_some_iff.mp h_minus
    rw [number_minus] at h
    exact List.forall_mem_cons.mpr ⟨by decide, unsigned_numeric h⟩
  · rw [number_plain h_minus] at h
    exact unsigned_numeric h

/-- Reading digits by hand is reading them in base ten. -/
theorem natOfDigits_eq (ds : List Char) : natOfDigits ds = Nat.ofDigitChars 10 ds 0 := by
  rw [Nat.ofDigitChars_eq_foldl, natOfDigits]
  congr 1
  funext n d
  rw [Nat.mul_comm]
  rfl

/-- Only zero is written with a zero in front. -/
theorem toDigits_head {n : ℕ} (h : 0 < n) : (Nat.toDigits 10 n).head? ≠ some '0' := by
  induction n using Nat.strongRecOn with
  | ind n ih =>
    by_cases h_small : n < 10
    · have h_all : ∀ n < 10, 0 < n → (Nat.toDigits 10 n).head? ≠ some '0' := by decide
      exact h_all n h_small h
    · rw [Nat.toDigits_of_base_le (by decide) (Nat.le_of_not_lt h_small),
        List.head?_append_of_ne_nil _ Nat.toDigits_ne_nil]
      exact ih (n / 10) (by omega) (by omega)

/-- A number written in digits is read as a whole. -/
theorem intPart_toDigits (n : ℕ) : intPart (Nat.toDigits 10 n) = (Nat.toDigits 10 n, []) := by
  by_cases h_zero : n = 0
  · subst h_zero
    rfl
  · rw [intPart_other (toDigits_head (Nat.pos_of_ne_zero h_zero)), spanDigits_eq,
      List.takeWhile_eq_self_iff.mpr (PyStr.toDigits_isDigit n),
      List.dropWhile_eq_nil_iff.mpr (PyStr.toDigits_isDigit n)]

/-- And gives back the number. -/
theorem unsigned_toDigits (neg : Bool) (n : ℕ) :
    unsigned neg (Nat.toDigits 10 n) = some (.int (if neg then -n else n), []) := by
  unfold unsigned
  rw [intPart_toDigits]
  dsimp only
  rw [if_neg Nat.toDigits_ne_nil, natOfDigits_eq, Nat.ofDigitChars_ten_toDigits]
  rfl

/-- **An integer is read back.** -/
theorem number_toString (n : ℤ) : number (toString n).toList = some (.int n, []) := by
  rw [PyStr.toList_toString]
  split_ifs with h_neg
  · -- the sign is written in front of the digits
    have h_abs : -(n.natAbs : ℤ) = n := by omega
    rw [number_minus, unsigned_toDigits, if_pos rfl, h_abs]
  · have h_abs : (n.natAbs : ℤ) = n := by omega
    -- no digit is a minus sign
    have h_digit : (Nat.toDigits 10 n.natAbs).head? ≠ some '-' := by
      intro h_head
      have h_minus := PyStr.toDigits_isDigit _ _ (List.mem_of_mem_head? h_head)
      revert h_minus
      decide
    rw [number_plain h_digit, unsigned_toDigits, if_neg Bool.false_ne_true, h_abs]

end Json
end Lib
