import NexusAgent.Skills.Store

/-!
# What a skill file gives back

The writer escapes the trigger as JSON, and the reader takes the quotes off and nothing else; the
reader cuts the file at the first two fences, wherever they stand.

* `stripBy_quote_iff`: the triggers that survive the quotes.
* `parse_written_iff`: the skills that are read back as they were written.
* `skillFiles_iff`: the skills of a store that are read back, and changed by searches in their
  counts only.
-/

open Lib

namespace Nexus.Skills

variable {table : CharTable}

/-! ### Names -/

/-- The characters of a name, by their codes. -/
theorem nameChar_iff {c : Char} : nameChar c = true ↔
    (97 ≤ c.toNat ∧ c.toNat ≤ 122) ∨ (48 ≤ c.toNat ∧ c.toNat ≤ 57) ∨ c = '_' ∨ c = '-' := by
  have h_nat : c.val.toNat = c.toNat := rfl
  simp only [nameChar, Char.isLower, Char.isDigit, Bool.or_eq_true, Bool.and_eq_true,
    decide_eq_true_eq, ge_iff_le, UInt32.le_iff_toNat_le, h_nat]
  have h_a : UInt32.toNat 97 = 97 := rfl
  simp only [or_assoc]
  rfl

/-- A normalized name consists of such characters. -/
theorem normalizeName_nameChar (table : CharTable) (name : String) :
    ∀ c ∈ (normalizeName table name).toList, nameChar c = true := by
  intro c h_c
  unfold normalizeName at h_c
  rw [String.toList_ofList] at h_c
  rcases Regex.mem_subFrom_many (List.mem_of_mem_take h_c) with h | h
  · simpa using h
  · obtain rfl := List.mem_singleton.mp h
    decide

/-- A character of a name is printable and no capital. -/
theorem nameChar_range {c : Char} (h : nameChar c = true) :
    (33 ≤ c.toNat ∧ c.toNat ≤ 126) ∧ ¬ (65 ≤ c.toNat ∧ c.toNat ≤ 90) := by
  rcases nameChar_iff.mp h with h | h | rfl | rfl
  · omega
  · omega
  · decide
  · decide

/-! ### Triggers -/

/-- A character a JSON string has as it is. -/
def PlainChar (c : Char) : Prop := 32 ≤ c.toNat ∧ c.toNat ≤ 126 ∧ c ≠ '"' ∧ c ≠ '\\'

/-- A character of a JSON text: ASCII and printable. -/
def Printable (c : Char) : Prop := 32 ≤ c.toNat ∧ c.toNat ≤ 126

instance (c : Char) : Decidable (PlainChar c) := inferInstanceAs (Decidable (_ ∧ _))

instance (c : Char) : Decidable (Printable c) := inferInstanceAs (Decidable (_ ∧ _))

/-- A plain character is written as it is. -/
theorem escape_of_plain {c : Char} (h : PlainChar c) : Json.escape c = [c] := by
  obtain ⟨h_low, h_high, h_quote, h_slash⟩ := h
  have h_ne : ∀ d : Char, d.toNat < 32 → c ≠ d := by
    rintro d h_d rfl
    exact absurd h_low (not_le.mpr h_d)
  unfold Json.escape
  simp only
  rw [if_neg h_quote, if_neg h_slash, if_neg (h_ne _ (by decide)), if_neg (h_ne _ (by decide)),
    if_neg (h_ne _ (by decide)), if_neg (by omega), if_neg (by omega), if_pos ⟨h_low, h_high⟩]

/-- The backslashes of a text. -/
def backslashes (cs : List Char) : ℕ := cs.countP (· = '\\')

/-- An escape has one more backslash than what it stands for. -/
theorem backslashes_escape {c : Char} (h : ¬ PlainChar c) :
    backslashes [c] < backslashes (Json.escape c) := by
  by_cases h_slash : c = '\\'
  · subst h_slash
    decide
  · have h_zero : backslashes [c] = 0 := by simp [backslashes, h_slash]
    -- every escape begins with a backslash
    have h_first : ∃ rest, Json.escape c = '\\' :: rest := by
      unfold Json.escape
      simp only
      split_ifs with h_quote _ _ _ _ _ h_plain
      · exact ⟨_, rfl⟩
      · exact ⟨_, rfl⟩
      · exact ⟨_, rfl⟩
      · exact ⟨_, rfl⟩
      · exact ⟨_, rfl⟩
      · exact ⟨_, rfl⟩
      · exact absurd ⟨h_plain.1, h_plain.2, h_quote, h_slash⟩ h
      · exact ⟨_, rfl⟩
      · exact ⟨_, rfl⟩
    obtain ⟨rest, h_rest⟩ := h_first
    rw [h_zero, h_rest]
    simp [backslashes]

theorem backslashes_append (cs ds : List Char) :
    backslashes (cs ++ ds) = backslashes cs + backslashes ds := List.countP_append ..

/-- Escaping takes no backslash away. -/
theorem backslashes_le (cs : List Char) : backslashes cs ≤ backslashes (cs.flatMap Json.escape) := by
  induction cs with
  | nil => exact le_rfl
  | cons c cs ih =>
    rw [List.flatMap_cons, ← List.singleton_append, backslashes_append, backslashes_append]
    have h_c : backslashes [c] ≤ backslashes (Json.escape c) := by
      by_cases h : PlainChar c
      · rw [escape_of_plain h]
      · exact (backslashes_escape h).le
    omega

/-- A text whose escapes add no backslash has no escapes. -/
theorem plain_of_backslashes {cs : List Char}
    (h : backslashes cs = backslashes (cs.flatMap Json.escape)) : ∀ c ∈ cs, PlainChar c := by
  -- by induction on the characters: an escape adds a backslash, which no other one takes away
  induction cs with
  | nil => exact List.forall_mem_nil _
  | cons c cs ih =>
    rw [List.flatMap_cons, ← List.singleton_append, backslashes_append, backslashes_append] at h
    have h_rest := backslashes_le cs
    by_cases h_c : PlainChar c
    · rw [escape_of_plain h_c] at h
      exact List.forall_mem_cons.mpr ⟨h_c, ih (by omega)⟩
    · have h_more := backslashes_escape h_c
      omega

/-- Plain text is escaped to itself. -/
theorem flatMap_escape_of_plain {cs : List Char} (h : ∀ c ∈ cs, PlainChar c) :
    cs.flatMap Json.escape = cs := by
  induction cs with
  | nil => rfl
  | cons c cs ih =>
    rw [List.forall_mem_cons] at h
    rw [List.flatMap_cons, escape_of_plain h.1, ih h.2, List.singleton_append]

theorem toList_quote (s : String) :
    (Json.quote s).toList = ['"'] ++ (s.toList.flatMap Json.escape ++ ['"']) := by
  simp [Json.quote]

/-- Where there is no double quote, the quotes at the ends are single ones. -/
theorem stripped_quote_iff {cs : List Char} (h : ∀ c ∈ cs, PlainChar c) :
    PyStr.Stripped isQuote cs ↔ PyStr.Stripped (· = '\'') cs := by
  have h_same : ∀ c ∈ cs, isQuote c = false ↔ decide (c = '\'') = false := by
    intro c h_c
    have h_double : c ≠ '"' := (h c h_c).2.2.1
    simp [isQuote, h_double]
  unfold PyStr.Stripped
  refine and_congr ?_ ?_
  · exact forall₂_congr fun c h_c => h_same c (List.mem_of_mem_head? h_c)
  · exact forall₂_congr fun c h_c => h_same c (List.mem_reverse.mp (List.mem_of_mem_head? h_c))

/-- **A trigger without its quotes** is the trigger exactly if nothing in it was escaped and it has
no quotes of its own at its ends. -/
theorem stripBy_quote_iff {trigger : String} :
    PyStr.stripBy isQuote (Json.quote trigger).toList = trigger.toList ↔
      (∀ c ∈ trigger.toList, PlainChar c) ∧ PyStr.Stripped (· = '\'') trigger.toList := by
  rw [toList_quote]
  constructor
  · intro h
    -- stripping takes no backslash, so the escapes have to be those of the text
    have h_count : backslashes trigger.toList = backslashes (trigger.toList.flatMap Json.escape) := by
      have h_quotes : ∀ c, isQuote c = true → decide (c = '\\') = false := by
        intro c h_c
        rw [decide_eq_false_iff_not]
        rintro rfl
        revert h_c
        decide
      have h_strip := PyStr.countP_stripBy h_quotes
        (['"'] ++ (trigger.toList.flatMap Json.escape ++ ['"']))
      rw [h, List.countP_append, List.countP_append] at h_strip
      unfold backslashes
      rw [h_strip]
      simp
    have h_plain := plain_of_backslashes h_count
    refine ⟨h_plain, (stripped_quote_iff h_plain).mp ?_⟩
    rw [← h]
    exact PyStr.stripped_stripBy _
  · rintro ⟨h_plain, h_ends⟩
    rw [flatMap_escape_of_plain h_plain]
    exact PyStr.stripBy_surrounded (by decide) (by decide) ((stripped_quote_iff h_plain).mpr h_ends)

/-- A JSON string is printable. -/
theorem printable_quote (s : String) : ∀ c ∈ (Json.quote s).toList, Printable c := by
  have h_digit : ∀ n : ℕ, Printable (Nat.digitChar (n % 16)) := by
    intro n
    have h_all : ∀ m < 16, Printable (Nat.digitChar m) := by decide
    exact h_all _ (Nat.mod_lt n (by decide))
  have h_hex : ∀ n : ℕ, ∀ c ∈ Json.hex4 n, Printable c := by
    intro n c h_c
    simp only [Json.hex4, List.map_cons, List.map_nil, List.mem_cons, List.not_mem_nil,
      or_false] at h_c
    rcases h_c with rfl | rfl | rfl | rfl <;> exact h_digit _
  -- a character is escaped by a letter or by its digits, or is printable itself
  have h_escape : ∀ c, ∀ d ∈ Json.escape c, Printable d := by
    intro c
    unfold Json.escape
    simp only
    split_ifs with _ _ _ _ _ _ _ h_plain
    · decide
    · decide
    · decide
    · decide
    · decide
    · decide
    · decide
    · simpa [Printable] using h_plain
    · exact List.forall_mem_append.mpr ⟨by decide, h_hex _⟩
    · refine List.forall_mem_append.mpr ⟨List.forall_mem_append.mpr ⟨List.forall_mem_append.mpr
        ⟨by decide, h_hex _⟩, by decide⟩, h_hex _⟩
  rw [toList_quote]
  refine List.forall_mem_append.mpr ⟨by decide, List.forall_mem_append.mpr ⟨?_, by decide⟩⟩
  intro d h_d
  obtain ⟨c, -, h_d⟩ := List.mem_flatMap.mp h_d
  exact h_escape c d h_d

/-! ### The front matter -/

/-- A key and a value on a line. -/
def field (k v : String) : List Char := k.toList ++ (':' :: ' ' :: v.toList)

/-- `str(enabled).lower()`. -/
def enabledText (enabled : Bool) : String := if enabled then "true" else "false"

/-- A text without white space and quotes. -/
def Solid (v : String) : Prop :=
  ∀ c ∈ v.toList, PyStr.isSpace c = false ∧ PyStr.isLineBreak c = false ∧ isQuote c = false

/-- A value that is read as it stands on its line. -/
structure OnLine (v : String) : Prop where
  unbroken : ∀ c ∈ v.toList, PyStr.isLineBreak c = false
  stripped : PyStr.Stripped PyStr.isSpace v.toList

theorem Solid.onLine {v : String} (h : Solid v) : OnLine v where
  unbroken c h_c := (h c h_c).2.1
  stripped := PyStr.stripped_of_forall fun c h_c => (h c h_c).1

/-- A solid value keeps its ends when the quotes are taken off. -/
theorem Solid.stripBy_isQuote {v : String} (h : Solid v) :
    String.ofList (PyStr.stripBy isQuote v.toList) = v := by
  have h_ends : PyStr.Stripped isQuote v.toList := PyStr.stripped_of_forall fun c h_c => (h c h_c).2.2
  rw [PyStr.stripBy_eq_self h_ends, String.ofList_toList]

/-- A character between the exclamation mark and the tilde that is no quote. -/
theorem solid_of_range {v : String}
    (h : ∀ c ∈ v.toList, (33 ≤ c.toNat ∧ c.toNat ≤ 126) ∧ isQuote c = false) : Solid v := by
  intro c h_c
  obtain ⟨h_range, h_quote⟩ := h c h_c
  refine ⟨?_, ?_, h_quote⟩
  · -- no blank
    rw [Bool.eq_false_iff]
    intro h_space
    simp only [PyStr.isSpace, Bool.or_eq_true, Bool.and_eq_true, decide_eq_true_eq] at h_space
    omega
  · -- no line break
    rw [Bool.eq_false_iff]
    intro h_break
    simp only [PyStr.isLineBreak, Bool.or_eq_true, Bool.and_eq_true, decide_eq_true_eq] at h_break
    omega

/-- A normalized name is solid. -/
theorem solid_name {name : String} (h : ∀ c ∈ name.toList, nameChar c = true) : Solid name := by
  refine solid_of_range fun c h_c => ⟨(nameChar_range (h c h_c)).1, ?_⟩
  rw [Bool.eq_false_iff]
  intro h_quote
  rw [isQuote, Bool.or_eq_true, decide_eq_true_iff, decide_eq_true_iff] at h_quote
  have h_char := h c h_c
  rcases h_quote with rfl | rfl <;> exact absurd h_char (by decide)

/-- A normalized name is not normalized further. -/
theorem normalizeName_normalizeName (table : CharTable) (name : String) :
    normalizeName table (normalizeName table name) = normalizeName table name := by
  have h := normalizeName_nameChar table name
  have h_length : (normalizeName table name).toList.length ≤ 200 := by
    unfold normalizeName
    rw [String.toList_ofList]
    exact List.length_take_le 200 _
  generalize normalizeName table name = n at h h_length
  have h_strip : PyStr.strip n = n := by
    rw [PyStr.strip_eq_stripBy, PyStr.stripBy_eq_self (solid_name h).onLine.stripped,
      String.ofList_toList]
  -- the characters of names are ASCII and have no capitals
  have h_lower : table.lower n = n := by
    have h_ascii : ∀ c ∈ n.toList, c.toNat < 128 := fun c h_c =>
      Nat.lt_of_le_of_lt (nameChar_range (h c h_c)).1.2 (by decide)
    have h_same : ∀ c ∈ n.toList, c.toLower = c := by
      intro c h_c
      unfold Char.toLower
      refine dif_neg fun h_upper => (nameChar_range (h c h_c)).2 ⟨?_, ?_⟩
      · exact UInt32.le_iff_toNat_le.mp h_upper.1
      · exact UInt32.le_iff_toNat_le.mp h_upper.2
    rw [table.lower_ascii n h_ascii, asciiLower, List.map_congr_left h_same, List.map_id',
      String.ofList_toList]
  -- neither of the two characters that are replaced is one of a name
  have h_replace : ∀ c : Char, nameChar c = false → ∀ new : String,
      PyStr.replace (String.singleton c) new n = n := by
    intro c h_c new
    have h_not : c ∉ n.toList := by
      intro h_mem
      rw [h c h_mem] at h_c
      cases h_c
    have h_self := @PyStr.replaceFrom_append_of_notMem (String.singleton c).toList new.toList c
      ⟨[], by simp, by simp⟩ n.toList [] h_not
    rw [List.append_nil] at h_self
    unfold PyStr.replace
    rw [h_self, PyStr.replaceFrom, List.append_nil, String.ofList_toList]
  -- and so nothing is left to clean
  have h_clean : ¬ Regex.Occurs (.many (fun c => !nameChar c) 1 none false) n.toList :=
    Regex.not_occurs_many fun c h_c => by rw [h c h_c]; rfl
  have h_sub : Regex.sub (.many (fun c => !nameChar c) 1 none false) ['_'] n.toList = n.toList :=
    Regex.subFrom_eq_self h_clean
  have h_blank : PyStr.replace " " "_" n = n := h_replace ' ' (by decide) "_"
  have h_slash : PyStr.replace "/" "__" n = n := h_replace '/' (by decide) "__"
  unfold normalizeName
  simp only
  rw [h_strip, h_lower, h_blank, h_slash, h_sub, List.take_of_length_le h_length,
    String.ofList_toList]

/-- The characters of a written number. -/
theorem toString_chars (n : ℤ) : ∀ c ∈ (toString n).toList, c = '-' ∨ c.isDigit = true := by
  rw [PyStr.toList_toString]
  split_ifs
  · exact List.forall_mem_cons.mpr ⟨.inl rfl, fun c h_c => .inr (PyStr.toDigits_isDigit _ c h_c)⟩
  · exact fun c h_c => .inr (PyStr.toDigits_isDigit _ c h_c)

/-- A number in digits is solid. -/
theorem solid_toString (n : ℤ) : Solid (toString n) := by
  refine solid_name fun c h_c => ?_
  rcases toString_chars n c h_c with rfl | h_digit
  · decide
  · simp [nameChar, h_digit]

theorem solid_source (source : SkillSource) : Solid source.value := by
  cases source <;> exact solid_name (by decide)

theorem solid_enabledText (enabled : Bool) : Solid (enabledText enabled) := by
  cases enabled <;> exact solid_name (by decide)

/-- A quoted text stays on its line. -/
theorem onLine_quote (s : String) : OnLine (Json.quote s) where
  unbroken c h_c := by
    -- what is quoted is printable
    have h_range := printable_quote s c h_c
    rw [Bool.eq_false_iff]
    intro h_break
    simp only [PyStr.isLineBreak, Bool.or_eq_true, Bool.and_eq_true, decide_eq_true_eq] at h_break
    obtain ⟨h_low, h_high⟩ := h_range
    omega
  stripped := by
    rw [toList_quote]
    -- it starts and ends with a quote, which is no blank
    constructor
    · intro c h_c
      obtain rfl := Option.some.inj h_c
      decide
    · intro c h_c
      rw [List.reverse_append, List.reverse_append] at h_c
      obtain rfl := Option.some.inj h_c
      decide

/-- A line, cut at its colon. -/
theorem cut_colon {k : List Char} (h : ':' ∉ k) (v : List Char) :
    PyStr.cut [':'] (k ++ ':' :: v) = some (k, v) := by
  refine PyStr.cut_append (by decide) k v fun u h_u h_ne h_left => ?_
  obtain ⟨c, u, rfl⟩ := List.exists_cons_of_ne_nil h_ne
  rw [List.cons_append, List.cons_prefix_cons] at h_left
  exact h (h_u.subset (h_left.1 ▸ List.mem_cons_self))

/-- **A line read back.** -/
theorem addLine_field {k v : String} (h_colon : ':' ∉ k.toList) (h_k : Solid k) (h_v : OnLine v)
    (front : Dict String String) :
    addLine front (field k v) =
      Dict.set front k (String.ofList (PyStr.stripBy isQuote v.toList)) := by
  -- the blank before the value is stripped
  have h_value : PyStr.stripBy PyStr.isSpace (' ' :: v.toList) = v.toList := by
    have h_one := @PyStr.stripBy_surrounded PyStr.isSpace [' '] v.toList [] (by decide) (by simp)
      h_v.stripped
    rwa [List.append_nil] at h_one
  unfold addLine field
  rw [cut_colon h_colon]
  simp only
  rw [h_value, PyStr.stripBy_eq_self h_k.onLine.stripped, String.ofList_toList]

/-- The last character of a text is that of its end. -/
theorem head?_reverse_of_suffix {u v : List Char} (h : u ≠ []) (h_suffix : u <:+ v) :
    v.reverse.head? = u.reverse.head? := by
  obtain ⟨t, rfl⟩ := h_suffix
  obtain ⟨c, rest, h_eq⟩ : ∃ c rest, u.reverse = c :: rest :=
    List.exists_cons_of_ne_nil (by simpa using h)
  rw [List.reverse_append, h_eq]
  rfl

theorem suffix_field (k v : String) : v.toList <:+ field k v :=
  ((List.suffix_cons ' ' _).trans (List.suffix_cons ':' _)).trans (List.suffix_append k.toList _)

theorem suffix_line {u w : List Char} (k v : String) (h : u <:+ w) :
    u <:+ field k v ++ '\n' :: w :=
  (h.trans (List.suffix_cons '\n' w)).trans (List.suffix_append (field k v) _)

/-- The front matter line by line. -/
theorem toList_writtenFront (s : SkillRecord) :
    (writtenFront s).toList =
      ['\n'] ++ ((field "name" s.name ++ '\n' :: (field "trigger" (Json.quote s.trigger) ++
        '\n' :: (field "source" s.source.value ++ '\n' :: (field "enabled" (enabledText s.enabled) ++
          '\n' :: field "use_count" (toString s.useCount))))) ++ ['\n']) := by
  simp [writtenFront, field, enabledText, Json.dumps, String.toList_append]

/-- **The front matter read back**: the trigger without its quotes, everything else as it was. -/
theorem frontMatter_writtenFront {s : SkillRecord} (h : ∀ c ∈ s.name.toList, nameChar c = true) :
    frontMatter (writtenFront s).toList =
      [("name", s.name),
        ("trigger", String.ofList (PyStr.stripBy isQuote (Json.quote s.trigger).toList)),
        ("source", s.source.value), ("enabled", enabledText s.enabled),
        ("use_count", toString s.useCount)] := by
  have h_line : ∀ {k v : String}, Solid k → OnLine v →
      ∀ c ∈ field k v, PyStr.isLineBreak c = false := by
    intro k v h_k h_v
    refine List.forall_mem_append.mpr ⟨h_k.onLine.unbroken, ?_⟩
    exact List.forall_mem_cons.mpr ⟨by decide, List.forall_mem_cons.mpr ⟨by decide, h_v.unbroken⟩⟩
  have h_key : ∀ k ∈ ["name", "trigger", "source", "enabled", "use_count"],
      ':' ∉ k.toList ∧ Solid k := by
    intro k h_k
    have h_plain : ∀ k ∈ ["name", "trigger", "source", "enabled", "use_count"],
        ':' ∉ k.toList ∧ ∀ c ∈ k.toList, nameChar c = true := by decide
    exact ⟨(h_plain k h_k).1, solid_name (h_plain k h_k).2⟩
  have h_name := solid_name h
  have h_trigger := onLine_quote s.trigger
  have h_source := solid_source s.source
  have h_enabled := solid_enabledText s.enabled
  have h_count := solid_toString s.useCount
  unfold frontMatter
  rw [toList_writtenFront, PyStr.stripBy_surrounded (by decide) (by decide),
    PyStr.splitlines_line (h_line (h_key "name" (by decide)).2 h_name.onLine),
    PyStr.splitlines_line (h_line (h_key "trigger" (by decide)).2 h_trigger),
    PyStr.splitlines_line (h_line (h_key "source" (by decide)).2 h_source.onLine),
    PyStr.splitlines_line (h_line (h_key "enabled" (by decide)).2 h_enabled.onLine),
    PyStr.splitlines_last (h_line (h_key "use_count" (by decide)).2 h_count.onLine)
      (by simp [field])]
  · simp only [List.foldl_cons, List.foldl_nil]
    rw [addLine_field (h_key "name" (by decide)).1 (h_key "name" (by decide)).2 h_name.onLine,
      addLine_field (h_key "trigger" (by decide)).1 (h_key "trigger" (by decide)).2 h_trigger,
      addLine_field (h_key "source" (by decide)).1 (h_key "source" (by decide)).2 h_source.onLine,
      addLine_field (h_key "enabled" (by decide)).1 (h_key "enabled" (by decide)).2 h_enabled.onLine,
      addLine_field (h_key "use_count" (by decide)).1 (h_key "use_count" (by decide)).2
        h_count.onLine,
      h_name.stripBy_isQuote, h_source.stripBy_isQuote, h_enabled.stripBy_isQuote,
      h_count.stripBy_isQuote]
    simp [Dict.set]
  · -- the lines begin with a key and end with a digit
    constructor
    · intro c h_c
      obtain rfl := Option.some.inj h_c
      decide
    · have h_digits : (toString s.useCount).toList ≠ [] := by
        rw [PyStr.toList_toString]
        split_ifs
        · exact List.cons_ne_nil _ _
        · exact Nat.toDigits_ne_nil
      have h_suffix := suffix_line "name" s.name <| suffix_line "trigger" (Json.quote s.trigger) <|
        suffix_line "source" s.source.value <| suffix_line "enabled" (enabledText s.enabled) <|
        suffix_field "use_count" (toString s.useCount)
      intro c h_c
      rw [head?_reverse_of_suffix h_digits h_suffix] at h_c
      exact (h_count c (List.mem_reverse.mp (List.mem_of_mem_head? h_c))).1

/-! ### Files -/

/-- The fence between the front matter and the body. -/
def fence : List Char := "---".toList

theorem fence_ne_nil : fence ≠ [] := by decide

/-- The body of a file as it is read, its lines ended by line feeds. -/
def bodyOf (s : SkillRecord) : List Char :=
  PyStr.universalNewlines (PyStr.strip s.content).toList

/-- What stands after the second fence. -/
def written₂ (s : SkillRecord) : List Char := ['\n', '\n'] ++ (bodyOf s ++ ['\n'])

theorem stripped_strip (v : String) : PyStr.Stripped PyStr.isSpace (PyStr.strip v).toList := by
  rw [PyStr.strip_eq_stripBy, String.toList_ofList]
  exact PyStr.stripped_stripBy _

/-- The written front matter has no carriage return. -/
theorem return_notMem_writtenFront {s : SkillRecord} (h : ∀ c ∈ s.name.toList, nameChar c = true) :
    '\r' ∉ (writtenFront s).toList := by
  -- nothing that stays on its line has one
  have h_value : ∀ {v : String}, OnLine v → '\r' ∉ v.toList := by
    intro v h_v h_mem
    exact absurd (h_v.unbroken _ h_mem) (by decide)
  have h_name := h_value (solid_name h).onLine
  have h_trigger := h_value (onLine_quote s.trigger)
  have h_source := h_value (solid_source s.source).onLine
  have h_enabled := h_value (solid_enabledText s.enabled).onLine
  have h_count := h_value (solid_toString s.useCount).onLine
  rw [toList_writtenFront]
  generalize toString s.useCount = count at h_count ⊢
  simp [field, h_name, h_trigger, h_source, h_enabled, h_count]

/-- **A file as it is read.** -/
theorem universalNewlines_written {s : SkillRecord} (h : ∀ c ∈ s.name.toList, nameChar c = true) :
    PyStr.universalNewlines (written s).toList =
      fence ++ ((writtenFront s).toList ++ (fence ++ written₂ s)) := by
  -- the only carriage returns are those of the content
  have h_text : (written s).toList = (fence ++ ((writtenFront s).toList ++ (fence ++ ['\n', '\n']))) ++
      ((PyStr.strip s.content).toList ++ ['\n']) := by
    simp [written, fence, String.toList_append]
  have h_before : '\r' ∉ fence ++ ((writtenFront s).toList ++ (fence ++ ['\n', '\n'])) := by
    have h_front := return_notMem_writtenFront h
    simp [fence, h_front]
  -- and it does not end in one
  have h_last : ∀ c ∈ (PyStr.strip s.content).toList.reverse.head?, c ≠ '\r' := by
    rintro c h_c rfl
    exact absurd ((stripped_strip s.content).2 _ h_c) (by decide)
  rw [h_text, PyStr.universalNewlines_append h_before, PyStr.universalNewlines_concat h_last]
  simp [written₂, bodyOf]

/-- A file, cut after its first fence. -/
theorem parse_of_cut {folder : String} {s : SkillRecord}
    (h : ∀ c ∈ s.name.toList, nameChar c = true) {front body : List Char}
    (h_cut : PyStr.cut fence ((writtenFront s).toList ++ (fence ++ written₂ s)) =
      some (front, body)) :
    parse table folder (written s) = skillOf table folder (frontMatter front)
      (String.ofList (PyStr.stripBy PyStr.isSpace body)) := by
  -- the text splits at the first two fences
  have h_split : PyStr.splitMax fence 2 (PyStr.universalNewlines (written s).toList) =
      [[], front, body] := by
    rw [universalNewlines_written h, PyStr.splitMax, PyStr.cut_prefix fence_ne_nil]
    simp only [PyStr.splitMax, h_cut]
  unfold parse
  simp only
  unfold fence at h_split
  rw [h_split]
  simp only [if_true]

/-- With no fence in the front matter the file is cut where it was written. -/
theorem cut_written {s : SkillRecord} (h : ¬ fence <:+: (writtenFront s).toList) (rest : List Char) :
    PyStr.cut fence ((writtenFront s).toList ++ (fence ++ rest)) =
      some ((writtenFront s).toList, rest) := by
  refine PyStr.cut_append fence_ne_nil _ _ fun v h_v h_ne h_fence => ?_
  rcases List.prefix_or_prefix_of_prefix h_fence (List.prefix_append v _) with h_in | h_over
  · exact h (h_in.isInfix.trans h_v.isInfix)
  · -- what is left of the front matter ends its line
    have h_end : '\n' ∈ v.reverse.head? := by
      have h_front : (writtenFront s).toList.reverse.head? = some '\n' := by
        rw [toList_writtenFront]
        simp
      rw [← head?_reverse_of_suffix h_ne h_v, h_front]
      rfl
    have h_mem : '\n' ∈ fence := h_over.subset (List.mem_reverse.mp (List.mem_of_mem_head? h_end))
    exact absurd h_mem (by decide)

/-- A written number has one hyphen at most. -/
theorem hyphens_toString (n : ℤ) : (toString n).toList.countP (· = '-') ≤ 2 := by
  -- no digit is a hyphen
  have h_zero : (Nat.toDigits 10 n.natAbs).countP (· = '-') = 0 := by
    rw [List.countP_eq_zero]
    intro c h_c h_hyphen
    rw [decide_eq_true_iff] at h_hyphen
    subst h_hyphen
    exact absurd (PyStr.toDigits_isDigit _ _ h_c) (by decide)
  rw [PyStr.toList_toString]
  -- a negative number starts with the only one
  split_ifs
  · rw [List.countP_cons, h_zero]
    decide
  · rw [h_zero]
    exact Nat.zero_le 2

/-- The front matter of a skill whose trigger has no escapes has no fence in it exactly if the name
and the trigger have none. -/
theorem fence_writtenFront {s : SkillRecord} (h_trigger : ∀ c ∈ s.trigger.toList, PlainChar c) :
    fence <:+: (writtenFront s).toList ↔
      fence <:+: s.name.toList ∨ fence <:+: s.trigger.toList := by
  have h_quoted : (Json.quote s.trigger).toList = ['"'] ++ (s.trigger.toList ++ ['"']) := by
    rw [toList_quote, flatMap_escape_of_plain h_trigger]
  have h_not_nil : ¬ fence <:+: [] := by decide
  rw [toList_writtenFront]
  constructor
  · intro h
    -- the fence stands in none of the keys and in no other value
    have h_line : ∀ {k v : String}, ¬ fence <:+: k.toList → fence <:+: field k v →
        fence <:+: v.toList := by
      intro k v h_k h_in
      rcases PyStr.infix_append_cons h_in (by decide) with h_key | h_value
      · exact absurd h_key h_k
      · have h_space : fence <:+: [] ++ ' ' :: v.toList := h_value
        exact (PyStr.infix_append_cons h_space (by decide)).resolve_left h_not_nil
    have h_lines : ∀ {k v : String} {w : List Char}, ¬ fence <:+: k.toList →
        fence <:+: field k v ++ '\n' :: w → fence <:+: v.toList ∨ fence <:+: w := fun h_k h_in =>
      (PyStr.infix_append_cons h_in (by decide)).imp_left (h_line h_k)
    have h_few : ∀ {v : String}, v.toList.countP (· = '-') ≤ 2 → ¬ fence <:+: v.toList := by
      intro v h_v h_in
      have h_count := h_in.sublist.countP_le (p := fun c => decide (c = '-'))
      have h_three : fence.countP (· = '-') = 3 := by decide
      omega
    have h_start : fence <:+: [] ++ '\n' :: ((field "name" s.name ++ '\n' ::
        (field "trigger" (Json.quote s.trigger) ++ '\n' :: (field "source" s.source.value ++
          '\n' :: (field "enabled" (enabledText s.enabled) ++
            '\n' :: field "use_count" (toString s.useCount))))) ++ '\n' :: []) := h
    have h_inner := (PyStr.infix_append_cons ((PyStr.infix_append_cons h_start
      (by decide)).resolve_left h_not_nil) (by decide)).resolve_right h_not_nil
    rcases h_lines (by decide) h_inner with h_name | h_inner
    · exact .inl h_name
    rcases h_lines (by decide) h_inner with h_text | h_inner
    · rw [h_quoted] at h_text
      have h_text' : fence <:+: [] ++ '"' :: (s.trigger.toList ++ '"' :: []) := h_text
      exact .inr ((PyStr.infix_append_cons ((PyStr.infix_append_cons h_text'
        (by decide)).resolve_left h_not_nil) (by decide)).resolve_right h_not_nil)
    rcases h_lines (by decide) h_inner with h_source | h_inner
    · exact absurd h_source (h_few (by cases s.source <;> decide))
    rcases h_lines (by decide) h_inner with h_enabled | h_inner
    · exact absurd h_enabled (h_few (by cases s.enabled <;> decide))
    exact absurd (h_line (by decide) h_inner) (h_few (hyphens_toString s.useCount))
  · have h_field : ∀ k v : String, v.toList <:+: field k v := fun k v => (suffix_field k v).isInfix
    rintro (h_name | h_text)
    · refine (h_name.trans (h_field "name" s.name)).trans ⟨['\n'], ?_, ?_⟩
      rotate_left
      · simp only [List.append_assoc]
        rfl
    · have h_value : s.trigger.toList <:+: (Json.quote s.trigger).toList :=
        ⟨['"'], ['"'], by rw [h_quoted, List.append_assoc]⟩
      refine ((h_text.trans h_value).trans (h_field "trigger" _)).trans
        ⟨['\n'] ++ (field "name" s.name ++ ['\n']), ?_, ?_⟩
      rotate_left
      · simp only [List.append_assoc, List.cons_append, List.nil_append]
        rfl

/-! ### What is read back -/

theorem ofValue_value (source : SkillSource) : SkillSource.ofValue source.value = some source := by
  cases source <;> decide

/-- The flag is read back. -/
theorem lower_enabledText (table : CharTable) (enabled : Bool) :
    decide (table.lower (enabledText enabled) ≠ "false") = enabled := by
  have h_ascii : ∀ c ∈ (enabledText enabled).toList, c.toNat < 128 := by
    cases enabled <;> decide
  rw [table.lower_ascii _ h_ascii]
  cases enabled <;> decide

/-- The record of a front matter with all five keys. -/
theorem skillOf_fields {folder name trigger body : String} {source : SkillSource} {enabled : Bool}
    {useCount : ℤ} :
    skillOf table folder [("name", name), ("trigger", trigger), ("source", source.value),
        ("enabled", enabledText enabled), ("use_count", toString useCount)] body =
      some {
        name := (truthy (some name)).getD folder
        trigger := trigger
        content := body
        source := source
        enabled := enabled
        useCount := useCount } := by
  -- the count is read back
  have h_count : PyStr.pyInt (PyStr.stripBy PyStr.isSpace (toString useCount).toList) =
      some useCount := by
    rw [PyStr.stripBy_eq_self (solid_toString useCount).onLine.stripped, PyStr.pyInt_repr]
  -- and so is the flag
  have h_enabled := lower_enabledText table enabled
  generalize toString useCount = count at h_count ⊢
  unfold skillOf
  simp only [Dict.get?, String.reduceEq, if_false, if_true, Option.getD_some, ofValue_value, h_count,
    h_enabled, Option.bind_eq_bind, Option.bind_some, Option.pure_def]

/-- **A file with no fence in its front matter**: the trigger loses its quotes and the content its
white space. -/
theorem parse_of_no_fence {folder : String} {s : SkillRecord}
    (h : ∀ c ∈ s.name.toList, nameChar c = true) (h_fence : ¬ fence <:+: (writtenFront s).toList) :
    parse table folder (written s) =
      some { s with
        name := (truthy (some s.name)).getD folder
        trigger := String.ofList (PyStr.stripBy isQuote (Json.quote s.trigger).toList)
        content := String.ofList (PyStr.stripBy PyStr.isSpace (written₂ s)) } := by
  rw [parse_of_cut h (cut_written h_fence _), frontMatter_writtenFront h, skillOf_fields]

/-- Without a carriage return the body is the content. -/
theorem body_of_no_return {s : SkillRecord} (h : '\r' ∉ (PyStr.strip s.content).toList) :
    String.ofList (PyStr.stripBy PyStr.isSpace (written₂ s)) = PyStr.strip s.content := by
  unfold written₂ bodyOf
  rw [PyStr.universalNewlines_eq_self h, PyStr.stripBy_surrounded (by decide) (by decide)
    (stripped_strip s.content), String.ofList_toList]

/-- A skill whose file says what it is: no fence in its name and its trigger, nothing in the trigger
that JSON escapes, no single quotes at its ends, no carriage return in the content. -/
structure Plain (s : SkillRecord) : Prop where
  name_fence : ¬ PyStr.Within "---" s.name
  trigger_fence : ¬ PyStr.Within "---" s.trigger
  trigger_plain : ∀ c ∈ s.trigger.toList, PlainChar c
  trigger_ends : PyStr.Stripped (· = '\'') s.trigger.toList
  no_return : '\r' ∉ (PyStr.strip s.content).toList

/-- **A plain skill** is read back as it is, up to its name if that is empty. -/
theorem Plain.parse_written {folder : String} {s : SkillRecord} (h_s : Plain s)
    (h : ∀ c ∈ s.name.toList, nameChar c = true) :
    parse table folder (written s) =
      some { s with
        name := (truthy (some s.name)).getD folder
        content := PyStr.strip s.content } := by
  have h_fence : ¬ fence <:+: (writtenFront s).toList := by
    rw [fence_writtenFront h_s.trigger_plain]
    exact not_or.mpr ⟨h_s.name_fence, h_s.trigger_fence⟩
  rw [parse_of_no_fence h h_fence, body_of_no_return h_s.no_return,
    stripBy_quote_iff.mpr ⟨h_s.trigger_plain, h_s.trigger_ends⟩, String.ofList_toList]

/-- The content of a parsed skill is the body. -/
theorem content_of_skillOf {folder body : String} {front : Dict String String} {s : SkillRecord}
    (h : skillOf table folder front body = some s) : body = s.content := by
  unfold skillOf at h
  simp only [Option.bind_eq_bind, Option.bind_eq_some_iff, Option.pure_def, Option.some.injEq] at h
  obtain ⟨_, -, _, -, rfl⟩ := h
  rfl

/-- Stripping adds no character. -/
theorem mem_of_mem_stripBy {p : Char → Bool} {cs : List Char} {c : Char}
    (h : c ∈ PyStr.stripBy p cs) : c ∈ cs := by
  unfold PyStr.stripBy at h
  rw [List.mem_reverse] at h
  exact (List.dropWhile_sublist p).subset
    (List.mem_reverse.mp ((List.dropWhile_sublist p).subset h))

/-- The characters of a text that are no white space. -/
def solids (cs : List Char) : ℕ := cs.countP fun c => !PyStr.isSpace c

theorem solids_stripBy (cs : List Char) : solids (PyStr.stripBy PyStr.isSpace cs) = solids cs :=
  PyStr.countP_stripBy (fun c h => by rw [h]; rfl) cs

/-- **Reading a file back**: what was written comes back exactly if the folder has the skill's name
and the skill is plain. -/
theorem parse_written_iff {folder : String} {s : SkillRecord}
    (h : ∀ c ∈ s.name.toList, nameChar c = true) (h_folder : s.name ≠ "" → folder = s.name) :
    parse table folder (written s) = some { s with content := PyStr.strip s.content } ↔
      folder = s.name ∧ Plain s := by
  constructor
  · intro h_parse
    obtain ⟨front, body, h_cut, -⟩ := PyStr.cut_le fence_ne_nil (writtenFront s).toList (written₂ s)
    -- the content was read without carriage returns
    have h_text := PyStr.cut_some h_cut
    have h_body : PyStr.stripBy PyStr.isSpace body = (PyStr.strip s.content).toList := by
      rw [parse_of_cut h h_cut] at h_parse
      have h_content := congrArg String.toList (content_of_skillOf h_parse)
      rwa [String.toList_ofList] at h_content
    have h_return : '\r' ∉ (PyStr.strip s.content).toList := by
      have h_tail : '\r' ∉ body := by
        intro h_mem
        have h_front := return_notMem_writtenFront h
        have h_all : '\r' ∈ (writtenFront s).toList ++ (fence ++ written₂ s) := by
          rw [h_text]
          simp [h_mem]
        have h_bodyOf : '\r' ∉ bodyOf s := PyStr.return_notMem_universalNewlines _
        simp [h_front, fence, written₂, h_bodyOf] at h_all
      rw [← h_body]
      exact fun h_mem => h_tail (mem_of_mem_stripBy h_mem)
    have h_fence : ¬ fence <:+: (writtenFront s).toList := by
      intro h_in
      have h_suffix := PyStr.suffix_of_cut fence_ne_nil h_in h_cut
      obtain ⟨more, h_more⟩ := h_suffix
      have h_count := congrArg solids h_body
      rw [solids_stripBy, ← h_more] at h_count
      have h_bodyOf : bodyOf s = (PyStr.strip s.content).toList :=
        PyStr.universalNewlines_eq_self h_return
      have h_three : solids fence = 3 := by decide
      unfold written₂ solids at h_count
      unfold solids at h_three
      rw [h_bodyOf] at h_count
      simp only [List.countP_append] at h_count
      omega
    rw [parse_of_no_fence h h_fence, body_of_no_return h_return] at h_parse
    have h_record := Option.some.inj h_parse
    have h_trigger := congrArg SkillRecord.trigger h_record
    have h_name := congrArg SkillRecord.name h_record
    obtain ⟨h_plain, h_ends⟩ := stripBy_quote_iff.mp (String.ofList_injective (h_trigger.trans
      String.ofList_toList.symm))
    rw [fence_writtenFront h_plain, not_or] at h_fence
    refine ⟨?_, h_fence.1, h_fence.2, h_plain, h_ends, h_return⟩
    by_cases h_empty : s.name = ""
    · simpa [truthy, h_empty] using h_name
    · exact h_folder h_empty
  · rintro ⟨rfl, h_s⟩
    rw [h_s.parse_written h]
    by_cases h_empty : s.name = "" <;> simp [truthy, h_empty]

end Nexus.Skills
