import NexusAgent.Lib.CharTable
import NexusAgent.Lib.Regex

/-!
# Redaction

`nexus/guardrails/redaction.py`: e-mail addresses and phone numbers are replaced in every text of a
payload, and a value under a sensitive key is replaced as a whole. A payload is walked to a depth
of ten; what lies deeper is left as it is.

* `redactText_clean`: no address and no phone number is left in a text.
* `redactPayload_iff`: a payload is redacted exactly if nothing at depth eleven needed it.
-/

open Lib Lib.Regex

namespace Nexus.Guardrails

/-! ### Texts -/

/-- `EMAIL_RE`. -/
def emailRe : Regex :=
  .seq (.many (fun c => c.isAlphanum || c ∈ ['.', '_', '%', '+', '-']) 1 none false) <|
    .seq (.one (· = '@')) <|
      .seq (.many (fun c => c.isAlphanum || c ∈ ['.', '-']) 1 none false) <|
        .seq (.one (· = '.')) (.many Char.isAlpha 2 none false)

/-- The character that may stand between two groups of digits. -/
def phoneSeparator : Regex :=
  .many (fun c => c = '-' || c = '.' || PyStr.isSpace c) 0 (some 1) false

/-- The digits of a phone number and what stands between them. -/
def phoneDigits (table : CharTable) : Regex :=
  .seq (.many table.digit 3 (some 3) false) <| .seq phoneSeparator <|
    .seq (.many table.digit 3 (some 3) false) <| .seq phoneSeparator <|
      .many table.digit 4 (some 4) false

/-- `PHONE_RE`. -/
def phoneRe (table : CharTable) : Regex :=
  .seq (.edge table.word) (.seq (phoneDigits table) (.edge table.word))

/-- `redact_text`. -/
def redactText (table : CharTable) (text : String) : String :=
  String.ofList ((phoneRe table).sub "[PHONE]".toList (emailRe.sub "[EMAIL]".toList text.toList))

/-! ### What is left of a text -/

/-- An address ends where its characters do. -/
theorem emailRe_fenced : Fenced emailRe (fun _ => true) fun t => Matches emailRe [] t [] := by
  refine Plain.fenced (by simp [emailRe, Plain]) ?_
  rintro t ⟨u, v, rfl, ⟨⟨h_u, -⟩, -⟩, -⟩ h_nil
  rw [List.append_eq_nil_iff] at h_nil
  simp [h_nil.1] at h_u

/-- The characters of an address, and the one it always has. -/
theorem emailRe_text {t : List Char} (h : Matches emailRe [] t []) :
    '[' ∉ t ∧ ']' ∉ t ∧ '@' ∈ t := by
  -- no character class of the pattern has a bracket
  have h_over : Over (fun c => c ≠ '[' ∧ c ≠ ']') emailRe := by
    simp only [emailRe, Over, Bool.or_eq_true, decide_eq_true_eq]
    refine ⟨?_, ?_, ?_, ?_, ?_⟩ <;>
    · intro c h_c
      constructor <;>
      · rintro rfl
        revert h_c
        decide
  refine ⟨fun h_mem => ?_, fun h_mem => ?_, ?_⟩
  · simpa using h_over.mem h _ h_mem
  · simpa using h_over.mem h _ h_mem
  · -- the at sign stands between the two parts
    obtain ⟨u, v, rfl, -, _, w, rfl, ⟨c, rfl, h_c⟩, -⟩ := h
    simp [decide_eq_true_eq.mp h_c]

/-- A text without brackets and without an at sign has no address in it. -/
theorem not_emailRe_infix {t repl : List Char} (h : Matches emailRe [] t []) (h_repl : '@' ∉ repl) :
    ¬ t <:+: repl := fun h_in => h_repl (h_in.subset (emailRe_text h).2.2)

section

variable (table : CharTable)

/-- The first and the last character of a phone number are digits. -/
theorem phoneDigits_ends {t : List Char} (h : Matches (phoneDigits table) [] t []) :
    (∃ c ∈ t.head?, table.digit c = true) ∧ ∃ c ∈ t.reverse.head?, table.digit c = true := by
  obtain ⟨area, _, rfl, ⟨⟨h_area, -⟩, area_digits⟩, s, _, rfl, -, mid, _, rfl, -, s', last, rfl, -,
    ⟨h_last, -⟩, last_digits⟩ := h
  constructor
  · -- the first digit is that of the area code
    cases area with
    | nil => simp at h_area
    | cons c area => exact ⟨c, rfl, area_digits c List.mem_cons_self⟩
  · -- the last one is that of the last group
    cases h_rev : last.reverse with
    | nil =>
      rw [List.reverse_eq_nil_iff] at h_rev
      simp [h_rev] at h_last
    | cons c rest =>
      refine ⟨c, by simp [h_rev], last_digits c ?_⟩
      rw [← List.mem_reverse, h_rev]
      exact List.mem_cons_self

/-- A phone number begins and ends with a digit, between characters that are no word characters. -/
theorem phoneRe_fenced :
    Fenced (phoneRe table) (fun c => !table.word c) fun t => Matches (phoneDigits table) [] t [] := by
  refine Plain.fenced_edges (by simp [phoneDigits, phoneSeparator, Plain]) ?_ ?_
  · intro t h
    obtain ⟨c, h_c, c_digit⟩ := (phoneDigits_ends table h).1
    exact ⟨c, h_c, table.digit_word c c_digit⟩
  · intro t h
    obtain ⟨c, h_c, c_digit⟩ := (phoneDigits_ends table h).2
    exact ⟨c, h_c, table.digit_word c c_digit⟩

/-- The characters of a phone number. -/
theorem phoneDigits_text {t : List Char} (h : Matches (phoneDigits table) [] t []) :
    '[' ∉ t ∧ ']' ∉ t := by
  have h_digit : ∀ c : Char, c.toNat < 128 → c.isDigit = false → ¬ table.digit c = true := by
    intro c h_c h_not
    rw [table.digit_ascii c h_c, h_not]
    exact Bool.false_ne_true
  -- every part of the pattern stands for digits or separators, and a bracket is neither
  have h_over : Over (fun c => c ≠ '[' ∧ c ≠ ']') (phoneDigits table) := by
    have h_digits : ∀ c, table.digit c = true → decide (c ≠ '[' ∧ c ≠ ']') = true := by
      intro c h_c
      rw [decide_eq_true_iff]
      constructor
      · rintro rfl
        exact h_digit _ (by decide) (by decide) h_c
      · rintro rfl
        exact h_digit _ (by decide) (by decide) h_c
    have h_separator : Over (fun c => c ≠ '[' ∧ c ≠ ']') phoneSeparator := by
      intro c h_c
      rw [decide_eq_true_iff]
      constructor <;>
      · rintro rfl
        revert h_c
        decide
    exact ⟨h_digits, h_separator, h_digits, h_separator, h_digits⟩
  exact ⟨fun h_mem => by simpa using h_over.mem h _ h_mem,
    fun h_mem => by simpa using h_over.mem h _ h_mem⟩

/-- No address and no phone number is in the text. -/
def CleanText (text : String) : Prop :=
  ¬ Occurs emailRe text.toList ∧ ¬ Occurs (phoneRe table) text.toList

/-- **A redacted text is clean.** -/
theorem redactText_clean (text : String) : CleanText table (redactText table text) := by
  have h_mail : ¬ Occurs emailRe (emailRe.sub "[EMAIL]".toList text.toList) := by
    refine not_occurs_sub emailRe_fenced ⟨⟨_, rfl⟩, "[EMAIL".toList, rfl⟩ ?_ _
    intro t h
    exact ⟨(emailRe_text h).1, (emailRe_text h).2.1, not_emailRe_infix h (by decide)⟩
  have h_brackets : Bracketed "[PHONE]".toList '[' ']' := ⟨⟨_, rfl⟩, "[PHONE".toList, rfl⟩
  unfold CleanText redactText
  rw [String.toList_ofList]
  constructor
  · -- the second substitution brings no address in
    rintro ⟨pre, t, after, h_eq, h_matches⟩
    obtain ⟨h, -, -⟩ := emailRe_fenced.iff.mp h_matches
    have h_infix : t <:+: (phoneRe table).sub "[PHONE]".toList
        (emailRe.sub "[EMAIL]".toList text.toList) := ⟨pre, after, by rw [h_eq, List.append_assoc]⟩
    rcases infix_subFrom (phoneRe_fenced table).consumes_regex h_brackets (emailRe_text h).1
      (emailRe_text h).2.1 h_infix with h_repl | ⟨pre', after', h_before⟩
    · exact not_emailRe_infix h (by decide) h_repl
    · refine h_mail ⟨pre', t, after', by rw [← h_before, List.append_assoc], ?_⟩
      exact emailRe_fenced.iff.mpr ⟨h, by simp [HeadIn]⟩
  · refine not_occurs_sub (phoneRe_fenced table) h_brackets ?_ _
    intro t h
    refine ⟨(phoneDigits_text table h).1, (phoneDigits_text table h).2, fun h_infix => ?_⟩
    obtain ⟨c, h_c, c_digit⟩ := (phoneDigits_ends table h).1
    have h_mem := h_infix.subset (List.mem_of_mem_head? h_c)
    have h_ascii : ∀ c ∈ "[PHONE]".toList, c.toNat < 128 ∧ c.isDigit = false := by decide
    rw [table.digit_ascii c (h_ascii c h_mem).1, (h_ascii c h_mem).2] at c_digit
    cases c_digit

end

/-! ### Payloads -/

/-- A payload: texts, other values, lists and tuples, and dicts, whose keys are texts or other
values. -/
inductive Payload (α : Type)
  | text (s : String)
  | leaf (a : α)
  | list (isTuple : Bool) (items : List (Payload α))
  | dict (fields : List ((String ⊕ α) × Payload α))

/-- `SENSITIVE_KEYS`. -/
def sensitiveKeys : List String :=
  ["api_key", "apikey", "authorization", "access_token", "password", "refresh_token", "secret",
    "token"]

/-- `MASK`. -/
def mask : String := "[REDACTED]"

section Redact

variable {α : Type} (table : CharTable) (keys : List String)

/-- A key in the sensitive keys, compared in lower case. -/
def isSensitive : String ⊕ α → Bool
  | .inl key => table.lower key ∈ keys
  | .inr _ => false

mutual

/-- `redact_payload`. -/
def redactPayload (depth : ℕ) (value : Payload α) : Payload α :=
  if 10 < depth then value
  else
    match value with
    | .dict fields => .dict (redactFields depth fields)
    | .list isTuple items => .list isTuple (redactItems depth items)
    | .text s => .text (redactText table s)
    | .leaf a => .leaf a

/-- The loop over the items of a list. -/
def redactItems (depth : ℕ) : List (Payload α) → List (Payload α)
  | [] => []
  | item :: items => redactPayload (depth + 1) item :: redactItems depth items

/-- The loop over the items of a dict. -/
def redactFields (depth : ℕ) :
    List ((String ⊕ α) × Payload α) → List ((String ⊕ α) × Payload α)
  | [] => []
  | (key, item) :: fields =>
    (key, if isSensitive table keys key then .text mask else redactPayload (depth + 1) item) ::
      redactFields depth fields

end

/-! ### Redacted payloads -/

/-- `part` stands in `whole`, `n` levels deep and under no sensitive key. -/
inductive Inside : ℕ → Payload α → Payload α → Prop
  | refl (v : Payload α) : Inside 0 v v
  | item {n : ℕ} {part item : Payload α} {isTuple : Bool} {items : List (Payload α)}
      (h_item : item ∈ items) (h : Inside n part item) : Inside (n + 1) part (.list isTuple items)
  | field {n : ℕ} {part item : Payload α} {key : String ⊕ α}
      {fields : List ((String ⊕ α) × Payload α)} (h_field : (key, item) ∈ fields)
      (h_key : isSensitive table keys key = false) (h : Inside n part item) :
    Inside (n + 1) part (.dict fields)

/-- A text is clean, and the values under the sensitive keys of a dict are the mask. -/
def CleanPart : Payload α → Prop
  | .text s => CleanText table s
  | .dict fields => ∀ key item, (key, item) ∈ fields → isSensitive table keys key = true →
      item = .text mask
  | _ => True

/-- Every text is clean and every value under a sensitive key is the mask, at every depth. -/
def Redacted (v : Payload α) : Prop :=
  ∀ n part, Inside table keys n part v → CleanPart table keys part

/-- The same structure: the same keys and lengths and the same other values, up to what stands
under the sensitive keys. -/
inductive SameShape : Payload α → Payload α → Prop
  | text (s s' : String) : SameShape (.text s) (.text s')
  | leaf (a : α) : SameShape (.leaf a) (.leaf a)
  | list {isTuple : Bool} {items items' : List (Payload α)}
      (h_length : items.length = items'.length)
      (h : ∀ (i : ℕ) item item', items[i]? = some item → items'[i]? = some item' → SameShape item item') :
    SameShape (.list isTuple items) (.list isTuple items')
  | dict {fields fields' : List ((String ⊕ α) × Payload α)}
      (h_keys : fields.map Prod.fst = fields'.map Prod.fst)
      (h : ∀ (i : ℕ) key item item', fields[i]? = some (key, item) → fields'[i]? = some (key, item') →
        isSensitive table keys key = false → SameShape item item') :
    SameShape (.dict fields) (.dict fields')

variable {table keys}

/-- A property of payloads that passes from the items to the lists and dicts. -/
theorem Payload.induct {motive : Payload α → Prop} (text : ∀ s, motive (.text s))
    (leaf : ∀ a, motive (.leaf a))
    (list : ∀ isTuple items, (∀ item ∈ items, motive item) → motive (.list isTuple items))
    (dict : ∀ fields, (∀ key item, (key, item) ∈ fields → motive item) → motive (.dict fields)) :
    ∀ v, motive v
  | .text s => text s
  | .leaf a => leaf a
  | .list isTuple items => list isTuple items fun item _ => Payload.induct text leaf list dict item
  | .dict fields => dict fields fun _ item _ => Payload.induct text leaf list dict item
termination_by v => sizeOf v
decreasing_by
  · rename_i h
    have h_size := List.sizeOf_lt_of_mem h
    simp only [Payload.list.sizeOf_spec]
    omega
  · rename_i h
    have h_size := List.sizeOf_lt_of_mem h
    simp only [Payload.dict.sizeOf_spec, Prod.mk.sizeOf_spec] at h_size ⊢
    omega

@[simp] theorem redacted_text {s : String} :
    Redacted table keys (.text s : Payload α) ↔ CleanText table s := by
  constructor
  · exact fun h => h 0 _ (.refl _)
  · rintro h n part (_ | _)
    exact h

@[simp] theorem redacted_leaf {a : α} : Redacted table keys (.leaf a) := by
  rintro n part (_ | _)
  trivial

/-- A list is redacted when each of its items is. -/
theorem redacted_list {isTuple : Bool} {items : List (Payload α)} :
    Redacted table keys (.list isTuple items) ↔
      ∀ item ∈ items, Redacted table keys item := by
  constructor
  · exact fun h item h_item n part h_in => h (n + 1) part (.item h_item h_in)
  · rintro h n part (_ | ⟨h_item, h_in⟩)
    · trivial
    · exact h _ h_item _ part h_in

/-- A dict is redacted when each field is masked or redacted, as its key says. -/
theorem redacted_dict {fields : List ((String ⊕ α) × Payload α)} :
    Redacted table keys (.dict fields) ↔ ∀ key item, (key, item) ∈ fields →
      if isSensitive table keys key then item = .text mask else Redacted table keys item := by
  constructor
  · -- what lies in a field lies in the dict, one step deeper
    intro h key item h_field
    split_ifs with h_key
    · exact h 0 _ (.refl _) key item h_field h_key
    · exact fun n part h_in => h (n + 1) part (.field h_field (by simpa using h_key) h_in)
  · -- and a part of the dict is the dict or lies in one of its fields
    rintro h n part (_ | _ | ⟨h_field, h_key, h_in⟩)
    · intro key item h_field h_key
      have h_item := h key item h_field
      rwa [if_pos h_key] at h_item
    · have h_item := h _ _ h_field
      rw [h_key, if_neg Bool.false_ne_true] at h_item
      exact h_item _ part h_in

/-! ### What the walk returns -/

/-- A list is redacted item by item. -/
theorem redactItems_eq_map (depth : ℕ) (items : List (Payload α)) :
    redactItems table keys depth items =
      items.map (redactPayload table keys (depth + 1)) := by
  induction items with
  | nil => rw [redactItems, List.map_nil]
  | cons item items ih => rw [redactItems, ih, List.map_cons]

/-- A dict is redacted field by field, and a sensitive one masked. -/
theorem redactFields_eq_map (depth : ℕ) (fields : List ((String ⊕ α) × Payload α)) :
    redactFields table keys depth fields = fields.map fun kv =>
      (kv.1, if isSensitive table keys kv.1 then .text mask
        else redactPayload table keys (depth + 1) kv.2) := by
  induction fields with
  | nil => rw [redactFields, List.map_nil]
  | cons kv fields ih => rw [redactFields, ih, List.map_cons]

/-- Beyond the tenth level nothing changes. -/
theorem redactPayload_deep {depth : ℕ} (h : 10 < depth) (v : Payload α) :
    redactPayload table keys depth v = v := by
  cases v <;> rw [redactPayload, if_pos h]

theorem redactPayload_text {depth : ℕ} (h : ¬ 10 < depth) (s : String) :
    redactPayload table keys depth (.text s : Payload α) = .text (redactText table s) := by
  rw [redactPayload, if_neg h]

theorem redactPayload_leaf (depth : ℕ) (a : α) :
    redactPayload table keys depth (.leaf a) = .leaf a := by
  rw [redactPayload, ite_self]

/-- Above the depth limit a list is redacted in its items. -/
theorem redactPayload_list {depth : ℕ} (h : ¬ 10 < depth) (isTuple : Bool)
    (items : List (Payload α)) :
    redactPayload table keys depth (.list isTuple items) =
      .list isTuple (items.map (redactPayload table keys (depth + 1))) := by
  rw [redactPayload, if_neg h, redactItems_eq_map]

/-- Above the depth limit a dict is redacted in its fields. -/
theorem redactPayload_dict {depth : ℕ} (h : ¬ 10 < depth)
    (fields : List ((String ⊕ α) × Payload α)) :
    redactPayload table keys depth (.dict fields) = .dict (fields.map fun kv =>
      (kv.1, if isSensitive table keys kv.1 then .text mask
        else redactPayload table keys (depth + 1) kv.2)) := by
  rw [redactPayload, if_neg h, redactFields_eq_map]

/-- **The walk, from a depth on**: what it returns is redacted exactly if nothing needed it that
lies beyond the tenth level. -/
theorem redacted_redactPayload {depth k : ℕ} (h : depth + k = 11) (v : Payload α) :
    Redacted table keys (redactPayload table keys depth v) ↔
      ∀ part, Inside table keys k part v → Redacted table keys part := by
  induction k generalizing depth v with
  | zero =>
    -- below the last level nothing is replaced: the value is its only part
    rw [redactPayload_deep (by omega)]
    constructor
    · rintro h_v part (_ | _)
      exact h_v
    · exact fun h_parts => h_parts v (.refl v)
  | succ k ih =>
    have h_depth : ¬ 10 < depth := by omega
    have h_next : depth + 1 + k = 11 := by omega
    cases v with
    | text s =>
      rw [redactPayload_text h_depth, redacted_text]
      refine iff_of_true (redactText_clean table s) ?_
      rintro part (_ | _)
    | leaf a =>
      rw [redactPayload_leaf]
      refine iff_of_true redacted_leaf ?_
      rintro part (_ | _)
    | list isTuple items =>
      rw [redactPayload_list h_depth, redacted_list, List.forall_mem_map]
      constructor
      · rintro h_items part (_ | ⟨h_item, h_in⟩)
        exact (ih h_next _).mp (h_items _ h_item) part h_in
      · intro h_parts item h_item
        exact (ih h_next _).mpr fun part h_in => h_parts part (.item h_item h_in)
    | dict fields =>
      rw [redactPayload_dict h_depth, redacted_dict]
      constructor
      · rintro h_fields part (_ | _ | ⟨h_field, h_key, h_in⟩)
        have h_item := h_fields _ _ (List.mem_map.mpr ⟨_, h_field, rfl⟩)
        -- the key is not a sensitive one, so its value was redacted in its turn
        rw [h_key, if_neg Bool.false_ne_true, if_neg Bool.false_ne_true] at h_item
        exact (ih h_next _).mp h_item part h_in
      · intro h_parts key item' h_mem
        obtain ⟨⟨key', item⟩, h_field, h_eq⟩ := List.mem_map.mp h_mem
        obtain ⟨rfl, rfl⟩ := Prod.mk.inj h_eq
        split_ifs with h_key
        · rfl
        · exact (ih h_next _).mpr fun part h_in =>
            h_parts part (.field h_field (by simpa using h_key) h_in)

/-! ### The structure -/

/-- Every payload has the shape of itself. -/
theorem SameShape.refl (v : Payload α) : SameShape table keys v v := by
  induction v using Payload.induct with
  | text s => exact .text s s
  | leaf a => exact .leaf a
  | list isTuple items ih =>
    refine .list rfl fun i item item' h h' => ?_
    obtain rfl := Option.some.inj (h.symm.trans h')
    exact ih item (List.mem_of_getElem? h)
  | dict fields ih =>
    refine .dict rfl fun i key item item' h h' _ => ?_
    obtain ⟨-, rfl⟩ := Prod.mk.inj (Option.some.inj (h.symm.trans h'))
    exact ih key item (List.mem_of_getElem? h)

/-- **The walk keeps the structure.** -/
theorem sameShape_redactPayload (depth : ℕ) (v : Payload α) :
    SameShape table keys v (redactPayload table keys depth v) := by
  induction v using Payload.induct generalizing depth with
  | text s =>
    by_cases h : 10 < depth
    · -- too deep: the value is returned as it is
      rw [redactPayload_deep h]
      exact .refl _
    · rw [redactPayload_text h]
      exact .text _ _
  | leaf a =>
    rw [redactPayload_leaf]
    exact .refl _
  | list isTuple items ih =>
    by_cases h : 10 < depth
    · rw [redactPayload_deep h]
      exact .refl _
    · rw [redactPayload_list h]
      refine .list (by simp) fun i item item' h_i h_i' => ?_
      rw [List.getElem?_map, h_i, Option.map_some] at h_i'
      obtain rfl := Option.some.inj h_i'
      exact ih item (List.mem_of_getElem? h_i) _
  | dict fields ih =>
    by_cases h : 10 < depth
    · rw [redactPayload_deep h]
      exact .refl _
    · rw [redactPayload_dict h]
      refine .dict (by simp) fun i key item item' h_i h_i' h_key => ?_
      rw [List.getElem?_map, h_i, Option.map_some] at h_i'
      obtain ⟨-, rfl⟩ := Prod.mk.inj (Option.some.inj h_i')
      rw [h_key, if_neg Bool.false_ne_true]
      exact ih key item (List.mem_of_getElem? h_i) _

end Redact

/-- **Redaction reaches ten levels deep**: a payload comes out redacted, with its structure,
exactly if all that lies at the eleventh level, and under no sensitive key, was redacted
before. -/
theorem redactPayload_iff {α : Type} (table : CharTable) (keys : List String) (v : Payload α) :
    (Redacted table keys (redactPayload table keys 0 v) ∧
        SameShape table keys v (redactPayload table keys 0 v)) ↔
      ∀ part, Inside table keys 11 part v → Redacted table keys part := by
  rw [and_iff_left (sameShape_redactPayload 0 v)]
  exact redacted_redactPayload rfl v

/-- A payload in eleven lists, one in the other. -/
def inLists {α : Type} (v : Payload α) : ℕ → Payload α
  | 0 => v
  | n + 1 => .list false [inLists v n]

/-- A token eleven levels deep is still there. -/
theorem redactPayload_token :
    ¬ Redacted .ascii sensitiveKeys (redactPayload .ascii sensitiveKeys 0
      (inLists (.dict [(.inl "token", .text "t")]) 11 : Payload ℕ)) := by
  rw [redacted_redactPayload (k := 11) rfl]
  intro h
  -- one list around the dict for each step of the depth
  have h_inside : ∀ n, Inside .ascii sensitiveKeys n (.dict [(.inl "token", .text "t")] : Payload ℕ)
      (inLists (.dict [(.inl "token", .text "t")]) n) := by
    intro n
    induction n with
    | zero => exact .refl _
    | succ n ih => exact .item List.mem_cons_self ih
  -- a redacted payload has the mask under the key, and this one has the token
  have h_mask := h _ (h_inside 11) 0 _ (.refl _) (.inl "token") (.text "t") List.mem_cons_self
    (by decide)
  exact absurd (Payload.text.inj h_mask) (by decide)

end Nexus.Guardrails
