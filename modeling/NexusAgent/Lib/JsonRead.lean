import NexusAgent.Lib.JsonText
import NexusAgent.Lib.Merge

/-!
# What is written is read back

`loads` inverts `dumps` on every value a program can hold: the keys of its objects are distinct,
and a number with a fraction or an exponent is a text that is read as one (`Valid`).

* `value_dumps`: a value written at the front of a text is read, and what follows is left.
* `loads_dumps`, `load_dumps`: the same for a whole text, without and with limits.
* `dumps_ascii`, `dumps_stripped`: what is written is ASCII, without white space at its ends.
-/

namespace Lib
namespace Json

/-! ### Values -/

/-- The text of a number with a fraction or an exponent, or of one that is not finite. -/
def FloatText (t : String) : Prop :=
  number t.toList = some (.float t, []) ∨ t = "NaN" ∨ t = "Infinity" ∨ t = "-Infinity"

instance (t : String) : Decidable (FloatText t) := inferInstanceAs (Decidable (_ ∨ _))

mutual

/-- A value a program can hold: a key stands in an object once, and a float is the text of one. -/
def Valid : Json → Prop
  | .null => True
  | .bool _ => True
  | .int _ => True
  | .float t => FloatText t
  | .str _ => True
  | .arr xs => ValidAll xs
  | .obj fs => (Dict.keys fs).Nodup ∧ ValidFields fs

/-- Every item of an array is such a value. -/
def ValidAll : List Json → Prop
  | [] => True
  | x :: xs => Valid x ∧ ValidAll xs

/-- Every value of an object is such a value. -/
def ValidFields : List (String × Json) → Prop
  | [] => True
  | (_, v) :: fs => Valid v ∧ ValidFields fs

end

theorem validAll_iff {xs : List Json} : ValidAll xs ↔ ∀ x ∈ xs, Valid x := by
  induction xs with
  | nil => simp [ValidAll]
  | cons x xs ih => simp [ValidAll, ih]

/-- Fields are valid if their values are. -/
theorem validFields_iff {fs : List (String × Json)} : ValidFields fs ↔ ∀ f ∈ fs, Valid f.2 := by
  induction fs with
  | nil => simp [ValidFields]
  | cons f fs ih =>
    obtain ⟨k, v⟩ := f
    simp [ValidFields, ih]

/-- A property of values that passes from the items to the arrays and objects. -/
theorem induct {motive : Json → Prop} (null : motive .null) (bool : ∀ b, motive (.bool b))
    (int : ∀ n, motive (.int n)) (float : ∀ t, motive (.float t)) (str : ∀ s, motive (.str s))
    (arr : ∀ xs, (∀ x ∈ xs, motive x) → motive (.arr xs))
    (obj : ∀ fs, (∀ f ∈ fs, motive f.2) → motive (.obj fs)) : ∀ v, motive v
  | .null => null
  | .bool b => bool b
  | .int n => int n
  | .float t => float t
  | .str s => str s
  | .arr xs => arr xs fun x _ => induct null bool int float str arr obj x
  | .obj fs => obj fs fun f _ => induct null bool int float str arr obj f.2
termination_by v => sizeOf v
decreasing_by
  · rename_i h
    have h_size := List.sizeOf_lt_of_mem h
    simp only [Json.arr.sizeOf_spec]
    omega
  · rename_i h
    have h_size := List.sizeOf_lt_of_mem h
    have h_pair : sizeOf f = 1 + sizeOf f.1 + sizeOf f.2 := rfl
    simp only [Json.obj.sizeOf_spec]
    omega

/-- A delimiter follows, or nothing. -/
def ValueEnds (rest : List Char) : Prop := ∀ c ∈ rest.head?, c = ',' ∨ c = ']' ∨ c = '\x7d'

theorem ValueEnds.number {rest : List Char} (h : ValueEnds rest) : NumberEnds rest := by
  intro c h_c
  rcases h c h_c with rfl | rfl | rfl <;> rfl

/-- The characters a value begins with. -/
def begins (c : Char) : Bool := numeric c || c ∈ ['"', '[', '\x7b', 'n', 't', 'f', 'N', 'I']

theorem ne_of_begins {c d : Char} (h : begins c = true) (h_d : begins d = false) : c ≠ d := by
  rintro rfl
  rw [h] at h_d
  cases h_d

theorem skipWs_cons {c : Char} (h : (c = ' ' || c = '\t' || c = '\n' || c = '\r') = false)
    (cs : List Char) : skipWs (c :: cs) = c :: cs := by
  unfold skipWs
  rw [List.dropWhile_cons_of_neg (by simpa using h)]

/-- No blank is skipped before a value. -/
theorem skipWs_begins {c : Char} (h : begins c = true) (cs : List Char) :
    skipWs (c :: cs) = c :: cs := by
  refine skipWs_cons ?_ cs
  simp [ne_of_begins h (d := ' ') (by decide), ne_of_begins h (d := '\t') (by decide),
    ne_of_begins h (d := '\n') (by decide), ne_of_begins h (d := '\r') (by decide)]

theorem number_nil : number [] = none := by decide

theorem number_minus_nil : number ['-'] = none := by decide

/-- A number at the front of a text is read. -/
theorem value_number {cs rest : List Char} {v : Json} (h : number cs = some (v, []))
    (h_rest : NumberEnds rest) (n : ℕ) : value (n + 1) (cs ++ rest) = some (v, rest) := by
  have h_numeric := number_numeric h
  have h_number : number (cs ++ rest) = some (v, rest) := by
    rw [number_extend cs h_rest, h, Option.map_some, List.nil_append]
  rw [← h_number]
  cases cs with
  | nil =>
    rw [number_nil] at h
    cases h
  | cons c cs =>
    have h_c := h_numeric c List.mem_cons_self
    have h_not : ∀ {d : Char}, numeric d = false → c ≠ d := by
      rintro d h_d rfl
      rw [h_c] at h_d
      cases h_d
    rw [List.cons_append]
    unfold value
    split
    case h_10 => rfl
    case h_9 h_eq =>
      -- a sign alone is no number, and the letter after it is in none
      cases cs with
      | nil =>
        rw [(List.cons.inj h_eq).1, number_minus_nil] at h
        cases h
      | cons d cs =>
        have h_d := h_numeric d (List.mem_cons_of_mem _ List.mem_cons_self)
        have h_letter : d = 'I' := (List.cons.inj (List.cons.inj h_eq).2).1
        rw [h_letter] at h_d
        cases h_d
    all_goals
      rename_i h_eq
      exact absurd (List.cons.inj h_eq).1 (h_not (by decide))

/-- A float at the front of a text is read. -/
theorem value_float {t : String} (h : FloatText t) {rest : List Char} (h_rest : NumberEnds rest)
    (n : ℕ) : value (n + 1) (t.toList ++ rest) = some (.float t, rest) := by
  rcases h with h_number | rfl | rfl | rfl
  · exact value_number h_number h_rest n
  · rfl
  · rfl
  · rfl

/-- A quoted text is read back. -/
theorem value_string (s : String) (rest : List Char) (n : ℕ) :
    value (n + 1) ((quote s).toList ++ rest) = some (.str s, rest) := by
  have h_value : value (n + 1) ('"' :: (s.toList.flatMap escape ++ '"' :: rest)) =
      (stringBody (s.toList.flatMap escape ++ '"' :: rest)).map fun p => (.str p.1, p.2) := rfl
  rw [toList_quote, List.cons_append, List.append_assoc, List.singleton_append, h_value,
    stringBody_quote, Option.map_some]

/-- A bracket opens an array, which may be empty. -/
theorem value_bracket (cs : List Char) (n : ℕ) :
    value (n + 1) ('[' :: cs) =
      match skipWs cs with
      | ']' :: r' => some (.arr [], r')
      | r' => (elements n r').map fun p => (.arr p.1, p.2) := rfl

/-- An array is read by its elements. -/
theorem value_array {c : Char} (h : begins c = true) (cs : List Char) (n : ℕ) :
    value (n + 1) ('[' :: c :: cs) = (elements n (c :: cs)).map fun p => (.arr p.1, p.2) := by
  rw [value_bracket, skipWs_begins h]
  split
  · rename_i h_eq
    exact absurd (List.cons.inj h_eq).1 (ne_of_begins h (by decide))
  · rfl

theorem value_object (cs : List Char) (n : ℕ) :
    value (n + 1) ('\x7b' :: '"' :: cs) =
      (members n ('"' :: cs)).map fun p => (.obj (Dict.update [] p.1), p.2) := rfl

/-- The last item of an array. -/
theorem elements_last {n : ℕ} {cs rest : List Char} {v : Json}
    (h : value n (cs ++ ']' :: rest) = some (v, ']' :: rest)) :
    elements (n + 1) (cs ++ ']' :: rest) = some ([v], rest) := by
  rw [elements, h]
  rfl

/-- An item of an array that others follow. -/
theorem elements_more {n : ℕ} {c : Char} {cs more rest : List Char} {v : Json} {vs : List Json}
    (h : value n (cs ++ ',' :: ' ' :: c :: more) = some (v, ',' :: ' ' :: c :: more))
    (h_c : begins c = true) (h_more : elements n (c :: more) = some (vs, rest)) :
    elements (n + 1) (cs ++ ',' :: ' ' :: c :: more) = some (v :: vs, rest) := by
  have h_skip : skipWs (' ' :: c :: more) = c :: more := skipWs_begins h_c more
  have h_step : elements (n + 1) (cs ++ ',' :: ' ' :: c :: more) =
      (elements n (skipWs (' ' :: c :: more))).bind fun p => some (v :: p.1, p.2) := by
    rw [elements, h]
    rfl
  rw [h_step, h_skip, h_more]
  rfl

/-- Behind a quote come the key, a colon, the value, and the next member or the end. -/
theorem members_quote (n : ℕ) (cs : List Char) :
    members (n + 1) ('"' :: cs) =
      (stringBody cs).bind fun b =>
        match skipWs b.2 with
        | ':' :: r => (value n (skipWs r)).bind fun p =>
          match skipWs p.2 with
          | '\x7d' :: r => some ([(b.1, p.1)], r)
          | ',' :: r => (members n (skipWs r)).bind fun q => some ((b.1, p.1) :: q.1, q.2)
          | _ => none
        | _ => none := rfl

/-- A key with its colon. -/
theorem members_key (n : ℕ) (k : String) (cs : List Char) :
    members (n + 1) ((quote k).toList ++ ':' :: ' ' :: cs) =
      (value n (skipWs cs)).bind fun p =>
        match skipWs p.2 with
        | '\x7d' :: r => some ([(k, p.1)], r)
        | ',' :: r => (members n (skipWs r)).bind fun q => some ((k, p.1) :: q.1, q.2)
        | _ => none := by
  rw [toList_quote, List.cons_append, List.append_assoc, List.singleton_append, members_quote,
    stringBody_quote]
  rfl

/-! ### What is written -/

/-- A value begins with a character that begins values. -/
theorem dumps_head {v : Json} (h : Valid v) : ∃ c cs, (dumps v).toList = c :: cs ∧ begins c = true := by
  -- a number starts with one of its own characters
  have h_number : ∀ {cs : List Char} {w : Json}, number cs = some (w, []) →
      ∃ c cs', cs = c :: cs' ∧ begins c = true := by
    intro cs w h_w
    cases cs with
    | nil =>
      rw [number_nil] at h_w
      cases h_w
    | cons c cs =>
      have h_c := number_numeric h_w c List.mem_cons_self
      exact ⟨c, cs, rfl, by simp [begins, h_c]⟩
  cases v with
  | null => exact ⟨'n', _, rfl, rfl⟩
  | bool b =>
    cases b with
    | false => exact ⟨'f', _, rfl, rfl⟩
    | true => exact ⟨'t', _, rfl, rfl⟩
  | int n => exact h_number (number_toString n)
  | float t =>
    unfold Valid at h
    rcases h with h_t | rfl | rfl | rfl
    · exact h_number h_t
    · exact ⟨'N', _, rfl, rfl⟩
    · exact ⟨'I', _, rfl, rfl⟩
    · exact ⟨'-', _, rfl, rfl⟩
  | str s => exact ⟨'"', _, toList_quote s, rfl⟩
  | arr xs =>
    refine ⟨'[', (PyStr.join ", " (dumpsAll xs) ++ "]").toList, ?_, rfl⟩
    rw [dumps, String.append_assoc, String.toList_append]
    rfl
  | obj fs =>
    refine ⟨'\x7b', (PyStr.join ", " (dumpsFields fs) ++ "\x7d").toList, ?_, rfl⟩
    rw [dumps, String.append_assoc, String.toList_append]
    rfl

/-- The first of several joined texts. -/
theorem toList_join_cons (p q : String) (ps : List String) :
    (PyStr.join ", " (p :: q :: ps)).toList =
      p.toList ++ ',' :: ' ' :: (PyStr.join ", " (q :: ps)).toList := by
  rw [PyStr.join, String.toList_append, String.toList_append, List.append_assoc]
  rfl

/-- Joined texts begin as the first of them does. -/
theorem toList_join_head {p : String} {c : Char} {cs : List Char} (h : p.toList = c :: cs)
    (ps : List String) : ∃ cs', (PyStr.join ", " (p :: ps)).toList = c :: cs' := by
  cases ps with
  | nil => exact ⟨cs, h⟩
  | cons q ps =>
    rw [toList_join_cons, h]
    exact ⟨_, rfl⟩

theorem toList_arr (xs : List Json) :
    (dumps (.arr xs)).toList = '[' :: ((PyStr.join ", " (dumpsAll xs)).toList ++ [']']) := by
  rw [dumps, String.toList_append, String.toList_append]
  rfl

theorem toList_obj (fs : List (String × Json)) :
    (dumps (.obj fs)).toList = '\x7b' :: ((PyStr.join ", " (dumpsFields fs)).toList ++ ['\x7d']) := by
  rw [dumps, String.toList_append, String.toList_append]
  rfl

/-- An item of an object. -/
theorem toList_item (k : String) (v : Json) :
    (quote k ++ ": " ++ dumps v).toList = (quote k).toList ++ ':' :: ' ' :: (dumps v).toList := by
  rw [String.toList_append, String.toList_append, List.append_assoc]
  rfl

/-- An object assembled from items with different keys has these items. -/
theorem update_nil {fs : List (String × Json)} (h : (Dict.keys fs).Nodup) :
    Dict.update [] fs = fs := by
  rw [Dict.update_eq (d := []) List.nodup_nil h]
  simp [Dict.overwrite, Dict.added, Dict.keys]

/-! ### Reading it back -/

/-- Written at the front of a text, the value is read, and what follows is left. -/
def ReadBack (v : Json) : Prop :=
  ∀ {n : ℕ} {rest : List Char}, (dumps v).toList.length ≤ n → ValueEnds rest →
    value n ((dumps v).toList ++ rest) = some (v, rest)

/-- The items of an array are read. -/
theorem elements_dumps {v : Json} {vs : List Json} (h : ∀ x ∈ v :: vs, Valid x ∧ ReadBack x) {n : ℕ}
    (h_n : (PyStr.join ", " (dumpsAll (v :: vs))).toList.length < n) (rest : List Char) :
    elements n ((PyStr.join ", " (dumpsAll (v :: vs))).toList ++ ']' :: rest) =
      some (v :: vs, rest) := by
  induction vs generalizing v n with
  | nil =>
    obtain ⟨n, rfl⟩ : ∃ m, n = m + 1 := ⟨n - 1, by omega⟩
    have h_ends : ValueEnds (']' :: rest) := fun c h_c => .inr (.inl (Option.some.inj h_c).symm)
    -- the last element is followed by the closing bracket
    exact elements_last ((h v List.mem_cons_self).2 (Nat.le_of_lt_succ h_n) h_ends)
  | cons w ws ih =>
    obtain ⟨n, rfl⟩ : ∃ m, n = m + 1 := ⟨n - 1, by omega⟩
    rw [List.forall_mem_cons] at h
    rw [dumpsAll, dumpsAll, toList_join_cons] at h_n ⊢
    rw [List.length_append, List.length_cons, List.length_cons] at h_n
    obtain ⟨d, ds, h_d, d_begins⟩ := dumps_head (h.2 w List.mem_cons_self).1
    obtain ⟨more, h_join⟩ := toList_join_head h_d (dumpsAll ws)
    -- the others are read first, each followed by a comma or the bracket
    have h_more := ih h.2 (n := n) (by
      rw [dumpsAll]
      omega)
    have h_ends : ∀ cs, ValueEnds (',' :: cs) := fun cs c h_c => .inl (Option.some.inj h_c).symm
    rw [dumpsAll, h_join, List.cons_append] at h_more
    rw [h_join, List.append_assoc, List.cons_append, List.cons_append, List.cons_append]
    exact elements_more (h.1.2 (by omega) (h_ends _)) d_begins h_more

/-- The item of an object begins with a quote. -/
theorem toList_item_head (k : String) (v : Json) : ∃ cs, (quote k ++ ": " ++ dumps v).toList = '"' :: cs := by
  rw [toList_item, toList_quote]
  exact ⟨_, rfl⟩

/-- The items of an object are read. -/
theorem members_dumps {f : String × Json} {fs : List (String × Json)}
    (h : ∀ g ∈ f :: fs, Valid g.2 ∧ ReadBack g.2) {n : ℕ}
    (h_n : (PyStr.join ", " (dumpsFields (f :: fs))).toList.length < n) (rest : List Char) :
    members n ((PyStr.join ", " (dumpsFields (f :: fs))).toList ++ '\x7d' :: rest) =
      some (f :: fs, rest) := by
  induction fs generalizing f n with
  | nil =>
    obtain ⟨n, rfl⟩ : ∃ m, n = m + 1 := ⟨n - 1, by omega⟩
    obtain ⟨k, v⟩ := f
    obtain ⟨h_valid, h_read⟩ : Valid v ∧ ReadBack v := h (k, v) List.mem_cons_self
    obtain ⟨c, cs, h_c, c_begins⟩ := dumps_head h_valid
    have h_ends : ValueEnds ('\x7d' :: rest) := fun c h_c => .inr (.inr (Option.some.inj h_c).symm)
    rw [dumpsFields, dumpsFields, PyStr.join, toList_item] at h_n ⊢
    rw [List.length_append, List.length_cons, List.length_cons] at h_n
    have h_value := h_read (n := n) (by omega) h_ends
    have h_skip : skipWs ((dumps v).toList ++ '\x7d' :: rest) = (dumps v).toList ++ '\x7d' :: rest := by
      rw [h_c]
      exact skipWs_begins c_begins _
    rw [List.append_assoc, List.cons_append, List.cons_append, members_key, h_skip, h_value]
    rfl
  | cons g gs ih =>
    obtain ⟨n, rfl⟩ : ∃ m, n = m + 1 := ⟨n - 1, by omega⟩
    obtain ⟨k, v⟩ := f
    obtain ⟨l, w⟩ := g
    rw [List.forall_mem_cons] at h
    obtain ⟨h_first, h_rest⟩ := h
    obtain ⟨h_valid, h_read⟩ : Valid v ∧ ReadBack v := h_first
    obtain ⟨c, cs, h_c, c_begins⟩ := dumps_head h_valid
    rw [dumpsFields, dumpsFields, toList_join_cons, toList_item] at h_n ⊢
    simp only [List.length_append, List.length_cons] at h_n
    obtain ⟨item, h_item⟩ := toList_item_head l w
    obtain ⟨more, h_join⟩ := toList_join_head h_item (dumpsFields gs)
    have h_more := ih h_rest (n := n) (by
      rw [dumpsFields]
      omega)
    -- the value is followed by a comma, so it is read to its end
    have h_ends : ∀ cs, ValueEnds (',' :: cs) := fun cs c h_c => .inl (Option.some.inj h_c).symm
    rw [dumpsFields, h_join, List.cons_append] at h_more
    have h_value := h_read (n := n) (by omega) (h_ends (' ' :: '"' :: (more ++ '\x7d' :: rest)))
    have h_skip : ∀ cs', skipWs ((dumps v).toList ++ cs') = (dumps v).toList ++ cs' := by
      intro cs'
      rw [h_c]
      exact skipWs_begins c_begins _
    -- after the comma and the blank the next item starts with its key's quote
    have h_quote : skipWs (' ' :: '"' :: (more ++ '\x7d' :: rest)) = '"' :: (more ++ '\x7d' :: rest) :=
      @skipWs_begins '"' (by decide) _
    rw [h_join]
    simp only [List.append_assoc, List.cons_append]
    rw [members_key, h_skip, h_value, Option.bind_some]
    show (members n (skipWs (' ' :: '"' :: (more ++ '\x7d' :: rest)))).bind _ = _
    rw [h_quote, h_more]
    rfl

/-- An array whose elements are read back is read back. -/
theorem readBack_arr {xs : List Json} (h : ∀ x ∈ xs, Valid x ∧ ReadBack x) : ReadBack (.arr xs) := by
  intro n rest h_n h_rest
  rw [toList_arr] at h_n ⊢
  rw [List.length_cons, List.length_append] at h_n
  obtain ⟨n, rfl⟩ : ∃ m, n = m + 1 := ⟨n - 1, by omega⟩
  cases xs with
  -- the empty array is read at once
  | nil => rfl
  | cons w ws =>
    obtain ⟨d, ds, h_d, d_begins⟩ := dumps_head (h w List.mem_cons_self).1
    -- otherwise its first character is that of its first element
    obtain ⟨more, h_join⟩ := toList_join_head h_d (dumpsAll ws)
    have h_items := elements_dumps h (n := n) (by
      simp only [List.length_singleton] at h_n
      omega) rest
    rw [List.cons_append, List.append_assoc, List.singleton_append]
    rw [dumpsAll, h_join, List.cons_append] at h_items ⊢
    rw [value_array d_begins, h_items, Option.map_some]

/-- And an object whose values are, if its keys are different. -/
theorem readBack_obj {fs : List (String × Json)} (h_keys : (Dict.keys fs).Nodup)
    (h : ∀ f ∈ fs, Valid f.2 ∧ ReadBack f.2) : ReadBack (.obj fs) := by
  intro n rest h_n h_rest
  rw [toList_obj] at h_n ⊢
  rw [List.length_cons, List.length_append] at h_n
  obtain ⟨n, rfl⟩ : ∃ m, n = m + 1 := ⟨n - 1, by omega⟩
  cases fs with
  | nil => rfl
  | cons f fs =>
    obtain ⟨k, v⟩ := f
    -- it begins with the quote of its first key
    obtain ⟨item, h_item⟩ := toList_item_head k v
    obtain ⟨more, h_join⟩ := toList_join_head h_item (dumpsFields fs)
    have h_items := members_dumps h (n := n) (by
      simp only [List.length_singleton] at h_n
      omega) rest
    rw [List.cons_append, List.append_assoc, List.singleton_append]
    rw [dumpsFields, h_join, List.cons_append] at h_items ⊢
    rw [value_object, h_items, Option.map_some]
    dsimp only
    -- no key comes twice, so the members are the fields as they are
    rw [update_nil h_keys]

/-- A value without items takes one step. -/
theorem readBack_of_step {v : Json} (h : Valid v)
    (h_step : ∀ (n : ℕ) {rest : List Char}, ValueEnds rest →
      value (n + 1) ((dumps v).toList ++ rest) = some (v, rest)) : ReadBack v := by
  intro n rest h_n h_rest
  obtain ⟨c, cs, h_head, -⟩ := dumps_head h
  rw [h_head, List.length_cons] at h_n
  obtain ⟨m, rfl⟩ : ∃ m, n = m + 1 := ⟨n - 1, by omega⟩
  exact h_step m h_rest

/-- **A value written at the front of a text is read.** -/
theorem value_dumps {v : Json} (h : Valid v) : ReadBack v := by
  induction v using induct with
  | null => exact readBack_of_step h fun n rest _ => rfl
  | bool b =>
    cases b with
    | false => exact readBack_of_step h fun n rest _ => rfl
    | true => exact readBack_of_step h fun n rest _ => rfl
  | int m =>
    exact readBack_of_step h fun n rest h_rest => value_number (number_toString m) h_rest.number n
  | float t => exact readBack_of_step h fun n rest h_rest => value_float h h_rest.number n
  | str s => exact readBack_of_step h fun n rest _ => value_string s rest n
  -- the elements are smaller values
  | arr xs ih =>
    unfold Valid at h
    rw [validAll_iff] at h
    exact readBack_arr fun x h_x => ⟨h x h_x, ih x h_x (h x h_x)⟩
  -- and so are the fields
  | obj fs ih =>
    unfold Valid at h
    rw [validFields_iff] at h
    exact readBack_obj h.1 fun f h_f => ⟨h.2 f h_f, ih f h_f (h.2 f h_f)⟩

/-- **What is written is read back.** -/
theorem loads_dumps {v : Json} (h : Valid v) : loads (dumps v) = some v := by
  have h_ends : ValueEnds [] := fun c h_c => by cases h_c
  have h_value := value_dumps h (Nat.le_succ _) h_ends
  obtain ⟨c, cs, h_c, c_begins⟩ := dumps_head h
  have h_skip : skipWs (dumps v).toList = (dumps v).toList := by
    rw [h_c]
    exact skipWs_begins c_begins cs
  rw [List.append_nil] at h_value
  unfold loads
  simp only [h_skip, h_value]
  rfl

/-! ### What is read within the limits -/

section Limits

variable (limits : Limits)

mutual

/-- A value inside `depth` brackets whose text is within the limits. -/
def Fits : ℕ → Json → Prop
  | depth, .arr xs => depth < limits.nesting ∧ FitsAll (depth + 1) xs
  | depth, .obj fs => depth < limits.nesting ∧ FitsFields (depth + 1) fs
  | _, .int m => (Nat.toDigits 10 m.natAbs).length ≤ limits.digits
  | _, .null | _, .bool _ | _, .float _ | _, .str _ => True

def FitsAll : ℕ → List Json → Prop
  | _, [] => True
  | depth, x :: xs => Fits depth x ∧ FitsAll depth xs

def FitsFields : ℕ → List (String × Json) → Prop
  | _, [] => True
  | depth, (_, v) :: fs => Fits depth v ∧ FitsFields depth fs

end

variable {limits} {depth : ℕ}

theorem fitsAll_iff {xs : List Json} : FitsAll limits depth xs ↔ ∀ x ∈ xs, Fits limits depth x := by
  induction xs with
  | nil => simp [FitsAll]
  | cons x xs ih => simp [FitsAll, ih]

/-- Fields fit if their values do. -/
theorem fitsFields_iff {fs : List (String × Json)} :
    FitsFields limits depth fs ↔ ∀ f ∈ fs, Fits limits depth f.2 := by
  induction fs with
  | nil => simp [FitsFields]
  | cons f fs ih =>
    obtain ⟨k, v⟩ := f
    simp [FitsFields, ih]

/-- Written at the front of a text, the value is read without a limit being met. -/
def ReadWithin (limits : Limits) (v : Json) : Prop :=
  ∀ {depth n : ℕ} {rest : List Char}, Fits limits depth v → (dumps v).toList.length ≤ n →
    ValueEnds rest → exceedsValue limits n depth ((dumps v).toList ++ rest) = false

/-- A value without a bracket at its front is judged by what is read of it. -/
theorem exceedsValue_of_step {n : ℕ} {c : Char} {cs rest : List Char} {v : Json}
    (h_array : c ≠ '[') (h_object : c ≠ '\x7b') (h_value : value (n + 1) (c :: cs) = some (v, rest))
    (h_fits : ∀ m, v = .int m → (Nat.toDigits 10 m.natAbs).length ≤ limits.digits) :
    exceedsValue limits (n + 1) depth (c :: cs) = false := by
  unfold exceedsValue
  split
  · next h_eq => exact absurd (List.cons.inj h_eq).1 h_object
  · next h_eq => exact absurd (List.cons.inj h_eq).1 h_array
  · -- only integers are measured, and this one is short enough
    rw [h_value]
    cases v with
    | int m => exact decide_eq_false (not_lt.mpr (h_fits m rfl))
    | _ => rfl

/-- The last element of an array is within the limits if it fits. -/
theorem exceedsElements_last {n : ℕ} {cs rest : List Char} {v : Json}
    (h : value n (cs ++ ']' :: rest) = some (v, ']' :: rest))
    (h_fits : exceedsValue limits n depth (cs ++ ']' :: rest) = false) :
    exceedsElements limits (n + 1) depth (cs ++ ']' :: rest) = false := by
  rw [exceedsElements, h_fits, h]
  rfl

/-- An element that is followed by another exceeds no limit if neither does. -/
theorem exceedsElements_more {n : ℕ} {c : Char} {cs more : List Char} {v : Json}
    (h : value n (cs ++ ',' :: ' ' :: c :: more) = some (v, ',' :: ' ' :: c :: more))
    (h_fits : exceedsValue limits n depth (cs ++ ',' :: ' ' :: c :: more) = false)
    (h_c : begins c = true) (h_more : exceedsElements limits n depth (c :: more) = false) :
    exceedsElements limits (n + 1) depth (cs ++ ',' :: ' ' :: c :: more) = false := by
  have h_skip : skipWs (' ' :: c :: more) = c :: more := skipWs_begins h_c more
  have h_step : exceedsElements limits (n + 1) depth (cs ++ ',' :: ' ' :: c :: more) =
      exceedsElements limits n depth (skipWs (' ' :: c :: more)) := by
    rw [exceedsElements, h_fits, h]
    rfl
  rw [h_step, h_skip, h_more]

/-- The members of an object, at a key. -/
theorem exceedsMembers_quote (n : ℕ) (cs : List Char) :
    exceedsMembers limits (n + 1) depth ('"' :: cs) =
      match stringBody cs with
      | some (_, r) =>
        match skipWs r with
        | ':' :: r =>
          exceedsValue limits n depth (skipWs r) ||
            match value n (skipWs r) with
            | some (_, r) =>
              match skipWs r with
              | ',' :: r => exceedsMembers limits n depth (skipWs r)
              | _ => false
            | none => false
        | _ => false
      | none => false :=
  rfl

/-- A key with its colon. -/
theorem exceedsMembers_key (n : ℕ) (k : String) (cs : List Char) :
    exceedsMembers limits (n + 1) depth ((quote k).toList ++ ':' :: ' ' :: cs) =
      (exceedsValue limits n depth (skipWs cs) ||
        match value n (skipWs cs) with
        | some (_, r) =>
          match skipWs r with
          | ',' :: r => exceedsMembers limits n depth (skipWs r)
          | _ => false
        | none => false) := by
  -- the key is read back, and the value starts behind the colon
  rw [toList_quote, List.cons_append, List.append_assoc, List.singleton_append,
    exceedsMembers_quote, stringBody_quote]
  rfl

/-- The items of an array are within the limits. -/
theorem exceedsElements_dumps {v : Json} {vs : List Json}
    (h : ∀ x ∈ v :: vs, Valid x ∧ ReadWithin limits x) (h_fits : ∀ x ∈ v :: vs, Fits limits depth x)
    {n : ℕ} (h_n : (PyStr.join ", " (dumpsAll (v :: vs))).toList.length < n) (rest : List Char) :
    exceedsElements limits n depth
      ((PyStr.join ", " (dumpsAll (v :: vs))).toList ++ ']' :: rest) = false := by
  induction vs generalizing v n with
  | nil =>
    obtain ⟨n, rfl⟩ : ∃ m, n = m + 1 := ⟨n - 1, by omega⟩
    have h_ends : ValueEnds (']' :: rest) := fun c h_c => .inr (.inl (Option.some.inj h_c).symm)
    obtain ⟨h_valid, h_within⟩ := h v List.mem_cons_self
    have h_length := Nat.le_of_lt_succ h_n
    exact exceedsElements_last (value_dumps h_valid h_length h_ends)
      (h_within (h_fits v List.mem_cons_self) h_length h_ends)
  | cons w ws ih =>
    obtain ⟨n, rfl⟩ : ∃ m, n = m + 1 := ⟨n - 1, by omega⟩
    rw [List.forall_mem_cons] at h h_fits
    rw [dumpsAll, dumpsAll, toList_join_cons] at h_n ⊢
    rw [List.length_append, List.length_cons, List.length_cons] at h_n
    obtain ⟨d, ds, h_d, d_begins⟩ := dumps_head (h.2 w List.mem_cons_self).1
    obtain ⟨more, h_join⟩ := toList_join_head h_d (dumpsAll ws)
    -- the reader has one bracket less of text left, so less fuel is enough
    have h_more := ih h.2 h_fits.2 (n := n) (by
      rw [dumpsAll]
      omega)
    have h_ends : ∀ cs, ValueEnds (',' :: cs) := fun cs c h_c => .inl (Option.some.inj h_c).symm
    have h_length : (dumps v).toList.length ≤ n := by omega
    rw [dumpsAll, h_join, List.cons_append] at h_more
    rw [h_join, List.append_assoc, List.cons_append, List.cons_append, List.cons_append]
    exact exceedsElements_more (value_dumps h.1.1 h_length (h_ends _))
      (h.1.2 h_fits.1 h_length (h_ends _)) d_begins h_more

/-- The items of an object are within the limits. -/
theorem exceedsMembers_dumps {f : String × Json} {fs : List (String × Json)}
    (h : ∀ g ∈ f :: fs, Valid g.2 ∧ ReadWithin limits g.2)
    (h_fits : ∀ g ∈ f :: fs, Fits limits depth g.2) {n : ℕ}
    (h_n : (PyStr.join ", " (dumpsFields (f :: fs))).toList.length < n) (rest : List Char) :
    exceedsMembers limits n depth
      ((PyStr.join ", " (dumpsFields (f :: fs))).toList ++ '\x7d' :: rest) = false := by
  induction fs generalizing f n with
  | nil =>
    obtain ⟨n, rfl⟩ : ∃ m, n = m + 1 := ⟨n - 1, by omega⟩
    obtain ⟨k, v⟩ := f
    obtain ⟨h_valid, h_within⟩ : Valid v ∧ ReadWithin limits v := h (k, v) List.mem_cons_self
    obtain ⟨c, cs, h_c, c_begins⟩ := dumps_head h_valid
    have h_ends : ValueEnds ('\x7d' :: rest) := fun c h_c => .inr (.inr (Option.some.inj h_c).symm)
    rw [dumpsFields, dumpsFields, PyStr.join, toList_item] at h_n ⊢
    rw [List.length_append, List.length_cons, List.length_cons] at h_n
    have h_length : (dumps v).toList.length ≤ n := by omega
    have h_skip : skipWs ((dumps v).toList ++ '\x7d' :: rest) = (dumps v).toList ++ '\x7d' :: rest := by
      rw [h_c]
      exact skipWs_begins c_begins _
    rw [List.append_assoc, List.cons_append, List.cons_append, exceedsMembers_key, h_skip,
      value_dumps h_valid h_length h_ends,
      h_within (h_fits (k, v) List.mem_cons_self) h_length h_ends]
    rfl
  | cons g gs ih =>
    obtain ⟨n, rfl⟩ : ∃ m, n = m + 1 := ⟨n - 1, by omega⟩
    obtain ⟨k, v⟩ := f
    obtain ⟨l, w⟩ := g
    rw [List.forall_mem_cons] at h h_fits
    obtain ⟨h_first, h_rest⟩ := h
    obtain ⟨h_valid, h_within⟩ : Valid v ∧ ReadWithin limits v := h_first
    obtain ⟨c, cs, h_c, c_begins⟩ := dumps_head h_valid
    rw [dumpsFields, dumpsFields, toList_join_cons, toList_item] at h_n ⊢
    simp only [List.length_append, List.length_cons] at h_n
    obtain ⟨item, h_item⟩ := toList_item_head l w
    obtain ⟨more, h_join⟩ := toList_join_head h_item (dumpsFields gs)
    have h_more := ih h_rest h_fits.2 (n := n) (by
      rw [dumpsFields]
      omega)
    -- the value is followed by a comma, so it is read to its end
    have h_ends : ∀ cs, ValueEnds (',' :: cs) := fun cs c h_c => .inl (Option.some.inj h_c).symm
    rw [dumpsFields, h_join, List.cons_append] at h_more
    have h_length : (dumps v).toList.length ≤ n := by omega
    have h_skip : ∀ cs', skipWs ((dumps v).toList ++ cs') = (dumps v).toList ++ cs' := by
      intro cs'
      rw [h_c]
      exact skipWs_begins c_begins _
    -- after the comma and the blank the next item starts with its key's quote
    have h_quote : skipWs (' ' :: '"' :: (more ++ '\x7d' :: rest)) = '"' :: (more ++ '\x7d' :: rest) :=
      @skipWs_begins '"' (by decide) _
    rw [h_join]
    simp only [List.append_assoc, List.cons_append]
    rw [exceedsMembers_key, h_skip, value_dumps h_valid h_length (h_ends _),
      h_within h_fits.1 h_length (h_ends _), Bool.false_or]
    show exceedsMembers limits n depth (skipWs (' ' :: '"' :: (more ++ '\x7d' :: rest))) = false
    rw [h_quote, h_more]

/-- **A value written at the front of a text is read without a limit being met**, if it fits. -/
theorem exceedsValue_dumps {v : Json} (h : Valid v) : ReadWithin limits v := by
  have h_plain : ∀ {w : Json}, Valid w → (∀ xs, w ≠ .arr xs) → (∀ fs, w ≠ .obj fs) →
      ReadWithin limits w := by
    intro w h_w h_arr h_obj depth n rest h_fits h_n h_rest
    have h_value := value_dumps h_w h_n h_rest
    obtain ⟨c, cs, h_head, -⟩ := dumps_head h_w
    rw [h_head, List.length_cons] at h_n
    obtain ⟨m, rfl⟩ : ∃ m, n = m + 1 := ⟨n - 1, by omega⟩
    rw [h_head, List.cons_append] at h_value ⊢
    -- only arrays and objects begin with a bracket
    have h_bracket : c ≠ '[' ∧ c ≠ '\x7b' := by
      constructor
      · rintro rfl
        rw [value_bracket] at h_value
        split at h_value
        · exact h_arr [] (congrArg Prod.fst (Option.some.inj h_value)).symm
        · obtain ⟨p, -, h_p⟩ := Option.map_eq_some_iff.mp h_value
          exact h_arr p.1 (congrArg Prod.fst h_p).symm
      · rintro rfl
        rw [value] at h_value
        split at h_value
        · exact h_obj [] (congrArg Prod.fst (Option.some.inj h_value)).symm
        · obtain ⟨p, -, h_p⟩ := Option.map_eq_some_iff.mp h_value
          exact h_obj _ (congrArg Prod.fst h_p).symm
    refine exceedsValue_of_step h_bracket.1 h_bracket.2 h_value fun k h_k => ?_
    subst h_k
    exact h_fits
  induction v using induct with
  | null => exact @h_plain _ h nofun nofun
  | bool b => exact @h_plain _ h nofun nofun
  | int m => exact @h_plain _ h nofun nofun
  | float t => exact @h_plain _ h nofun nofun
  | str s => exact @h_plain _ h nofun nofun
  | arr xs ih =>
    intro depth n rest h_fits h_n h_rest
    unfold Valid at h
    rw [validAll_iff] at h
    obtain ⟨h_depth, h_all⟩ : depth < limits.nesting ∧ FitsAll limits (depth + 1) xs := h_fits
    rw [fitsAll_iff] at h_all
    rw [toList_arr] at h_n ⊢
    rw [List.length_cons, List.length_append] at h_n
    obtain ⟨n, rfl⟩ : ∃ m, n = m + 1 := ⟨n - 1, by omega⟩
    rw [List.cons_append, List.append_assoc, List.singleton_append, exceedsValue,
      decide_eq_false (not_le.mpr h_depth), Bool.false_or]
    cases xs with
    | nil => rfl
    | cons w ws =>
      obtain ⟨d, ds, h_d, d_begins⟩ := dumps_head (h w List.mem_cons_self)
      obtain ⟨more, h_join⟩ := toList_join_head h_d (dumpsAll ws)
      have h_items := exceedsElements_dumps (fun x h_x => ⟨h x h_x, ih x h_x (h x h_x)⟩) h_all (n := n)
        (by
          simp only [List.length_singleton] at h_n
          omega) rest
      rw [dumpsAll, h_join, List.cons_append] at h_items ⊢
      rw [skipWs_begins d_begins]
      split
      · rfl
      · exact h_items
  | obj fs ih =>
    intro depth n rest h_fits h_n h_rest
    unfold Valid at h
    rw [validFields_iff] at h
    obtain ⟨h_depth, h_all⟩ : depth < limits.nesting ∧ FitsFields limits (depth + 1) fs := h_fits
    rw [fitsFields_iff] at h_all
    rw [toList_obj] at h_n ⊢
    rw [List.length_cons, List.length_append] at h_n
    obtain ⟨n, rfl⟩ : ∃ m, n = m + 1 := ⟨n - 1, by omega⟩
    rw [List.cons_append, List.append_assoc, List.singleton_append, exceedsValue,
      decide_eq_false (not_le.mpr h_depth), Bool.false_or]
    cases fs with
    | nil => rfl
    | cons f fs =>
      obtain ⟨k, v⟩ := f
      obtain ⟨item, h_item⟩ := toList_item_head k v
      obtain ⟨more, h_join⟩ := toList_join_head h_item (dumpsFields fs)
      have h_items := exceedsMembers_dumps (fun f h_f => ⟨h.2 f h_f, ih f h_f (h.2 f h_f)⟩) h_all
        (n := n) (by
          simp only [List.length_singleton] at h_n
          omega) rest
      rw [dumpsFields, h_join, List.cons_append] at h_items ⊢
      exact h_items

/-- **What is written within the limits is read back.** -/
theorem load_dumps {v : Json} (h : Valid v) (h_fits : Fits limits 0 v) :
    load limits (dumps v) = .ok v := by
  -- nothing follows, so the value ends there
  have h_ends : ValueEnds [] := fun c h_c => by cases h_c
  have h_value := exceedsValue_dumps h h_fits (Nat.le_succ _) h_ends
  obtain ⟨c, cs, h_c, c_begins⟩ := dumps_head h
  -- there is no white space in front
  have h_skip : skipWs (dumps v).toList = (dumps v).toList := by
    rw [h_c]
    exact skipWs_begins c_begins cs
  rw [List.append_nil] at h_value
  unfold load exceeds
  rw [h_skip, h_value, loads_dumps h]
  rfl

end Limits

/-! ### The characters written -/

/-- What numbers are written with is ASCII. -/
theorem numeric_ascii {c : Char} (h : numeric c = true) : c.toNat < 128 := by
  simp only [numeric, Bool.or_eq_true, decide_eq_true_eq] at h
  rcases h with ((((h | rfl) | rfl) | rfl) | rfl) | rfl
  · have h_nat : c.val.toNat = c.toNat := rfl
    simp only [Char.isDigit, Bool.and_eq_true, decide_eq_true_eq, ge_iff_le,
      UInt32.le_iff_toNat_le] at h
    simp at h
    omega
  all_goals decide

theorem digitChar_ascii {n : ℕ} (h : n < 16) : n.digitChar.toNat < 128 := by
  have h_all : ∀ n < 16, n.digitChar.toNat < 128 := by decide
  exact h_all n h

/-- The digits of an escape are ASCII. -/
theorem hex4_ascii (n : ℕ) : ∀ c ∈ hex4 n, c.toNat < 128 := by
  simp only [hex4, List.map_cons, List.map_nil, List.forall_mem_cons]
  have h_digit : ∀ m : ℕ, (m % 16).digitChar.toNat < 128 := fun m =>
    digitChar_ascii (Nat.mod_lt m (by decide))
  exact ⟨h_digit _, h_digit _, h_digit _, h_digit _, by simp⟩

/-- So is every escape. -/
theorem escape_ascii (c : Char) : ∀ d ∈ escape c, d.toNat < 128 := by
  have h_unicode : ∀ d ∈ ['\\', 'u'], d.toNat < 128 := by decide
  unfold escape
  dsimp only
  split_ifs with h_quote h_slash h_nl h_cr h_tab h_bs h_ff h_plain h_small
  -- the seven named escapes
  iterate 7
    · decide
  · intro d h_d
    rw [List.mem_singleton.mp h_d]
    omega
  · -- one escape for a small code, two for a pair of surrogates
    exact List.forall_mem_append.mpr ⟨h_unicode, hex4_ascii _⟩
  · refine List.forall_mem_append.mpr ⟨?_, hex4_ascii _⟩
    refine List.forall_mem_append.mpr ⟨?_, h_unicode⟩
    exact List.forall_mem_append.mpr ⟨h_unicode, hex4_ascii _⟩

/-- A quoted text is ASCII. -/
theorem quote_ascii (s : String) : ∀ c ∈ (quote s).toList, c.toNat < 128 := by
  rw [toList_quote, List.forall_mem_cons, List.forall_mem_append]
  refine ⟨by decide, fun c h_c => ?_, by decide⟩
  obtain ⟨d, -, h_d⟩ := List.mem_flatMap.mp h_c
  exact escape_ascii d c h_d

/-- A joined text has the characters of its parts, and those between them. -/
theorem forall_mem_join {P : Char → Prop} (h_comma : P ',') (h_blank : P ' ') {ps : List String}
    (h : ∀ p ∈ ps, ∀ c ∈ p.toList, P c) : ∀ c ∈ (PyStr.join ", " ps).toList, P c := by
  induction ps with
  | nil => simp [PyStr.join]
  | cons p ps ih =>
    rw [List.forall_mem_cons] at h
    cases ps with
    | nil => exact h.1
    | cons q ps =>
      rw [toList_join_cons, List.forall_mem_append, List.forall_mem_cons, List.forall_mem_cons]
      exact ⟨h.1, h_comma, h_blank, ih h.2⟩

theorem dumpsAll_eq (xs : List Json) : dumpsAll xs = xs.map dumps := by
  induction xs with
  | nil => rfl
  | cons x xs ih => rw [dumpsAll, ih, List.map_cons]

/-- Fields are dumped one by one. -/
theorem dumpsFields_eq (fs : List (String × Json)) :
    dumpsFields fs = fs.map fun f => quote f.1 ++ ": " ++ dumps f.2 := by
  induction fs with
  | nil => rfl
  | cons f fs ih =>
    obtain ⟨k, v⟩ := f
    rw [dumpsFields, ih, List.map_cons]

/-- **What is written is ASCII.** -/
theorem dumps_ascii {v : Json} (h : Valid v) : ∀ c ∈ (dumps v).toList, c.toNat < 128 := by
  -- a number is read back, so it is made of the characters of numbers
  have h_number : ∀ {cs : List Char} {w : Json}, number cs = some (w, []) →
      ∀ c ∈ cs, c.toNat < 128 :=
    fun h_w c h_c => numeric_ascii (number_numeric h_w c h_c)
  induction v using induct with
  | null => decide
  | bool b => cases b <;> decide
  | int n => exact h_number (number_toString n)
  | float t =>
    unfold Valid at h
    rcases h with h_t | rfl | rfl | rfl
    · exact h_number h_t
    all_goals decide
  | str s => exact quote_ascii s
  | arr xs ih =>
    unfold Valid at h
    rw [validAll_iff] at h
    rw [toList_arr, List.forall_mem_cons, List.forall_mem_append]
    refine ⟨by decide, forall_mem_join (by decide) (by decide) fun p h_p => ?_, by decide⟩
    rw [dumpsAll_eq] at h_p
    obtain ⟨x, h_x, rfl⟩ := List.mem_map.mp h_p
    exact ih x h_x (h x h_x)
  | obj fs ih =>
    unfold Valid at h
    rw [validFields_iff] at h
    rw [toList_obj, List.forall_mem_cons, List.forall_mem_append]
    refine ⟨by decide, forall_mem_join (by decide) (by decide) fun p h_p => ?_, by decide⟩
    rw [dumpsFields_eq] at h_p
    obtain ⟨f, h_f, rfl⟩ := List.mem_map.mp h_p
    rw [toList_item, List.forall_mem_append, List.forall_mem_cons, List.forall_mem_cons]
    exact ⟨quote_ascii f.1, by decide, by decide, ih f h_f (h.2 f h_f)⟩

/-- No character of a number is a space. -/
theorem numeric_not_space {c : Char} (h : numeric c = true) : PyStr.isSpace c = false := by
  have h_all : ∀ n < 128, numeric (Char.ofNat n) = true → PyStr.isSpace (Char.ofNat n) = false := by
    decide +kernel
  have h_c := h_all c.toNat (numeric_ascii h)
  rw [Char.ofNat_toNat] at h_c
  exact h_c h

/-- No white space stands at the ends of what is written. -/
theorem dumps_stripped {v : Json} (h : Valid v) : PyStr.Stripped PyStr.isSpace (dumps v).toList := by
  have h_number : ∀ {cs : List Char} {w : Json}, number cs = some (w, []) →
      PyStr.Stripped PyStr.isSpace cs :=
    fun h_w => PyStr.stripped_of_forall fun c h_c => numeric_not_space (number_numeric h_w c h_c)
  -- quotes and brackets at both ends keep a strip from taking anything
  have h_between : ∀ {c d : Char} (cs : List Char), PyStr.isSpace c = false →
      PyStr.isSpace d = false → PyStr.Stripped PyStr.isSpace (c :: (cs ++ [d])) := by
    intro c d cs h_c h_d
    constructor
    · intro e h_e
      rwa [← Option.some.inj h_e]
    · intro e h_e
      rw [List.reverse_cons, List.reverse_append] at h_e
      rwa [← Option.some.inj h_e]
  cases v with
  | null => exact PyStr.stripped_of_forall (by decide)
  | bool b => cases b <;> exact PyStr.stripped_of_forall (by decide)
  | int n => exact h_number (number_toString n)
  | float t =>
    unfold Valid at h
    rcases h with h_t | rfl | rfl | rfl
    · exact h_number h_t
    all_goals exact PyStr.stripped_of_forall (by decide)
  | str s =>
    rw [dumps, toList_quote]
    exact h_between _ (by decide) (by decide)
  | arr xs =>
    rw [toList_arr]
    exact h_between _ (by decide) (by decide)
  | obj fs =>
    rw [toList_obj]
    exact h_between _ (by decide) (by decide)

end Json
end Lib
