import NexusAgent.Voice.SentenceOrder

/-!
# The think filter on a stream

The reader filters the whole text it has so far after every chunk, hands on what is new, and
holds back a beginning of the tag at the end. The tag has its first character nowhere else, so
what is outside the blocks of a text only grows with it, but for such a beginning
(`outside_append`), and what has been handed on stays a prefix of it.

* `outside`: the text without its blocks; `stripThink_eq`: the filter cuts it at a tag that
  only arose when a block was taken out.
* `Standing.readChunk`: what has been handed on after a chunk.
* `filter_agrees_iff`: when the whole stream is the filtered text.
-/

namespace Nexus.Voice

open Lib

/-! ### The first occurrence of a tag -/

section Tag

variable {tag text before after : Text}

/-- A text is split at the tag. -/
theorem splitAtTag_some (h : splitAtTag tag text = some (before, after)) :
    text = before ++ tag ++ after := by
  -- by induction on the text
  induction text generalizing before with
  | nil =>
    simp only [splitAtTag] at h
    split_ifs at h with h_tag
    obtain ⟨rfl, rfl⟩ := Prod.mk.inj (Option.some.inj h)
    simp [h_tag]
  | cons c cs ih =>
    simp only [splitAtTag] at h
    split_ifs at h with h_tag
    · -- the tag is here
      obtain ⟨rfl, rfl⟩ := Prod.mk.inj (Option.some.inj h)
      obtain ⟨rest, h_rest⟩ := List.isPrefixOf_iff_prefix.mp h_tag
      rw [← h_rest, List.drop_left, List.nil_append]
    · -- the tag is further on
      obtain ⟨⟨before', after'⟩, h_split, h_eq⟩ := Option.map_eq_some_iff.mp h
      obtain ⟨rfl, rfl⟩ := Prod.mk.inj h_eq
      rw [ih h_split]
      rfl

/-- What precedes the first occurrence holds none. -/
theorem splitAtTag_before (h_tag : tag ≠ []) (h : splitAtTag tag text = some (before, after)) :
    splitAtTag tag before = none := by
  -- by induction on the text
  induction text generalizing before with
  | nil =>
    simp [splitAtTag, h_tag] at h
  | cons c cs ih =>
    simp only [splitAtTag] at h
    split_ifs at h with h_here
    · -- the tag is here, with nothing before it
      obtain ⟨rfl, rfl⟩ := Prod.mk.inj (Option.some.inj h)
      simp [splitAtTag, h_tag]
    · -- the tag is further on, so it does not begin here
      obtain ⟨⟨before', after'⟩, h_split, h_eq⟩ := Option.map_eq_some_iff.mp h
      obtain ⟨rfl, rfl⟩ := Prod.mk.inj h_eq
      have h_not : tag.isPrefixOf (c :: before') = false := by
        rw [← Bool.not_eq_true]
        intro h_begins
        refine h_here (List.isPrefixOf_iff_prefix.mpr ?_)
        refine (List.isPrefixOf_iff_prefix.mp h_begins).trans ⟨tag ++ after', ?_⟩
        rw [splitAtTag_some h_split]
        simp
      simp [splitAtTag, h_not, ih h_split]

/-- More text does not move the first occurrence. -/
theorem splitAtTag_append (h : splitAtTag tag text = some (before, after)) (x : Text) :
    splitAtTag tag (text ++ x) = some (before, after ++ x) := by
  induction text generalizing before with
  | nil =>
    simp only [splitAtTag] at h
    split_ifs at h with h_tag
    obtain ⟨rfl, rfl⟩ := Prod.mk.inj (Option.some.inj h)
    cases x <;> simp [splitAtTag, h_tag]
  | cons c cs ih =>
    simp only [splitAtTag] at h
    split_ifs at h with h_here
    · obtain ⟨rfl, rfl⟩ := Prod.mk.inj (Option.some.inj h)
      have h_begins := List.isPrefixOf_iff_prefix.mp h_here
      have h_here' : tag.isPrefixOf (c :: (cs ++ x)) = true :=
        List.isPrefixOf_iff_prefix.mpr (h_begins.trans (List.prefix_append _ _))
      rw [List.cons_append, splitAtTag, if_pos h_here', ← List.cons_append,
        List.drop_append_of_le_length h_begins.length_le]
    · obtain ⟨⟨before', after'⟩, h_split, h_eq⟩ := Option.map_eq_some_iff.mp h
      obtain ⟨rfl, rfl⟩ := Prod.mk.inj h_eq
      have h_not : tag.isPrefixOf (c :: (cs ++ x)) = false := by
        rw [← Bool.not_eq_true]
        intro h_begins
        refine h_here (List.isPrefixOf_iff_prefix.mpr ?_)
        -- the tag would end within the first occurrence
        refine List.prefix_of_prefix_length_le (List.isPrefixOf_iff_prefix.mp h_begins)
          (List.prefix_append (c :: cs) x) ?_
        rw [splitAtTag_some h_split]
        simp only [List.length_cons, List.length_append]
        omega
      rw [List.cons_append, splitAtTag, if_neg (by simp [h_not]), ih h_split]
      rfl

/-- The first character of the tag is nowhere else in it. -/
def Unbordered (tag : Text) : Prop := ∃ c cs, tag = c :: cs ∧ c ∉ cs

theorem Unbordered.ne_nil (h : Unbordered tag) : tag ≠ [] := by
  obtain ⟨c, cs, rfl, -⟩ := h
  exact List.cons_ne_nil c cs

/-- Two occurrences of beginnings of the tag do not overlap. -/
theorem Unbordered.eq_nil_of_append (h : Unbordered tag) {t u v : Text} (h_t : t ≠ [])
    (h_u : u <+: tag) (h_v : t ++ u <+: tag ++ v) (h_lt : t.length < tag.length) : u = [] := by
  -- by the overlap, which would have to begin like the tag
  obtain ⟨c, cs, rfl, h_c⟩ := h
  cases u with
  | nil => rfl
  | cons d u =>
    -- it begins with the sign of the tag
    obtain ⟨rfl, -⟩ := List.cons_prefix_cons.mp h_u
    refine (h_c ?_).elim
    obtain ⟨e, t, rfl⟩ := List.exists_cons_of_ne_nil h_t
    obtain ⟨w, h_w⟩ := (List.cons_prefix_cons.mp h_v).2
    rw [List.length_cons, List.length_cons, Nat.add_lt_add_iff_right] at h_lt
    have h_w : t ++ d :: u ++ w = cs ++ v := h_w
    have h_eq : t ++ d :: (u ++ w) = cs ++ v := by rw [← h_w]; simp
    -- which would come again within the tag
    have h_get : (cs ++ v)[t.length]? = some d := by
      rw [← h_eq, List.getElem?_append_right le_rfl, Nat.sub_self, List.getElem?_cons_zero]
    rw [List.getElem?_append_left h_lt] at h_get
    exact List.mem_of_getElem? h_get

/-- A tag after a text without one is the first one. -/
theorem splitAtTag_of_none (h : Unbordered tag) (h_none : splitAtTag tag text = none) (x : Text) :
    splitAtTag tag (text ++ tag ++ x) = some (text, x) := by
  induction text with
  | nil =>
    obtain ⟨c, cs, rfl, -⟩ := h
    have h_here : (c :: cs).isPrefixOf (c :: (cs ++ x)) = true :=
      List.isPrefixOf_iff_prefix.mpr (List.prefix_append (c :: cs) x)
    rw [List.nil_append, List.cons_append, splitAtTag, if_pos h_here, ← List.cons_append,
      List.drop_left]
  | cons d ds ih =>
    simp only [splitAtTag] at h_none
    split_ifs at h_none with h_here
    have h_not : tag.isPrefixOf (d :: (ds ++ tag ++ x)) = false := by
      rw [← Bool.not_eq_true]
      intro h_begins
      have h_begins := List.isPrefixOf_iff_prefix.mp h_begins
      rcases Nat.lt_or_ge (d :: ds).length tag.length with h_lt | h_ge
      · -- it would overlap the tag that follows
        obtain ⟨v, h_v⟩ := h_begins
        have h_nil := h.eq_nil_of_append (List.cons_ne_nil d ds) List.prefix_rfl
          ⟨x, by rw [h_v]; simp⟩ h_lt
        exact h.ne_nil h_nil
      · refine h_here (List.isPrefixOf_iff_prefix.mpr ?_)
        exact List.prefix_of_prefix_length_le h_begins ⟨tag ++ x, by simp⟩ h_ge
    rw [List.cons_append, List.cons_append, splitAtTag,
      if_neg (by rw [h_not]; exact Bool.false_ne_true), ih (Option.map_eq_none_iff.mp h_none)]
    rfl

/-- The tags that begin in a text without one begin at its end. -/
theorem splitAtTag_grown (h_none : splitAtTag tag text = none) {x : Text}
    (h : splitAtTag tag (text ++ x) = some (before, after)) :
    text <+: before ∨ ∃ j, 1 ≤ j ∧ j < tag.length ∧ text = before ++ tag.take j := by
  induction text generalizing before with
  | nil => exact .inl List.nil_prefix
  | cons d ds ih =>
    simp only [splitAtTag] at h_none
    split_ifs at h_none with h_here
    rw [List.cons_append, splitAtTag] at h
    split_ifs at h with h_begins
    · obtain ⟨rfl, rfl⟩ := Prod.mk.inj (Option.some.inj h)
      have h_begins := List.isPrefixOf_iff_prefix.mp h_begins
      -- the tag begins here but was not there before: it runs past the old end
      have h_lt : (d :: ds).length < tag.length := by
        by_contra h_ge
        refine h_here (List.isPrefixOf_iff_prefix.mpr ?_)
        exact List.prefix_of_prefix_length_le h_begins ⟨x, rfl⟩ (Nat.le_of_not_lt h_ge)
      refine .inr ⟨(d :: ds).length, Nat.succ_pos _, h_lt, ?_⟩
      have h_text : d :: ds <+: tag :=
        List.prefix_of_prefix_length_le ⟨x, rfl⟩ h_begins h_lt.le
      exact List.prefix_iff_eq_take.mp h_text
    · obtain ⟨⟨before', after'⟩, h_split, h_eq⟩ := Option.map_eq_some_iff.mp h
      obtain ⟨rfl, rfl⟩ := Prod.mk.inj h_eq
      rcases ih (Option.map_eq_none_iff.mp h_none) h_split with h_before | ⟨j, h_j, h_lt, h_text⟩
      · exact .inl (List.cons_prefix_cons.mpr ⟨rfl, h_before⟩)
      · exact .inr ⟨j, h_j, h_lt, by rw [h_text]; rfl⟩

end Tag

theorem unbordered_thinkTag : Unbordered thinkTag := ⟨'<', "think>".toList, rfl, by decide⟩

/-! ### What is outside the blocks -/

/-- The text without its blocks, up to a tag that opens none. -/
def outside (text : Text) : Text :=
  match _h : splitAtTag thinkTag text with
  | none => text
  | some (before, inside) =>
    match _h' : splitAtTag thinkEnd inside with
    | none => before
    | some (_, after) => before ++ outside after
termination_by text.length
decreasing_by
  rw [splitAtTag_some _h, splitAtTag_some _h']
  simp only [List.length_append]
  have h_tag : 0 < thinkTag.length := by decide
  omega

/-- Without a tag all is outside. -/
theorem outside_of_none {text : Text} (h : splitAtTag thinkTag text = none) :
    outside text = text := by
  rw [outside]
  split
  · rfl
  · next h' => rw [h] at h'; cases h'

/-- An open block hides the rest. -/
theorem outside_of_open {text before inside : Text}
    (h : splitAtTag thinkTag text = some (before, inside))
    (h_open : splitAtTag thinkEnd inside = none) : outside text = before := by
  rw [outside]
  split
  · next h' => rw [h] at h'; cases h'
  · next h' =>
    rw [h] at h'
    obtain ⟨rfl, rfl⟩ := Prod.mk.inj (Option.some.inj h')
    split
    · rfl
    · next h'' => rw [h_open] at h''; cases h''

/-- A closed block is left out. -/
theorem outside_of_block {text before inside between after : Text}
    (h : splitAtTag thinkTag text = some (before, inside))
    (h_block : splitAtTag thinkEnd inside = some (between, after)) :
    outside text = before ++ outside after := by
  rw [outside]
  split
  · next h' => rw [h] at h'; cases h'
  · next h' =>
    rw [h] at h'
    obtain ⟨rfl, rfl⟩ := Prod.mk.inj (Option.some.inj h')
    split
    · next h'' => rw [h_block] at h''; cases h''
    · next h'' =>
      rw [h_block] at h''
      obtain ⟨rfl, rfl⟩ := Prod.mk.inj (Option.some.inj h'')
      rfl

theorem outside_nil : outside [] = [] := outside_of_none (by decide)

/-- Cut at the first tag. -/
def cutTag (text : Text) : Text :=
  match splitAtTag thinkTag text with
  | some (before, _) => before
  | none => text

/-- What is cut at the tag has no tag. -/
theorem splitAtTag_cutTag (text : Text) : splitAtTag thinkTag (cutTag text) = none := by
  unfold cutTag
  cases h : splitAtTag thinkTag text with
  | none => exact h
  | some parts => exact splitAtTag_before unbordered_thinkTag.ne_nil h

/-- The text up to a first tag, if it has one. -/
theorem cutTag_cases (text : Text) :
    cutTag text = text ∨ ∃ rest, text = cutTag text ++ thinkTag ++ rest := by
  unfold cutTag
  cases h : splitAtTag thinkTag text with
  | none => exact .inl rfl
  | some parts => exact .inr ⟨parts.2, splitAtTag_some h⟩

/-- What is left when all blocks are removed: what is outside, and an open tag. -/
theorem removeBlocks_eq (fuel : ℕ) (text : Text) (h_fuel : text.length ≤ fuel) :
    removeBlocks fuel text = outside text ∨
      ∃ rest, removeBlocks fuel text = outside text ++ thinkTag ++ rest := by
  induction fuel generalizing text with
  | zero =>
    obtain rfl := List.eq_nil_of_length_eq_zero (Nat.le_zero.mp h_fuel)
    exact .inl outside_nil.symm
  | succ fuel ih =>
    cases h : splitAtTag thinkTag text with
    | none =>
      have h_remove : removeBlocks (fuel + 1) text = text := by simp [removeBlocks, h]
      exact .inl (by rw [h_remove, outside_of_none h])
    | some parts =>
      obtain ⟨before, inside⟩ := parts
      cases h' : splitAtTag thinkEnd inside with
      | none =>
        have h_remove : removeBlocks (fuel + 1) text = text := by simp [removeBlocks, h, h']
        exact .inr ⟨inside, by rw [h_remove, outside_of_open h h', ← splitAtTag_some h]⟩
      | some parts =>
        obtain ⟨between, after⟩ := parts
        -- the rest is shorter by the two tags at least
        have h_less : after.length ≤ fuel := by
          rw [splitAtTag_some h, splitAtTag_some h'] at h_fuel
          have h_tag : 0 < thinkTag.length := by decide
          simp only [List.length_append] at h_fuel
          omega
        have h_remove : removeBlocks (fuel + 1) text = before ++ removeBlocks fuel after := by
          simp [removeBlocks, h, h']
        rw [h_remove, outside_of_block h h']
        rcases ih after h_less with h_eq | ⟨rest, h_eq⟩
        · exact .inl (by rw [h_eq])
        · exact .inr ⟨rest, by rw [h_eq]; simp⟩

/-- **The filter** cuts what is outside at a tag that arose there. -/
theorem stripThink_eq (text : Text) : stripThink text = cutTag (outside text) := by
  have h_strip : stripThink text = cutTag (removeBlocks text.length text) := rfl
  rw [h_strip]
  rcases removeBlocks_eq text.length text le_rfl with h | ⟨rest, h⟩ <;> rw [h]
  unfold cutTag
  cases h_out : splitAtTag thinkTag (outside text) with
  | none => rw [splitAtTag_of_none unbordered_thinkTag h_out]
  | some parts =>
    rw [List.append_assoc, splitAtTag_append h_out]

/-- **What is outside only grows**, but for a beginning of the tag at its end. -/
theorem outside_append (text x : Text) : outside text <+: outside (text ++ x) ∨
    ∃ p j, 1 ≤ j ∧ j < thinkTag.length ∧ outside text = p ++ thinkTag.take j ∧
      p <+: outside (text ++ x) := by
  induction text using outside.induct with
  | case1 text h =>
    rw [outside_of_none h]
    cases h_x : splitAtTag thinkTag (text ++ x) with
    | none =>
      rw [outside_of_none h_x]
      exact .inl (List.prefix_append _ _)
    | some parts =>
      obtain ⟨before, inside⟩ := parts
      have h_before : before <+: outside (text ++ x) := by
        cases h_in : splitAtTag thinkEnd inside with
        | none => rw [outside_of_open h_x h_in]
        | some parts =>
          obtain ⟨between, after⟩ := parts
          rw [outside_of_block h_x h_in]
          exact List.prefix_append _ _
      -- the tag either lies in what is added, or began at the end of the text
      rcases splitAtTag_grown h h_x with h_text | ⟨j, h_j, h_lt, h_text⟩
      · exact .inl (h_text.trans h_before)
      · exact .inr ⟨before, j, h_j, h_lt, h_text, h_before⟩
  | case2 text before inside h h_open =>
    have h_x := splitAtTag_append h x
    rw [outside_of_open h h_open]
    refine .inl ?_
    cases h_in : splitAtTag thinkEnd (inside ++ x) with
    | none => rw [outside_of_open h_x h_in]
    | some parts =>
      obtain ⟨between, after⟩ := parts
      rw [outside_of_block h_x h_in]
      exact List.prefix_append _ _
  | case3 text before inside h between after h_block ih =>
    rw [outside_of_block h h_block,
      outside_of_block (splitAtTag_append h x) (splitAtTag_append h_block x)]
    rcases ih with h_after | ⟨p, j, h_j, h_lt, h_after, h_p⟩
    · exact .inl ((List.prefix_append_right_inj before).mpr h_after)
    · refine .inr ⟨before ++ p, j, h_j, h_lt, ?_, (List.prefix_append_right_inj before).mpr h_p⟩
      rw [h_after, List.append_assoc]

/-! ### What is handed on -/

/-- The filtered text without what is held back. -/
def settled (raw : Text) : Text := (stripThink raw).take (visibleThinkLen raw)

/-- What is held back is the longest beginning of the tag at the end. -/
theorem settled_append (raw : Text) : ∃ k < thinkTag.length,
    stripThink raw = settled raw ++ thinkTag.take k ∧
      ∀ j < thinkTag.length, thinkTag.take j <:+ stripThink raw → j ≤ k := by
  unfold settled visibleThinkLen
  dsimp only
  cases h : [6, 5, 4, 3, 2, 1].find? fun k => (thinkTag.take k).isSuffixOf (stripThink raw) with
  | none =>
    refine ⟨0, by decide, by simp, fun j h_j h_suffix => ?_⟩
    by_contra h_pos
    have h_lt : j < 7 := h_j
    have h_not := List.find?_eq_none.mp h j (by simp; omega)
    exact h_not (List.isSuffixOf_iff_suffix.mpr h_suffix)
  | some k =>
    obtain ⟨h_suffix, longer, shorter, h_list, h_longer⟩ := List.find?_eq_some_iff_append.mp h
    -- the lengths are tried from the longest down, so the first that fits is the longest
    have h_sorted : ([6, 5, 4, 3, 2, 1] : List ℕ).Pairwise (· > ·) := by decide
    have h_mem : k ∈ ([6, 5, 4, 3, 2, 1] : List ℕ) := List.mem_of_find?_eq_some h
    have h_k : k < thinkTag.length := by
      have : thinkTag.length = 7 := rfl
      simp only [List.mem_cons, List.not_mem_nil, or_false] at h_mem
      omega
    refine ⟨k, h_k, ?_, fun j h_j h_j_suffix => ?_⟩
    · obtain ⟨p, h_p⟩ := List.isSuffixOf_iff_suffix.mp h_suffix
      have h_length : (stripThink raw).length - k = p.length := by
        rw [← h_p, List.length_append, List.length_take_of_le h_k.le, Nat.add_sub_cancel]
      show stripThink raw = (stripThink raw).take ((stripThink raw).length - k) ++ thinkTag.take k
      rw [h_length, ← h_p, List.take_left]
    · by_contra h_gt
      have h_lt : j < 7 := h_j
      have h_in : j ∈ ([6, 5, 4, 3, 2, 1] : List ℕ) := by simp; omega
      rw [h_list] at h_in h_sorted
      rcases List.mem_append.mp h_in with h_in | h_in
      · have h_not := h_longer j h_in
        rw [List.isSuffixOf_iff_suffix.mpr h_j_suffix] at h_not
        cases h_not
      · rcases List.mem_cons.mp h_in with rfl | h_in
        · exact h_gt le_rfl
        · have h_less := (List.pairwise_cons.mp (List.pairwise_append.mp h_sorted).2.1).1 j h_in
          omega

/-- No more is visible than was left. -/
theorem visibleThinkLen_le (raw : Text) : visibleThinkLen raw ≤ (stripThink raw).length := by
  unfold visibleThinkLen
  dsimp only
  split
  · exact Nat.sub_le _ _
  · exact le_rfl

@[simp] theorem length_settled (raw : Text) : (settled raw).length = visibleThinkLen raw :=
  List.length_take_of_le (visibleThinkLen_le raw)

theorem settled_of_strip (raw : Text) : settled raw <+: stripThink raw := List.take_prefix _ _

/-- All of a beginning of the tag is held back. -/
theorem settled_within {raw p : Text} {j : ℕ} (h_j : j < thinkTag.length)
    (h : stripThink raw = p ++ thinkTag.take j) : settled raw <+: p := by
  obtain ⟨k, h_k, h_eq, h_most⟩ := settled_append raw
  have h_le := h_most j h_j ⟨p, h.symm⟩
  refine List.prefix_of_prefix_length_le (settled_of_strip raw) ⟨_, h.symm⟩ ?_
  have h_length := congrArg List.length (h_eq.symm.trans h)
  rw [List.length_append, List.length_append, List.length_take_of_le h_k.le,
    List.length_take_of_le h_j.le] at h_length
  omega

/-- No more than it is held back. -/
theorem settled_eq {raw p : Text} {j : ℕ} (h_pos : 1 ≤ j) (h_j : j < thinkTag.length)
    (h : stripThink raw = p ++ thinkTag.take j) : settled raw = p := by
  obtain ⟨t, h_p⟩ := settled_within h_j h
  obtain ⟨k, h_k, h_eq, -⟩ := settled_append raw
  by_cases h_t : t = []
  · rw [← h_p, h_t, List.append_nil]
  · -- two beginnings of the tag, one within the other
    have h_take : thinkTag.take k = t ++ thinkTag.take j := by
      rw [h_eq, ← h_p, List.append_assoc] at h
      exact List.append_cancel_left h
    have h_length : t.length < thinkTag.length := by
      have h_le := congrArg List.length h_take
      rw [List.length_append, List.length_take_of_le h_k.le] at h_le
      omega
    have h_nil := unbordered_thinkTag.eq_nil_of_append h_t (List.take_prefix j _)
      (v := []) (by rw [← h_take, List.append_nil]; exact List.take_prefix _ _) h_length
    have h_zero := congrArg List.length h_nil
    rw [List.length_take_of_le h_j.le, List.length_nil] at h_zero
    omega

/-- What is stripped is a beginning of what is outside. -/
theorem stripThink_of_outside (raw : Text) : stripThink raw <+: outside raw := by
  rw [stripThink_eq]
  rcases cutTag_cases (outside raw) with h | ⟨rest, h⟩
  · rw [h]
  · exact ⟨thinkTag ++ rest, by rw [← List.append_assoc]; exact h.symm⟩

/-- **What is handed on stays.** -/
theorem settled_of_outside (raw x : Text) : settled raw <+: outside (raw ++ x) := by
  rcases outside_append raw x with h | ⟨p, j, h_pos, h_j, h_out, h_p⟩
  · exact (settled_of_strip raw).trans ((stripThink_of_outside raw).trans h)
  · rcases cutTag_cases (outside raw) with h_cut | ⟨rest, h_cut⟩
    · rw [← stripThink_eq] at h_cut
      exact (settled_within h_j (h_cut.trans h_out)).trans h_p
    · rw [← stripThink_eq] at h_cut
      refine (settled_of_strip raw).trans (List.IsPrefix.trans ?_ h_p)
      -- the tag that arose is longer than the beginning of one
      refine List.prefix_of_prefix_length_le (stripThink_of_outside raw) ⟨_, h_out.symm⟩ ?_
      have h_length := congrArg List.length (h_cut.symm.trans h_out)
      simp only [List.length_append, List.length_take_of_le h_j.le] at h_length
      omega

/-! ### The reader -/

section Reader

variable {δ α : Type} (doSpeak : Bool)

/-- The text of a chunk. -/
def chunkText : AgentChunk δ → Text
  | .content content => content.getD []
  | _ => []

/-- The text of a stream. -/
def contentText (chunks : List (AgentChunk δ)) : Text := chunks.flatMap chunkText

/-- The text so far, after each chunk. -/
def boundaries (raw : Text) : List (AgentChunk δ) → List Text
  | [] => []
  | c :: cs => (raw ++ chunkText c) :: boundaries (raw ++ chunkText c) cs

/-- The text deltas that the reader puts. -/
def deltas (puts : List (Put δ α)) : Text := textOf (puts.filterMap Put.event?)

theorem deltas_append (xs ys : List (Put δ α)) : deltas (xs ++ ys) = deltas xs ++ deltas ys := by
  simp [deltas]

/-- How a reader stands that has handed on `out`. -/
structure Standing (r : Reader) (out : Text) : Prop where
  length : out.length = r.visibleEmitted
  most : visibleThinkLen r.rawContent ≤ r.visibleEmitted
  stable : ∀ x, out <+: outside (r.rawContent ++ x)

theorem standing_init : Standing {} [] where
  length := rfl
  most := by decide
  stable _ := List.nil_prefix

theorem readDelta_deltas (r : Reader) (delta : Text) :
    deltas (readDelta (δ := δ) (α := α) doSpeak r delta).2 = delta := by
  unfold readDelta deltas
  split <;> simp [Put.event?, textOf, VoiceEvent.delta, List.filterMap_map, Function.comp_def]

/-- A delta leaves the raw text and the count of what was emitted. -/
theorem readDelta_reader (r : Reader) (delta : Text) :
    (readDelta (δ := δ) (α := α) doSpeak r delta).1.rawContent = r.rawContent ∧
      (readDelta (δ := δ) (α := α) doSpeak r delta).1.visibleEmitted = r.visibleEmitted := by
  unfold readDelta
  split <;> exact ⟨rfl, rfl⟩

/-- What a chunk does to a reader that stands: it reads on, and hands on what is new. -/
theorem readChunk_deltas {r : Reader} (h_most : visibleThinkLen r.rawContent ≤ r.visibleEmitted)
    (c : AgentChunk δ) :
    (readChunk (α := α) doSpeak r c).1.rawContent = r.rawContent ++ chunkText c ∧
      (readChunk (α := α) doSpeak r c).1.visibleEmitted =
        max r.visibleEmitted (visibleThinkLen (r.rawContent ++ chunkText c)) ∧
      deltas (readChunk (α := α) doSpeak r c).2 =
        (settled (r.rawContent ++ chunkText c)).drop r.visibleEmitted := by
  -- nothing new to hand on where no more has become visible
  have h_old : ∀ raw, visibleThinkLen raw ≤ r.visibleEmitted →
      (settled raw).drop r.visibleEmitted = [] :=
    fun raw h => List.drop_eq_nil_of_le (by rwa [length_settled])
  cases c with
  | content content =>
    simp only [readChunk, chunkText]
    split_ifs with h_empty h_seen h_delta
    · rw [h_empty, List.append_nil, max_eq_left h_most, h_old _ h_most]
      exact ⟨rfl, rfl, rfl⟩
    · rw [max_eq_left h_seen, h_old _ h_seen]
      exact ⟨rfl, rfl, rfl⟩
    · refine ⟨rfl, (max_eq_right (Nat.le_of_not_le h_seen)).symm, ?_⟩
      exact h_delta.symm
    · obtain ⟨h_raw, h_emitted⟩ := readDelta_reader (δ := δ) (α := α) doSpeak
        { r with
          rawContent := r.rawContent ++ content.getD []
          visibleEmitted := visibleThinkLen (r.rawContent ++ content.getD []) } _
      exact ⟨h_raw, h_emitted.trans (max_eq_right (Nat.le_of_not_le h_seen)).symm,
        readDelta_deltas doSpeak _ _⟩
  -- a tool call flushes sentences, not deltas
  | toolCall data =>
    have h_events : deltas (readChunk (α := α) doSpeak r (.toolCall data)).2 = [] := by
      simp [deltas, readChunk, flush_events, Put.event?, textOf, VoiceEvent.delta]
    have h_text : chunkText (.toolCall data) = [] := rfl
    rw [h_events, h_text, List.append_nil, max_eq_left h_most, h_old _ h_most]
    unfold readChunk
    dsimp only
    split_ifs <;> exact ⟨rfl, rfl, rfl⟩
  | _ =>
    simp only [chunkText, List.append_nil]
    rw [max_eq_left h_most, h_old _ h_most]
    exact ⟨rfl, rfl, rfl⟩

/-- **A chunk** keeps the standing of the reader. -/
theorem Standing.readChunk {r : Reader} {out : Text} (h : Standing r out) (c : AgentChunk δ) :
    Standing (readChunk (α := α) doSpeak r c).1
      (out ++ deltas (readChunk (α := α) doSpeak r c).2) := by
  obtain ⟨h_raw, h_emitted, h_deltas⟩ := readChunk_deltas (α := α) doSpeak h.most c
  have h_stable : ∀ x, out <+: outside (r.rawContent ++ chunkText c ++ x) := by
    intro x
    rw [List.append_assoc]
    exact h.stable (chunkText c ++ x)
  have h_new := settled_of_outside (r.rawContent ++ chunkText c)
  rw [h_deltas]
  rcases Nat.le_total (visibleThinkLen (r.rawContent ++ chunkText c)) r.visibleEmitted with h_v | h_v
  · rw [List.drop_eq_nil_of_le (by rwa [length_settled]), List.append_nil]
    rw [max_eq_left h_v] at h_emitted
    exact ⟨h.length.trans h_emitted.symm, by rw [h_raw, h_emitted]; exact h_v,
      by rw [h_raw]; exact h_stable⟩
  · -- what was handed on begins what is settled now
    have h_out : out <+: settled (r.rawContent ++ chunkText c) := by
      refine List.prefix_of_prefix_length_le (h_stable []) (h_new []) ?_
      rw [h.length, length_settled]
      exact h_v
    obtain ⟨rest, h_rest⟩ := h_out
    have h_all : out ++ (settled (r.rawContent ++ chunkText c)).drop r.visibleEmitted =
        settled (r.rawContent ++ chunkText c) := by
      rw [← h_rest, ← h.length, List.drop_left]
    rw [max_eq_right h_v] at h_emitted
    rw [h_all]
    exact ⟨(length_settled _).trans h_emitted.symm, by rw [h_raw, h_emitted],
      by rw [h_raw]; exact h_new⟩

/-- **A stream**: what is handed on in all begins what is outside the blocks of the whole text,
and is as long as the longest that was visible after a chunk. -/
theorem Standing.readAll {r : Reader} {out : Text} (h : Standing r out)
    (chunks : List (AgentChunk δ)) :
    out ++ deltas (readAll (α := α) doSpeak r chunks) <+:
        outside (r.rawContent ++ contentText chunks) ∧
      (out ++ deltas (readAll (α := α) doSpeak r chunks)).length =
        (boundaries r.rawContent chunks).foldl (fun n raw => max n (visibleThinkLen raw))
          r.visibleEmitted := by
  -- by induction on the chunks
  induction chunks generalizing r out with
  | nil =>
    have h_end : deltas (Voice.readAll (δ := δ) (α := α) doSpeak r []) = [] := by
      rw [deltas, Voice.readAll, readEnd_events]
      rfl
    rw [h_end, List.append_nil]
    exact ⟨h.stable _, h.length⟩
  | cons c cs ih =>
    -- what this chunk adds to what was put
    obtain ⟨h_raw, h_emitted, -⟩ := readChunk_deltas (α := α) doSpeak h.most c
    obtain ⟨h_begins, h_length⟩ := ih (h.readChunk (α := α) doSpeak c)
    rw [h_raw] at h_begins h_length
    rw [h_emitted] at h_length
    rw [Voice.readAll, deltas_append, ← List.append_assoc]
    refine ⟨?_, h_length⟩
    rwa [contentText, List.flatMap_cons, ← List.append_assoc]

end Reader

/-! ### When the stream is the filtered text -/

/-- The beginnings of the tag. -/
def beginnings : List Text := [1, 2, 3, 4, 5, 6].map fun j => thinkTag.take j

/-- The beginnings are the proper prefixes of the tag. -/
theorem mem_beginnings {b : Text} :
    b ∈ beginnings ↔ ∃ j, 1 ≤ j ∧ j < thinkTag.length ∧ b = thinkTag.take j := by
  constructor
  · -- those in the list
    intro h
    obtain ⟨j, h_j, rfl⟩ := List.mem_map.mp h
    have h_bounds : ∀ j ∈ ([1, 2, 3, 4, 5, 6] : List ℕ), 1 ≤ j ∧ j < thinkTag.length := by decide
    exact ⟨j, (h_bounds j h_j).1, (h_bounds j h_j).2, rfl⟩
  · -- and all there are
    rintro ⟨j, h_pos, h_j, rfl⟩
    have h_lt : j < 7 := h_j
    refine List.mem_map_of_mem ?_
    simp only [List.mem_cons, List.not_mem_nil, or_false]
    omega

theorem ne_nil_of_mem_beginnings {b : Text} (h : b ∈ beginnings) : b ≠ [] := by
  revert b
  decide

/-- What the filter held back when the stream came to the boundaries leaves it with the filtered
text. -/
structure Released (raws : List Text) (text : Text) : Prop where
  /-- At no boundary did a beginning of the tag follow one that is cut off in the end. -/
  within : ∀ raw ∈ raws, ∀ b ∈ beginnings, ∀ b' ∈ beginnings, stripThink raw ≠ text ++ b ++ b'
  /-- The text does not end in a beginning of the tag, or at a boundary another one followed. -/
  whole : (∀ b ∈ beginnings, ¬b <:+ text) ∨
    ∃ raw ∈ raws, ∃ b ∈ beginnings, stripThink raw = text ++ b

/-- More was visible before exactly when the filter cuts a tag that arose since. -/
theorem lt_visible_iff (raw x : Text) :
    (stripThink (raw ++ x)).length < visibleThinkLen raw ↔
      ∃ b ∈ beginnings, ∃ b' ∈ beginnings, stripThink raw = stripThink (raw ++ x) ++ b ++ b' := by
  constructor
  · intro h
    have h_settled := settled_of_outside raw x
    rcases cutTag_cases (outside (raw ++ x)) with h_cut | ⟨rest, h_cut⟩ <;>
      rw [← stripThink_eq] at h_cut
    · have h_le := h_settled.length_le
      rw [← h_cut, length_settled] at h_le
      omega
    · -- what was settled goes on into the tag, and no further than its beginning
      rw [h_cut, List.append_assoc] at h_settled
      obtain ⟨b, h_b⟩ : stripThink (raw ++ x) <+: settled raw := by
        refine List.prefix_of_prefix_length_le ⟨_, rfl⟩ h_settled ?_
        rw [length_settled]
        exact h.le
      have h_length : (stripThink (raw ++ x)).length + b.length = visibleThinkLen raw := by
        rw [← length_settled, ← h_b, List.length_append]
      have h_begins : b <+: thinkTag ++ rest := by
        rw [← h_b] at h_settled
        exact (List.prefix_append_right_inj _).mp h_settled
      obtain ⟨k, h_k, h_raw, h_most⟩ := settled_append raw
      have h_none := splitAtTag_cutTag (outside raw)
      rw [← stripThink_eq, h_raw] at h_none
      have h_lt : b.length < thinkTag.length := by
        by_contra h_ge
        obtain ⟨rest', rfl⟩ : thinkTag <+: b :=
          List.prefix_of_prefix_length_le ⟨rest, rfl⟩ h_begins (Nat.le_of_not_lt h_ge)
        cases h_in : splitAtTag thinkTag (stripThink (raw ++ x)) with
        | none =>
          rw [← h_b, List.append_assoc, List.append_assoc, ← List.append_assoc,
            splitAtTag_of_none unbordered_thinkTag h_in] at h_none
          cases h_none
        | some parts =>
          rw [stripThink_eq, splitAtTag_cutTag] at h_in
          cases h_in
      have h_take : b = thinkTag.take b.length := by
        refine List.prefix_iff_eq_take.mp ?_
        exact List.prefix_of_prefix_length_le h_begins ⟨rest, rfl⟩ h_lt.le
      have h_b_pos : 1 ≤ b.length := by omega
      have h_k_pos : 1 ≤ k := by
        by_contra h_zero
        obtain rfl : k = 0 := by omega
        have h_suffix : thinkTag.take b.length <:+ stripThink raw := by
          rw [← h_take, h_raw, ← h_b, List.take_zero, List.append_nil]
          exact List.suffix_append _ _
        have h_le := h_most _ h_lt h_suffix
        omega
      refine ⟨b, mem_beginnings.mpr ⟨_, h_b_pos, h_lt, h_take⟩, thinkTag.take k,
        mem_beginnings.mpr ⟨k, h_k_pos, h_k, rfl⟩, ?_⟩
      rw [h_raw, ← h_b]
  · rintro ⟨b, h_b, b', h_b', h_raw⟩
    obtain ⟨j, h_pos, h_j, rfl⟩ := mem_beginnings.mp h_b'
    have h_settled := settled_eq h_pos h_j h_raw
    have h_length := List.length_pos_iff.mpr (ne_nil_of_mem_beginnings h_b)
    rw [← length_settled, h_settled, List.length_append]
    omega

/-- As much was visible exactly when nothing else was held back than a beginning of the tag that
followed. -/
theorem visible_eq_iff (raw x : Text) :
    visibleThinkLen raw = (stripThink (raw ++ x)).length ↔
      (stripThink raw = stripThink (raw ++ x) ∧ ∀ b ∈ beginnings, ¬b <:+ stripThink (raw ++ x)) ∨
        ∃ b ∈ beginnings, stripThink raw = stripThink (raw ++ x) ++ b := by
  constructor
  · intro h
    -- both are beginnings of one text and as long as each other
    have h_settled : settled raw = stripThink (raw ++ x) := by
      refine (List.prefix_of_prefix_length_le (settled_of_outside raw x)
        (stripThink_of_outside (raw ++ x)) ?_).eq_of_length ?_
      · rw [length_settled, h]
      · rw [length_settled, h]
    obtain ⟨k, h_k, h_raw, h_most⟩ := settled_append raw
    rw [h_settled] at h_raw
    rcases Nat.eq_zero_or_pos k with rfl | h_pos
    · rw [List.take_zero, List.append_nil] at h_raw
      refine .inl ⟨h_raw, fun b h_b h_suffix => ?_⟩
      obtain ⟨j, h_pos, h_j, rfl⟩ := mem_beginnings.mp h_b
      have h_le := h_most j h_j (h_raw ▸ h_suffix)
      omega
    · exact .inr ⟨_, mem_beginnings.mpr ⟨k, h_pos, h_k, rfl⟩, h_raw⟩
  · rintro (⟨h_raw, h_ends⟩ | ⟨b, h_b, h_raw⟩)
    · obtain ⟨k, h_k, h_eq, -⟩ := settled_append raw
      rcases Nat.eq_zero_or_pos k with rfl | h_pos
      · rw [List.take_zero, List.append_nil] at h_eq
        rw [← length_settled, ← h_eq, h_raw]
      · refine (h_ends _ (mem_beginnings.mpr ⟨k, h_pos, h_k, rfl⟩) ?_).elim
        rw [← h_raw]
        exact ⟨_, h_eq.symm⟩
    · obtain ⟨j, h_pos, h_j, rfl⟩ := mem_beginnings.mp h_b
      rw [← length_settled, settled_eq h_pos h_j h_raw]

/-- A maximum, step by step. -/
theorem foldl_max_eq_iff {β : Type} (f : β → ℕ) (l : List β) (n N : ℕ) :
    l.foldl (fun n b => max n (f b)) n = N ↔
      (n ≤ N ∧ ∀ b ∈ l, f b ≤ N) ∧ (n = N ∨ ∃ b ∈ l, f b = N) := by
  induction l generalizing n with
  | nil =>
    simp only [List.foldl_nil, List.not_mem_nil, false_and, exists_false, or_false, false_implies,
      implies_true, and_true]
    exact ⟨fun h => ⟨h.le, h⟩, fun h => h.2⟩
  | cons b l ih =>
    rw [List.foldl_cons, ih, Nat.max_le, List.forall_mem_cons, List.exists_mem_cons_iff]
    constructor
    · rintro ⟨⟨⟨h_n, h_b⟩, h_l⟩, h_some⟩
      refine ⟨⟨h_n, h_b, h_l⟩, ?_⟩
      -- the larger of the two comes first or is this one
      rcases h_some with h_max | h_some
      · rcases Nat.le_total n (f b) with h | h
        · exact .inr (.inl ((max_eq_right h).symm.trans h_max))
        · exact .inl ((max_eq_left h).symm.trans h_max)
      · exact .inr (.inr h_some)
    · rintro ⟨⟨h_n, h_b, h_l⟩, h_some⟩
      refine ⟨⟨⟨h_n, h_b⟩, h_l⟩, ?_⟩
      rcases h_some with h | h | h
      · exact .inl (by rw [h, max_eq_left h_b])
      · exact .inl (by rw [h, max_eq_right h_n])
      · exact .inr h

section Stream

variable {δ α : Type}

/-- The boundaries are beginnings of the text. -/
theorem prefix_of_mem_boundaries {raw b : Text} {chunks : List (AgentChunk δ)}
    (h : b ∈ boundaries raw chunks) : b <+: raw ++ contentText chunks := by
  induction chunks generalizing raw with
  | nil => cases h
  | cons c cs ih =>
    rw [contentText, List.flatMap_cons, ← List.append_assoc]
    rcases List.mem_cons.mp h with rfl | h
    · exact List.prefix_append _ _
    · exact ih h

/-- The last one is all of it. -/
theorem mem_boundaries (raw : Text) {chunks : List (AgentChunk δ)} (h : chunks ≠ []) :
    raw ++ contentText chunks ∈ boundaries raw chunks := by
  induction chunks generalizing raw with
  | nil => exact absurd rfl h
  | cons c cs ih =>
    rw [contentText, List.flatMap_cons, ← List.append_assoc, boundaries]
    by_cases h_cs : cs = []
    · subst h_cs
      simp
    · exact List.mem_cons_of_mem _ (ih _ h_cs)

/-- **The stream is the filtered text** exactly when nothing that was held back is missing from
it and nothing that was handed on is too much, for any reply and any way it is cut in chunks. -/
theorem filter_agrees_iff (doSpeak : Bool) (chunks : List (AgentChunk δ)) :
    deltas (readAll (α := α) doSpeak {} chunks) = stripThink (contentText chunks) ↔
      Released (boundaries [] chunks) (stripThink (contentText chunks)) := by
  obtain ⟨h_begins, h_length⟩ := standing_init.readAll (α := α) doSpeak chunks
  rw [List.nil_append] at h_length
  simp only [List.nil_append] at h_begins
  have h_raws : ∀ raw ∈ boundaries [] chunks, ∃ x, contentText chunks = raw ++ x := by
    intro raw h_raw
    obtain ⟨x, h_x⟩ := prefix_of_mem_boundaries h_raw
    exact ⟨x, h_x.symm⟩
  -- both are beginnings of the same text, so only the lengths are compared
  have h_text : deltas (readAll (α := α) doSpeak {} chunks) = stripThink (contentText chunks) ↔
      (boundaries [] chunks).foldl (fun n raw => max n (visibleThinkLen raw)) 0 =
        (stripThink (contentText chunks)).length := by
    rw [← h_length]
    refine ⟨fun h => by rw [h], fun h => ?_⟩
    exact (List.prefix_of_prefix_length_le h_begins (stripThink_of_outside _)
      h.le).eq_of_length h
  rw [h_text, foldl_max_eq_iff]
  constructor
  · rintro ⟨⟨-, h_most⟩, h_some⟩
    refine ⟨fun raw h_raw b h_b b' h_b' h_eq => ?_, ?_⟩
    · obtain ⟨x, h_x⟩ := h_raws raw h_raw
      rw [h_x] at h_eq h_most
      -- handing on too much at a cut is handing on the beginning of a tag
      have h_lt := (lt_visible_iff raw x).mpr ⟨b, h_b, b', h_b', h_eq⟩
      exact absurd (h_most raw h_raw) (Nat.not_le.mpr h_lt)
    · rcases h_some with h_empty | ⟨raw, h_raw, h_eq⟩
      · have h_nil := List.eq_nil_of_length_eq_zero h_empty.symm
        rw [h_nil]
        exact .inl fun b h_b h_suffix =>
          ne_nil_of_mem_beginnings h_b (List.suffix_nil.mp h_suffix)
      · obtain ⟨x, h_x⟩ := h_raws raw h_raw
        rw [h_x] at h_eq ⊢
        rcases (visible_eq_iff raw x).mp h_eq with ⟨-, h_ends⟩ | h_followed
        · exact .inl h_ends
        · exact .inr ⟨raw, h_raw, h_followed⟩
  · rintro ⟨h_within, h_whole⟩
    refine ⟨⟨Nat.zero_le _, fun raw h_raw => ?_⟩, ?_⟩
    · obtain ⟨x, h_x⟩ := h_raws raw h_raw
      rw [h_x] at h_within ⊢
      by_contra h_gt
      obtain ⟨b, h_b, b', h_b', h_eq⟩ := (lt_visible_iff raw x).mp (Nat.lt_of_not_le h_gt)
      exact h_within raw h_raw b h_b b' h_b' h_eq
    · rcases h_whole with h_ends | ⟨raw, h_raw, h_followed⟩
      · by_cases h_chunks : chunks = []
        · subst h_chunks
          exact .inl rfl
        · refine .inr ⟨contentText chunks, by simpa using mem_boundaries [] h_chunks, ?_⟩
          have h_all := visible_eq_iff (contentText chunks) []
          rw [List.append_nil] at h_all
          exact h_all.mpr (.inl ⟨rfl, h_ends⟩)
      · obtain ⟨x, h_x⟩ := h_raws raw h_raw
        rw [h_x] at h_followed ⊢
        exact .inr ⟨raw, h_raw, (visible_eq_iff raw x).mpr (.inr h_followed)⟩

/-- **A comparison at the end is cut**: the sign is held back for good. -/
theorem filter_withholds : ¬∀ (doSpeak : Bool) (texts : List Text),
    deltas (readAll (δ := Unit) (α := Unit) doSpeak {} (texts.map fun t => .content (some t))) =
      stripThink texts.flatten := by
  intro h
  have h_text := h true ["a <".toList]
  exact absurd h_text (by decide +kernel)

-- cut in the first tag, the stream hands on a beginning that the block then completes
example : let texts := ["<th<".toList, "think>x</think>ink> yes".toList]
    deltas (readAll (δ := Unit) (α := Unit) true {} (texts.map fun t => .content (some t))) =
      "<th".toList ∧ stripThink texts.flatten = [] := by
  decide +kernel

end Stream

end Nexus.Voice
