import NexusAgent.Lib.JsonRead
import NexusAgent.Llm.ToolCallText

/-!
# Calls written into a text are read back

A call rendered as a `<tool_call>` block is parsed to its name and arguments, wherever it stands
(`extract_render`). The values of the arguments are rendered as JSON, and the renderings have none
of the closing tags in them, in upper or lower case (`XmlCall`).
-/

open Lib Lib.Regex

namespace Nexus

/-! ### Tags -/

/-- Only the bracket itself reads as an opening bracket, in either case. -/
theorem ignoreCase_open (c : Char) (h : ignoreCase '<' c = true) : c = '<' := by
  have h_lower : c.toLower = '<' := by simpa [ignoreCase] using h
  unfold Char.toLower at h_lower
  split at h_lower
  · next h_up =>
    -- a capital letter is no bracket in lower case
    have h_nat : (c.val + 32).toNat = 60 := congrArg (fun d : Char => d.val.toNat) h_lower
    obtain ⟨h_ge, h_le⟩ := h_up
    rw [ge_iff_le, UInt32.le_iff_toNat_le] at h_ge
    rw [UInt32.le_iff_toNat_le] at h_le
    rw [UInt32.toNat_add] at h_nat
    simp at h_nat h_ge h_le
    omega
  · exact h_lower

/-- A text that opens with a bracket and has no other is a tag. -/
theorem tag_of {u : List Char} (h : ∀ a ∈ u, ignoreCase a '<' = false)
    (h_refl : ∀ a ∈ u, ignoreCase a a = true) : Tag ignoreCase '<' ('<' :: u) where
  opens := ⟨u, rfl, h⟩
  head := ignoreCase_open
  refl := List.forall_mem_cons.mpr ⟨by decide, h_refl⟩

/-- `<tool_call>` and `</tool_call>`. -/
theorem toolCallOpen_tag : Tag ignoreCase '<' "<tool_call>".toList := tag_of (by decide) (by decide)

theorem toolCallClose_tag : Tag ignoreCase '<' "</tool_call>".toList := tag_of (by decide) (by decide)

theorem functionClose_tag : Tag ignoreCase '<' "</function>".toList := tag_of (by decide) (by decide)

theorem parameterClose_tag : Tag ignoreCase '<' "</parameter>".toList := tag_of (by decide) (by decide)

theorem gemmaOpen_tag : Tag ignoreCase '<' "<|tool_call>".toList := tag_of (by decide) (by decide)

/-- The closing tags of a block. -/
def closingTags : List String := ["</parameter>", "</function>", "</tool_call>"]

/-- The tags that calls stand between. -/
def toolCallTags : List String := ["<tool_call>", "</tool_call>", "<|tool_call>", "<tool_call|>"]

/-- None of the tags stands in the text, in upper or lower case. -/
def FreeOf (tags : List String) (text : String) : Prop :=
  ∀ tag ∈ tags, contains ignoreCase tag.toList text.toList = false

instance (tags : List String) (text : String) : Decidable (FreeOf tags text) :=
  inferInstanceAs (Decidable (∀ tag ∈ tags, _))

/-! ### Calls -/

/-- A call that can be written into a text. -/
structure XmlCall (table : CharTable) where
  name : String
  params : ToolArgs
  name_ne : name ≠ ""
  name_chars : ∀ c ∈ name.toList, table.word c = true ∨ c = '.'
  param_ne : ∀ p ∈ params, p.1 ≠ ""
  param_chars : ∀ p ∈ params, ∀ c ∈ p.1.toList, table.word c = true
  distinct : (Dict.keys params).Nodup
  valid : ∀ p ∈ params, p.2.Valid
  free : ∀ p ∈ params, FreeOf closingTags p.2.dumps

/-- `<parameter=..>json</parameter>`. -/
def renderParameter (p : String × Json) : List Char :=
  "<parameter=".toList ++ (p.1.toList ++ (['>'] ++ (p.2.dumps.toList ++ "</parameter>".toList)))

section

variable {table : CharTable}

/-- The parameters, one after the other. -/
def XmlCall.renderParameters (call : XmlCall table) : List Char :=
  call.params.flatMap renderParameter

/-- What stands between the tags of a block. -/
def XmlCall.body (call : XmlCall table) : List Char :=
  "<function=".toList ++
    (call.name.toList ++ (['>'] ++ (call.renderParameters ++ "</function>".toList)))

/-- A call as a block. -/
def XmlCall.render (call : XmlCall table) : List Char :=
  "<tool_call>".toList ++ (call.body ++ "</tool_call>".toList)

/-- A text with calls in it, each after the text before it. -/
def renderText (blocks : List (String × XmlCall table)) (last : String) : String :=
  String.ofList ((blocks.flatMap fun b => b.1.toList ++ b.2.render) ++ last.toList)

/-- The text without the calls. -/
def surrounding (blocks : List (String × XmlCall table)) (last : String) : String :=
  String.ofList ((blocks.flatMap fun b => b.1.toList) ++ last.toList)

/-! ### Names -/

/-- Word characters are no white space and open no tag. -/
theorem not_space_of_word {c : Char} (h : table.word c = true ∨ c = '.') : PyStr.isSpace c = false := by
  rcases h with h_word | rfl
  · by_contra h_space
    rw [table.space_word c (by simpa using h_space)] at h_word
    cases h_word
  · decide

/-- A word character or a point is no angle bracket. -/
theorem not_open_of_word {c : Char} (h : table.word c = true ∨ c = '.') : c ≠ '<' ∧ c ≠ '>' := by
  have h_bracket : ∀ d : Char, d = '<' ∨ d = '>' → ¬ table.word d = true := by
    -- the brackets are ASCII, and no word characters there
    rintro d (rfl | rfl) h_word
    · rw [table.word_ascii _ (by decide)] at h_word
      revert h_word
      decide
    · rw [table.word_ascii _ (by decide)] at h_word
      revert h_word
      decide
  constructor
  · rintro rfl
    exact h.elim (h_bracket _ (.inl rfl)) (by decide)
  · rintro rfl
    exact h.elim (h_bracket _ (.inr rfl)) (by decide)

/-- A name has no blanks to strip. -/
theorem strip_name {s : String} (h : ∀ c ∈ s.toList, table.word c = true ∨ c = '.') :
    PyStr.strip s = s := by
  have h_stripped : PyStr.Stripped PyStr.isSpace s.toList :=
    PyStr.stripped_of_forall fun c h_c => not_space_of_word (h c h_c)
  rw [PyStr.strip_eq_stripBy, PyStr.stripBy_eq_self h_stripped, String.ofList_toList]

/-- An opening tag is read with its name. -/
theorem taken_namedTag (tag : String) (h_tag : ∀ a ∈ tag.toList, ignoreCase a a = true)
    {p : Char → Bool} {name : String} (h_ne : name ≠ "") (h_name : ∀ c ∈ name.toList, p c = true)
    (h_close : p '>' = false) :
    Taken (namedTag tag p) (tag.toList ++ (name.toList ++ ['>'])) [(1, name.toList)] := by
  intro before rest
  have h_chars : name.toList ≠ [] := fun h_nil => h_ne (String.toList_eq_nil_iff.mp h_nil)
  -- the name ends at the closing bracket, which no name has
  have h_end : ∀ c ∈ ('>' :: rest).head?, p c = false := by
    intro c h_c
    rwa [← Option.some.inj h_c]
  have h_literal := first_literal h_tag before (name.toList ++ ('>' :: rest))
  have h_many := @first_many (tag.toList.reverse ++ before) _ p _ h_chars h_name h_end
  have h_group := first_group (n := 1) h_many
  have h_one : first (.one (· = '>')) (name.toList.reverse ++ (tag.toList.reverse ++ before))
      ('>' :: rest) = some { text := ['>'], rest := rest } := first_one (by decide)
  -- the tag's text, the name as a group, and the bracket
  have h_named := first_seq h_literal (first_seq h_group h_one)
  rw [List.append_assoc, List.append_assoc, List.singleton_append, namedTag, h_named]
  rfl

/-! ### Values -/

/-- The text of a value is a word in lower case only if the value is that word. -/
theorem eq_of_lower {v w : Json} (h : v.Valid) (h_w : w = .null ∨ ∃ b, w = .bool b)
    (h_eq : asciiLower v.dumps = w.dumps) : v = w := by
  have h_chars : v.dumps.toList.map Char.toLower = w.dumps.toList := by
    rw [← h_eq, asciiLower, String.toList_ofList]
  have h_head : w.dumps.toList.head? ∈ [some 'n', some 't', some 'f'] := by
    rcases h_w with rfl | ⟨_ | _, rfl⟩ <;> decide
  -- a text that is lowered to one of the three starts with its letter
  have h_first : ∀ {c : Char}, v.dumps.toList.head? = some c → c.toLower ∈ ['n', 't', 'f'] := by
    intro c h_c
    rw [← h_chars, List.head?_map, h_c] at h_head
    simpa using h_head
  -- no character of a number is lowered to such a letter
  have h_number : ∀ {u : Json}, ¬ Json.number v.dumps.toList = some (u, []) := by
    intro u h_u
    have h_all : ∀ n < 128, Json.numeric (Char.ofNat n) = true →
        (Char.ofNat n).toLower ∉ ['n', 't', 'f'] := by decide +kernel
    obtain ⟨c, cs, h_c, -⟩ := Json.dumps_head h
    have h_numeric := Json.number_numeric h_u c (by rw [h_c]; exact List.mem_cons_self)
    have h_not := h_all c.toNat (Json.numeric_ascii h_numeric)
    rw [Char.ofNat_toNat] at h_not
    exact h_not h_numeric (h_first (by rw [h_c]; rfl))
  cases v with
  | null =>
    rcases h_w with rfl | ⟨_ | _, rfl⟩
    · rfl
    · exact absurd h_chars (by decide)
    · exact absurd h_chars (by decide)
  | bool b =>
    cases b <;> rcases h_w with rfl | ⟨_ | _, rfl⟩ <;> first | rfl | exact absurd h_chars (by decide)
  | int n => exact absurd (Json.number_toString n) h_number
  | float t =>
    unfold Json.Valid at h
    rcases h with h_t | rfl | rfl | rfl
    · exact absurd h_t h_number
    all_goals
      rcases h_w with rfl | ⟨_ | _, rfl⟩ <;> exact absurd h_chars (by decide)
  | str s =>
    refine absurd (h_first (c := '"') ?_) (by decide)
    rw [Json.dumps, Json.toList_quote]
    rfl
  | arr xs =>
    refine absurd (h_first (c := '[') ?_) (by decide)
    rw [Json.toList_arr]
    rfl
  | obj fs =>
    refine absurd (h_first (c := '\x7b') ?_) (by decide)
    rw [Json.toList_obj]
    rfl

/-- **A value rendered as JSON is read back.** -/
theorem coerce_dumps (table : CharTable) (decimal : Char → Char) {v : Json} (h : v.Valid) :
    coerceParameterValue table decimal v.dumps = v := by
  -- a dumped value has no white space at its ends
  have h_strip : PyStr.strip v.dumps = v.dumps := by
    rw [PyStr.strip_eq_stripBy, PyStr.stripBy_eq_self (Json.dumps_stripped h), String.ofList_toList]
  have h_lower : table.lower v.dumps = asciiLower v.dumps :=
    table.lower_ascii _ (Json.dumps_ascii h)
  -- it is not empty either
  have h_ne : v.dumps ≠ "" := by
    intro h_empty
    obtain ⟨c, cs, h_c, -⟩ := Json.dumps_head h
    rw [h_empty] at h_c
    cases h_c
  unfold coerceParameterValue
  simp only [h_strip, h_lower, Json.loads_dumps h]
  -- the words `true`, `false` and `null` in any case are the values they stand for
  split_ifs with h_true h_false h_null
  · exact (eq_of_lower h (.inr ⟨true, rfl⟩) h_true).symm
  · exact (eq_of_lower h (.inr ⟨false, rfl⟩) h_false).symm
  · exact (eq_of_lower h (.inl rfl) (h_null.resolve_right h_ne)).symm
  · rfl

/-! ### Blocks -/

/-- A tag that no opening tag with a name begins with stands in what follows it. -/
theorem contains_named {t u name : List Char} (h_tag : Tag ignoreCase '<' t) (h_u : '<' ∉ u)
    (h_name : '<' ∉ name) (h_open : ∀ cs, beginsWith ignoreCase t ('<' :: (u ++ cs)) = false)
    (cs : List Char) :
    contains ignoreCase t ('<' :: u ++ (name ++ (['>'] ++ cs))) = contains ignoreCase t cs := by
  have h_close : '<' ∉ ['>'] := by decide
  rw [List.cons_append, contains, h_open, Bool.false_or, h_tag.contains_skip h_u,
    h_tag.contains_skip h_name, h_tag.contains_skip h_close]

/-- Nor does it stand in an element without it. -/
theorem contains_element {t u name inner close rest : List Char} (h_tag : Tag ignoreCase '<' t)
    (h_u : '<' ∉ u) (h_name : '<' ∉ name)
    (h_open : ∀ cs, beginsWith ignoreCase t ('<' :: (u ++ cs)) = false)
    (h_inner : contains ignoreCase t inner = false) (h_close : contains ignoreCase t close = false)
    (h_next : TagNext '<' (close ++ rest)) (h_rest : TagNext '<' rest) :
    contains ignoreCase t ('<' :: u ++ (name ++ (['>'] ++ (inner ++ close))) ++ rest) =
      contains ignoreCase t rest := by
  rw [List.append_assoc, List.append_assoc, List.append_assoc, List.append_assoc,
    contains_named h_tag h_u h_name h_open, h_tag.contains_append h_next, h_inner, Bool.false_or,
    h_tag.contains_append h_rest, h_close, Bool.false_or]

theorem XmlCall.open_not_mem_param (call : XmlCall table) {p : String × Json} (h : p ∈ call.params) :
    '<' ∉ p.1.toList :=
  fun h_mem => (not_open_of_word (.inl (call.param_chars p h '<' h_mem))).1 rfl

theorem XmlCall.open_not_mem_name (call : XmlCall table) : '<' ∉ call.name.toList :=
  fun h_mem => (not_open_of_word (call.name_chars '<' h_mem)).1 rfl

theorem renderParameter_open (p : String × Json) : ∃ u, renderParameter p = '<' :: u := ⟨_, rfl⟩

/-- **Among the parameters** stands no closing tag but their own. -/
theorem contains_renderParameters (call : XmlCall table) (tag : String) (h_mem : tag ∈ closingTags)
    (h_tag : Tag ignoreCase '<' tag.toList)
    (h_open : ∀ cs, beginsWith ignoreCase tag.toList ('<' :: ("parameter=".toList ++ cs)) = false)
    (h_close : contains ignoreCase tag.toList "</parameter>".toList = false) (rest : List Char)
    (h_rest : TagNext '<' rest) :
    contains ignoreCase tag.toList (call.renderParameters ++ rest) =
      contains ignoreCase tag.toList rest := by
  unfold XmlCall.renderParameters
  have h_names : ∀ p ∈ call.params, '<' ∉ p.1.toList := fun p h_p => call.open_not_mem_param h_p
  have h_free := call.free
  generalize call.params = params at h_names h_free ⊢
  induction params with
  | nil => rfl
  | cons p params ih =>
    rw [List.forall_mem_cons] at h_names h_free
    have h_next : TagNext '<' (params.flatMap renderParameter ++ rest) := by
      cases params with
      | nil => exact h_rest
      | cons q params =>
        obtain ⟨u, h_u⟩ := renderParameter_open q
        rw [List.flatMap_cons, h_u]
        exact tagNext_cons '<' _
    have h_bracket : "<parameter=".toList = '<' :: "parameter=".toList := by decide
    -- the closing tag begins with a bracket, so the value ends there
    have h_own : TagNext '<' ("</parameter>".toList ++ (params.flatMap renderParameter ++ rest)) :=
      tagNext_cons '<' _
    have h_here := contains_element h_tag (by decide : '<' ∉ "parameter=".toList) h_names.1 h_open
      (h_free.1 tag h_mem) h_close h_own h_next
    rw [← h_bracket] at h_here
    rw [List.flatMap_cons, List.append_assoc]
    exact h_here.trans (ih h_names.2 h_free.2)

/-- A rendered parameter is taken, with its name and its value as groups. -/
theorem taken_parameter (call : XmlCall table) {p : String × Json} (h : p ∈ call.params) :
    Taken (parameterTag table) (renderParameter p) [(1, p.1.toList), (2, p.2.dumps.toList)] := by
  have h_chars : ∀ c ∈ p.1.toList, parameterChar table c = true := by
    intro c h_c
    simp [parameterChar, call.param_chars p h c h_c]
  -- the name stops in front of the bracket
  have h_close : parameterChar table '>' = false := by
    rw [parameterChar, table.word_ascii _ (by decide)]
    decide
  have h_named := taken_namedTag "<parameter=" (by decide) (call.param_ne p h) h_chars h_close
  -- no value has the closing tag in it
  have h_free := call.free p h "</parameter>" (by decide)
  have h_taken := taken_enclosed h_named parameterClose_tag h_free 2
  rw [List.append_assoc, List.append_assoc] at h_taken
  exact h_taken

/-- A rendered function is taken, with its name and its parameters as groups. -/
theorem taken_function (call : XmlCall table) :
    Taken (functionTag table) call.body [(1, call.name.toList), (2, call.renderParameters)] := by
  -- a dot is allowed in the name
  have h_chars : ∀ c ∈ call.name.toList, functionChar table c = true := by
    intro c h_c
    rcases call.name_chars c h_c with h_word | rfl
    · simp [functionChar, h_word]
    · simp [functionChar]
  have h_close : functionChar table '>' = false := by
    rw [functionChar, table.word_ascii _ (by decide)]
    decide
  have h_named := taken_namedTag "<function=" (by decide) call.name_ne h_chars h_close
  -- no parameter has the closing tag of the function in it
  have h_free := contains_renderParameters call "</function>" (by decide) functionClose_tag
    (fun cs => rfl) (by decide) [] (tagNext_nil '<')
  rw [List.append_nil, functionClose_tag.contains_nil] at h_free
  have h_taken := taken_enclosed h_named functionClose_tag h_free 2
  rw [List.append_assoc, List.append_assoc] at h_taken
  exact h_taken

/-- A rendered call is taken, with its body as the group. -/
theorem taken_toolCall (call : XmlCall table) : Taken toolCallBlock call.render [(1, call.body)] := by
  have h_body : call.body = '<' :: "function=".toList ++
      (call.name.toList ++ (['>'] ++ (call.renderParameters ++ "</function>".toList))) := rfl
  have h_free : contains ignoreCase "</tool_call>".toList call.body = false := by
    rw [h_body, contains_named toolCallClose_tag (by decide) call.open_not_mem_name (fun cs => rfl),
      contains_renderParameters call "</tool_call>" (by decide) toolCallClose_tag
        (fun cs => rfl) (by decide) "</function>".toList (tagNext_cons '<' _)]
    decide
  exact taken_enclosed (taken_literal toolCallOpen_tag.refl) toolCallClose_tag h_free 1

/-- The parameters of a function are read. -/
theorem parseParameters_render (decimal : Char → Char) (call : XmlCall table) :
    parseParameters table decimal (String.ofList call.renderParameters) = call.params := by
  have h_consumes : Consumes (parameterTag table) :=
    consumes_enclosed 2 parameterClose_tag.ne_nil
  have h_pieces := finditer_document (x := '<') h_consumes
    (call.params.map fun p =>
      { between := [], text := renderParameter p
        groups := [(1, p.1.toList), (2, p.2.dumps.toList)] }) []
    (by
      intro piece h_piece
      obtain ⟨p, h_p, rfl⟩ := List.mem_map.mp h_piece
      exact ⟨passed_nil, taken_parameter call h_p, renderParameter_open p⟩)
    passed_nil
  have h_text : document (call.params.map fun p =>
      { between := [], text := renderParameter p
        groups := [(1, p.1.toList), (2, p.2.dumps.toList)] }) [] = call.renderParameters := by
    simp [document, XmlCall.renderParameters, List.flatMap_map]
  rw [h_text, List.map_map] at h_pieces
  -- an argument is set from the groups of its tag
  have h_fold : ∀ (hits : List Hit) (params args : ToolArgs),
      hits.map Hit.groups = params.map (fun p => [(1, p.1.toList), (2, p.2.dumps.toList)]) →
      (∀ p ∈ params, PyStr.strip p.1 = p.1 ∧ p.2.Valid) →
      hits.foldl (fun args m => Dict.set args (PyStr.strip (m.group 1))
        (coerceParameterValue table decimal (m.group 2))) args = Dict.update args params := by
    intro hits params
    induction params generalizing hits with
    | nil =>
      intro args h_groups _
      rw [List.map_nil, List.map_eq_nil_iff] at h_groups
      subst h_groups
      rfl
    | cons p params ih =>
      intro args h_groups h_params
      rw [List.forall_mem_cons] at h_params
      cases hits with
      | nil => cases h_groups
      | cons m hits =>
        obtain ⟨h_m, h_rest⟩ := List.cons.inj h_groups
        have h_name : m.group 1 = p.1 := by simp [Hit.group, h_m, Dict.get?]
        have h_value : m.group 2 = p.2.dumps := by simp [Hit.group, h_m, Dict.get?]
        rw [List.foldl_cons, h_name, h_value, h_params.1.1, coerce_dumps table decimal h_params.1.2,
          ih hits _ h_rest h_params.2]
        rfl
  have h_params : ∀ p ∈ call.params, PyStr.strip p.1 = p.1 ∧ p.2.Valid := fun p h_p =>
    ⟨strip_name fun c h_c => .inl (call.param_chars p h_p c h_c), call.valid p h_p⟩
  unfold parseParameters
  rw [String.toList_ofList]
  exact (h_fold _ call.params [] h_pieces h_params).trans (Json.update_nil call.distinct)

/-- **A block is read as its call.** -/
theorem parseOne_render (decimal : Char → Char) (call : XmlCall table) (idSuffix : String) :
    parseOneNemotronBlock table decimal (String.ofList call.body) idSuffix =
      some { id := "call_" ++ idSuffix, toolName := call.name, toolInput := call.params } := by
  have h_consumes : Consumes (functionTag table) :=
    consumes_enclosed 2 functionClose_tag.ne_nil
  have h_pieces := finditer_document (x := '<') h_consumes
    [{ between := [], text := call.body
       groups := [(1, call.name.toList), (2, call.renderParameters)] }] []
    (by
      intro piece h_piece
      obtain rfl := List.mem_singleton.mp h_piece
      exact ⟨passed_nil, taken_function call, _, rfl⟩)
    passed_nil
  -- the body is one piece without text around it
  have h_text : document [{ between := [], text := call.body
                            groups := [(1, call.name.toList), (2, call.renderParameters)] }] [] =
      call.body := by
    simp [document]
  rw [h_text] at h_pieces
  obtain ⟨m, h_find, h_m⟩ := List.map_eq_singleton_iff.mp h_pieces
  have h_search : (functionTag table).search call.body = some m := by
    rw [search, h_find]
    rfl
  have h_name : m.group 1 = call.name := by simp [Hit.group, h_m, Dict.get?]
  have h_params : m.group 2 = String.ofList call.renderParameters := by
    simp [Hit.group, h_m, Dict.get?]
  unfold parseOneNemotronBlock
  rw [String.toList_ofList, h_search]
  simp only [h_name, strip_name call.name_chars, h_params, parseParameters_render, if_neg call.name_ne]

/-! ### Texts -/

/-- The text and its blocks, as a document. -/
def toolCallPieces (blocks : List (String × XmlCall table)) : List Piece :=
  blocks.map fun b => { between := b.1.toList, text := b.2.render, groups := [(1, b.2.body)] }

theorem toList_renderText (blocks : List (String × XmlCall table)) (last : String) :
    (renderText blocks last).toList = document (toolCallPieces blocks) last.toList := by
  rw [renderText, String.toList_ofList, document, toolCallPieces, List.flatMap_map]

theorem XmlCall.render_open (call : XmlCall table) : ∃ u, call.render = '<' :: u := ⟨_, rfl⟩

theorem passed_toolCall {text : String} (h : FreeOf toolCallTags text) :
    Passed toolCallBlock '<' text.toList :=
  passed_of_not_contains toolCallOpen_tag (h "<tool_call>" (by decide))

theorem consumes_toolCall : Consumes toolCallBlock := consumes_enclosed 1 toolCallClose_tag.ne_nil

/-- Each piece is passed over up to its tag, and taken from there. -/
theorem pieces_read {blocks : List (String × XmlCall table)}
    (h : ∀ b ∈ blocks, FreeOf toolCallTags b.1) :
    ∀ p ∈ toolCallPieces blocks, Passed toolCallBlock '<' p.between ∧
      Taken toolCallBlock p.text p.groups ∧ ∃ u, p.text = '<' :: u := by
  intro p h_p
  obtain ⟨b, h_b, rfl⟩ := List.mem_map.mp h_p
  exact ⟨passed_toolCall (h b h_b), taken_toolCall b.2, b.2.render_open⟩

/-- The calls with the identifiers they get. -/
def requestsOf (hex : String → String) (blocks : List (String × XmlCall table)) (n : ℕ) :
    List ToolCallRequest :=
  (blocks.zipIdx n).map fun p =>
    { id := "call_" ++ callIdSuffix hex "xml" p.2
      toolName := p.1.2.name
      toolInput := p.1.2.params }

/-- The requests read are those of the blocks, in order. -/
theorem requestsOf_map (hex : String → String) (blocks : List (String × XmlCall table)) (n : ℕ) :
    (requestsOf hex blocks n).map (fun call => (call.toolName, call.toolInput)) =
      blocks.map fun b => (b.2.name, b.2.params) := by
  conv_rhs => rw [← List.zipIdx_map_fst n blocks, List.map_map]
  rw [requestsOf, List.map_map]
  rfl

/-- The calls of a text are read in their order. -/
theorem parseNemotron_render (decimal : Char → Char) (hex : String → String)
    (blocks : List (String × XmlCall table)) {last : String}
    (h : ∀ b ∈ blocks, FreeOf toolCallTags b.1) (h_last : FreeOf toolCallTags last) :
    (toolCallBlock.finditer (renderText blocks last).toList).zipIdx.filterMap (fun p =>
        parseOneNemotronBlock table decimal (p.1.group 1) (callIdSuffix hex "xml" p.2)) =
      requestsOf hex blocks 0 := by
  have h_groups := finditer_document consumes_toolCall _ _ (pieces_read h) (passed_toolCall h_last)
  rw [← toList_renderText, toolCallPieces, List.map_map] at h_groups
  generalize toolCallBlock.finditer (renderText blocks last).toList = hits at h_groups
  -- the place is counted along both lists
  generalize 0 = n
  clear h h_last
  induction blocks generalizing hits n with
  | nil =>
    rw [List.map_nil, List.map_eq_nil_iff] at h_groups
    subst h_groups
    rfl
  | cons b blocks ih =>
    cases hits with
    | nil => cases h_groups
    | cons m hits =>
      obtain ⟨h_m, h_rest⟩ := List.cons.inj h_groups
      have h_m' : m.groups = [(1, b.2.body)] := h_m
      have h_body : m.group 1 = String.ofList b.2.body := by simp [Hit.group, h_m', Dict.get?]
      have h_later := @ih hits h_rest (n + 1)
      unfold requestsOf at h_later ⊢
      rw [List.zipIdx_cons, List.zipIdx_cons, List.map_cons, ← h_later]
      refine List.filterMap_cons_some ?_
      dsimp only
      rw [h_body, parseOne_render]

/-- Without its calls a text is what surrounds them. -/
theorem sub_render {blocks : List (String × XmlCall table)} {last : String}
    (h : ∀ b ∈ blocks, FreeOf toolCallTags b.1) (h_last : FreeOf toolCallTags last) :
    String.ofList (toolCallBlock.sub [] (renderText blocks last).toList) = surrounding blocks last := by
  rw [toList_renderText, sub_document consumes_toolCall _ _ (pieces_read h) (passed_toolCall h_last),
    surrounding, toolCallPieces, List.flatMap_map]

/-- No call in the form of Gemma is found where none begins. -/
theorem parseGemma_free (table : CharTable) (hex : String → String) {text : String} (h : FreeOf toolCallTags text) :
    (parseGemmaToolCalls table hex text).1 = [] := by
  -- without the opening tag the scan passes over the text
  have h_passed : Passed (gemmaToolCall table) '<' text.toList :=
    passed_of_not_contains gemmaOpen_tag (h "<|tool_call>" (by decide))
  have h_scan := @scan_passed (gemmaToolCall table) [] [] '<' text.toList h_passed (tagNext_nil '<')
  have h_find : (gemmaToolCall table).finditer text.toList = [] := by
    rw [List.append_nil, scan, List.append_nil] at h_scan
    rw [finditer, h_scan]
    simp [List.filterMap_eq_nil_iff]
  unfold parseGemmaToolCalls
  split_ifs
  · rfl
  · rw [h_find]
    rfl

/-- A text with a call in it is not blank. -/
theorem renderText_not_blank {blocks : List (String × XmlCall table)} (h : blocks ≠ [])
    (last : String) :
    ¬ (renderText blocks last = "" ∨ PyStr.isBlank (renderText blocks last) = true) := by
  -- a call is rendered with an opening bracket, so the text is not blank
  have h_mem : '<' ∈ (renderText blocks last).toList := by
    obtain ⟨b, blocks, rfl⟩ := List.exists_cons_of_ne_nil h
    obtain ⟨u, h_u⟩ := b.2.render_open
    rw [renderText, String.toList_ofList, List.flatMap_cons, h_u]
    simp
  rintro (h_empty | h_blank)
  · rw [h_empty] at h_mem
    cases h_mem
  · have h_space := PyStr.isBlank_iff.mp h_blank '<' h_mem
    revert h_space
    decide

/-- A text without calls is left as it is. -/
theorem extract_free (decimal : Char → Char) (hex : String → String) {text : String}
    (h : FreeOf toolCallTags text) :
    extractToolCallsFromText table decimal hex (some text) = ([], some text) := by
  -- the text is the rendering of no calls
  have h_calls := @parseNemotron_render table decimal hex [] text (by simp) h
  have h_text : renderText ([] : List (String × XmlCall table)) text = text := by simp [renderText]
  -- so the first parser finds none
  have h_nemotron : (parseNemotronToolCalls table decimal hex text).1 = [] := by
    unfold parseNemotronToolCalls
    split_ifs
    · rfl
    · rwa [h_text] at h_calls
  -- and the second one finds none either
  have h_gemma := parseGemma_free table hex h
  by_cases h_blank : text = "" ∨ PyStr.isBlank text = true
  · exact if_pos h_blank
  · simp only [extractToolCallsFromText, if_neg h_blank, h_nemotron, h_gemma, List.isEmpty_nil,
      Bool.not_true, Bool.false_eq_true, if_false]

/-- A text with calls is read as these and what is left of it. -/
theorem extract_blocks (decimal : Char → Char) (hex : String → String)
    {blocks : List (String × XmlCall table)} {last : String} (h_some : blocks ≠ [])
    (h : ∀ b ∈ blocks, FreeOf toolCallTags b.1) (h_last : FreeOf toolCallTags last) :
    extractToolCallsFromText table decimal hex (some (renderText blocks last)) =
      (requestsOf hex blocks 0, truthy (some (PyStr.strip (surrounding blocks last)))) := by
  have h_blank := renderText_not_blank h_some last
  -- every rendered call is found, and what is left is the text between them
  have h_parse : parseNemotronToolCalls table decimal hex (renderText blocks last) =
      (requestsOf hex blocks 0, PyStr.strip (surrounding blocks last)) := by
    unfold parseNemotronToolCalls
    rw [if_neg fun h_empty => h_blank (.inl h_empty), parseNemotron_render decimal hex blocks h h_last,
      sub_render h h_last]
  have h_calls : (requestsOf hex blocks 0).isEmpty = false := by
    obtain ⟨b, rest, rfl⟩ := List.exists_cons_of_ne_nil h_some
    rfl
  simp only [extractToolCallsFromText, if_neg h_blank, h_parse, h_calls, Bool.not_false, if_true]

/-- **Calls written into a text are read back**: their names and arguments in their order, and the
text around them, stripped. A text without calls is left as it is, and no text is left of one that
has only calls in it. -/
theorem extract_render (table : CharTable) (decimal : Char → Char) (hex : String → String)
    (blocks : List (String × XmlCall table)) (last : String)
    (h : ∀ b ∈ blocks, FreeOf toolCallTags b.1) (h_last : FreeOf toolCallTags last) :
    let extracted := extractToolCallsFromText table decimal hex (some (renderText blocks last))
    extracted.1.map (fun call => (call.toolName, call.toolInput)) =
        blocks.map (fun b => (b.2.name, b.2.params)) ∧
      extracted.2 =
        if blocks = [] then some last else truthy (some (PyStr.strip (surrounding blocks last))) := by
  dsimp only
  -- without calls the text is given back as it is
  by_cases h_some : blocks = []
  · subst h_some
    have h_text : renderText ([] : List (String × XmlCall table)) last = last := by simp [renderText]
    rw [h_text, extract_free decimal hex h_last, if_pos rfl]
    exact ⟨rfl, rfl⟩
  · rw [extract_blocks decimal hex h_some h h_last, if_neg h_some]
    dsimp only
    exact ⟨requestsOf_map hex blocks 0, rfl⟩

end

/-- A call of a function with a dot in its name. -/
def runQuery : XmlCall .ascii where
  name := "db.run"
  params := [("sql", .str "SELECT 1"), ("limit", .int 3)]
  name_ne := by decide
  name_chars := by decide
  param_ne := by decide
  param_chars := by decide
  distinct := by decide
  valid := by simp [Json.Valid]
  free := by decide +kernel

/-- One call behind a text: the call is found, and the text is stripped. -/
theorem extract_render_query :
    let extracted := extractToolCallsFromText .ascii id (fun _ => "00000000")
      (some (renderText [("Let me look. ", runQuery)] "\n"))
    extracted.1.map (fun call => (call.toolName, call.toolInput)) =
        [("db.run", [("sql", .str "SELECT 1"), ("limit", .int 3)])] ∧
      extracted.2 = some "Let me look." := by
  -- the text has no tags
  have h_free : ∀ b ∈ [("Let me look. ", runQuery)], FreeOf toolCallTags b.1 := by
    intro b h_b
    rw [List.mem_singleton.mp h_b]
    decide +kernel
  obtain ⟨h_calls, h_text⟩ := extract_render .ascii id (fun _ => "00000000")
    [("Let me look. ", runQuery)] "\n" h_free (by decide +kernel)
  have h_rest : PyStr.strip (surrounding [("Let me look. ", runQuery)] "\n") = "Let me look." := by
    decide +kernel
  rw [if_neg (List.cons_ne_nil _ _), h_rest] at h_text
  exact ⟨h_calls, h_text⟩

/-- Without calls the text is not stripped. Where nothing is left of it there is none. A closing tag
in capitals ends a value, and a function without a name is no call. -/
theorem extract_render_fails :
    (extractToolCallsFromText .ascii id (fun _ => "00000000")
        (some (renderText ([] : List (String × XmlCall .ascii)) " Hello "))).2 ≠
      some (PyStr.strip (surrounding ([] : List (String × XmlCall .ascii)) " Hello ")) ∧
    (extractToolCallsFromText .ascii id (fun _ => "00000000")
        (some (renderText [("", runQuery)] ""))).2 ≠
      some (PyStr.strip (surrounding [("", runQuery)] "")) ∧
    (extractToolCallsFromText .ascii id (fun _ => "00000000")
        (some (String.ofList ("<tool_call><function=f>".toList ++
          (renderParameter ("x", .str "</PARAMETER>") ++ "</function></tool_call>".toList))))).1.map
        ToolCallRequest.toolInput = [[("x", .str "\"")]] ∧
    (extractToolCallsFromText .ascii id (fun _ => "00000000")
        (some "<tool_call><function=></function></tool_call>")).1 = [] := by
  refine ⟨by decide +kernel, ?_, by decide +kernel, by decide +kernel⟩
  -- the empty text has none
  have h_free : ∀ b ∈ [("", runQuery)], FreeOf toolCallTags b.1 := by
    intro b h_b
    rw [List.mem_singleton.mp h_b]
    decide
  rw [extract_blocks id (fun _ => "00000000") (List.cons_ne_nil _ _) h_free (by decide)]
  decide

end Nexus
