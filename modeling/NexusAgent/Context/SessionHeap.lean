import NexusAgent.Context.Trimming
import NexusAgent.Lib.Heap

/-!
# The builder on a heap

`ContextWindowBuilder.build` once more, on the objects that a session is made of: the list of its
turns, the turns, their lists of stored messages and the messages. The window is a copy of the
list of turns, from which the loop pops, and stored messages are repaired on a copy. What the
builder writes to is its own, so that it leaves the session as it was and returns the messages of
`build` (`grows_buildAt`).
-/

open Lib

namespace Nexus

/-! ### The objects -/

/-- An object: a turn, whose stored messages are in the list at an address, a list of objects, or a
message dictionary. -/
inductive Obj
  | turn (fields : TurnRecord) (llmMessages : ℕ)
  | list (items : List ℕ)
  | dict (msg : Message)

/-- The objects, by address. -/
abbrev Heap : Type := List Obj

/-- The items of a list. -/
def listAt (h : Heap) (a : ℕ) : List ℕ :=
  match h[a]? with
  | some (.list items) => items
  | _ => []

/-- The contents of a message dictionary. -/
def dictAt (h : Heap) (a : ℕ) : Message :=
  match h[a]? with
  | some (.dict msg) => msg
  | _ => { role := .user, content := none }

/-- The addresses of a turn's stored messages. -/
def llmMessagesAt (h : Heap) (a : ℕ) : List ℕ :=
  match h[a]? with
  | some (.turn _ llmMessages) => listAt h llmMessages
  | _ => []

/-- A turn with all that belongs to it. -/
def turnAt (h : Heap) (a : ℕ) : TurnRecord :=
  match h[a]? with
  | some (.turn fields _) => { fields with llmMessages := (llmMessagesAt h a).map (dictAt h) }
  | _ => { turnIndex := 0 }

/-- There is a dictionary with these contents. -/
def IsDict (h : Heap) (a : ℕ) (msg : Message) : Prop := h[a]? = some (.dict msg)

/-- There is a turn, with its list of stored messages and the messages. -/
def IsTurn (h : Heap) (a : ℕ) (turn : TurnRecord) : Prop :=
  ∃ fields llmMessages items, h[a]? = some (.turn fields llmMessages) ∧
    h[llmMessages]? = some (.list items) ∧ List.Forall₂ (IsDict h) items turn.llmMessages ∧
    turn = { fields with llmMessages := turn.llmMessages }

/-- There is the list of a session's turns. -/
def IsSession (h : Heap) (a : ℕ) (s : AgentSession) : Prop :=
  ∃ items, h[a]? = some (.list items) ∧ List.Forall₂ (IsTurn h) items s.turns

theorem stable_isDict (a : ℕ) (msg : Message) : Stable fun h => IsDict h a msg :=
  stable_cell a (Obj.dict msg)

/-- A turn stays where it is as the heap grows. -/
theorem stable_isTurn (a : ℕ) (turn : TurnRecord) : Stable fun h => IsTurn h a turn := by
  rintro h h' h_more ⟨fields, llmMessages, items, h_turn, h_list, h_items, h_eq⟩
  exact ⟨fields, llmMessages, items, stable_cell _ _ h h' h_more h_turn,
    stable_cell _ _ h h' h_more h_list,
    Stable.forall₂ stable_isDict items turn.llmMessages h h' h_more h_items, h_eq⟩

theorem stable_isSession (a : ℕ) (s : AgentSession) : Stable fun h => IsSession h a s := by
  rintro h h' h_more ⟨items, h_list, h_items⟩
  exact ⟨items, stable_cell _ _ h h' h_more h_list,
    Stable.forall₂ stable_isTurn items s.turns h h' h_more h_items⟩

section Reading

variable {h : Heap} {a : ℕ} {items : List ℕ} {msg : Message} {msgs : List Message}
  {turn : TurnRecord}

theorem listAt_eq (h_a : h[a]? = some (.list items)) : listAt h a = items := by
  rw [listAt, h_a]

theorem dictAt_eq (h_a : IsDict h a msg) : dictAt h a = msg := by
  rw [dictAt, h_a]

theorem map_dictAt (h_all : List.Forall₂ (IsDict h) items msgs) : items.map (dictAt h) = msgs := by
  induction h_all with
  | nil => rfl
  | cons h_a _ ih => rw [List.map_cons, dictAt_eq h_a, ih]

/-- The messages of a turn on the heap are those of the turn. -/
theorem llmMessagesAt_spec (h_a : IsTurn h a turn) :
    List.Forall₂ (IsDict h) (llmMessagesAt h a) turn.llmMessages := by
  obtain ⟨fields, llmMessages, items, h_turn, h_list, h_items, -⟩ := h_a
  rw [llmMessagesAt, h_turn]
  dsimp only
  rw [listAt_eq h_list]
  exact h_items

/-- A turn is read back from the heap as it is. -/
theorem turnAt_eq (h_a : IsTurn h a turn) : turnAt h a = turn := by
  have h_msgs := map_dictAt (llmMessagesAt_spec h_a)
  obtain ⟨fields, llmMessages, items, h_turn, -, -, h_eq⟩ := h_a
  rw [turnAt, h_turn]
  dsimp only
  rw [h_msgs, ← h_eq]

/-- Turns are read back from the heap as they are. -/
theorem map_turnAt {turns : List TurnRecord} (h_all : List.Forall₂ (IsTurn h) items turns) :
    items.map (turnAt h) = turns := by
  induction h_all with
  | nil => rfl
  | cons h_a _ ih => rw [List.map_cons, turnAt_eq h_a, ih]

end Reading

/-! ### Rendering -/

/-- `copy.deepcopy` of a message. -/
def deepcopy (a : ℕ) : StateM Heap ℕ := do
  let h ← get
  alloc (.dict (dictAt h a))

/-- `sanitize_assistant_llm_message`: a copy of the dictionary, which is repaired in place. -/
def sanitizeAt (a : ℕ) : StateM Heap ℕ := do
  let h ← get
  let out ← alloc (.dict (dictAt h a))
  modify fun h =>
    h.set out (.dict (sanitizeAssistantLlmMessage (dictAt h out) emptyAssistantPlaceholder))
  return out

/-- A stored message as it is put into the list. -/
def storedMessageAt (a : ℕ) : StateM Heap ℕ := do
  let copy ← deepcopy a
  let h ← get
  if (dictAt h copy).role = .assistant then sanitizeAt copy else return copy

variable (cfg : BuilderConfig) (counter : TokenCounter)

/-- `_turn_to_messages`. -/
def turnToMessagesAt (degraded : List String) (a : ℕ) : StateM Heap (List ℕ) := do
  let h ← get
  let turn := turnAt h a
  let user ← (userMessages turn.userMessage).mapM fun msg => alloc (.dict msg)
  let stored ← (llmMessagesAt h a).mapM storedMessageAt
  let tools ← turn.toolCalls.mapM fun tc => alloc (.dict
    { role := .tool, toolCallId := some (toolCallIdOf turn tc),
      content := some (renderToolMessage cfg counter tc (tc.tcId ∈ degraded)) })
  return user ++ stored ++ tools

variable {cfg counter} {h : Heap}

/-- New dicts are allocated for each element, and nothing else is written. -/
theorem grows_dicts {α : Type} (f : α → Message) (xs : List α) :
    Grows (xs.mapM fun x => alloc (Obj.dict (f x))) h fun as h' =>
      List.Forall₂ (IsDict h') as (xs.map f) := by
  refine Grows.mapM (R := fun _ x msg => msg = f x) (fun _ _ _ _ _ h_eq => h_eq) stable_isDict
    (fun heap x msg h_eq => ?_) ?_
  · subst h_eq
    exact Grows.alloc _
  · exact List.forall₂_map_right_iff.mpr (List.forall₂_same.mpr fun _ _ => rfl)

/-- A deep copy is a new dict with the same message. -/
theorem grows_deepcopy {a : ℕ} {msg : Message} (h_a : IsDict h a msg) :
    Grows (deepcopy a) h fun a' h' => IsDict h' a' msg := by
  refine Grows.get.bind fun x h' _ h_x => ?_
  obtain ⟨rfl, rfl⟩ := h_x
  rw [dictAt_eq h_a]
  exact Grows.alloc _

/-- The copy of a message is repaired, and no other object. -/
theorem grows_sanitizeAt {a : ℕ} {msg : Message} (h_a : IsDict h a msg) :
    Grows (sanitizeAt a) h fun a' h' =>
      IsDict h' a' (sanitizeAssistantLlmMessage msg emptyAssistantPlaceholder) := by
  -- the copy lies at the end of the heap, and the sanitizer writes into the copy
  have h_run : sanitizeAt a h = (h.length,
      h ++ [Obj.dict (sanitizeAssistantLlmMessage msg emptyAssistantPlaceholder)]) := by
    have h_copy : dictAt (h ++ [Obj.dict msg]) h.length = msg :=
      dictAt_eq List.getElem?_concat_length
    show (h.length, (h ++ [Obj.dict (dictAt h a)]).set h.length (Obj.dict _)) = _
    rw [dictAt_eq h_a, h_copy, List.set_append_right _ _ le_rfl, Nat.sub_self]
    rfl
  rw [Grows, h_run]
  exact ⟨List.prefix_append _ _, List.getElem?_concat_length⟩

/-- The stored message is read, and an assistant's is sanitized in a copy. -/
theorem grows_storedMessageAt {a : ℕ} {msg : Message} (h_a : IsDict h a msg) :
    Grows (storedMessageAt a) h fun a' h' => IsDict h' a'
      (if msg.role = .assistant then sanitizeAssistantLlmMessage msg emptyAssistantPlaceholder
        else msg) := by
  refine (grows_deepcopy h_a).bind fun copy h' _ h_copy => ?_
  refine Grows.get.bind fun x h'' _ h_x => ?_
  obtain ⟨rfl, rfl⟩ := h_x
  rw [dictAt_eq h_copy]
  split_ifs
  · exact grows_sanitizeAt h_copy
  · exact .pure h_copy

/-- **The messages of a turn** are new objects. -/
theorem grows_turnToMessagesAt {degraded : List String} {a : ℕ} {turn : TurnRecord}
    (h_a : IsTurn h a turn) :
    Grows (turnToMessagesAt cfg counter degraded a) h fun as h' =>
      List.Forall₂ (IsDict h') as (turnToMessages cfg counter degraded turn) := by
  refine Grows.get.bind fun x h₀ _ h_x => ?_
  obtain ⟨rfl, rfl⟩ := h_x
  have h_turn := turnAt_eq h_a
  dsimp only
  rw [h_turn]
  refine (grows_dicts id _).bind fun user h₁ h_more₁ h_user => ?_
  -- the turn's own dicts are there all along, so they are read after the allocations too
  have h_stored := Stable.forall₂ stable_isDict _ _ _ _ h_more₁ (llmMessagesAt_spec h_a)
  refine (Grows.mapM stable_isDict (fun a' msg => stable_isDict a' _)
    (fun heap a' msg h_a' => grows_storedMessageAt h_a') h_stored).bind
      fun stored h₂ h_more₂ h_stored => ?_
  refine (grows_dicts _ _).bind fun tools h₃ h_more₃ h_tools => .pure ?_
  rw [List.map_id] at h_user
  -- later allocations leave the earlier dicts as they are
  have h_user' := Stable.forall₂ stable_isDict _ _ _ _ (h_more₂.trans h_more₃) h_user
  have h_stored' := Stable.forall₂ (fun a' msg => stable_isDict a' _) _ _ _ _ h_more₃ h_stored
  refine List.rel_append (List.rel_append h_user' ?_) h_tools
  exact List.forall₂_map_right_iff.mpr h_stored'

/-! ### The loop -/

/-- What one call of `build` is given besides the session. -/
structure BuildCall where
  systemContent : String
  currentUserMessage : Option String := none
  tokenBudget : ℤ := 100000

/-- The call on a session. -/
def BuildCall.on (call : BuildCall) (s : AgentSession) : BuildInput where
  session := s
  systemContent := call.systemContent
  currentUserMessage := call.currentUserMessage
  tokenBudget := call.tokenBudget

/-- The heap and the variables of the loop, with the messages of the last pass. -/
structure LoopState where
  heap : Heap
  degradedTcIds : List String := []
  turnsDropped : ℕ := 0
  untrimmedTokens : ℕ := 0
  flatHistory : List ℕ := []

variable (cfg counter) in
/-- The messages of the turns of a window. -/
def flatHistoryAt (degraded : List String) (turns : List ℕ) : StateM Heap (List ℕ) := do
  let parts ← turns.mapM (turnToMessagesAt cfg counter degraded)
  return parts.flatten

variable (cfg counter) in
/-- A pass of the budgeting loop, with the addresses of the list `turns_in_window`, the system
message and the current ones. -/
def budgetPassAt (tokenBudget : ℤ) (window system : ℕ) (current : List ℕ) (l : LoopState) :
    LoopState ⊕ LoopState :=
  let turns := listAt l.heap window
  let (flat, heap) := flatHistoryAt cfg counter l.degradedTcIds turns l.heap
  let total := counter.countMessages ((system :: (flat ++ current)).map (dictAt heap))
  let untrimmed := if l.untrimmedTokens = 0 then total else l.untrimmedTokens
  let l := { l with heap := heap, flatHistory := flat, untrimmedTokens := untrimmed }
  if (total : ℤ) ≤ tokenBudget then .inr l
  else
    match degradeOldestTool (turns.map (turnAt heap)) l.degradedTcIds with
    | some tcId => .inl { l with degradedTcIds := tcId :: l.degradedTcIds }
    | none =>
      match turns with
      | [] => .inr l
      | _ :: turns =>
        -- `window.pop(0)` changes the list of the window in place
        .inl { l with heap := heap.set window (.list turns), turnsDropped := l.turnsDropped + 1 }

/-- Related lists of lists are related as lists. -/
theorem forall₂_flatten {α β : Type} {R : α → β → Prop} {xss : List (List α)} {yss : List (List β)}
    (h_all : List.Forall₂ (List.Forall₂ R) xss yss) : List.Forall₂ R xss.flatten yss.flatten := by
  induction h_all with
  | nil => exact .nil
  | cons h_head _ ih => exact List.rel_append h_head ih

variable (cfg counter) in
/-- The history is rendered into new dicts, turn by turn. -/
theorem grows_flatHistoryAt (degraded : List String) {items : List ℕ} {turns : List TurnRecord}
    (h_items : List.Forall₂ (IsTurn h) items turns) :
    Grows (flatHistoryAt cfg counter degraded items) h fun as h' =>
      List.Forall₂ (IsDict h') as (turns.flatMap (turnToMessages cfg counter degraded)) := by
  refine (Grows.mapM stable_isTurn (fun as turn => Stable.forall₂ stable_isDict as _)
    (fun heap a turn h_a => grows_turnToMessagesAt h_a) h_items).bind
      fun parts h' _ h_parts => .pure ?_
  rw [List.flatMap_def]
  exact forall₂_flatten (List.forall₂_map_right_iff.mpr h_parts)

/-- Writing the window's list leaves the dicts alone. -/
theorem isDict_set {a window : ℕ} {msg : Message} {items items' : List ℕ}
    (h_window : h[window]? = some (.list items)) (h_a : IsDict h a msg) :
    IsDict (h.set window (.list items')) a msg := by
  have h_ne : window ≠ a := by
    rintro rfl
    cases h_window.symm.trans h_a
  rw [IsDict, List.getElem?_set_ne h_ne]
  exact h_a

/-- Setting an entry keeps a prefix. -/
theorem set_prefix {α : Type} {xs ys : List α} {i : ℕ} (h_i : i < xs.length) (x : α)
    (h_pre : xs <+: ys) : xs.set i x <+: ys.set i x := by
  obtain ⟨more, rfl⟩ := h_pre
  rw [List.set_append_left _ _ h_i]
  exact List.prefix_append _ _

/-- What is there when the loop begins, over the objects of the caller: the copy of the list of
turns, the system message and the current ones. -/
structure Prepared (inp : BuildInput) (base pre : Heap) (window system : ℕ) (current : List ℕ) :
    Prop where
  kept : base <+: pre
  fresh : base.length ≤ window
  list : ∃ items, pre[window]? = some (.list items)
  systemMessage : IsDict pre system { role := .system, content := some inp.systemContent }
  currentMessages : List.Forall₂ (IsDict pre) current (userMessages inp.currentUserMessage)

section Loop

variable {inp : BuildInput} {base pre : Heap} {window system : ℕ} {current : List ℕ}

/-- The loop on the heap has come as far as the window. -/
structure Keeps (base pre : Heap) (window : ℕ) (w : Window) (l : LoopState) : Prop where
  heap : ∃ items, pre.set window (.list items) <+: l.heap ∧
    List.Forall₂ (IsTurn base) items w.turns
  degraded : l.degradedTcIds = w.degradedTcIds
  dropped : l.turnsDropped = w.turnsDropped
  untrimmed : l.untrimmedTokens = w.untrimmedTokens

/-- The loop on the heap is left as that of the window, with the messages of the window. -/
structure Leaves (cfg : BuilderConfig) (counter : TokenCounter) (base pre : Heap) (window : ℕ)
    (w : Window) (l : LoopState) : Prop extends Keeps base pre window w l where
  messages : List.Forall₂ (IsDict l.heap) l.flatHistory
    (w.turns.flatMap (turnToMessages cfg counter w.degradedTcIds))

theorem Prepared.window_lt (h_pre : Prepared inp base pre window system current) :
    window < pre.length := by
  obtain ⟨items, h_window⟩ := h_pre.list
  exact (List.getElem?_eq_some_iff.mp h_window).1

/-- Setting the window leaves the session's part of the heap. -/
theorem Prepared.base_set (h_pre : Prepared inp base pre window system current) (obj : Obj) :
    base <+: pre.set window obj := by
  obtain ⟨more, rfl⟩ := h_pre.kept
  rw [List.set_append_right _ _ h_pre.fresh]
  exact List.prefix_append _ _

/-- The messages that are there before the loop stay. -/
theorem Prepared.isDict (h_pre : Prepared inp base pre window system current) {items : List ℕ}
    {a : ℕ} {msg : Message} (h_heap : pre.set window (.list items) <+: h) (h_a : IsDict pre a msg) :
    IsDict h a msg := by
  obtain ⟨old, h_old⟩ := h_pre.list
  exact stable_isDict _ _ _ _ h_heap (isDict_set h_old h_a)

/-- **The loops keep step.** -/
theorem keeps_pass (h_pre : Prepared inp base pre window system current) {w : Window}
    {l : LoopState} (h_keeps : Keeps base pre window w l) :
    Sum.LiftRel (Keeps base pre window) (Leaves cfg counter base pre window)
      (budgetPass cfg counter inp w)
      (budgetPassAt cfg counter inp.tokenBudget window system current l) := by
  obtain ⟨items, h_heap, h_items⟩ := h_keeps.heap
  have h_base : base <+: l.heap := (h_pre.base_set _).trans h_heap
  have h_cell : (pre.set window (Obj.list items))[window]? = some (.list items) :=
    List.getElem?_set_self h_pre.window_lt
  have h_turns : listAt l.heap window = items := listAt_eq (stable_cell _ _ _ _ h_heap h_cell)
  have h_items' := Stable.forall₂ stable_isTurn _ _ _ _ h_base h_items
  have h_grows := grows_flatHistoryAt cfg counter w.degradedTcIds h_items'
  unfold Grows at h_grows
  unfold budgetPassAt
  rw [h_turns, h_keeps.degraded, h_keeps.dropped, h_keeps.untrimmed]
  dsimp only
  generalize flatHistoryAt cfg counter w.degradedTcIds items l.heap = out at h_grows ⊢
  obtain ⟨flat, heap⟩ := out
  obtain ⟨h_more, h_flat⟩ : l.heap <+: heap ∧ List.Forall₂ (IsDict heap) flat _ := h_grows
  have h_heap' : pre.set window (.list items) <+: heap := h_heap.trans h_more
  have h_messages : (system :: (flat ++ current)).map (dictAt heap) =
      windowMessages cfg counter inp w := by
    refine map_dictAt (.cons ?_ (List.rel_append h_flat ?_))
    · exact h_pre.isDict h_heap' h_pre.systemMessage
    · exact h_pre.currentMessages.imp fun a msg h_a => h_pre.isDict h_heap' h_a
  have h_read : items.map (turnAt heap) = w.turns :=
    map_turnAt (Stable.forall₂ stable_isTurn _ _ _ _ (h_base.trans h_more) h_items)
  dsimp only
  rw [h_messages, h_read, budgetPass]
  generalize counter.countMessages (windowMessages cfg counter inp w) = total
  have h_tally : w.tally total = { w with
      untrimmedTokens := if w.untrimmedTokens = 0 then total else w.untrimmedTokens } := by
    unfold Window.tally
    split_ifs <;> rfl
  rw [h_tally]
  generalize (if w.untrimmedTokens = 0 then total else w.untrimmedTokens) = untrimmed
  have h_leaves : Leaves cfg counter base pre window { w with untrimmedTokens := untrimmed }
      ⟨heap, w.degradedTcIds, w.turnsDropped, untrimmed, flat⟩ :=
    ⟨⟨⟨items, h_heap', h_items⟩, rfl, rfl, rfl⟩, h_flat⟩
  unfold Window.trim
  dsimp only
  split_ifs
  · exact .inr h_leaves
  · cases h_oldest : degradeOldestTool w.turns w.degradedTcIds with
    | some tcId => exact .inl ⟨⟨items, h_heap', h_items⟩, rfl, rfl, rfl⟩
    | none =>
      cases h_w : w.turns with
      | nil =>
        rw [h_w] at h_items h_leaves
        obtain rfl := List.forall₂_nil_right_iff.mp h_items
        exact .inr h_leaves
      | cons turn turns =>
        -- the first turn is popped off the copy
        rw [h_w] at h_items
        obtain ⟨a, rest, h_a, h_rest, rfl⟩ := List.forall₂_cons_right_iff.mp h_items
        have h_set := set_prefix ((List.length_set).symm ▸ h_pre.window_lt) (Obj.list rest) h_heap'
        rw [List.set_set] at h_set
        exact .inl ⟨⟨rest, h_set, h_rest⟩, rfl, rfl, rfl⟩

end Loop

/-! ### The final touches -/

/-- The loop of `_coalesce_consecutive_assistants`. -/
def coalesceFromAt (prev : ℕ) : List ℕ → StateM Heap (List ℕ)
  | [] => return [prev]
  | msg :: msgs => do
    let h ← get
    if mergeable (dictAt h prev) (dictAt h msg) then
      let merged ← alloc (.dict { dictAt h prev with
        content := some (joinContents ((dictAt h prev).content.getD "")
          ((dictAt h msg).content.getD "")) })
      coalesceFromAt merged msgs
    else
      let out ← coalesceFromAt msg msgs
      return prev :: out

/-- `_coalesce_consecutive_assistants`. -/
def coalesceAt : List ℕ → StateM Heap (List ℕ)
  | [] => return []
  | msg :: msgs => coalesceFromAt msg msgs

/-- `_ensure_user_query`. -/
def ensureUserQueryAt (messages : List ℕ) (anchor : Option String) : StateM Heap (List ℕ) := do
  let h ← get
  if hasBareUserMessage (messages.map (dictAt h)) then return messages
  else
    let stripped := PyStr.strip (anchor.getD "")
    let text := if stripped = "" then fallbackUserMessage else stripped
    let userMsg ← alloc (.dict { role := .user, content := some text })
    match messages with
    | [] => return [userMsg]
    | msg :: msgs =>
      if (dictAt h msg).role = .system then return msg :: userMsg :: msgs
      else return userMsg :: msg :: msgs

/-- Merging writes into new dicts only. -/
theorem grows_coalesceFromAt {prev : ℕ} {as : List ℕ} {p : Message} {msgs : List Message}
    (h_prev : IsDict h prev p) (h_all : List.Forall₂ (IsDict h) as msgs) :
    Grows (coalesceFromAt prev as) h fun bs h' =>
      List.Forall₂ (IsDict h') bs (coalesceFrom p msgs) := by
  induction msgs generalizing prev as p h with
  | nil =>
    obtain rfl := List.forall₂_nil_right_iff.mp h_all
    exact .pure (.cons h_prev .nil)
  | cons msg msgs ih =>
    obtain ⟨a, as, h_a, h_as, rfl⟩ := List.forall₂_cons_right_iff.mp h_all
    refine Grows.get.bind fun x h' _ h_x => ?_
    obtain ⟨rfl, rfl⟩ := h_x
    rw [dictAt_eq h_prev, dictAt_eq h_a, coalesceFrom]
    split_ifs
    · -- the merged message is a new dict, and the rest is merged into it
      refine (Grows.alloc _).bind fun merged h' h_more h_merged => ?_
      exact ih h_merged (Stable.forall₂ stable_isDict _ _ _ _ h_more h_as)
    · -- the message stays as it is
      refine (ih h_a h_as).bind fun out h' h_more h_out => .pure ?_
      exact .cons (stable_isDict _ _ _ _ h_more h_prev) h_out

/-- Merging on the heap gives what merging gives. -/
theorem grows_coalesceAt {as : List ℕ} {msgs : List Message}
    (h_all : List.Forall₂ (IsDict h) as msgs) :
    Grows (coalesceAt as) h fun bs h' =>
      List.Forall₂ (IsDict h') bs (coalesceConsecutiveAssistants msgs) := by
  cases h_all with
  | nil => exact .pure .nil
  | cons h_a h_as => exact grows_coalesceFromAt h_a h_as

/-- A user message put in is a new dict; else the list is passed on. -/
theorem grows_ensureUserQueryAt {as : List ℕ} {msgs : List Message} (anchor : Option String)
    (h_all : List.Forall₂ (IsDict h) as msgs) :
    Grows (ensureUserQueryAt as anchor) h fun bs h' =>
      List.Forall₂ (IsDict h') bs (ensureUserQuery msgs anchor) := by
  refine Grows.get.bind fun x h' _ h_x => ?_
  obtain ⟨rfl, rfl⟩ := h_x
  rw [map_dictAt h_all, ensureUserQuery]
  by_cases h_user : hasBareUserMessage msgs = true
  · rw [if_pos h_user, if_pos h_user]
    exact .pure h_all
  · rw [if_neg h_user, if_neg h_user]
    refine (Grows.alloc _).bind fun userMsg h' h_more h_msg => ?_
    -- the new message is a new cell: the old ones read as before
    have h_all' := Stable.forall₂ stable_isDict _ _ _ _ h_more h_all
    cases h_all with
    | nil => exact .pure (.cons h_msg .nil)
    | @cons a msg as msgs h_a h_as =>
      obtain ⟨h_a', h_as'⟩ := List.forall₂_cons.mp h_all'
      dsimp only
      rw [dictAt_eq h_a]
      by_cases h_role : msg.role = .system
      · rw [if_pos h_role, if_pos h_role]
        exact .pure (.cons h_a' (.cons h_msg h_as'))
      · rw [if_neg h_role, if_neg h_role]
        exact .pure (.cons h_msg (.cons h_a' h_as'))

/-! ### A call of the builder -/

/-- The variables of `build` before the loop. -/
structure Locals where
  system : ℕ
  window : ℕ
  anchor : Option String
  current : List ℕ

/-- The part of `build` before the loop. -/
def prepareAt (call : BuildCall) (session : ℕ) : StateM Heap Locals := do
  let system ← alloc (.dict { role := .system, content := some call.systemContent })
  let h ← get
  let turns := listAt h session
  let window ← alloc (.list turns)
  let anchor := match truthy call.currentUserMessage with
    | some m => some m
    | none => turns.reverse.findSome? fun a => truthy (turnAt h a).userMessage
  let current ← (userMessages call.currentUserMessage).mapM fun msg => alloc (.dict msg)
  return { system := system, window := window, anchor := anchor, current := current }

/-- The part of `build` after the loop. -/
def finishAt (v : Locals) (l : LoopState) : StateM Heap (List ℕ) := do
  let messages ← ensureUserQueryAt (v.system :: (l.flatHistory ++ v.current)) v.anchor
  coalesceAt messages

variable (cfg counter) in
/-- `ContextWindowBuilder.build`, on the list of a session's turns. -/
def buildAt (call : BuildCall) (session : ℕ) : StateM Heap (List ℕ) := do
  let v ← prepareAt call session
  let h ← get
  let l := runPasses (budgetPassAt cfg counter call.tokenBudget v.window v.system v.current)
    (budgetFuel ((listAt h session).map (turnAt h))) { heap := h }
  set l.heap
  finishAt v l

section Call

variable {call : BuildCall} {session : ℕ} {s : AgentSession}

/-- The first message of the latest turn is the same on the heap. -/
theorem findSome?_turnAt {items : List ℕ} {turns : List TurnRecord}
    (h_items : List.Forall₂ (IsTurn h) items turns) :
    (items.reverse.findSome? fun a => truthy (turnAt h a).userMessage) =
      turns.reverse.findSome? fun t => truthy t.userMessage := by
  rw [← map_turnAt h_items, ← List.map_reverse, List.findSome?_map]
  rfl

/-- **Before the loop.** -/
theorem grows_prepareAt (h_session : IsSession h session s) :
    Grows (prepareAt call session) h fun v pre =>
      Prepared (call.on s) h pre v.window v.system v.current ∧
        List.Forall₂ (IsTurn h) (listAt pre session) s.turns ∧
        pre[v.window]? = some (.list (listAt pre session)) ∧
        v.anchor = anchorUserMessage (call.on s) := by
  obtain ⟨items, h_list, h_items⟩ := h_session
  refine (Grows.alloc _).bind fun system h₁ h_more₁ h_system => ?_
  refine Grows.get.bind fun x h_x _ h_eq => ?_
  obtain ⟨rfl, rfl⟩ := h_eq
  -- the session's list and its turns are there after the first allocation
  have h_list₁ := stable_cell _ _ _ _ h_more₁ h_list
  have h_items₁ := Stable.forall₂ stable_isTurn _ _ _ _ h_more₁ h_items
  dsimp only
  rw [listAt_eq h_list₁, findSome?_turnAt h_items₁]
  -- `list(session.turns)` is a list of its own
  refine (Grows.alloc_fresh _).bind fun window h₂ h_more₂ h_window => ?_
  obtain ⟨h_fresh, h_window⟩ := h_window
  refine (grows_dicts id _).bind fun current h₃ h_more₃ h_current => .pure ?_
  rw [List.map_id] at h_current
  -- and after the others
  have h_list₃ := stable_cell _ _ _ _ (h_more₂.trans h_more₃) h_list₁
  have h_window₃ := stable_cell _ _ _ _ h_more₃ h_window
  rw [listAt_eq h_list₃]
  refine ⟨⟨h_more₁.trans (h_more₂.trans h_more₃), h_more₁.length_le.trans h_fresh,
    ⟨items, h_window₃⟩, ?_, h_current⟩, h_items, h_window₃, rfl⟩
  exact stable_isDict _ _ _ _ (h_more₂.trans h_more₃) h_system

/-- **After the loop.** -/
theorem grows_finishAt {base pre : Heap} {v : Locals} {w : Window} {l : LoopState}
    {inp : BuildInput} (h_pre : Prepared inp base pre v.window v.system v.current)
    (h_anchor : v.anchor = anchorUserMessage inp) (h_l : Leaves cfg counter base pre v.window w l) :
    Grows (finishAt v l) l.heap fun as h' => List.Forall₂ (IsDict h') as
      (coalesceConsecutiveAssistants
        (ensureUserQuery (windowMessages cfg counter inp w) (anchorUserMessage inp))) := by
  obtain ⟨items, h_heap, -⟩ := h_l.heap
  -- the list that is sent: the system message, the history and the current messages
  have h_messages : List.Forall₂ (IsDict l.heap) (v.system :: (l.flatHistory ++ v.current))
      (windowMessages cfg counter inp w) :=
    .cons (h_pre.isDict h_heap h_pre.systemMessage)
      (List.rel_append h_l.messages
        (h_pre.currentMessages.imp fun a msg h_a => h_pre.isDict h_heap h_a))
  rw [← h_anchor]
  exact (grows_ensureUserQueryAt v.anchor h_messages).bind fun as h' _ h_as => grows_coalesceAt h_as

variable (cfg counter call) in
/-- **The session stays as it is**: a call of the builder only adds objects to the heap, and returns
the messages of `build` on the session that is there. -/
theorem grows_buildAt (h_session : IsSession h session s) :
    Grows (buildAt cfg counter call session) h fun as h' =>
      List.Forall₂ (IsDict h') as (build cfg counter (call.on s)) := by
  refine (grows_prepareAt h_session).bind_own fun v pre h_more h_v => ?_
  obtain ⟨h_pre, h_items, h_window, h_anchor⟩ := h_v
  -- the turns on the heap are those of the session
  have h_turns : (listAt pre session).map (turnAt pre) = s.turns :=
    map_turnAt (Stable.forall₂ stable_isTurn _ _ _ _ h_more h_items)
  -- before the first pass the window has all of them
  have h_start : Keeps h pre v.window (fullWindow s) { heap := pre } := by
    obtain ⟨h_lt, h_cell⟩ := List.getElem?_eq_some_iff.mp h_window
    refine ⟨⟨listAt pre session, ?_, h_items⟩, rfl, rfl, rfl⟩
    rw [← h_cell, List.set_getElem_self]
  -- each pass on the heap is one of the model, so the loops end together
  obtain ⟨n, h_n, h_passes⟩ := passes_buildWindow cfg counter (call.on s)
  obtain ⟨l, h_run, h_l⟩ := h_passes.simulate (fun w l => keeps_pass h_pre) h_start
  have h_fuel : n ≤ budgetFuel s.turns := h_n.trans (unsummarized_add_le s.turns)
  have h_loop := h_run.run_eq h_fuel
  have h_finish := grows_finishAt h_pre h_anchor h_l
  obtain ⟨items, h_heap, -⟩ := h_l.heap
  -- the loop wrote the window's list only, which the base does not have
  have h_base : h <+: l.heap := (h_pre.base_set _).trans h_heap
  subst h_loop
  rw [← h_turns] at h_base h_finish
  exact ⟨h_base.trans h_finish.1, h_finish.2⟩

end Call

/-! ### The budgeting loop -/

/-- The objects of some messages, from an address on. -/
theorem isDict_append (h : Heap) (msgs : List Message) :
    List.Forall₂ (IsDict (h ++ msgs.map Obj.dict)) (List.range' h.length msgs.length) msgs := by
  induction msgs generalizing h with
  | nil => exact .nil
  | cons msg msgs ih =>
    have h_rest := ih (h ++ [Obj.dict msg])
    rw [List.append_assoc, List.length_append] at h_rest
    refine .cons ?_ h_rest
    rw [IsDict, List.getElem?_append_right le_rfl, Nat.sub_self]
    rfl

/-- There are objects for every list of turns. -/
theorem exists_isTurns (turns : List TurnRecord) :
    ∃ h : Heap, ∃ items, List.Forall₂ (IsTurn h) items turns := by
  induction turns with
  | nil => exact ⟨[], [], .nil⟩
  | cons turn turns ih =>
    obtain ⟨h, items, h_items⟩ := ih
    -- the dicts of the turn's messages
    let stored := h ++ turn.llmMessages.map Obj.dict
    -- and the list of their addresses
    let listed := stored ++ [Obj.list (List.range' h.length turn.llmMessages.length)]
    have h_listed : stored <+: listed := List.prefix_append _ _
    have h_all : listed <+: listed ++ [Obj.turn turn stored.length] := List.prefix_append _ _
    refine ⟨listed ++ [Obj.turn turn stored.length], listed.length :: items, .cons ?_ ?_⟩
    · -- the turn at the end points to that list
      refine ⟨turn, stored.length, List.range' h.length turn.llmMessages.length,
        List.getElem?_concat_length, ?_, ?_, rfl⟩
      · exact stable_cell _ _ _ _ h_all List.getElem?_concat_length
      · exact Stable.forall₂ stable_isDict _ _ _ _ (h_listed.trans h_all)
          (isDict_append h turn.llmMessages)
    · -- the earlier turns stay where they are
      exact Stable.forall₂ stable_isTurn _ _ _ _
        ((List.prefix_append h _).trans (h_listed.trans h_all)) h_items

/-- There are objects for every session. -/
theorem exists_isSession (s : AgentSession) : ∃ h a, IsSession h a s := by
  obtain ⟨h, items, h_items⟩ := exists_isTurns s.turns
  refine ⟨h ++ [Obj.list items], h.length, items, List.getElem?_concat_length, ?_⟩
  exact Stable.forall₂ stable_isTurn _ _ _ _ (List.prefix_append _ _) h_items

/-- **The budgeting loop**: how long it runs, which turns it keeps, when it drops one, which records
are shown as a notice, and that the session stays as it is. -/
theorem budgeting_loop (cfg : BuilderConfig) (counter : TokenCounter) (call : BuildCall)
    (s : AgentSession) :
    (∃ n ≤ (unsummarized s.turns).length + s.turns.length + 1,
      Passes (budgetPass cfg counter (call.on s)) (fullWindow s) n
        (buildWindow cfg counter (call.on s))) ∧
    (∀ w, Visited (budgetPass cfg counter (call.on s)) (fullWindow s) w ∨
        w = buildWindow cfg counter (call.on s) →
      w.turns <:+ s.turns ∧ (w.turnsDropped ≠ 0 → w.raw = []) ∧
      (∃ older, older <+: unsummarized s.turns ∧
        ∀ id, id ∈ w.degradedTcIds ↔ id ∈ older.map ToolCallRecord.tcId) ∧
      (((s.turns.flatMap TurnRecord.toolCalls).map ToolCallRecord.tcId).Nodup →
        w.notices <+: unsummarized w.turns)) ∧
    (∀ w v, budgetPass cfg counter (call.on s) w = .inl v → v.turnsDropped ≠ w.turnsDropped →
      w.raw = []) ∧
    (∃ h a, IsSession h a s) ∧
    ∀ h a, IsSession h a s → h <+: (buildAt cfg counter call a h).2 ∧
      IsSession (buildAt cfg counter call a h).2 a s ∧
      List.Forall₂ (IsDict (buildAt cfg counter call a h).2) (buildAt cfg counter call a h).1
        (build cfg counter (call.on s)) := by
  refine ⟨passes_buildWindow cfg counter (call.on s), fun w h_w => ?_,
    fun w v h_pass h_dropped => raw_of_dropped h_pass h_dropped, exists_isSession s,
    fun h a h_a => ?_⟩
  · -- every window on the way is the session's turns less the oldest ones
    have h_trimmed : Trimmed s w := by
      rcases h_w with h_visited | rfl
      · exact trimmed_of_visited h_visited
      · exact (trimmed_buildWindow : Trimmed (call.on s).session _)
    refine ⟨?_, h_trimmed.spent, h_trimmed.oldest, h_trimmed.notices_prefix⟩
    rw [h_trimmed.turns]
    exact List.drop_suffix _ _
  · -- building only adds to the heap, so the session on it stays as it was
    obtain ⟨h_more, h_messages⟩ := grows_buildAt cfg counter call h_a
    exact ⟨h_more, stable_isSession a s _ _ h_more h_a, h_messages⟩

/-- Three results, of which the first and the last have one id. -/
def sharedId : AgentSession where
  sessionId := "s"
  agentId := "agent"
  turns :=
    [{ turnIndex := 0
       toolCalls :=
        [{ tcId := "TC1", tcIndex := 1, toolName := "read", rawResponse := "first" },
          { tcId := "TC2", tcIndex := 2, toolName := "read", rawResponse := "second" },
          { tcId := "TC1", tcIndex := 3, toolName := "read", rawResponse := "third" }] }]

/-- With two records of one id, the newer one is shown as a notice before the one between them. -/
theorem budgeting_loop_shared_id :
    ∃ w, Visited (budgetPass {} estimateCounter (({ systemContent := "", tokenBudget := 0 } :
        BuildCall).on sharedId)) (fullWindow sharedId) w ∧
      ¬ w.notices <+: unsummarized w.turns := by
  refine ⟨{ turns := sharedId.turns, degradedTcIds := ["TC1"], untrimmedTokens := 19 },
    .single ?_, ?_⟩
  · decide +kernel
  · decide +kernel

end Nexus
