import NexusAgent.Session.Frame

/-!
# Updates of any shape

`nexus/tools/interceptor.py`: the update parameter is what the model wrote, of any shape. The
interceptor passes over an item that is no object and over a record id it does not find, but it
strips the `tc_id` and the `summary` of an item without a look at their types.

* `OnlyNamed`: only the summaries of named records changed, in the session and in the store.
* `wp_intercept_named`: this holds of every call, also of one that raises.
* `intercept_robust_iff`: a call returns, with the parameter taken off the arguments, exactly
  when RCS is on and the parameter is `Readable`, or it is off and there is no parameter.
-/

open Lib

namespace Nexus

variable {a : StoreAdapter}

/-! ### The named records -/

/-- The record, without its summary if it is named. -/
def ToolCallRecord.aside (ids : List String) (tc : ToolCallRecord) : ToolCallRecord :=
  if tc.tcId ∈ ids then tc.bare else tc

/-- The session without the summaries of the named records and the savings they count for. -/
def AgentSession.aside (ids : List String) (s : AgentSession) : AgentSession :=
  { s with
    turns := s.turns.map fun t => { t with toolCalls := t.toolCalls.map (.aside ids) }
    totalTokensSavedByRcs := 0 }

/-- `l'` is `l` up to the summaries of the named records, and has the same entries for other
sessions. -/
structure OnlyNamed (ids : List String) (l l' : Live a) : Prop where
  session : l'.session.aside ids = l.session.aside ids
  contents : ∀ sid, (l'.contents.find? sid).map (AgentSession.aside ids) =
    (l.contents.find? sid).map (AgentSession.aside ids)
  frame : ∀ sid, sid ≠ l.session.sessionId → l'.contents.find? sid = l.contents.find? sid

variable {ids : List String}

/-- Nothing but the named calls and the savings changes. -/
theorem AgentSession.aside_of_turns (s : AgentSession) {turns : List TurnRecord} (saved : ℕ)
    (h : turns.map (fun t => { t with toolCalls := t.toolCalls.map (.aside ids) }) =
      s.turns.map fun t => { t with toolCalls := t.toolCalls.map (.aside ids) }) :
    ({ s with turns := turns, totalTokensSavedByRcs := saved } : AgentSession).aside ids =
      s.aside ids := by
  simp [aside, h]

namespace OnlyNamed

variable {l l' l'' : Live a}

@[refl] theorem refl (ids : List String) (l : Live a) : OnlyNamed ids l l :=
  ⟨rfl, fun _ => rfl, fun _ _ => rfl⟩

theorem sessionId (h : OnlyNamed ids l l') : l'.session.sessionId = l.session.sessionId :=
  (AgentSession.mk.inj h.session).1

theorem trans (h : OnlyNamed ids l l') (h' : OnlyNamed ids l' l'') : OnlyNamed ids l l'' where
  session := h'.session.trans h.session
  contents sid := (h'.contents sid).trans (h.contents sid)
  frame sid hsid := (h'.frame sid (h.sessionId ▸ hsid)).trans (h.frame sid hsid)

/-- A change that keeps all else writes to the named calls only. -/
theorem mutate (l : Live a) {f : AgentSession → AgentSession}
    (hf : (f l.session).aside ids = l.session.aside ids) : OnlyNamed ids l (l.mutate f) where
  session := hf
  contents := l.map_find?_mutate (AgentSession.mk.inj hf).1 _ hf
  frame _ hsid := l.find?_mutate_ne (AgentSession.mk.inj hf).1 hsid

/-- Rewriting the summary of a named record is not seen aside from the named ones. -/
theorem aside_summary {tcId : String} (h_named : tcId ∈ ids)
    {f : ToolCallRecord → ToolCallRecord} (hf : ∀ tc, (f tc).bare = tc.bare)
    (tc : ToolCallRecord) (h : decide (tc.tcId = tcId) = true) : (f tc).aside ids = tc.aside ids := by
  have h_id : (f tc).tcId = tc.tcId := (ToolCallRecord.mk.inj (hf tc)).1
  have h_mem : tc.tcId ∈ ids := by rwa [of_decide_eq_true h]
  rw [ToolCallRecord.aside, ToolCallRecord.aside, h_id, if_pos h_mem, if_pos h_mem, hf]

/-- Updating a summary writes to the named call only. -/
theorem updateTcSummary (l : Live a) {tcId : String} (h_named : tcId ∈ ids) (summary : String)
    (byTurn : ℕ) : OnlyNamed ids l (l.updateTcSummary tcId summary byTurn) where
  session := rfl
  contents := l.map_find?_updateTcSummary tcId summary byTurn _
    (fun s => s.aside_of_turns _ (map_updateFirstTc (aside_summary h_named (by simp)) _))
    (fun s => s.aside_of_turns _ (map_map_updateFirst (aside_summary h_named (by simp)) _))
  frame _ hsid := l.find?_updateTcSummary_ne tcId summary byTurn hsid

/-- One update writes to the call it names only. -/
theorem applyUpdate (counter : TokenCounter) (turnIndex : ℕ) {tcId : String}
    (h_named : tcId ∈ ids) (summary : String) (tc : ToolCallRecord) (l : Live a) :
    OnlyNamed ids l (Nexus.applyUpdate counter turnIndex tcId summary tc l).2 := by
  unfold Nexus.applyUpdate
  dsimp only
  refine .trans (.mutate l ?_) (.trans (.updateTcSummary _ h_named summary turnIndex)
    (.mutate _ ?_))
  · exact AgentSession.aside_of_turns _ _ (map_updateFirstTc (aside_summary h_named (by simp)) _)
  · exact AgentSession.aside_of_turns _ _ (map_updateFirstTc (aside_summary h_named (by simp)) _)

end OnlyNamed

/-! ### What a call changes -/

/-- Intercepting items writes to the calls they name only. -/
theorem wp_interceptItems_named (counter : TokenCounter) (turnIndex : ℕ) (items : List Json)
    (done : List ContextUpdate) (l : Live a) (h_named : ∀ u ∈ suppliedBy items, u.1 ∈ ids) :
    Prog.wp (interceptItems counter turnIndex items done) (fun _ => OnlyNamed ids l)
      (fun _ => OnlyNamed ids l) l := by
  induction items generalizing done l with
  | nil => exact .refl ids l
  | cons item items ih =>
    unfold interceptItems
    unfold suppliedBy at h_named
    rw [Prog.wp_bind, Prog.wp_ofExcept]
    cases h_item : updateItem item with
    | error e => exact .refl ids l
    | ok found =>
      rw [h_item] at h_named
      cases found with
      | none => exact ih done l h_named
      | some u =>
        obtain ⟨h_u, h_named⟩ := List.forall_mem_cons.mp h_named
        simp only [Prog.wp_bind, Prog.wp_get]
        cases (l.session.turns.flatMap TurnRecord.toolCalls).find? fun tc => tc.tcId = u.1 with
        | none => exact ih done l h_named
        | some tc =>
          -- the update changes the call it names, and the rest of the list follows
          have h_step := OnlyNamed.applyUpdate counter turnIndex h_u u.2 tc l
          simp only [Prog.wp_bind, Prog.wp_update]
          exact Prog.wp_mono (ih _ _ h_named) (fun _ _ h => h_step.trans h)
            (fun _ _ h => h_step.trans h)

/-- The ids of the records that the well-formed items of the arguments name. -/
def namedIds (cfg : InterceptorConfig) (toolInput : ToolArgs) : List String :=
  (suppliedSummaries cfg toolInput).map Prod.fst

/-- **A call of the interceptor** changes only the summaries of named records, whether it
returns or raises. -/
theorem wp_intercept_named (cfg : InterceptorConfig) (counter : TokenCounter) (turnIndex : ℕ)
    (toolInput : ToolArgs) (l : Live a) :
    Prog.wp (intercept cfg counter turnIndex toolInput)
      (fun _ => OnlyNamed (namedIds cfg toolInput) l)
      (fun _ => OnlyNamed (namedIds cfg toolInput) l) l := by
  unfold intercept namedIds suppliedSummaries
  -- switched off: nothing is written
  cases cfg.enabled with
  | false => exact .refl _ l
  | true =>
    -- the parameter, or an empty list
    simp only [Bool.not_true, Bool.false_eq_true, if_false, Bool.true_and]
    generalize (Dict.get? toolInput cfg.contextUpdatesParamName).getD (.arr []) = raw
    cases jsonTruthy raw with
    | false => exact .refl _ l
    | true =>
      simp only [Bool.not_true, Bool.false_eq_true, if_false, if_true]
      simp only [Prog.wp_bind, Prog.wp_pure, Prog.wp_ofExcept]
      -- items that cannot be read raise before anything is written
      cases updateItems raw with
      | error e => exact .refl _ l
      | ok items =>
        exact wp_interceptItems_named counter turnIndex items [] l fun u h_u =>
          List.mem_map_of_mem h_u

/-! ### Which parameters it can read -/

/-- The item's value for a key can be stripped: it is a text, or it counts as missing. -/
def TextOrMissing (item : Dict String Json) (key : String) : Prop :=
  (∃ s, Dict.get? item key = some (.str s)) ∨ jsonTruthy ((Dict.get? item key).getD .null) = false

/-- An update parameter the interceptor can read: it counts as missing, or it is an object, a
text, or a list whose objects have no `tc_id` and no `summary` of another type than text. -/
def Readable (raw : Json) : Prop :=
  jsonTruthy raw = true →
    (∃ fields, raw = .obj fields) ∨ (∃ s, raw = .str s) ∨
    ∃ items, raw = .arr items ∧ ∀ fields, .obj fields ∈ items →
      TextOrMissing fields "tc_id" ∧ TextOrMissing fields "summary"

/-- A field raises unless it is a text, empty or missing. -/
theorem strippedField_raises_iff (item : Dict String Json) (key : String) :
    (∃ e, strippedField item key = .error e) ↔ ¬TextOrMissing item key := by
  -- a value that is no text raises if it is true
  have h_value (v : Json) (h_text : ∀ s, v ≠ .str s) :
      (∃ e, (if jsonTruthy v then
        (.error ("'" ++ jsonTypeName v ++ "' object has no attribute 'strip'") : Except String String)
        else .ok "") = .error e) ↔ ¬((∃ s, v = .str s) ∨ jsonTruthy v = false) := by
    cases h_true : jsonTruthy v <;> simp [h_text]
  unfold strippedField TextOrMissing
  cases Dict.get? item key with
  | none => simp [jsonTruthy]
  -- by cases on the value
  | some v =>
    cases v with
    | str s => simp
    | null => simp [jsonTruthy]
    | bool b => simpa using h_value (.bool b) (by simp)
    | int n => simpa using h_value (.int n) (by simp)
    | float text => simpa using h_value (.float text) (by simp)
    | arr xs => simpa using h_value (.arr xs) (by simp)
    | obj fields => simpa using h_value (.obj fields) (by simp)

/-- An item raises if one of its two fields does. -/
theorem updateItem_raises_iff (item : Json) : (∃ e, updateItem item = .error e) ↔
    ∃ fields, item = .obj fields ∧
      ¬(TextOrMissing fields "tc_id" ∧ TextOrMissing fields "summary") := by
  cases item with
  | obj fields =>
    simp only [updateItem, Json.obj.injEq, exists_eq_left', not_and_or, ← strippedField_raises_iff]
    cases strippedField fields "tc_id" with
    | error e => simp [bind, Except.bind]
    | ok tcId => cases strippedField fields "summary" <;> simp [bind, Except.bind, pure, Except.pure]
  | _ => simp [updateItem]

/-- No update is malformed if the parameter is readable, or nothing is intercepted. -/
theorem malformedUpdates_eq_false_iff (cfg : InterceptorConfig) (toolInput : ToolArgs) :
    malformedUpdates cfg toolInput = false ↔ (cfg.enabled = true →
      Readable ((Dict.get? toolInput cfg.contextUpdatesParamName).getD (.arr []))) := by
  unfold malformedUpdates
  generalize (Dict.get? toolInput cfg.contextUpdatesParamName).getD (.arr []) = raw
  cases cfg.enabled with
  | false => simp
  | true =>
    unfold Readable
    cases h_raw : jsonTruthy raw with
    | false => simp [h_raw]
    | true =>
      cases raw with
      -- only items that are objects with a bad tc_id make intercept raise
      | arr items =>
        simp only [h_raw, updateItems, Bool.true_and, List.any_eq_false, Bool.not_eq_true]
        simp only [forall_true_left, reduceCtorEq, exists_false, false_or, Json.arr.injEq,
          exists_eq_left']
        constructor
        · intro h fields h_mem
          by_contra h_bad
          obtain ⟨e, h_e⟩ := (updateItem_raises_iff _).mpr ⟨fields, rfl, h_bad⟩
          have h_fields := h _ h_mem
          rw [h_e] at h_fields
          cases h_fields
        · intro h item h_mem
          cases h_item : updateItem item with
          | ok _ => rfl
          | error e =>
            obtain ⟨fields, rfl, h_not⟩ := (updateItem_raises_iff item).mp ⟨e, h_item⟩
            exact absurd (h fields h_mem) h_not
      -- the loop reads an object by its keys and a text by its characters: none is an object
      | obj fields => simp [updateItems, updateItem]
      | str s => simp [updateItems, updateItem]
      | _ => simp [h_raw, updateItems]

/-! ### Robustness -/

/-- The call returns, with the update parameter taken off the arguments and the other arguments as
they were, and changes only the summaries of named records. -/
def InterceptsCleanly (cfg : InterceptorConfig) (counter : TokenCounter) (turnIndex : ℕ)
    (toolInput : ToolArgs) (l : Live a) : Prop :=
  ∃ updates l', intercept cfg counter turnIndex toolInput l =
    (.ok (Dict.erase toolInput cfg.contextUpdatesParamName, updates), l') ∧
      OnlyNamed (namedIds cfg toolInput) l l'

/-- What the interceptor makes of the update parameter: with RCS it has to be readable, without
RCS it stays where it is. -/
def Removable (cfg : InterceptorConfig) (toolInput : ToolArgs) : Prop :=
  if cfg.enabled then
    Readable ((Dict.get? toolInput cfg.contextUpdatesParamName).getD (.arr []))
  else Dict.get? toolInput cfg.contextUpdatesParamName = none

/-- **The interceptor takes every update parameter it can read off the arguments**, and no
other. -/
theorem intercept_robust_iff (cfg : InterceptorConfig) (counter : TokenCounter) (turnIndex : ℕ)
    (toolInput : ToolArgs) (l : Live a) :
    InterceptsCleanly cfg counter turnIndex toolInput l ↔ Removable cfg toolInput := by
  have h_raises := wp_intercept cfg counter turnIndex toolInput l
  have h_named := wp_intercept_named cfg counter turnIndex toolInput l
  have h_readable := malformedUpdates_eq_false_iff cfg toolInput
  unfold InterceptsCleanly Removable
  cases h_on : cfg.enabled with
  | false =>
    -- the arguments come back as they are
    have h_run : intercept cfg counter turnIndex toolInput l = (.ok (toolInput, []), l) := by
      unfold intercept
      rw [h_on]
      rfl
    rw [if_neg Bool.false_ne_true, ← Dict.erase_eq_self_iff, h_run]
    constructor
    · rintro ⟨updates, l', h_eq, -⟩
      simp only [Prod.mk.injEq, Except.ok.injEq] at h_eq
      exact h_eq.1.1.symm
    · intro h_absent
      exact ⟨[], l, by rw [h_absent], .refl _ l⟩
  | true =>
    simp only [h_on, forall_true_left] at h_readable
    rw [if_pos rfl, ← h_readable]
    unfold Prog.wp at h_raises h_named
    cases h_run : intercept cfg counter turnIndex toolInput l with
    | mk result l' =>
      rw [h_run] at h_raises h_named
      cases result with
      | error e => simp [h_raises.2]
      | ok r =>
        obtain ⟨cleaned, updates⟩ := r
        obtain ⟨rfl, -, h_fine⟩ := h_raises
        refine iff_of_true ⟨updates, l', ?_, h_named⟩ h_fine
        rw [h_on, if_pos rfl]

/-- The model names a record by a number. -/
def numberedUpdate : ToolArgs :=
  [("q", .str "tea"), ("_context_updates", .arr [.obj [("tc_id", .int 1), ("summary", .str "b")]])]

/-- A session to update. -/
def deskLive : Live .memory := ⟨{ sessionId := "s", agentId := "desk" }, .empty .memory⟩

/-- **The call raises** on a record id that is a number. -/
theorem intercept_raises : ¬∀ toolInput : ToolArgs, InterceptsCleanly { enabled := true }
    ⟨fun _ _ => 0, fun _ => 0⟩ 0 toolInput deskLive := by
  intro h
  obtain ⟨updates, l', h_run, -⟩ := h numberedUpdate
  have h_raised : (intercept { enabled := true } ⟨fun _ _ => 0, fun _ => 0⟩ 0 numberedUpdate
      deskLive).1.isOk = false := by
    decide +kernel
  rw [h_run] at h_raised
  cases h_raised

end Nexus
