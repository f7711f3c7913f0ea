import NexusAgent.Lib.Delimited
import NexusAgent.Session.Store

/-!
# Scope keys

`scope_key` of `nexus/scope.py` and `_replay_key` of `nexus/serve/router.py`: the keys under
which rate limits, collections, artifacts and replay buffers of different scopes are kept
apart. A key joins the labels and the ids of its level at colons, a missing id is written as
an underscore, and the namespace or the session id comes last.

The ids and the namespaces are texts of the caller, and nothing is escaped.

* `spelled` is a scope as its keys spell it: cut at every colon.
* `Apart` is the condition on two scopes: they agree, or neither begins the other as spelled.
* `scope_keys_separate_iff`: two scopes never share a key, whatever follows, exactly when they
  are apart. `apart_of_plain` gives the ids for which this holds.
-/

open Lib

namespace Nexus

/-! ### Keys -/

/-- `ScopeLevel`. -/
inductive ScopeLevel
  | global
  | tenant
  | company
  | user
  deriving DecidableEq, Repr

/-- The value of a level. -/
def ScopeLevel.value : ScopeLevel → String
  | .global => "global"
  | .tenant => "tenant"
  | .company => "company"
  | .user => "user"

/-- A field of the context that a scope key names. -/
abbrev ScopeField : Type := RunContext → Option String

/-- `_SCOPE_FIELD_ORDER`. -/
def scopeFieldOrder : List (ScopeLevel × ScopeField) :=
  [(.tenant, RunContext.tenantId), (.company, RunContext.companyId), (.user, RunContext.userId)]

/-- `text or _MISSING`. -/
def fieldText (value : Option String) : String :=
  let text := (value.map PyStr.strip).getD ""
  if text = "" then "_" else text

/-- The segments of a key: a label and an id for every field, up to that of the level. -/
def scopeSegments (ctx : RunContext) (level : ScopeLevel) :
    List (ScopeLevel × ScopeField) → List String
  | [] => []
  | (scopeLevel, field) :: fields =>
    scopeLevel.value :: fieldText (field ctx) ::
      if scopeLevel = level then [] else scopeSegments ctx level fields

/-- `base` in `scope_key`. -/
def scopeBase (ctx : RunContext) (level : ScopeLevel) : String :=
  if level = .global then "global" else PyStr.join ":" (scopeSegments ctx level scopeFieldOrder)

/-- `scope_key`. -/
def scopeKey (ctx : RunContext) (level : ScopeLevel) (ns : String) : String :=
  if ns ≠ "" then scopeBase ctx level ++ ":" ++ ns else scopeBase ctx level

/-- `_replay_key`. -/
def replayKey (ctx : RunContext) (sessionId : String) : String :=
  scopeKey ctx .user "" ++ ":" ++ sessionId

/-! ### Scopes that agree -/

/-- The fields of a level. -/
def ScopeLevel.fields : ScopeLevel → List ScopeField
  | .global => []
  | .tenant => [RunContext.tenantId]
  | .company => [RunContext.tenantId, RunContext.companyId]
  | .user => [RunContext.tenantId, RunContext.companyId, RunContext.userId]

/-- A value that counts as missing. -/
def Missing (value : Option String) : Prop := ∀ s ∈ value, PyStr.isBlank s = true

/-- Two values are one: equal, or both missing. -/
def SameField (v w : Option String) : Prop := v = w ∨ Missing v ∧ Missing w

/-- The scopes agree on every field of a level. -/
def Agree (level : ScopeLevel) (ctx ctx' : RunContext) : Prop :=
  ∀ field ∈ level.fields, SameField (field ctx) (field ctx')

instance (v : Option String) : Decidable (Missing v) :=
  inferInstanceAs (Decidable (∀ s ∈ v, PyStr.isBlank s = true))

instance (v w : Option String) : Decidable (SameField v w) :=
  inferInstanceAs (Decidable (_ ∨ _))

instance (level : ScopeLevel) (ctx ctx' : RunContext) : Decidable (Agree level ctx ctx') :=
  inferInstanceAs (Decidable (∀ _ ∈ _, _))

/-- A missing field is an underscore. -/
theorem fieldText_of_missing {v : Option String} (h : Missing v) : fieldText v = "_" := by
  cases v with
  | none => rfl
  | some s =>
    have h_blank : PyStr.strip s = "" := by simpa [PyStr.isBlank] using h s rfl
    simp [fieldText, h_blank]

theorem SameField.text {v w : Option String} (h : SameField v w) : fieldText v = fieldText w := by
  rcases h with rfl | ⟨h_v, h_w⟩
  · rfl
  · rw [fieldText_of_missing h_v, fieldText_of_missing h_w]

/-- Scopes that agree have the same base. -/
theorem Agree.base {level : ScopeLevel} {ctx ctx' : RunContext} (h : Agree level ctx ctx') :
    scopeBase ctx level = scopeBase ctx' level := by
  have h_text : ∀ field ∈ level.fields, fieldText (field ctx) = fieldText (field ctx') :=
    fun field h_field => (h field h_field).text
  cases level <;>
    simp_all [scopeBase, scopeSegments, scopeFieldOrder, ScopeLevel.fields]

/-! ### Scopes as their keys spell them -/

/-- A scope at a level, cut at every colon: its labels and the pieces of its ids. -/
def spelled (level : ScopeLevel) (ctx : RunContext) : List String :=
  if level = .global then ["global"]
  else (scopeSegments ctx level scopeFieldOrder).flatMap (PyStr.split ':')

/-- The scopes agree, or neither begins the other. -/
def Apart (level : ScopeLevel) (ctx ctx' : RunContext) : Prop :=
  Agree level ctx ctx' ∨
    ¬spelled level ctx <+: spelled level ctx' ∧ ¬spelled level ctx' <+: spelled level ctx

instance (level : ScopeLevel) (ctx ctx' : RunContext) : Decidable (Apart level ctx ctx') :=
  inferInstanceAs (Decidable (_ ∨ _))

/-- The key splits into the fields of its level. -/
theorem split_scopeBase (level : ScopeLevel) (ctx : RunContext) :
    PyStr.split ':' (scopeBase ctx level) = spelled level ctx := by
  unfold scopeBase spelled
  split_ifs with h_global
  · exact PyStr.split_eq_singleton (by decide)
  · exact PyStr.split_join ':' (by simp [scopeFieldOrder, scopeSegments])

/-- The keys made by `key` are shared by two scopes of a level only if these agree and are
followed by the same text. -/
def Separates (key : RunContext → String → String) (level : ScopeLevel) (ctx ctx' : RunContext) :
    Prop :=
  ∀ ns ns', key ctx ns = key ctx' ns' → Agree level ctx ctx' ∧ ns = ns'

/-- The argument shared by both kinds of key: their shape is a base followed by a text. -/
theorem separates_iff {key : RunContext → String → String} {level : ScopeLevel}
    {ctx ctx' : RunContext}
    (h_same : scopeBase ctx level = scopeBase ctx' level →
      ∀ ns ns', key ctx ns = key ctx' ns' → ns = ns')
    (h_begins : ∀ ns ns', key ctx ns = key ctx' ns' →
      spelled level ctx <+: spelled level ctx' ∨ spelled level ctx' <+: spelled level ctx)
    (h_collide : (∃ b b', scopeBase ctx level ++ ":" ++ b = scopeBase ctx' level ++ ":" ++ b') →
      ∃ ns ns', key ctx ns = key ctx' ns') :
    Separates key level ctx ctx' ↔ Apart level ctx ctx' := by
  constructor
  · -- a key of one that begins the other's can be completed to a collision
    intro h
    by_contra h_not
    obtain ⟨h_disagree, h_apart⟩ := not_or.mp h_not
    rw [← split_scopeBase, ← split_scopeBase, ← not_or, not_not] at h_apart
    obtain ⟨ns, ns', h_key⟩ := h_collide (PyStr.collide_iff.mpr h_apart)
    exact h_disagree (h ns ns' h_key).1
  · -- keys that agree are equal; others would have to begin one another
    rintro (h_agree | ⟨h_not, h_not'⟩) ns ns' h_key
    · exact ⟨h_agree, h_same h_agree.base ns ns' h_key⟩
    · rcases h_begins ns ns' h_key with h | h
      · exact absurd h h_not
      · exact absurd h h_not'

/-- The pieces of a key are the scope's and those of the namespace. -/
theorem split_scopeKey (level : ScopeLevel) (ctx : RunContext) (ns : String) :
    PyStr.split ':' (scopeKey ctx level ns) =
      spelled level ctx ++ if ns = "" then [] else PyStr.split ':' ns := by
  unfold scopeKey
  rcases eq_or_ne ns "" with h_ns | h_ns
  · rw [if_neg (not_not.mpr h_ns), if_pos h_ns, List.append_nil, split_scopeBase]
  · rw [if_pos h_ns, if_neg h_ns, ← split_scopeBase]
    exact PyStr.split_delimited ':' _ _

/-- A replay key splits into the user's scope and the session id. -/
theorem split_replayKey (ctx : RunContext) (sessionId : String) :
    PyStr.split ':' (replayKey ctx sessionId) = spelled .user ctx ++ PyStr.split ':' sessionId := by
  have h_key : replayKey ctx sessionId = scopeBase ctx .user ++ String.singleton ':' ++ sessionId := by
    simp [replayKey, scopeKey]
  rw [h_key, PyStr.split_delimited, split_scopeBase]

/-- **The keys of `scope_key`** are kept apart at a level exactly when the scopes are. -/
theorem scopeKey_separates_iff (level : ScopeLevel) (ctx ctx' : RunContext) :
    Separates (fun c ns => scopeKey c level ns) level ctx ctx' ↔ Apart level ctx ctx' := by
  apply separates_iff
  · intro h_base ns ns' h_key
    have h_pieces := congrArg (PyStr.split ':') h_key
    rw [split_scopeKey, split_scopeKey, ← split_scopeBase, ← split_scopeBase, h_base] at h_pieces
    have h_rest := List.append_cancel_left h_pieces
    -- an empty namespace leaves no piece, any other at least one
    split_ifs at h_rest with h_ns h_ns' h_ns'
    · rw [h_ns, h_ns']
    · exact absurd h_rest.symm (PyStr.split_ne_nil ':' ns')
    · exact absurd h_rest (PyStr.split_ne_nil ':' ns)
    · exact PyStr.split_inj.mp h_rest
  · intro ns ns' h_key
    have h_pieces := congrArg (PyStr.split ':') h_key
    rw [split_scopeKey, split_scopeKey] at h_pieces
    exact List.prefix_or_prefix_of_prefix ⟨_, h_pieces⟩ ⟨_, rfl⟩
  · rintro ⟨b, b', h_eq⟩
    -- a piece at the end makes both namespaces nonempty
    refine ⟨b ++ "_", b' ++ "_", ?_⟩
    simp only [scopeKey]
    simpa [String.append_assoc] using congrArg (· ++ "_") h_eq

/-- **The keys of `_replay_key`** are kept apart exactly when the scopes of the users are. -/
theorem replayKey_separates_iff (ctx ctx' : RunContext) :
    Separates replayKey .user ctx ctx' ↔ Apart .user ctx ctx' := by
  apply separates_iff
  · -- equal scopes: what is left of the keys is the session id
    intro h_base sid sid' h_key
    have h_pieces := congrArg (PyStr.split ':') h_key
    rw [split_replayKey, split_replayKey, ← split_scopeBase, ← split_scopeBase, h_base] at h_pieces
    exact PyStr.split_inj.mp (List.append_cancel_left h_pieces)
  · -- equal keys: the pieces of one scope begin those of the other
    intro sid sid' h_key
    have h_pieces := congrArg (PyStr.split ':') h_key
    rw [split_replayKey, split_replayKey] at h_pieces
    exact List.prefix_or_prefix_of_prefix ⟨_, h_pieces⟩ ⟨_, rfl⟩
  · rintro ⟨b, b', h_eq⟩
    exact ⟨b, b', by simpa [replayKey, scopeKey] using h_eq⟩

/-! ### Ids that are kept apart -/

/-- An id that its key spells as one piece, and that stands for no missing one. -/
structure PlainValue (value : Option String) (s : String) : Prop where
  given : value = some s
  text : PyStr.strip s = s
  present : s ≠ ""
  one_piece : ':' ∉ s.toList
  not_missing : s ≠ "_"

/-- Every field of the level has a plain id. -/
def PlainScope (level : ScopeLevel) (ctx : RunContext) : Prop :=
  ∀ field ∈ level.fields, ∃ s, PlainValue (field ctx) s

theorem PlainValue.fieldText {v : Option String} {s : String} (h : PlainValue v s) :
    fieldText v = s := by
  simp [Nexus.fieldText, h.given, h.text, h.present]

theorem PlainValue.split {v : Option String} {s : String} (h : PlainValue v s) :
    PyStr.split ':' s = [s] := PyStr.split_eq_singleton h.one_piece

theorem split_value (level : ScopeLevel) : PyStr.split ':' level.value = [level.value] := by
  cases level <;> exact PyStr.split_eq_singleton (by decide)

/-- Plain ids are spelled as they are. -/
theorem spelled_of_plain {level : ScopeLevel} {ctx : RunContext} (h : PlainScope level ctx) :
    spelled level ctx =
      if level = .global then ["global"] else scopeSegments ctx level scopeFieldOrder := by
  -- a plain id has no colon, so it is one piece
  have h_split : ∀ field ∈ level.fields,
      PyStr.split ':' (fieldText (field ctx)) = [fieldText (field ctx)] := by
    intro field h_field
    obtain ⟨s, h_s⟩ := h field h_field
    rw [h_s.fieldText, h_s.split]
  unfold spelled
  split_ifs
  · rfl
  · cases level <;>
      simp_all [scopeSegments, scopeFieldOrder, ScopeLevel.fields, split_value]

/-- **Plain ids keep scopes apart.** -/
theorem apart_of_plain {level : ScopeLevel} {ctx ctx' : RunContext} (h : PlainScope level ctx)
    (h' : PlainScope level ctx') : Apart level ctx ctx' := by
  -- both scopes have a piece for each field, so neither can properly begin the other
  have h_length : (spelled level ctx).length = (spelled level ctx').length := by
    rw [spelled_of_plain h, spelled_of_plain h']
    cases level <;> rfl
  have h_agree : spelled level ctx = spelled level ctx' → Agree level ctx ctx' := by
    intro h_eq field h_field
    obtain ⟨s, h_s⟩ := h field h_field
    obtain ⟨s', h_s'⟩ := h' field h_field
    -- level by level: equal pieces are equal field texts
    have h_text : fieldText (field ctx) = fieldText (field ctx') := by
      rw [spelled_of_plain h, spelled_of_plain h'] at h_eq
      cases level <;>
        simp_all [scopeSegments, scopeFieldOrder, ScopeLevel.fields] <;> aesop
    rw [h_s.fieldText, h_s'.fieldText] at h_text
    exact .inl (by rw [h_s.given, h_s'.given, h_text])
  by_cases h_eq : spelled level ctx = spelled level ctx'
  · exact .inl (h_agree h_eq)
  · exact .inr ⟨fun h_le => h_eq (h_le.eq_of_length h_length),
      fun h_le => h_eq (h_le.eq_of_length h_length.symm).symm⟩

/-! ### The claim -/

/-- **Scope keys separate two scopes exactly when these agree or neither begins the other**,
at every level and for replay buffers. -/
theorem scope_keys_separate_iff (ctx ctx' : RunContext) :
    (∀ level, Separates (fun c ns => scopeKey c level ns) level ctx ctx' ↔ Apart level ctx ctx') ∧
      (Separates replayKey .user ctx ctx' ↔ Apart .user ctx ctx') :=
  ⟨fun level => scopeKey_separates_iff level ctx ctx', replayKey_separates_iff ctx ctx'⟩

/-- The context a channel resolver builds for a user of a chat service. -/
def chatUser : RunContext :=
  { tenantId := some "acme", companyId := some "co1", userId := some "telegram:42" }

/-- A user of the same company whose id is the name of the service. -/
def serviceUser : RunContext := { chatUser with userId := some "telegram" }

/-- The second user reaches the stream of the first through a session id with a colon. -/
theorem replay_key_shared :
    replayKey chatUser "7" = replayKey serviceUser "42:7" ∧ ¬Agree .user chatUser serviceUser ∧
      ¬Separates replayKey .user chatUser serviceUser := by
  have h_key : replayKey chatUser "7" = replayKey serviceUser "42:7" := by decide +kernel
  have h_not : ¬Agree .user chatUser serviceUser := by decide +kernel
  exact ⟨h_key, h_not, fun h => h_not (h "7" "42:7" h_key).1⟩

end Nexus
