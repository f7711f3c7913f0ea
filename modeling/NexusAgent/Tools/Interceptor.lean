import NexusAgent.Lib.Prog
import NexusAgent.Session.Live
import NexusAgent.Llm.Response

/-!
# The context update interceptor

`nexus/tools/interceptor.py`: before a tool call is handled, the update parameter is
taken off its arguments, and every well-formed item in it stores a summary for a record
of the session. The items come from the model and are not validated: an item whose
`tc_id` or `summary` is a true value other than a string raises, and so does an update
parameter that cannot be iterated.
-/

open Lib

namespace Nexus

/-- Python truth of a JSON value. -/
def jsonTruthy : Json → Bool
  | .null => false
  | .bool b => b
  | .int n => n ≠ 0
  | .float text => !Json.isZeroText text
  | .str s => s ≠ ""
  | .arr xs => !xs.isEmpty
  | .obj fs => !fs.isEmpty

/-- The name of a JSON value's type. -/
def jsonTypeName : Json → String
  | .null => "NoneType"
  | .bool _ => "bool"
  | .int _ => "int"
  | .float _ => "float"
  | .str _ => "str"
  | .arr _ => "list"
  | .obj _ => "dict"

/-- `(item.get(key) or "").strip()`. -/
def strippedField (item : Dict String Json) (key : String) : Except String String :=
  match (Dict.get? item key).getD .null with
  | .str s => .ok (PyStr.strip s)
  | v =>
    if jsonTruthy v then
      .error ("'" ++ jsonTypeName v ++ "' object has no attribute 'strip'")
    else .ok ""

/-- The record id and the summary an item supplies, if it supplies both. -/
def updateItem (item : Json) : Except String (Option (String × String)) :=
  match item with
  | .obj fields => do
    let tcId ← strippedField fields "tc_id"
    let summary ← strippedField fields "summary"
    return if tcId = "" ∨ summary = "" ∨ summary = "[]" then none else some (tcId, summary)
  | _ => .ok none

/-- The items iterating the raw parameter yields. -/
def updateItems (raw : Json) : Except String (List Json) :=
  match raw with
  | .arr xs => .ok xs
  | .obj fs => .ok (fs.map fun f => .str f.1)
  | .str s => .ok (s.toList.map fun c => .str (String.singleton c))
  | v => .error ("'" ++ jsonTypeName v ++ "' object is not iterable")

variable {a : StoreAdapter}

/-- Apply one update: summarize the first record with the id, in the session and in the
store, and credit the marginal saving. -/
def applyUpdate (counter : TokenCounter) (turnIndex : ℕ) (tcId summary : String)
    (tc : ToolCallRecord) (l : Live a) : ContextUpdate × Live a :=
  let named (tc : ToolCallRecord) : Bool := tc.tcId = tcId
  let l := l.mutate fun s =>
    { s with turns := updateFirstTc named (.withSummary summary turnIndex) s.turns }
  let l := l.updateTcSummary tcId summary turnIndex
  let newTokens := counter.countString summary defaultModel
  let saved := tc.tokensSummarized.getD tc.tokensRaw - newTokens
  let l := l.mutate fun s => { s with
    turns := updateFirstTc named (.withSummaryTokens newTokens) s.turns
    totalTokensSavedByRcs := s.totalTokensSavedByRcs + saved }
  (⟨tcId, summary, saved⟩, l)

/-- The loop over the items, with the updates applied so far. -/
def interceptItems (counter : TokenCounter) (turnIndex : ℕ) :
    List Json → List ContextUpdate → Prog (Live a) String (List ContextUpdate)
  | [], done => pure done
  | item :: items, done => do
    match ← Prog.ofExcept (updateItem item) with
    | none => interceptItems counter turnIndex items done
    | some (tcId, summary) =>
      let l ← Prog.get
      match (l.session.turns.flatMap TurnRecord.toolCalls).find? fun tc => tc.tcId = tcId with
      | none => interceptItems counter turnIndex items done
      | some tc =>
        let u ← Prog.update (applyUpdate counter turnIndex tcId summary tc)
        interceptItems counter turnIndex items (done ++ [u])

/-- The interceptor's settings. -/
structure InterceptorConfig where
  enabled : Bool := false
  contextUpdatesParamName : String := "_context_updates"

/-- `ContextUpdateInterceptor.intercept`: the cleaned arguments and the updates applied. -/
def intercept (cfg : InterceptorConfig) (counter : TokenCounter) (turnIndex : ℕ)
    (toolInput : ToolArgs) : Prog (Live a) String (ToolArgs × List ContextUpdate) :=
  if !cfg.enabled then pure (toolInput, [])
  else do
    let updatesRaw := (Dict.get? toolInput cfg.contextUpdatesParamName).getD (.arr [])
    let cleaned := Dict.erase toolInput cfg.contextUpdatesParamName
    if !jsonTruthy updatesRaw then return (cleaned, [])
    let items ← Prog.ofExcept (updateItems updatesRaw)
    let updates ← interceptItems counter turnIndex items []
    return (cleaned, updates)

/-- Whether the interceptor raises on the arguments of a call. -/
def malformedUpdates (cfg : InterceptorConfig) (toolInput : ToolArgs) : Bool :=
  let updatesRaw := (Dict.get? toolInput cfg.contextUpdatesParamName).getD (.arr [])
  cfg.enabled && jsonTruthy updatesRaw && match updateItems updatesRaw with
    | .error _ => true
    | .ok items => items.any fun item => match updateItem item with
      | .error _ => true
      | .ok _ => false

/-- The record ids and summaries the items of an update parameter supply, up to the first item
that raises. -/
def suppliedBy : List Json → List (String × String)
  | [] => []
  | item :: items =>
    match updateItem item with
    | .error _ => []
    | .ok none => suppliedBy items
    | .ok (some u) => u :: suppliedBy items

/-- The record ids and summaries the arguments of a call supply. -/
def suppliedSummaries (cfg : InterceptorConfig) (toolInput : ToolArgs) : List (String × String) :=
  let updatesRaw := (Dict.get? toolInput cfg.contextUpdatesParamName).getD (.arr [])
  if cfg.enabled && jsonTruthy updatesRaw then
    match updateItems updatesRaw with
    | .ok items => suppliedBy items
    | .error _ => []
  else []

end Nexus
