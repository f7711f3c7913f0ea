import Mathlib.Data.PNat.Basic
import NexusAgent.Lib.CharTable
import NexusAgent.Llm.Response
import NexusAgent.Memory.Merge

/-!
# The memory tools

`MemoryPlugin` and `HITLMemoryPlugin` of `nexus/memory/plugin.py`, the built-in provider of
`nexus/memory/providers/builtin_semantic.py`, what the curator of `nexus/memory/curator.py`
writes, and the facts the runner puts into a prompt. Every named store is a namespace of the
cross-session store, and with `require_approval` what is written goes to the store `pending`.

* `factsAt_put`, `factsAt_delete`: the facts of a user after a write and after a removal.
* `searchProvider_all`: a search for nothing in particular finds all facts, store by store.
-/

open Lib Lib.Dict

namespace Nexus

/-! ### Configuration -/

/-- Whether a store goes into the prompt. -/
inductive Inject
  | always
  | onRecall
  deriving DecidableEq, Repr

/-- `MemoryStoreConfig`. -/
structure MemoryStoreConfig where
  name : String
  inject : Inject := .always
  charBudget : ℕ := 0
  deriving DecidableEq, Repr

/-- `MemoryConfig`, with the name of the agent. `provider`: the built-in provider is configured. -/
structure MemoryConfig where
  agentName : String := "bot"
  ns : String := ""
  stores : List MemoryStoreConfig := []
  maxEntities : ℕ+ := 100
  provider : Bool := false
  requireApproval : Bool := false

/-- `PENDING_STORE`. -/
def pendingStore : String := "pending"

namespace MemoryConfig

/-- `resolve_cross_session_namespace`. -/
def baseNamespace (cfg : MemoryConfig) : String :=
  if PyStr.strip cfg.ns = "" then cfg.agentName else PyStr.strip cfg.ns

/-- `_namespace` of the plugin and the provider, `_memory_store_namespace` of the runner. -/
def namespaceOf (cfg : MemoryConfig) (store : String) : String :=
  if store ≠ "" ∧ store ≠ "default" then cfg.baseNamespace ++ ":" ++ store else cfg.baseNamespace

/-- `BuiltInSemanticMemoryProvider._store_names`. -/
def storeNames (cfg : MemoryConfig) : List String :=
  let names := if cfg.stores = [] then ["default"] else cfg.stores.map MemoryStoreConfig.name
  if cfg.requireApproval ∧ pendingStore ∉ names then names ++ [pendingStore] else names

/-- `MemoryPlugin._write_store`. -/
def writeStore (cfg : MemoryConfig) (store : String) : String :=
  if cfg.requireApproval ∧ store ≠ pendingStore then pendingStore else store

/-- The stores that go into the prompt. -/
def injectedStores (cfg : MemoryConfig) : List MemoryStoreConfig :=
  cfg.stores.filter fun s => s.inject = .always

end MemoryConfig

/-! ### Whose facts -/

/-- A tenant and a user. -/
structure MemoryOwner where
  tenantId : Option String
  userId : String
  deriving DecidableEq, Repr

/-- The owner's facts in a namespace. -/
def MemoryOwner.triple (owner : MemoryOwner) (ns : String) : MemoryTriple :=
  ⟨owner.tenantId, owner.userId, ns⟩

/-- Whose facts a tool works on: none without a context or a user in it. -/
def callerOf (ctx : Option RunContext) : Option MemoryOwner :=
  ctx.bind fun c => (truthy c.userId).map fun userId => ⟨c.tenantId, userId⟩

namespace MemoryStore

/-- The facts in a named store. -/
def facts (cfg : MemoryConfig) (owner : MemoryOwner) (store : String) (st : MemoryStore) :
    Dict String String :=
  st.factsAt (owner.triple (cfg.namespaceOf store))

/-- `_write_kv` of the plugin, `write` of the provider. -/
def put (cfg : MemoryConfig) (owner : MemoryOwner) (store key value : String)
    (st : MemoryStore) : MemoryStore :=
  (st.mergeEntities owner.tenantId owner.userId (cfg.namespaceOf store) [(key, value)]
    cfg.maxEntities).2

/-- `_delete_kv` of the plugin, `remove` of the provider. -/
def delete (cfg : MemoryConfig) (owner : MemoryOwner) (store key : String) (st : MemoryStore) :
    MemoryStore :=
  match st.load owner.tenantId owner.userId (cfg.namespaceOf store) with
  | none => st
  | some r =>
    if Dict.has r.entityMemory key then
      st.save { r with entityMemory := Dict.erase r.entityMemory key }
    else st

end MemoryStore

/-! ### Searching -/

/-- A fact found, with the store it was found in. -/
structure MemoryHit where
  key : String
  value : String
  store : String
  deriving DecidableEq, Repr

namespace MemorySearch

/-- `_tokens`. -/
def tokens (low : Lowercase) (text : String) : List (List Char) :=
  (((low.lower text).toList.splitOnP PyStr.isSpace).filter (· ≠ [])).dedup

/-- How well a fact fits a query. -/
def score (low : Lowercase) (query blob : String) : ℕ :=
  let overlap := ((tokens low query).filter (· ∈ tokens low blob)).length
  let substring := if (low.lower query).toList <:+: (low.lower blob).toList then 1 else 0
  overlap + substring

/-- `search` of the provider. -/
def searchProvider (low : Lowercase) (cfg : MemoryConfig) (owner : MemoryOwner) (query : String)
    (k : ℕ) (st : MemoryStore) : List MemoryHit :=
  let hits : List (ℕ × MemoryHit) := cfg.storeNames.flatMap fun name =>
    (st.facts cfg owner name).map fun p =>
      (score low query (p.1 ++ " " ++ p.2), ⟨p.1, p.2, name⟩)
  let matched := hits.filter fun h => h.1 ≠ 0
  ((matched.mergeSort fun x y => decide (y.1 ≤ x.1)).map Prod.snd).take k

/-- `search` of the plugin. -/
def search (low : Lowercase) (cfg : MemoryConfig) (owner : MemoryOwner) (query store : String)
    (k : ℕ) (st : MemoryStore) : List MemoryHit :=
  if cfg.provider then
    let hits := searchProvider low cfg owner query k st
    if store ≠ "default" then hits.filter fun h => h.store = store else hits
  else
    let found := (st.facts cfg owner store).filter fun p =>
      (low.lower query).toList <:+: (low.lower p.1).toList ∨
        (low.lower query).toList <:+: (low.lower p.2).toList
    (found.map fun p => ⟨p.1, p.2, store⟩).take k

/-- `HITLMemoryPlugin._load_entries`, of a user. -/
def loadEntries (low : Lowercase) (cfg : MemoryConfig) (owner : MemoryOwner) (store : String)
    (st : MemoryStore) : Dict String String :=
  if cfg.provider then
    let hits := searchProvider low cfg owner "" cfg.maxEntities st
    Dict.update [] ((hits.filter fun h => h.store = store).map fun h => (h.key, h.value))
  else st.facts cfg owner store

end MemorySearch

/-! ### The tools -/

/-- The reply of a tool. -/
inductive MemoryReply
  | ok (store : Option String) (key : String)
  | error (text : String)
  deriving DecidableEq, Repr

/-- `"ok": true`. -/
def MemoryReply.accepted : MemoryReply → Bool
  | ok _ _ => true
  | error _ => false

/-- The caller of a tool that needs a context to be kept. -/
def keeperOf (ctx : Option RunContext) : Option MemoryOwner :=
  if ctx.any RunContext.shouldPersist then callerOf ctx else none

namespace MemoryStore

variable (cfg : MemoryConfig) (low : Lowercase) (ctx : Option RunContext) (st : MemoryStore)

/-- `write`. -/
def write (key value store : String) : MemoryReply × MemoryStore :=
  match keeperOf ctx with
  | none => (.error "memory write skipped (no user / non-persistable)", st)
  | some owner =>
    let target := cfg.writeStore store
    (.ok (some target) key, st.put cfg owner target key value)

/-- `remove`. -/
def remove (key store : String) : MemoryReply × MemoryStore :=
  match keeperOf ctx with
  | none => (.error "memory remove skipped", st)
  | some owner =>
    if cfg.provider ∨ Dict.has (st.facts cfg owner store) key then
      (.ok (some store) key, st.delete cfg owner store key)
    else (.error "key not found", st)

/-- What `approve`, `reject` and `edit` do with a pending fact. -/
def onPending (key : String)
    (act : MemoryOwner → String → MemoryReply × MemoryStore) : MemoryReply × MemoryStore :=
  let notFound := (MemoryReply.error "pending key not found", st)
  match callerOf ctx with
  | none => notFound
  | some owner =>
    match Dict.get? (MemorySearch.loadEntries low cfg owner pendingStore st) key with
    | none => notFound
    | some value => act owner value

/-- **What a pending fact takes**: a user, and that it is loaded. -/
theorem onPending_cases (key : String)
    (act : MemoryOwner → String → MemoryReply × MemoryStore) :
    st.onPending cfg low ctx key act = (.error "pending key not found", st) ∨
      ∃ owner value, callerOf ctx = some owner ∧
        Dict.get? (MemorySearch.loadEntries low cfg owner pendingStore st) key = some value ∧
        st.onPending cfg low ctx key act = act owner value := by
  unfold onPending
  -- no caller, or the key is not pending: an error and no change
  cases h_caller : callerOf ctx with
  | none => exact .inl rfl
  | some owner =>
    dsimp only
    cases h_get : Dict.get? (MemorySearch.loadEntries low cfg owner pendingStore st) key with
    | none => exact .inl rfl
    | some value => exact .inr ⟨owner, value, rfl, h_get, rfl⟩

variable {cfg low ctx st} in
/-- A pending fact that is loaded. -/
theorem onPending_of_loaded {owner : MemoryOwner} {key value : String}
    (h_caller : callerOf ctx = some owner)
    (h : Dict.get? (MemorySearch.loadEntries low cfg owner pendingStore st) key = some value)
    (act : MemoryOwner → String → MemoryReply × MemoryStore) :
    st.onPending cfg low ctx key act = act owner value := by
  unfold onPending
  rw [h_caller]
  dsimp only
  rw [h]

/-- `approve`. -/
def approve (key store : String) : MemoryReply × MemoryStore :=
  st.onPending cfg low ctx key fun owner value =>
    (.ok (some store) key,
      (st.put cfg owner store key value).delete cfg owner pendingStore key)

/-- `reject`. -/
def reject (key : String) : MemoryReply × MemoryStore :=
  st.onPending cfg low ctx key fun owner _ =>
    (.ok none key, st.delete cfg owner pendingStore key)

/-- `edit`. -/
def edit (key value : String) : MemoryReply × MemoryStore :=
  st.onPending cfg low ctx key fun owner _ =>
    (.ok (some pendingStore) key, st.put cfg owner pendingStore key value)

/-- `MemoryCurator._persist_store_name`. -/
def persistStoreName : String :=
  if cfg.requireApproval then pendingStore
  else (cfg.stores.head?.map MemoryStoreConfig.name).getD "default"

/-- `MemoryCurator._persist_entities`: the provider is given the facts one by one. -/
def persistEntities (entities : Dict String String) : MemoryStore :=
  match callerOf ctx with
  | none => st
  | some owner =>
    let store := persistStoreName cfg
    if entities = [] then st
    else if cfg.provider then
      entities.foldl (fun st p => st.put cfg owner store p.1 p.2) st
    else
      (st.mergeEntities owner.tenantId owner.userId (cfg.namespaceOf store) entities
        cfg.maxEntities).2

end MemoryStore

/-! ### The prompt -/

/-- One fact of `_trim_to_char_budget`: it is kept if its line fits after what was `used`. -/
def keepIfRoom (charBudget : ℕ) (p : String × String) (used : ℕ × Dict String String) :
    ℕ × Dict String String :=
  let lineLen := p.1.length + 2 + p.2.length + (if used.2 = [] then 0 else 1)
  if used.1 + lineLen > charBudget then used else (used.1 + lineLen, p :: used.2)

/-- `_trim_to_char_budget`: from the newest on, the facts for which there is room. -/
def trimToCharBudget (entries : Dict String String) (charBudget : ℕ) : Dict String String :=
  if charBudget = 0 then entries else (entries.foldr (keepIfRoom charBudget) (0, [])).2

/-- `_load_user_memory` of the runner, `prefetch` of the provider: the facts of a user that go
into the prompt, under the keys they have there. -/
def MemoryConfig.loadUserMemory (cfg : MemoryConfig) (owner : MemoryOwner) (st : MemoryStore) :
    Dict String String :=
  if cfg.stores = [] then st.facts cfg owner "default"
  else
    let multi := 1 < cfg.injectedStores.length
    cfg.injectedStores.foldl (fun merged s =>
      let record := st.facts cfg owner s.name
      let entries := if cfg.provider then record else trimToCharBudget record s.charBudget
      Dict.update merged
        (entries.map fun p => (if multi then s.name ++ "/" ++ p.1 else p.1, p.2))) []

/-! ### The facts after a write -/

theorem MemoryOwner.key_inj {owner : MemoryOwner} {ns ns' : String} :
    (owner.triple ns).key = (owner.triple ns').key ↔ ns = ns' := by
  simp [MemoryTriple.key, makeCrossSessionMemoryKey, MemoryOwner.triple]

/-- The store `pending` shares its namespace with no other store. -/
theorem MemoryConfig.namespaceOf_eq_pending {cfg : MemoryConfig} {store : String} :
    cfg.namespaceOf store = cfg.namespaceOf pendingStore ↔ store = pendingStore := by
  have h_pending : cfg.namespaceOf pendingStore = cfg.baseNamespace ++ ":" ++ pendingStore := rfl
  constructor
  · -- any other store has a longer name
    intro h
    rw [h_pending] at h
    unfold namespaceOf at h
    -- the namespace of the default store has no colon at its end
    split_ifs at h with h_named
    · simpa using h
    · -- the lengths differ by the name of the pending store and its colon
      have h_length := congrArg String.length h
      simp only [pendingStore, String.length_append] at h_length
      have h_colon : ":".length = 1 := rfl
      omega
  · rintro rfl
    rfl

namespace MemoryStore

variable {st : MemoryStore}

/-- **The facts after a merge**: those merged, and any under another key as they were. -/
theorem factsAt_merge (h : Filed st) (on : MemoryTriple) (entities : Dict String String)
    (maxEntities : ℕ) (y : MemoryTriple) :
    factsAt (st.mergeEntities on.tenantId on.userId on.ns entities maxEntities).2 y =
      if y.key = on.key then
        if entities = [] then st.factsAt on
        else capEntities (update (st.factsAt on) entities) maxEntities
      else st.factsAt y := by
  have h_get : Dict.get? (MemoryOp.exec st (.mergeEntities on entities maxEntities)).2 y.key =
      if y.key = on.key then
        (MemoryOp.mergeEntities on entities maxEntities).leaves (Dict.get? st y.key)
      else Dict.get? st y.key :=
    (MemoryOp.exec_eq h (.mergeEntities on entities maxEntities)).2 y.key
  have h_facts : factsAt (st.mergeEntities on.tenantId on.userId on.ns entities maxEntities).2 y =
      (((if y.key = on.key then
        (MemoryOp.mergeEntities on entities maxEntities).leaves (Dict.get? st y.key)
          else Dict.get? st y.key)).map CrossSessionMemoryRecord.entityMemory).getD [] := by
    rw [← h_get]
    rfl
  rw [h_facts]
  split_ifs with h_key h_none
  · -- nothing to merge leaves the record as it is
    rw [h_key]
    unfold factsAt load
    simp only [MemoryOp.leaves, mergedRecord, h_none, if_true, Option.map_some, Option.getD_some]
    change _ = ((Dict.get? st on.key).map _).getD []
    cases Dict.get? st on.key <;> rfl
  · rw [h_key]
    unfold factsAt load
    simp only [MemoryOp.leaves, mergedRecord, h_none, if_false, Option.map_some, Option.getD_some]
    change _ = capEntities (update (((Dict.get? st on.key).map _).getD []) _) _
    cases Dict.get? st on.key <;> rfl
  · rfl

theorem filed_merge (h : Filed st) (on : MemoryTriple) (entities : Dict String String)
    (maxEntities : ℕ) :
    Filed (st.mergeEntities on.tenantId on.userId on.ns entities maxEntities).2 :=
  MemoryOp.filed_exec h (.mergeEntities on entities maxEntities)

/-- The facts after a write. -/
theorem factsAt_put (h : Filed st) (cfg : MemoryConfig) (owner : MemoryOwner)
    (store key value : String) (y : MemoryTriple) :
    factsAt (st.put cfg owner store key value) y =
      if y.key = (owner.triple (cfg.namespaceOf store)).key then
        capEntities (Dict.set (st.facts cfg owner store) key value) cfg.maxEntities
      else st.factsAt y :=
  factsAt_merge h (owner.triple (cfg.namespaceOf store)) [(key, value)] cfg.maxEntities y

theorem filed_put (h : Filed st) (cfg : MemoryConfig) (owner : MemoryOwner)
    (store key value : String) : Filed (st.put cfg owner store key value) :=
  filed_merge h (owner.triple (cfg.namespaceOf store)) _ _

/-- A removal saves the record without the fact, or does nothing. -/
theorem delete_eq (h : Filed st) (cfg : MemoryConfig) (owner : MemoryOwner) (store key : String) :
    (st.delete cfg owner store key = st ∧ get? (st.facts cfg owner store) key = none) ∨
      ∃ r, r.key = (owner.triple (cfg.namespaceOf store)).key ∧
        r.entityMemory = erase (st.facts cfg owner store) key ∧
        st.delete cfg owner store key = st.save r := by
  unfold delete facts factsAt MemoryOwner.triple
  dsimp only
  cases h_load : st.load owner.tenantId owner.userId (cfg.namespaceOf store) with
  | none => exact .inl ⟨rfl, rfl⟩
  | some r =>
    dsimp only
    -- only a key that is there is deleted and saved
    split_ifs with h_has
    · have h_key : r.key = (owner.triple (cfg.namespaceOf store)).key := h _ _ h_load
      exact .inr ⟨{ r with entityMemory := erase r.entityMemory key }, h_key, rfl, rfl⟩
    · refine .inl ⟨rfl, ?_⟩
      simpa [has] using h_has

/-- **The facts after a removal**. -/
theorem factsAt_delete (h : Filed st) (cfg : MemoryConfig) (owner : MemoryOwner)
    (store key : String) (y : MemoryTriple) :
    factsAt (st.delete cfg owner store key) y =
      if y.key = (owner.triple (cfg.namespaceOf store)).key then
        erase (st.facts cfg owner store) key
      else st.factsAt y := by
  rcases delete_eq h cfg owner store key with ⟨h_eq, h_none⟩ | ⟨r, h_key, h_facts, h_eq⟩
  · rw [h_eq]
    split_ifs with h_y
    · -- the key is not there: nothing is written
      have h_same : st.factsAt y = st.facts cfg owner store := by
        unfold facts factsAt load
        rw [show makeCrossSessionMemoryKey y.tenantId y.userId y.ns = _ from h_y]
        rfl
      rw [h_same]
      refine (List.filter_eq_self.mpr fun p h_p => ?_).symm
      have h_ne : p.1 ≠ key := by
        rintro rfl
        exact get?_eq_none_iff.mp h_none (mem_keys_of_mem h_p)
      simpa using h_ne
    · rfl
  · rw [h_eq]
    have h_get := (MemoryOp.exec_eq h (.save r)).2 y.key
    have h_new : factsAt (st.save r) y = ((if y.key = r.key then some r
        else Dict.get? st y.key).map CrossSessionMemoryRecord.entityMemory).getD [] := by
      rw [← show _ = (if y.key = r.key then some r else Dict.get? st y.key) from h_get]
      rfl
    rw [h_new, h_key]
    split_ifs
    · exact h_facts
    · rfl

/-- Deleting keeps every record under its own key. -/
theorem filed_delete (h : Filed st) (cfg : MemoryConfig) (owner : MemoryOwner)
    (store key : String) : Filed (st.delete cfg owner store key) := by
  rcases delete_eq h cfg owner store key with ⟨h_eq, -⟩ | ⟨r, -, -, h_eq⟩ <;> rw [h_eq]
  · exact h
  · exact MemoryOp.filed_exec h (.save r)

end MemoryStore

/-! ### Facts at the cap -/

section Cap

variable {d : Dict String String} {maxEntities : ℕ}

theorem length_capEntities (d : Dict String String) (h_pos : 0 < maxEntities) :
    (capEntities d maxEntities).length ≤ maxEntities := by
  rw [capEntities_eq_drop d h_pos.ne', List.length_drop]
  omega

/-- Capping adds nothing. -/
theorem mem_of_mem_capEntities {p : String × String} (h : p ∈ capEntities d maxEntities) :
    p ∈ d := by
  unfold capEntities at h
  split_ifs at h
  · exact h
  · exact List.mem_of_mem_drop h

/-- Nor does it repeat a key. -/
theorem nodup_keys_capEntities (h : (keys d).Nodup) : (keys (capEntities d maxEntities)).Nodup := by
  unfold capEntities
  split_ifs
  · exact h
  · rw [keys, List.map_drop]
    exact h.sublist (List.drop_sublist _ _)

/-- **A fact that is written is there**, if the store did not exceed the cap. -/
theorem get?_capEntities_set (h : (keys d).Nodup) (h_len : d.length ≤ maxEntities)
    (h_pos : 0 < maxEntities) (key value : String) :
    get? (capEntities (Dict.set d key value) maxEntities) key = some value := by
  by_cases h_key : key ∈ keys d
  · -- it is overwritten, and nothing goes
    have h_length : (Dict.set d key value).length = d.length := by
      rw [set_of_mem value h h_key, List.length_map]
    rw [capEntities, if_pos (.inl (by omega)), get?_set_self]
  · have h_new := set_of_not_mem value h_key
    have h_length : (Dict.set d key value).length = d.length + 1 := by simp [h_new]
    have h_none : ∀ n, get? (d.drop n) key = none := by
      refine fun n => get?_eq_none fun h_mem => h_key ?_
      rw [keys, List.map_drop] at h_mem
      exact List.mem_of_mem_drop h_mem
    rw [capEntities_eq_drop _ h_pos.ne', h_length, h_new,
      List.drop_append_of_le_length (by omega), get?_append, h_none]
    simp [get?_cons]

end Cap

/-! ### Searching for nothing in particular -/

/-- All facts in the named stores, store by store. -/
def MemoryStore.allHits (cfg : MemoryConfig) (owner : MemoryOwner) (names : List String)
    (st : MemoryStore) : List MemoryHit :=
  names.flatMap fun name => (st.facts cfg owner name).map fun p => ⟨p.1, p.2, name⟩

namespace MemorySearch

variable (low : Lowercase) {cfg : MemoryConfig} {owner : MemoryOwner} {st : MemoryStore}

/-- The empty query fits every fact, and each as well as any other. -/
theorem score_empty (blob : String) : score low "" blob = 1 := by
  have h_tokens : tokens low "" = [] := by
    have h_words : ((low.lower "").toList.splitOnP PyStr.isSpace).filter (· ≠ []) = [] := by
      simp [low.lower_empty, List.splitOnP_nil]
    rw [tokens, h_words]
    rfl
  simp [score, h_tokens, low.lower_empty]

/-- **The empty query finds everything**, in the order of the stores. -/
theorem searchProvider_all (cfg : MemoryConfig) (owner : MemoryOwner) (k : ℕ)
    (st : MemoryStore) :
    searchProvider low cfg owner "" k st = (st.allHits cfg owner cfg.storeNames).take k := by
  have h_hits : (cfg.storeNames.flatMap fun name => (st.facts cfg owner name).map fun p =>
      (score low "" (p.1 ++ " " ++ p.2), (⟨p.1, p.2, name⟩ : MemoryHit))) =
        (st.allHits cfg owner cfg.storeNames).map fun h => (1, h) := by
    unfold MemoryStore.allHits
    rw [List.map_flatMap]
    simp only [score_empty, List.map_map, Function.comp_def]
  unfold searchProvider
  dsimp only
  rw [h_hits]
  have h_filter : ((st.allHits cfg owner cfg.storeNames).map fun h => ((1 : ℕ), h)).filter
      (fun h => h.1 ≠ 0) = (st.allHits cfg owner cfg.storeNames).map fun h => (1, h) :=
    List.filter_eq_self.mpr fun p h_p => by
      obtain ⟨h, -, rfl⟩ := List.mem_map.mp h_p
      rfl
  -- all scores are one, so the stable sort changes nothing
  have h_sorted : ((st.allHits cfg owner cfg.storeNames).map fun h => ((1 : ℕ), h)).Pairwise
      fun x y => decide (y.1 ≤ x.1) = true :=
    List.pairwise_map.mpr (List.pairwise_of_forall fun _ _ => by simp)
  rw [h_filter, List.mergeSort_of_pairwise h_sorted, List.map_map]
  congr 1
  exact List.map_id' _

/-- A hit is a fact of one of the stores, with the store's name. -/
theorem mem_allHits {names : List String} {h : MemoryHit} : h ∈ st.allHits cfg owner names ↔
    h.store ∈ names ∧ (h.key, h.value) ∈ st.facts cfg owner h.store := by
  unfold MemoryStore.allHits
  simp only [List.mem_flatMap, List.mem_map]
  constructor
  · rintro ⟨name, h_name, p, h_p, rfl⟩
    exact ⟨h_name, h_p⟩
  · rintro ⟨h_name, h_fact⟩
    exact ⟨h.store, h_name, (h.key, h.value), h_fact, rfl⟩

end MemorySearch

/-! ### What the tools see of a store -/

/-- The stores that are searched up to `pending`. -/
def MemoryConfig.storesToPending (cfg : MemoryConfig) : List String :=
  cfg.storeNames.takeWhile (· ≠ pendingStore) ++ [pendingStore]

/-- With approval required there is a pending store. -/
theorem MemoryConfig.pending_mem_storeNames {cfg : MemoryConfig}
    (h : cfg.requireApproval = true) : pendingStore ∈ cfg.storeNames := by
  unfold storeNames
  dsimp only
  generalize (if cfg.stores = [] then ["default"] else cfg.stores.map MemoryStoreConfig.name) = names
  split_ifs with h_missing
  · exact List.mem_append_right _ (List.mem_singleton_self _)
  · by_contra h_not
    exact h_missing ⟨h, h_not⟩

/-- It comes last among the stores that are asked for pending entries. -/
theorem MemoryConfig.storesToPending_first {cfg : MemoryConfig}
    (h : cfg.requireApproval = true) : cfg.storesToPending <+: cfg.storeNames := by
  have h_mem := cfg.pending_mem_storeNames h
  unfold storesToPending
  generalize cfg.storeNames = names at h_mem
  induction names with
  | nil => cases h_mem
  | cons name names ih =>
    by_cases h_name : name = pendingStore
    · subst h_name
      simp
    · -- another store stands in front and is kept
      have h_rest := (List.mem_cons.mp h_mem).resolve_left (Ne.symm h_name)
      rw [List.takeWhile_cons_of_pos (by simpa using h_name), List.cons_append,
        List.cons_prefix_cons]
      exact ⟨rfl, ih h_rest⟩

/-- How many facts the search for nothing in particular finds up to the last pending one. -/
def MemoryStore.countToPending (cfg : MemoryConfig) (owner : MemoryOwner) (st : MemoryStore) :
    ℕ :=
  (st.allHits cfg owner cfg.storesToPending).length

namespace MemorySearch

variable {low : Lowercase} {cfg : MemoryConfig} {owner : MemoryOwner} {st : MemoryStore}

/-- **What is loaded from a store lies there.** -/
theorem get?_of_loadEntries {store key value : String}
    (h_nodup : (keys (st.facts cfg owner store)).Nodup)
    (h : get? (loadEntries low cfg owner store st) key = some value) :
    get? (st.facts cfg owner store) key = some value := by
  unfold loadEntries at h
  split_ifs at h with h_provider
  · -- what the provider finds is a hit of this store
    have h_mem := (mem_update (mem_of_get? h)).resolve_left List.not_mem_nil
    obtain ⟨hit, h_hit, h_eq⟩ := List.mem_map.mp h_mem
    rw [searchProvider_all] at h_hit
    obtain ⟨h_found, h_store⟩ := List.mem_filter.mp h_hit
    -- and a hit is one of its facts
    have h_fact := (mem_allHits.mp (List.mem_of_mem_take h_found)).2
    rw [of_decide_eq_true h_store, h_eq] at h_fact
    exact get?_of_mem h_nodup h_fact
  · exact h

/-- **Every pending fact is loaded**, if the search gets as far as the last of them. -/
theorem get?_loadEntries_pending (h_approval : cfg.requireApproval = true)
    (h_nodup : (keys (st.facts cfg owner pendingStore)).Nodup)
    (h_room : cfg.provider = true → st.countToPending cfg owner ≤ cfg.maxEntities)
    {key value : String} (h : get? (st.facts cfg owner pendingStore) key = some value) :
    get? (loadEntries low cfg owner pendingStore st) key = some value := by
  unfold loadEntries
  split_ifs with h_provider
  · rw [searchProvider_all]
    set hits := ((st.allHits cfg owner cfg.storeNames).take cfg.maxEntities).filter
      fun h => h.store = pendingStore with h_hits
    -- every pending fact is among the hits
    have h_found : (⟨key, value, pendingStore⟩ : MemoryHit) ∈ hits := by
      obtain ⟨rest, h_rest⟩ := cfg.storesToPending_first h_approval
      have h_all : st.allHits cfg owner cfg.storeNames =
          st.allHits cfg owner cfg.storesToPending ++ st.allHits cfg owner rest := by
        rw [← h_rest]
        exact List.flatMap_append
      rw [h_hits, h_all, List.take_append,
        List.take_of_length_le (h_room h_provider), List.filter_append]
      refine List.mem_append_left _ (List.mem_filter.mpr ⟨mem_allHits.mpr ⟨?_, ?_⟩, by simp⟩)
      · exact List.mem_append_right _ (List.mem_singleton_self _)
      · exact mem_of_get? h
    -- and every hit is a pending fact
    have h_agree : ∀ p ∈ hits.map fun h => (h.key, h.value),
        get? (st.facts cfg owner pendingStore) p.1 = some p.2 := by
      intro p h_p
      obtain ⟨hit, h_hit, rfl⟩ := List.mem_map.mp h_p
      obtain ⟨h_taken, h_store⟩ := List.mem_filter.mp h_hit
      have h_fact := (mem_allHits.mp (List.mem_of_mem_take h_taken)).2
      rw [of_decide_eq_true h_store] at h_fact
      exact get?_of_mem h_nodup h_fact
    rw [get?_update_of_agree h_agree, if_pos, h]
    exact mem_keys_of_mem (List.mem_map_of_mem (f := fun h => (h.key, h.value)) h_found)
  · exact h

end MemorySearch

end Nexus
