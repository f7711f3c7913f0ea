import NexusAgent.Memory.Plugin

/-!
# Facts that need approval

With `require_approval` the tools and the curator write to the store `pending`, and `approve`
moves a fact from there to the store it is told. `MemoryStep` are the calls, `MemoryRun` the
store after them together with the facts that were approved, as they were pending then.

* `MemoryRun.Inv`: a fact outside `pending` was approved.
* `ApprovalKept`: what approval is for.
* `approval_kept`: it is kept by calls that approve into a store that is searched, while the
  search reaches every pending fact and `pending` is not a store of the prompt.
* `approval_out_of_reach`: a pending fact that the search does not reach.
-/

open Lib Lib.Dict

namespace Nexus

/-! ### Calls -/

/-- A call of a memory tool, or a curation that found facts. -/
inductive MemoryStep
  | write (ctx : Option RunContext) (key value store : String)
  | remove (ctx : Option RunContext) (key store : String)
  | approve (ctx : Option RunContext) (key store : String)
  | reject (ctx : Option RunContext) (key : String)
  | edit (ctx : Option RunContext) (key value : String)
  | curate (ctx : Option RunContext) (entities : Dict String String)

namespace MemoryStep

/-- The context of a call. -/
def ctx : MemoryStep → Option RunContext
  | write ctx _ _ _ | remove ctx _ _ | approve ctx _ _ | reject ctx _ | edit ctx _ _
  | curate ctx _ => ctx

variable (low : Lowercase) (cfg : MemoryConfig)

/-- The store after a call. -/
def exec (st : MemoryStore) : MemoryStep → MemoryStore
  | write ctx key value store => (st.write cfg ctx key value store).2
  | remove ctx key store => (st.remove cfg ctx key store).2
  | approve ctx key store => (st.approve cfg low ctx key store).2
  | reject ctx key => (st.reject cfg low ctx key).2
  | edit ctx key value => (st.edit cfg low ctx key value).2
  | curate ctx entities => st.persistEntities cfg ctx entities

/-- The fact of the owner a call approves, as it is pending. -/
def approved (owner : MemoryOwner) (st : MemoryStore) : MemoryStep → List (String × String)
  | approve ctx key store =>
    if callerOf ctx = some owner ∧ (st.approve cfg low ctx key store).1.accepted then
      ((get? (st.facts cfg owner pendingStore) key).map (key, ·)).toList
    else []
  | _ => []

end MemoryStep

/-- The store, and the facts of the owner that were approved. -/
structure MemoryRun where
  store : MemoryStore := []
  approved : List (String × String) := []

namespace MemoryRun

/-- A call. -/
def step (low : Lowercase) (cfg : MemoryConfig) (owner : MemoryOwner) (run : MemoryRun)
    (call : MemoryStep) : MemoryRun where
  store := call.exec low cfg run.store
  approved := run.approved ++ call.approved low cfg owner run.store

/-- The calls, from the empty store on. -/
def after (low : Lowercase) (cfg : MemoryConfig) (owner : MemoryOwner) (calls : List MemoryStep) :
    MemoryRun :=
  calls.foldl (step low cfg owner) {}

/-- What is pending. -/
def pending (cfg : MemoryConfig) (owner : MemoryOwner) (run : MemoryRun) : Dict String String :=
  run.store.facts cfg owner pendingStore

end MemoryRun

/-! ### What approval is for -/

/-- How the prompt shows the key of a fact. -/
def ShownAs (cfg : MemoryConfig) (key shown : String) : Prop :=
  if 1 < cfg.injectedStores.length then ∃ s ∈ cfg.injectedStores, shown = s.name ++ "/" ++ key
  else shown = key

/-- A store of this namespace goes into the prompt. -/
def Injectable (cfg : MemoryConfig) (store : String) : Prop :=
  if cfg.stores = [] then cfg.namespaceOf store = cfg.namespaceOf "default"
  else ∃ s ∈ cfg.injectedStores, cfg.namespaceOf s.name = cfg.namespaceOf store

/-- A search finds the fact in a store of this namespace. -/
def Searchable (low : Lowercase) (cfg : MemoryConfig) (owner : MemoryOwner) (st : MemoryStore)
    (key value store : String) : Prop :=
  ∃ query name k, ∃ hit ∈ MemorySearch.search low cfg owner query name k st,
    (hit.key, hit.value) = (key, value) ∧ cfg.namespaceOf hit.store = cfg.namespaceOf store

/-- The contexts a call of the owner can have. -/
def OwnedBy (owner : MemoryOwner) (ctx : Option RunContext) : Prop := callerOf ctx = some owner

/-- **Approval**, along a sequence of calls. -/
structure ApprovalKept (low : Lowercase) (cfg : MemoryConfig) (owner : MemoryOwner)
    (calls : List MemoryStep) : Prop where
  /-- What goes into a prompt was approved, with the value that was pending. -/
  injected : ∀ before, before <+: calls →
    ∀ p ∈ cfg.loadUserMemory owner (MemoryRun.after low cfg owner before).store,
      ∃ key, ShownAs cfg key p.1 ∧ (key, p.2) ∈ (MemoryRun.after low cfg owner before).approved
  /-- What is pending can be approved, rejected and edited. -/
  accepted : ∀ before, before <+: calls →
    let run := MemoryRun.after low cfg owner before
    ∀ key ∈ keys (run.pending cfg owner), ∀ ctx, OwnedBy owner ctx →
      (∀ store, (run.store.approve cfg low ctx key store).1.accepted) ∧
        (run.store.reject cfg low ctx key).1.accepted ∧
        ∀ value, (run.store.edit cfg low ctx key value).1.accepted
  /-- What is approved is in the store it was approved for, and goes into the prompt or is
  found. -/
  moved : ∀ before ctx key store value, before ++ [.approve ctx key store] <+: calls →
    OwnedBy owner ctx →
    get? ((MemoryRun.after low cfg owner before).pending cfg owner) key = some value →
    let st := (MemoryRun.after low cfg owner (before ++ [.approve ctx key store])).store
    get? (st.facts cfg owner store) key = some value ∧
      (Injectable cfg store ∨ Searchable low cfg owner st key value store)

/-- The calls keep within what the tools can do. -/
structure WithinReach (low : Lowercase) (cfg : MemoryConfig) (owner : MemoryOwner)
    (calls : List MemoryStep) : Prop where
  /-- While something is pending, `pending` is no store of the prompt. -/
  hidden : ∀ before, before <+: calls →
    (MemoryRun.after low cfg owner before).pending cfg owner ≠ [] →
    ∀ s ∈ cfg.injectedStores, s.name ≠ pendingStore
  /-- While something is pending, the search of the provider for nothing in particular gets as
  far as the last pending fact. -/
  room : cfg.provider = true → ∀ before, before <+: calls →
    (MemoryRun.after low cfg owner before).pending cfg owner ≠ [] →
    (MemoryRun.after low cfg owner before).store.countToPending cfg owner ≤ cfg.maxEntities
  /-- Pending facts are approved for another store than `pending`, with the provider for one
  that it searches. -/
  targets : ∀ before ctx key store, before ++ [.approve ctx key store] <+: calls →
    OwnedBy owner ctx →
    key ∈ keys ((MemoryRun.after low cfg owner before).pending cfg owner) →
    store ≠ pendingStore ∧
      (cfg.provider = true → ∃ name ∈ cfg.storeNames, cfg.namespaceOf name = cfg.namespaceOf store)

/-! ### Facts outside the pending store -/

/-- Two owners whose facts do not share a record in any namespace. -/
def OwnersApart (owner other : MemoryOwner) : Prop :=
  ∀ ns ns', (owner.triple ns).key ≠ (other.triple ns').key

namespace MemoryRun

/-- Outside the pending store there are only facts that were approved, and no store holds more
than it may. -/
structure Inv (cfg : MemoryConfig) (owner : MemoryOwner) (approved : List (String × String))
    (st : MemoryStore) : Prop where
  filed : Filed st
  nodup : ∀ ns, (keys (st.factsAt (owner.triple ns))).Nodup
  capped : ∀ ns, (st.factsAt (owner.triple ns)).length ≤ cfg.maxEntities
  approved : ∀ ns, ns ≠ cfg.namespaceOf pendingStore →
    ∀ p ∈ st.factsAt (owner.triple ns), p ∈ approved

namespace Inv

variable {low : Lowercase} {cfg : MemoryConfig} {owner other : MemoryOwner}
  {approved : List (String × String)} {st : MemoryStore}

/-- Nothing was written yet. -/
theorem empty (cfg : MemoryConfig) (owner : MemoryOwner) : Inv cfg owner [] [] where
  filed := fun k r h => by cases h
  nodup := fun _ => List.nodup_nil
  capped := fun _ => Nat.zero_le _
  approved := fun _ _ p h_p => by cases h_p

theorem mono (h : Inv cfg owner approved st) (more : List (String × String)) :
    Inv cfg owner (approved ++ more) st :=
  { h with approved := fun ns h_ns p h_p => List.mem_append_left _ (h.approved ns h_ns p h_p) }

/-- **Changing one namespace** of the owner, or of somebody apart. -/
theorem change {st' : MemoryStore} {ns : String} {new : Dict String String}
    (h : Inv cfg owner approved st) (h_other : other = owner ∨ OwnersApart owner other)
    (h_filed : Filed st')
    (h_facts : ∀ y : MemoryTriple, st'.factsAt y =
      if y.key = (other.triple ns).key then new else st.factsAt y)
    (h_new : other = owner → (keys new).Nodup ∧ new.length ≤ cfg.maxEntities ∧
      (ns ≠ cfg.namespaceOf pendingStore → ∀ p ∈ new, p ∈ approved)) :
    Inv cfg owner approved st' := by
  -- the facts of the owner are those before, or the new ones of this namespace
  have h_at : ∀ ns', st'.factsAt (owner.triple ns') = st.factsAt (owner.triple ns') ∨
      (other = owner ∧ ns' = ns ∧ st'.factsAt (owner.triple ns') = new) := by
    intro ns'
    rw [h_facts]
    split_ifs with h_key
    · -- an equal key of another owner is ruled out
      rcases h_other with rfl | h_apart
      · exact .inr ⟨rfl, MemoryOwner.key_inj.mp h_key, rfl⟩
      · exact (h_apart ns' ns h_key).elim
    · exact .inl rfl
  refine ⟨h_filed, fun ns' => ?_, fun ns' => ?_, fun ns' h_ns' p h_p => ?_⟩
  · rcases h_at ns' with h_eq | ⟨h_own, -, h_eq⟩ <;> rw [h_eq]
    · exact h.nodup ns'
    · exact (h_new h_own).1
  · rcases h_at ns' with h_eq | ⟨h_own, -, h_eq⟩ <;> rw [h_eq]
    · exact h.capped ns'
    · exact (h_new h_own).2.1
  · rcases h_at ns' with h_eq | ⟨h_own, rfl, h_eq⟩ <;> rw [h_eq] at h_p
    · exact h.approved ns' h_ns' p h_p
    · exact (h_new h_own).2.2 h_ns' p h_p

/-- A `put` of the owner is approved, or goes to the pending store. -/
theorem put (h : Inv cfg owner approved st) (h_other : other = owner ∨ OwnersApart owner other)
    {store key value : String}
    (h_ok : other = owner → store = pendingStore ∨ (key, value) ∈ approved) :
    Inv cfg owner approved (st.put cfg other store key value) := by
  refine h.change h_other (MemoryStore.filed_put h.filed cfg other store key value)
    (MemoryStore.factsAt_put h.filed cfg other store key value) ?_
  rintro rfl
  refine ⟨nodup_keys_capEntities (nodup_keys_set _ _ (h.nodup _)),
    length_capEntities _ cfg.maxEntities.pos, fun h_ns p h_p => ?_⟩
  -- outside the pending store the pair is approved
  have h_approved : (key, value) ∈ approved :=
    (h_ok rfl).resolve_left fun h_store => h_ns (by rw [h_store])
  -- the pair that was put, or one that was there
  rcases mem_set (show (p.1, p.2) ∈ _ from mem_of_mem_capEntities h_p) with ⟨h_key, h_value⟩ | h_old
  · rw [show p = (key, value) from Prod.ext h_key h_value]
    exact h_approved
  · exact h.approved _ h_ns p h_old

/-- A `delete` leaves approved entries approved. -/
theorem delete (h : Inv cfg owner approved st) (h_other : other = owner ∨ OwnersApart owner other)
    (store key : String) : Inv cfg owner approved (st.delete cfg other store key) := by
  refine h.change h_other (MemoryStore.filed_delete h.filed cfg other store key)
    (MemoryStore.factsAt_delete h.filed cfg other store key) ?_
  rintro rfl
  have h_sub : (erase (st.facts cfg other store) key).Sublist (st.facts cfg other store) :=
    List.filter_sublist
  exact ⟨(h.nodup _).sublist (h_sub.map _), h_sub.length_le.trans (h.capped _),
    fun h_ns p h_p => h.approved _ h_ns p (h_sub.subset h_p)⟩

/-- A merge into the pending store. -/
theorem merge (h : Inv cfg owner approved st) (h_other : other = owner ∨ OwnersApart owner other)
    {entities : Dict String String} (h_some : entities ≠ []) :
    Inv cfg owner approved (st.mergeEntities other.tenantId other.userId
      (cfg.namespaceOf pendingStore) entities cfg.maxEntities).2 := by
  have h_facts := MemoryStore.factsAt_merge h.filed (other.triple (cfg.namespaceOf pendingStore))
    entities cfg.maxEntities
  -- the entries are merged into the pending store, where nothing has to be approved
  simp only [if_neg h_some] at h_facts
  refine h.change h_other (MemoryStore.filed_merge h.filed
    (other.triple (cfg.namespaceOf pendingStore)) entities cfg.maxEntities) h_facts ?_
  rintro rfl
  exact ⟨nodup_keys_capEntities (nodup_keys_update (h.nodup _) _),
    length_capEntities _ cfg.maxEntities.pos, fun h_ns => (h_ns rfl).elim⟩

/-- **A call keeps the invariant.** -/
theorem step (h : Inv cfg owner approved st) (h_require : cfg.requireApproval = true)
    {call : MemoryStep}
    (h_caller : ∀ other, callerOf call.ctx = some other → other = owner ∨ OwnersApart owner other) :
    Inv cfg owner (approved ++ call.approved low cfg owner st) (call.exec low cfg st) := by
  have h_keeper : ∀ {other}, keeperOf call.ctx = some other →
      other = owner ∨ OwnersApart owner other := by
    intro other h_keeper
    unfold keeperOf at h_keeper
    split_ifs at h_keeper
    exact h_caller other h_keeper
  have h_more := h.mono (call.approved low cfg owner st)
  cases call with
  | write ctx key value store =>
    have h_target : cfg.writeStore store = pendingStore := by
      unfold MemoryConfig.writeStore
      split_ifs with h_store
      · rfl
      · by_contra h_not
        exact h_store ⟨h_require, h_not⟩
    show Inv cfg owner _ (st.write cfg ctx key value store).2
    unfold MemoryStore.write
    cases h_ctx : keeperOf ctx with
    | none => exact h_more
    | some other => exact h_more.put (h_keeper h_ctx) fun _ => .inl h_target
  | remove ctx key store =>
    show Inv cfg owner _ (st.remove cfg ctx key store).2
    unfold MemoryStore.remove
    cases h_ctx : keeperOf ctx with
    | none => exact h_more
    | some other =>
      dsimp only
      split_ifs
      · exact h_more.delete (h_keeper h_ctx) store key
      · exact h_more
  | approve ctx key store =>
    show Inv cfg owner _ (st.approve cfg low ctx key store).2
    unfold MemoryStore.approve
    rcases MemoryStore.onPending_cases cfg low ctx st key fun owner value =>
      (.ok (some store) key, (st.put cfg owner store key value).delete cfg owner pendingStore key)
      with h_eq | ⟨other, value, h_ctx, h_get, h_eq⟩
    · rw [h_eq]
      exact h_more
    · rw [h_eq]
      refine (h_more.put (h_caller other h_ctx) ?_).delete (h_caller other h_ctx) _ _
      rintro rfl
      -- what is approved is what is pending
      have h_pending := MemorySearch.get?_of_loadEntries (h.nodup _) h_get
      have h_accepted : (st.approve cfg low ctx key store).1.accepted = true := by
        unfold MemoryStore.approve
        rw [h_eq]
        rfl
      refine .inr (List.mem_append_right _ ?_)
      rw [MemoryStep.approved, if_pos ⟨h_ctx, h_accepted⟩, h_pending]
      exact List.mem_singleton_self _
  | reject ctx key =>
    show Inv cfg owner _ (st.reject cfg low ctx key).2
    unfold MemoryStore.reject
    rcases MemoryStore.onPending_cases cfg low ctx st key fun owner _ =>
      (.ok none key, st.delete cfg owner pendingStore key)
      with h_eq | ⟨other, value, h_ctx, -, h_eq⟩ <;> rw [h_eq]
    · exact h_more
    · exact h_more.delete (h_caller other h_ctx) _ _
  | edit ctx key value =>
    show Inv cfg owner _ (st.edit cfg low ctx key value).2
    unfold MemoryStore.edit
    rcases MemoryStore.onPending_cases cfg low ctx st key fun owner _ =>
      (.ok (some pendingStore) key, st.put cfg owner pendingStore key value)
      with h_eq | ⟨other, old, h_ctx, -, h_eq⟩ <;> rw [h_eq]
    · exact h_more
    · exact h_more.put (h_caller other h_ctx) fun _ => .inl rfl
  | curate ctx entities =>
    have h_store : MemoryStore.persistStoreName cfg = pendingStore := if_pos h_require
    show Inv cfg owner _ (st.persistEntities cfg ctx entities)
    unfold MemoryStore.persistEntities
    cases h_ctx : callerOf ctx with
    | none => exact h_more
    | some other =>
      dsimp only
      rw [h_store]
      split_ifs with h_none
      · exact h_more
      · -- the provider writes the facts one by one
        generalize MemoryStep.approved low cfg owner st (.curate ctx entities) = more at h_more ⊢
        have h_other := h_caller other h_ctx
        clear h_none h h_caller h_keeper
        induction entities generalizing st with
        | nil => exact h_more
        | cons p entities ih =>
          exact ih (h_more.put h_other fun _ => .inl rfl)
      · exact h_more.merge (h_caller other h_ctx) h_none

end Inv

/-- **Every sequence of calls** of the owner and of others apart keeps the invariant. -/
theorem inv_after {low : Lowercase} {cfg : MemoryConfig} {owner : MemoryOwner}
    (h_require : cfg.requireApproval = true) (calls : List MemoryStep)
    (h_callers : ∀ call ∈ calls, ∀ other, callerOf call.ctx = some other →
      other = owner ∨ OwnersApart owner other) :
    Inv cfg owner (after low cfg owner calls).approved (after low cfg owner calls).store := by
  induction calls using List.reverseRecOn with
  | nil => exact .empty cfg owner
  | append_singleton calls call ih =>
    -- the calls before the last one
    have h_before := ih fun c h_c => h_callers c (List.mem_append_left _ h_c)
    have h_last := h_callers call (List.mem_append_right _ (List.mem_singleton_self _))
    rw [after, List.foldl_append]
    exact h_before.step h_require h_last

end MemoryRun

/-! ### The prompt -/

/-- The char budget only drops facts. -/
theorem mem_of_mem_trim {entries : Dict String String} {charBudget : ℕ} {p : String × String}
    (h : p ∈ trimToCharBudget entries charBudget) : p ∈ entries := by
  unfold trimToCharBudget at h
  split_ifs at h
  · exact h
  · induction entries with
    | nil => exact h
    | cons q entries ih =>
      -- each fact is kept or dropped as it is met, and none is made
      have h_step : p = q ∨ p ∈ (entries.foldr (keepIfRoom charBudget) (0, [])).2 := by
        rw [List.foldr_cons] at h
        generalize entries.foldr (keepIfRoom charBudget) (0, []) = used at h ⊢
        unfold keepIfRoom at h
        dsimp only at h
        by_cases h_room : used.1 + (q.1.length + 2 + q.2.length + if used.2 = [] then 0 else 1) >
            charBudget
        · rw [if_pos h_room] at h
          exact .inr h
        · rw [if_neg h_room] at h
          exact List.mem_cons.mp h
      rcases h_step with rfl | h_rest
      · exact List.mem_cons_self
      · exact List.mem_cons_of_mem _ (ih h_rest)

/-- **What goes into a prompt** lies in a store of the prompt. -/
theorem mem_loadUserMemory {cfg : MemoryConfig} {owner : MemoryOwner} {st : MemoryStore}
    {p : String × String} (h : p ∈ cfg.loadUserMemory owner st) :
    ∃ key store, ShownAs cfg key p.1 ∧ (key, p.2) ∈ st.facts cfg owner store ∧
      (store = "default" ∨ ∃ s ∈ cfg.injectedStores, s.name = store) := by
  unfold MemoryConfig.loadUserMemory at h
  by_cases h_stores : cfg.stores = []
  · rw [if_pos h_stores] at h
    refine ⟨p.1, "default", ?_, h, .inl rfl⟩
    unfold ShownAs MemoryConfig.injectedStores
    simp [h_stores]
  · rw [if_neg h_stores] at h
    -- a fact of the merged ones was there before, or is one of the store merged last
    have h_fold : ∀ (ss : List MemoryStoreConfig) (merged : Dict String String),
        (∀ s ∈ ss, s ∈ cfg.injectedStores) →
        p ∈ ss.foldl (fun merged s =>
          let record := st.facts cfg owner s.name
          let entries := if cfg.provider then record else trimToCharBudget record s.charBudget
          Dict.update merged (entries.map fun q =>
            (if 1 < cfg.injectedStores.length then s.name ++ "/" ++ q.1 else q.1, q.2))) merged →
        p ∈ merged ∨ ∃ s ∈ cfg.injectedStores, ∃ q ∈ st.facts cfg owner s.name,
          p = (if 1 < cfg.injectedStores.length then s.name ++ "/" ++ q.1 else q.1, q.2) := by
      intro ss
      induction ss with
      | nil => exact fun merged _ h_p => .inl h_p
      | cons s ss ih =>
        intro merged h_ss h_p
        rcases ih _ (fun t h_t => h_ss t (List.mem_cons_of_mem _ h_t)) h_p with h_merged | h_found
        · rcases mem_update h_merged with h_old | h_new
          · exact .inl h_old
          · obtain ⟨q, h_q, rfl⟩ := List.mem_map.mp h_new
            refine .inr ⟨s, h_ss s List.mem_cons_self, q, ?_, rfl⟩
            split_ifs at h_q
            · exact h_q
            · exact mem_of_mem_trim h_q
        · exact .inr h_found
    obtain ⟨s, h_s, q, h_q, rfl⟩ := (h_fold cfg.injectedStores [] (fun _ h_s => h_s) h).resolve_left
      List.not_mem_nil
    refine ⟨q.1, s.name, ?_, h_q, .inr ⟨s, h_s, rfl⟩⟩
    unfold ShownAs
    split_ifs
    · exact ⟨s, h_s, rfl⟩
    · rfl

/-! ### Approving -/

section Approve

variable {low : Lowercase} {cfg : MemoryConfig} {owner : MemoryOwner}
  {approved : List (String × String)} {st : MemoryStore}

/-- **A fact that lies in a searched store is found.** -/
theorem searchable_of_mem {store key value : String}
    (h : (key, value) ∈ st.facts cfg owner store)
    (h_target : cfg.provider = true →
      ∃ name ∈ cfg.storeNames, cfg.namespaceOf name = cfg.namespaceOf store) :
    Searchable low cfg owner st key value store := by
  cases h_provider : cfg.provider with
  | true =>
    obtain ⟨name, h_name, h_ns⟩ := h_target h_provider
    -- the provider searches all stores at once, with room for every hit
    refine ⟨"", "default", (st.allHits cfg owner cfg.storeNames).length, ⟨key, value, name⟩, ?_,
      rfl, h_ns⟩
    have h_fact : (key, value) ∈ st.facts cfg owner name := by
      unfold MemoryStore.facts
      rw [h_ns]
      exact h
    simp only [MemorySearch.search, h_provider, if_true, ne_eq, not_true_eq_false, if_false,
      MemorySearch.searchProvider_all, List.take_length]
    exact MemorySearch.mem_allHits.mpr ⟨h_name, h_fact⟩
  | false =>
    refine ⟨"", store, (st.facts cfg owner store).length, ⟨key, value, store⟩, ?_, rfl, rfl⟩
    -- the empty text is in every key
    have h_all : (st.facts cfg owner store).filter (fun p =>
        decide ((low.lower "").toList <:+: (low.lower p.1).toList ∨
          (low.lower "").toList <:+: (low.lower p.2).toList)) = st.facts cfg owner store :=
      List.filter_eq_self.mpr fun p _ => by simp [low.lower_empty]
    simp only [MemorySearch.search, h_provider, Bool.false_eq_true, if_false, h_all]
    rw [List.take_of_length_le (by rw [List.length_map])]
    exact List.mem_map_of_mem (f := fun p => (⟨p.1, p.2, store⟩ : MemoryHit)) h

/-- **An approved fact** is in the store it was approved for. -/
theorem MemoryRun.Inv.get?_approve (h : MemoryRun.Inv cfg owner approved st)
    {ctx : Option RunContext} (h_ctx : OwnedBy owner ctx) {key value store : String}
    (h_loaded : get? (MemorySearch.loadEntries low cfg owner pendingStore st) key = some value)
    (h_store : store ≠ pendingStore) :
    get? ((st.approve cfg low ctx key store).2.facts cfg owner store) key = some value := by
  -- the entry is put first, and taken from the pending store then
  have h_filed := MemoryStore.filed_put h.filed cfg owner store key value
  -- these are two namespaces
  have h_ns : (owner.triple (cfg.namespaceOf store)).key ≠
      (owner.triple (cfg.namespaceOf pendingStore)).key := fun h_key =>
    h_store (MemoryConfig.namespaceOf_eq_pending.mp (MemoryOwner.key_inj.mp h_key))
  unfold MemoryStore.approve
  rw [MemoryStore.onPending_of_loaded h_ctx h_loaded, MemoryStore.facts,
    MemoryStore.factsAt_delete h_filed, if_neg h_ns, MemoryStore.factsAt_put h.filed, if_pos rfl]
  exact get?_capEntities_set (h.nodup _) (h.capped _) cfg.maxEntities.pos key value

end Approve

/-- **Approval is kept** along every sequence of calls of a user, and of others whose facts lie
apart, that keeps within reach. -/
theorem approval_kept (low : Lowercase) (cfg : MemoryConfig) (owner : MemoryOwner)
    (calls : List MemoryStep) (h_require : cfg.requireApproval = true)
    (h_callers : ∀ call ∈ calls, ∀ other, callerOf call.ctx = some other →
      other = owner ∨ OwnersApart owner other)
    (h_reach : WithinReach low cfg owner calls) : ApprovalKept low cfg owner calls := by
  have h_inv : ∀ {before}, before <+: calls →
      MemoryRun.Inv cfg owner (MemoryRun.after low cfg owner before).approved
        (MemoryRun.after low cfg owner before).store := fun h_before =>
    MemoryRun.inv_after h_require _ fun call h_call => h_callers call (h_before.subset h_call)
  have h_loaded : ∀ {before}, before <+: calls → ∀ {key value},
      get? ((MemoryRun.after low cfg owner before).pending cfg owner) key = some value →
      get? (MemorySearch.loadEntries low cfg owner pendingStore
        (MemoryRun.after low cfg owner before).store)
        key = some value := by
    intro before h_before key value h_get
    have h_some : (MemoryRun.after low cfg owner before).pending cfg owner ≠ [] := by
      intro h_none
      rw [h_none] at h_get
      cases h_get
    exact MemorySearch.get?_loadEntries_pending h_require ((h_inv h_before).nodup _)
      (fun h_provider => h_reach.room h_provider before h_before h_some) h_get
  refine ⟨fun before h_before p h_p => ?_, fun before h_before => ?_,
    fun before ctx key store value h_before h_ctx h_get => ?_⟩
  · obtain ⟨key, store, h_shown, h_fact, h_store⟩ := mem_loadUserMemory h_p
    refine ⟨key, h_shown, ?_⟩
    by_cases h_pending : store = pendingStore
    · -- it would be pending in a store of the prompt
      subst h_pending
      have h_some : (MemoryRun.after low cfg owner before).pending cfg owner ≠ [] :=
        List.ne_nil_of_mem h_fact
      rcases h_store with h_default | ⟨s, h_s, h_name⟩
      · exact absurd h_default (by decide)
      · exact (h_reach.hidden before h_before h_some s h_s h_name).elim
    · exact (h_inv h_before).approved _
        (fun h_ns => h_pending (MemoryConfig.namespaceOf_eq_pending.mp h_ns)) _ h_fact
  · intro run key h_key ctx h_ctx
    obtain ⟨p, h_p, rfl⟩ := List.mem_map.mp h_key
    obtain ⟨value, h_get⟩ := exists_get?_of_mem (show (p.1, p.2) ∈ _ from h_p)
    have h_load := h_loaded h_before h_get
    refine ⟨fun store => ?_, ?_, fun value => ?_⟩
    · rw [MemoryStore.approve, MemoryStore.onPending_of_loaded h_ctx h_load]
      rfl
    · rw [MemoryStore.reject, MemoryStore.onPending_of_loaded h_ctx h_load]
      rfl
    · rw [MemoryStore.edit, MemoryStore.onPending_of_loaded h_ctx h_load]
      rfl
  · have h_start : before <+: calls := (List.prefix_append _ _).trans h_before
    have h_key : key ∈ keys ((MemoryRun.after low cfg owner before).pending cfg owner) :=
      mem_keys_of_mem (mem_of_get? h_get)
    obtain ⟨h_store, h_target⟩ := h_reach.targets before ctx key store h_before h_ctx h_key
    have h_after : (MemoryRun.after low cfg owner (before ++ [.approve ctx key store])).store =
        ((MemoryRun.after low cfg owner before).store.approve cfg low ctx key store).2 := by
      rw [MemoryRun.after, List.foldl_append]
      rfl
    dsimp only
    rw [h_after]
    have h_moved := (h_inv h_start).get?_approve h_ctx (h_loaded h_start h_get) h_store
    exact ⟨h_moved, .inr (searchable_of_mem (mem_of_get? h_moved) h_target)⟩

/-! ### A fact after another -/

def annOwner : MemoryOwner := ⟨some "t", "ann"⟩

def annContext : Option RunContext := some { tenantId := some "t", userId := some "ann" }

/-- `str.lower` on texts without capitals. -/
def smallLetters : Lowercase := ⟨id, rfl⟩

/-- Two facts are written, and the first is approved in between. -/
def annCalls : List MemoryStep :=
  [.write annContext "a" "1" "default", .approve annContext "a" "default",
    .write annContext "b" "2" "default"]

/-- All callers are Ann herself. -/
theorem callers_ann : ∀ call ∈ annCalls, ∀ other, callerOf call.ctx = some other →
    other = annOwner ∨ OwnersApart annOwner other := by
  intro call h_call other h_other
  have h_ctx : call.ctx = annContext := by
    simp only [annCalls, List.mem_cons, List.not_mem_nil, or_false] at h_call
    rcases h_call with rfl | rfl | rfl <;> rfl
  rw [h_ctx] at h_other
  exact .inl (Option.some.inj h_other).symm

/-- With the store alone this is within reach, and the first fact is in the prompt. -/
theorem approval_kept_ann :
    ApprovalKept smallLetters { requireApproval := true } annOwner annCalls ∧
      MemoryConfig.loadUserMemory { requireApproval := true } annOwner
        (MemoryRun.after smallLetters { requireApproval := true } annOwner annCalls).store =
        [("a", "1")] := by
  refine ⟨approval_kept smallLetters _ annOwner annCalls rfl callers_ann ⟨?_, ?_, ?_⟩,
    by decide +kernel⟩
  · exact fun before _ _ s h_s => absurd h_s List.not_mem_nil
  · exact fun h_provider => absurd h_provider (by decide)
  · intro before ctx key store h_before _ _
    -- the only approval among the calls
    have h_mem : MemoryStep.approve ctx key store ∈ annCalls :=
      h_before.subset (List.mem_append_right _ (List.mem_singleton_self _))
    simp only [annCalls, List.mem_cons, List.not_mem_nil, or_false, reduceCtorEq, false_or,
      MemoryStep.approve.injEq] at h_mem
    exact ⟨by rw [h_mem.2.2]; decide, fun h_provider => absurd h_provider (by decide)⟩

/-- The built-in provider, with room for one fact. -/
def narrowConfig : MemoryConfig where
  provider := true
  maxEntities := 1
  requireApproval := true

/-- **The second fact is out of reach**: the search stops at the first. -/
theorem approval_out_of_reach : ¬∀ (low : Lowercase) (cfg : MemoryConfig) (owner : MemoryOwner)
    (calls : List MemoryStep), cfg.requireApproval = true →
      (∀ call ∈ calls, ∀ other, callerOf call.ctx = some other →
        other = owner ∨ OwnersApart owner other) → ApprovalKept low cfg owner calls := by
  intro h
  -- one entry fits, so the second pending entry drives out the first
  have h_kept := h smallLetters narrowConfig annOwner annCalls rfl callers_ann
  have h_accepted := (h_kept.accepted annCalls (List.prefix_refl _) "b" (by decide +kernel)
    annContext rfl).1 "default"
  -- so it is not found any more
  have h_none : get? (MemorySearch.loadEntries smallLetters narrowConfig annOwner pendingStore
      (MemoryRun.after smallLetters narrowConfig annOwner annCalls).store) "b" = none := by
    have h_provider : narrowConfig.provider = true := rfl
    rw [MemorySearch.loadEntries, if_pos h_provider, MemorySearch.searchProvider_all]
    decide +kernel
  have h_caller : callerOf annContext = some annOwner := rfl
  rw [MemoryStore.approve, MemoryStore.onPending, h_caller] at h_accepted
  dsimp only at h_accepted
  rw [h_none] at h_accepted
  cases h_accepted

end Nexus
