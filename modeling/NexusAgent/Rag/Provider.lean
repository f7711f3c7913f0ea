import Mathlib
import NexusAgent.Lib.Purge
import NexusAgent.Rag.Fusion
import NexusAgent.Scope.Keys

/-!
# The retrieval provider in memory

`InMemoryRAGProvider` of `nexus/rag/providers/in_memory.py`: what is ingested is cut into chunks,
each chunk is given an embedding, and the chunks go to a vector store and to an index of their
words. A retrieval asks the first, or both and fuses the answers, and may have them reranked.

* `retrieval_isolated`: a provider that is shared answers each user as one of its own would.
* `retrieval_exact`: a dense retrieval is the top of a ranking of all that the user has ingested.
* `retrieval_fused`: a hybrid retrieval has each id once, and loses none that there is room for.
-/

open Lib

namespace Nexus.Rag

/-! ### The index of words -/

/-- `set(text.lower().split())`. -/
def tokens (lower : String → String) (text : String) : Finset (List Char) :=
  (((lower text).toList.splitOnP PyStr.isSpace).filter (· ≠ [])).toFinset

/-- `InMemorySparseIndex`. -/
structure InMemorySparseIndex (α : Type) where
  data : Dict String (List (DocumentChunk α)) := []
  deriving DecidableEq

variable {α R : Type}

namespace InMemorySparseIndex

/-- The chunks of a collection. -/
def chunks (s : InMemorySparseIndex α) (collection : String) : List (DocumentChunk α) :=
  (s.data.get? collection).getD []

/-- `InMemorySparseIndex.upsert`. -/
def upsert (s : InMemorySparseIndex α) (collection : String) (batch : List (DocumentChunk α)) :
    InMemorySparseIndex α :=
  { data := s.data.set collection (s.chunks collection ++ batch) }

/-- The score of a chunk that shares words with a query: the share of the words it has. -/
def overlap? (lower : String → String) (round : ℚ → ℚ) (query : String) (c : DocumentChunk α) :
    Option (ℚ × DocumentChunk α) :=
  let shared := (tokens lower query ∩ tokens lower c.text).card
  if shared = 0 then none else some (round (shared / (tokens lower query).card), c)

/-- `InMemorySparseIndex.search`. -/
def search (lower : String → String) (round : ℚ → ℚ) (s : InMemorySparseIndex α)
    (collection query : String) (k : ℤ := 5) : List (DocumentChunk α) :=
  if tokens lower query = ∅ then []
  else
    let scored := (s.chunks collection).filterMap (overlap? lower round query)
    (InMemoryVectorStore.upTo k (scored.insertionSort fun x y => y.1 ≤ x.1)).map Prod.snd

end InMemorySparseIndex

/-! ### The provider -/

/-- `RetrievalConfig`. -/
structure RetrievalConfig where
  k : ℤ := 5
  hybrid : Bool := false
  rerank : Bool := false
  rerankTopK : ℤ := 50
  one_le_k : 1 ≤ k := by decide
  one_le_rerankTopK : 1 ≤ rerankTopK := by decide

/-- What `RAGConfig` says about collections and retrievals. -/
structure RAGConfig where
  collection : String := "default"
  scopeLevel : ScopeLevel := .tenant
  retrieval : RetrievalConfig := {}

/-- What a provider is made of beside its two stores. The embeddings, the chunker and the reranker
are given by the application; `score` is the arithmetic of the cosine. -/
structure Components (α R : Type) where
  config : RAGConfig := {}
  embed : String → List α
  chunk : String → List (DocumentChunk α)
  rerank : String → List (DocumentChunk α) → ℤ → List (DocumentChunk α)
  score : List α → List α → R
  lower : String → String
  round : ℚ → ℚ

/-- `InMemoryRAGProvider`, its two stores. -/
structure InMemoryRAGProvider (α : Type) where
  store : InMemoryVectorStore α := {}
  sparse : InMemorySparseIndex α := {}
  deriving DecidableEq

/-- What is ingested: a chunk as it is, or a text to be cut. -/
inductive Document (α : Type)
  | chunk (c : DocumentChunk α)
  | text (s : String)

/-- A call of `ingest`. -/
structure IngestCall (α : Type) where
  ctx : RunContext
  documents : List (Document α)
  collection : Option String := none

/-- What a retrieval raises. -/
inductive RetrievalError
  | mismatch (e : MismatchError)
  | zeroDivision
  deriving DecidableEq

/-- The namespace of a collection in `scoped_collection_key`. -/
def collectionNs (collection : String) : String :=
  if collection ∈ ["", "default", "rag"] then "rag" else "rag:" ++ collection

/-- `scoped_collection_key`. -/
def scopedCollectionKey (ctx : RunContext) (collection : String) (level : ScopeLevel) : String :=
  scopeKey ctx level (collectionNs collection)

namespace Components

variable (parts : Components α R)

/-- The name that a call means by a collection. -/
def name (collection : Option String) : String :=
  match collection with
  | some c => if c = "" then parts.config.collection else c
  | none => parts.config.collection

/-- `InMemoryRAGProvider._collection`. -/
def collection (ctx : RunContext) (collection : Option String) : String :=
  scopedCollectionKey ctx (parts.name collection) parts.config.scopeLevel

/-- The chunks of the documents. -/
def pieces : Document α → List (DocumentChunk α)
  | .chunk c => [c]
  | .text s => parts.chunk s

/-- A chunk with its embedding, which is made when there is none. -/
def fill (c : DocumentChunk α) : DocumentChunk α :=
  if c.vector = [] then { c with embedding := some (parts.embed c.text) } else c

/-- The batch that a call brings to the two stores. -/
def batch (call : IngestCall α) : List (DocumentChunk α) :=
  (call.documents.flatMap parts.pieces).map parts.fill

/-- `InMemoryRAGProvider.ingest`. -/
def ingest (p : InMemoryRAGProvider α) (call : IngestCall α) :
    Except MismatchError Unit × InMemoryRAGProvider α :=
  let col := parts.collection call.ctx call.collection
  if parts.batch call = [] then (.ok (), p)
  else
    match p.store.upsert col (parts.batch call) with
    | (.error e, store) => (.error e, { p with store })
    | (.ok (), store) => (.ok (), ⟨store, p.sparse.upsert col (parts.batch call)⟩)

/-- How many candidates are asked for. -/
def candidateK (k : ℤ) : ℤ :=
  let r := parts.config.retrieval
  if r.hybrid || r.rerank then max (max k r.k) r.rerankTopK else max k r.k

/-- `InMemoryRAGProvider.retrieve`. -/
def retrieve [LinearOrder R] (p : InMemoryRAGProvider α) (ctx : RunContext) (query : String)
    (k : ℤ := 5) : Except RetrievalError (List (DocumentChunk α)) :=
  let col := parts.collection ctx none
  let r := parts.config.retrieval
  match p.store.search parts.score col (parts.embed query) (parts.candidateK k) with
  | .error e => .error (.mismatch e)
  | .ok dense =>
    let fused := if r.hybrid then
        reciprocalRankFusion parts.round
          -- both searches give the candidates, and the fusion keeps as many
          [dense, p.sparse.search parts.lower parts.round col query (parts.candidateK k)] 60
          (parts.candidateK k)
      else some dense
    match fused with
    | none => .error .zeroDivision
    | some fused =>
      .ok (if r.rerank then parts.rerank query fused k else InMemoryVectorStore.upTo k fused)

/-- The provider after calls of `ingest`, some of which may have raised. -/
def after (calls : List (IngestCall α)) : InMemoryRAGProvider α :=
  calls.foldl (fun p call => (parts.ingest p call).2) {}

/-- The call goes to the collection of a context that agrees with this one. -/
def Shares (ctx : RunContext) (collection : Option String) (call : IngestCall α) : Prop :=
  Agree parts.config.scopeLevel call.ctx ctx ∧
    collectionNs (parts.name call.collection) = collectionNs (parts.name collection)

instance (ctx : RunContext) (collection : Option String) :
    DecidablePred (parts.Shares (α := α) ctx collection) :=
  fun _ => inferInstanceAs (Decidable (_ ∧ _))

end Components

theorem InMemoryVectorStore.map_upTo {β γ : Type} (f : β → γ) (k : ℤ) (xs : List β) :
    upTo k (xs.map f) = (upTo k xs).map f := by
  unfold upTo
  split_ifs <;> simp

namespace Components

/-! ### One call -/

variable {parts : Components α R}

/-- What the two stores have of a collection: chunks, a dimension, and chunks. -/
abbrev Shelf (α : Type) : Type := List (DocumentChunk α) × Option ℕ × List (DocumentChunk α)

/-- The view of one collection. -/
def shelf (col : String) (p : InMemoryRAGProvider α) : Shelf α :=
  (p.store.chunks col, p.store.dims.get? col, p.sparse.chunks col)

/-- A shelf with a batch more, unless its dimension is another. -/
def grow (batch : List (DocumentChunk α)) (v : Shelf α) : Shelf α :=
  if ∀ d ∈ v.2.1, ∀ d' ∈ batchDim batch, d = d' then
    (v.1 ++ batch, v.2.1.or (batchDim batch), v.2.2 ++ batch)
  else v

/-- An upsert adds its chunks to its own collection. -/
theorem chunks_sparse_upsert (s : InMemorySparseIndex α) (collection : String)
    (batch : List (DocumentChunk α)) (col : String) :
    (s.upsert collection batch).chunks col =
      if collection = col then s.chunks col ++ batch else s.chunks col := by
  show ((s.data.set collection _).get? col).getD [] = _
  rw [Dict.get?_set]
  split_ifs with h_col
  · rw [h_col]
    rfl
  · rfl

theorem mismatch?_nil {p : InMemoryRAGProvider α} {col : String} :
    p.store.mismatch? col [] = none :=
  InMemoryVectorStore.mismatch?_eq_none.mpr fun _ _ _ h => nomatch h

/-- A mismatch leaves the provider as it is. -/
theorem ingest_of_mismatch {p : InMemoryRAGProvider α} {call : IngestCall α} {e : MismatchError}
    (h : p.store.mismatch? (parts.collection call.ctx call.collection) (parts.batch call) =
      some e) : parts.ingest p call = (.error e, p) := by
  have h_batch : parts.batch call ≠ [] := by
    intro h_nil
    rw [h_nil, mismatch?_nil] at h
    cases h
  unfold ingest
  simp only
  rw [if_neg h_batch, InMemoryVectorStore.upsert_of_mismatch h]

/-- An accepted batch is put on the shelf of its collection. -/
theorem ingest_of_accepted {p : InMemoryRAGProvider α} {call : IngestCall α}
    (h : p.store.mismatch? (parts.collection call.ctx call.collection) (parts.batch call) =
      none) :
    (parts.ingest p call).1 = .ok () ∧ ∀ col, shelf col (parts.ingest p call).2 =
      if parts.collection call.ctx call.collection = col then
        (p.store.chunks col ++ parts.batch call,
          (p.store.dims.get? col).or (batchDim (parts.batch call)),
          p.sparse.chunks col ++ parts.batch call)
      else shelf col p := by
  unfold ingest
  simp only
  -- an empty batch changes nothing
  by_cases h_nil : parts.batch call = []
  · rw [if_pos h_nil]
    refine ⟨rfl, fun col => ?_⟩
    rw [h_nil]
    simp [batchDim, shelf]
  · -- the store takes the batch, and so does the sparse index
    have h_ok := InMemoryVectorStore.fst_upsert_of_accepted h
    have h_chunks := InMemoryVectorStore.chunks_upsert h
    have h_dims := InMemoryVectorStore.dims_upsert h
    rw [if_neg h_nil]
    cases h_store : p.store.upsert (parts.collection call.ctx call.collection)
      (parts.batch call) with
    | mk result store =>
      rw [h_store] at h_ok h_chunks h_dims
      subst h_ok
      refine ⟨rfl, fun col => ?_⟩
      simp only [shelf, h_chunks, h_dims, chunks_sparse_upsert]
      split_ifs <;> simp

/-- **A call of `ingest`** puts its batch on the shelf of its collection. -/
theorem shelf_ingest (p : InMemoryRAGProvider α) (call : IngestCall α) (col : String) :
    shelf col (parts.ingest p call).2 =
      if parts.collection call.ctx call.collection = col then grow (parts.batch call) (shelf col p)
      else shelf col p := by
  -- a batch is turned away exactly if its dimension is not that of the shelf
  have h_grow : parts.collection call.ctx call.collection = col →
      (p.store.mismatch? (parts.collection call.ctx call.collection) (parts.batch call) = none ↔
        ∀ d ∈ (shelf col p).2.1, ∀ d' ∈ batchDim (parts.batch call), d = d') := by
    rintro rfl
    rw [InMemoryVectorStore.mismatch?_eq_none]
    exact ⟨fun h d h_d d' h_d' => h d d' h_d h_d', fun h d d' h_d h_d' => h d h_d d' h_d'⟩
  cases h_mismatch : p.store.mismatch? (parts.collection call.ctx call.collection)
    (parts.batch call) with
  | some e =>
    rw [ingest_of_mismatch h_mismatch]
    split_ifs with h_col
    · rw [grow, if_neg]
      rw [← h_grow h_col, h_mismatch]
      nofun
    · rfl
  | none =>
    rw [(ingest_of_accepted h_mismatch).2 col]
    split_ifs with h_col
    · rw [grow, if_pos ((h_grow h_col).mp h_mismatch)]
      rfl
    · rfl

/-- Whether a call raises depends on the shelf of its collection only. -/
theorem ingest_congr {p q : InMemoryRAGProvider α} {call : IngestCall α}
    (h : shelf (parts.collection call.ctx call.collection) p =
      shelf (parts.collection call.ctx call.collection) q) :
    (parts.ingest p call).1 = (parts.ingest q call).1 := by
  -- what is accepted depends on the dimension that is on the shelf
  have h_dims : p.store.dims.get? _ = q.store.dims.get? _ := congrArg (fun v => v.2.1) h
  have h_mismatch : p.store.mismatch? (parts.collection call.ctx call.collection)
      (parts.batch call) = q.store.mismatch? (parts.collection call.ctx call.collection)
      (parts.batch call) := by
    unfold InMemoryVectorStore.mismatch?
    rw [h_dims]
  -- refused by both, or taken by both
  cases h_p : p.store.mismatch? (parts.collection call.ctx call.collection)
    (parts.batch call) with
  | some e => rw [ingest_of_mismatch h_p, ingest_of_mismatch (h_mismatch.symm.trans h_p)]
  | none =>
    rw [(ingest_of_accepted h_p).1, (ingest_of_accepted (h_mismatch.symm.trans h_p)).1]

/-- A retrieval reads the shelf of its collection only. -/
theorem retrieve_congr [LinearOrder R] {parts : Components α R} {p q : InMemoryRAGProvider α}
    {ctx : RunContext}
    (h : shelf (parts.collection ctx none) p = shelf (parts.collection ctx none) q)
    (query : String) (k : ℤ) : parts.retrieve p ctx query k = parts.retrieve q ctx query k := by
  obtain ⟨h_chunks, h_rest⟩ := Prod.mk.inj h
  obtain ⟨h_dims, h_words⟩ := Prod.mk.inj h_rest
  -- the search in the vectors reads the shelf
  have h_search : ∀ n,
      p.store.search parts.score (parts.collection ctx none) (parts.embed query) n =
      q.store.search parts.score (parts.collection ctx none) (parts.embed query) n := by
    intro n
    unfold InMemoryVectorStore.search InMemoryVectorStore.checkQuery InMemoryVectorStore.scored
    rw [h_chunks, h_dims]
  -- and so does the search in the words
  have h_sparse : ∀ n, p.sparse.search parts.lower parts.round (parts.collection ctx none) query n =
      q.sparse.search parts.lower parts.round (parts.collection ctx none) query n := by
    intro n
    unfold InMemorySparseIndex.search
    rw [h_words]
  unfold retrieve
  simp only [h_search, h_sparse]

/-! ### Users that share a provider -/

/-- Where the scopes are apart, the calls that share a collection are those that agree on it. -/
theorem collection_eq_iff {ctx : RunContext} {collection : Option String} {call : IngestCall α}
    (h : Apart parts.config.scopeLevel call.ctx ctx) :
    parts.collection call.ctx call.collection = parts.collection ctx collection ↔
      parts.Shares ctx collection call := by
  constructor
  · exact (scopeKey_separates_iff _ _ _).mpr h _ _
  · rintro ⟨h_agree, h_ns⟩
    simp only [Components.collection, scopedCollectionKey, scopeKey, h_agree.base, h_ns]

/-- The shelf of a user is that of the user's own calls. -/
theorem shelf_after {users : Set RunContext}
    (h_apart : ∀ u ∈ users, ∀ u' ∈ users, Apart parts.config.scopeLevel u u')
    {calls : List (IngestCall α)} (h_calls : ∀ call ∈ calls, call.ctx ∈ users) {ctx : RunContext}
    (h_ctx : ctx ∈ users) (collection : Option String) :
    shelf (parts.collection ctx collection) (parts.after calls) =
      shelf (parts.collection ctx collection)
        (parts.after (calls.filter (parts.Shares ctx collection))) := by
  refine view_purged (fun call => call.ctx ∈ users) _ ?_ ?_ h_calls rfl
  · -- a call of a sharing user does the same on both shelves
    intro p q call h_user h_shares h_view
    rw [shelf_ingest, shelf_ingest, h_view]
  · -- another one puts nothing on this shelf
    intro p call h_user h_other
    rw [shelf_ingest, if_neg]
    rwa [collection_eq_iff (h_apart _ h_user _ h_ctx)]

/-- **Each user has a provider to themselves**: for users whose scopes are apart, retrievals, and
calls of `ingest` into a collection, go as if only the calls into that collection by users of that
scope had been made before. -/
theorem retrieval_isolated [LinearOrder R] (parts : Components α R) {users : Set RunContext}
    (h_apart : ∀ u ∈ users, ∀ u' ∈ users, Apart parts.config.scopeLevel u u')
    {calls : List (IngestCall α)} (h_calls : ∀ call ∈ calls, call.ctx ∈ users) {ctx : RunContext}
    (h_ctx : ctx ∈ users) :
    (∀ query k, parts.retrieve (parts.after calls) ctx query k =
      parts.retrieve (parts.after (calls.filter (parts.Shares ctx none))) ctx query k) ∧
    ∀ documents collection,
      (parts.ingest (parts.after calls) ⟨ctx, documents, collection⟩).1 =
        (parts.ingest (parts.after (calls.filter (parts.Shares ctx collection)))
          ⟨ctx, documents, collection⟩).1 := by
  constructor
  · exact retrieve_congr (shelf_after h_apart h_calls h_ctx none)
  · intro documents collection
    exact ingest_congr (shelf_after h_apart h_calls h_ctx collection)

/-- Texts are embedded by their length, and kept whole. -/
def byLength (hybrid : Bool) : Components ℚ ℚ where
  config := { retrieval := { hybrid } }
  embed s := [(s.length : ℚ), 1]
  chunk s := [⟨s, s, [], none⟩]
  rerank _ cs k := InMemoryVectorStore.upTo k cs
  score x y := (List.zipWith (· * ·) x y).sum
  lower := id
  round := id

/-- A tenant whose key spells the name as one piece. -/
def tenant (name : String) : RunContext := { tenantId := some name }

/-- Two tenants that ingest in turn. -/
def twoTenants : List (IngestCall ℚ) :=
  [⟨tenant "acme", [.text "red fox"], none⟩, ⟨tenant "globex", [.text "blue fox"], none⟩,
    ⟨tenant "acme", [.text "ant"], some "rag"⟩]

/-- The scopes of two tenants are apart. -/
theorem apart_twoTenants : ∀ u ∈ ({tenant "acme", tenant "globex"} : Set RunContext),
    ∀ u' ∈ ({tenant "acme", tenant "globex"} : Set RunContext), Apart .tenant u u' := by
  have h_plain : ∀ name ∈ ["acme", "globex"], PlainScope .tenant (tenant name) := by
    intro name h_name field h_field
    simp only [ScopeLevel.fields, List.mem_cons, List.not_mem_nil, or_false] at h_field h_name
    subst h_field
    rcases h_name with rfl | rfl <;>
      exact ⟨_, rfl, by decide +kernel, by decide, by decide, by decide⟩
  rintro u (rfl | rfl) u' (rfl | rfl) <;>
    exact apart_of_plain (h_plain _ (by simp)) (h_plain _ (by simp))

/-- The calls are those of the two tenants. -/
theorem users_twoTenants :
    ∀ call ∈ twoTenants, call.ctx ∈ ({tenant "acme", tenant "globex"} : Set RunContext) := by
  intro call h_call
  simp only [twoTenants, List.mem_cons, List.not_mem_nil, or_false] at h_call
  rcases h_call with rfl | rfl | rfl <;> simp

/-- Two tenants: what one finds does not depend on the other. -/
theorem retrieval_isolated_twoTenants :
    (byLength true).retrieve ((byLength true).after twoTenants) (tenant "acme") "fox" 5 =
      (byLength true).retrieve
        ((byLength true).after (twoTenants.filter ((byLength true).Shares (tenant "acme") none)))
        (tenant "acme") "fox" 5 :=
  (retrieval_isolated (byLength true) apart_twoTenants users_twoTenants (Set.mem_insert _ _)).1
    "fox" 5

example : ((byLength true).retrieve ((byLength true).after twoTenants) (tenant "acme") "fox").map
    (List.map DocumentChunk.text) = .ok ["red fox", "ant"] := by decide +kernel

/-! ### What the shelves hold -/

/-- Embeddings of one dimension: those that are made, and those that come with a chunk. -/
structure Uniform (parts : Components α R) (d : ℕ) (calls : List (IngestCall α)) : Prop where
  pos : 0 < d
  made : ∀ s, (parts.embed s).length = d
  given : ∀ call ∈ calls, ∀ c ∈ call.documents.flatMap parts.pieces,
    c.vector ≠ [] → c.vector.length = d

/-- The batches of the calls into a collection, one after the other. -/
def held (parts : Components α R) (calls : List (IngestCall α)) (col : String) :
    List (DocumentChunk α) :=
  (calls.filter fun call => parts.collection call.ctx call.collection = col).flatMap parts.batch

variable {d : ℕ} {calls : List (IngestCall α)}

/-- The dimension of a batch is that of its first vector. -/
theorem batchDim_append (cs cs' : List (DocumentChunk α)) :
    batchDim (cs ++ cs') = (batchDim cs).or (batchDim cs') := by
  induction cs with
  | nil => rfl
  | cons c cs ih =>
    rw [List.cons_append, batchDim, batchDim]
    split_ifs
    · exact ih
    · rfl

/-- In a batch of one dimension it is this one. -/
theorem mem_batchDim {cs : List (DocumentChunk α)} (h : ∀ c ∈ cs, c.vector.length = d) {d' : ℕ}
    (h_d : d' ∈ batchDim cs) : d' = d := by
  induction cs with
  | nil => cases h_d
  | cons c cs ih =>
    obtain ⟨h_c, h_cs⟩ := List.forall_mem_cons.mp h
    rw [batchDim] at h_d
    split_ifs at h_d
    · exact ih h_cs h_d
    · rw [← h_c]
      exact (Option.some.inj h_d).symm

/-- Every chunk of a batch has its embedding. -/
theorem Uniform.batch (h : Uniform parts d calls) {call : IngestCall α} (h_call : call ∈ calls) :
    ∀ c ∈ parts.batch call, c.vector.length = d := by
  intro c h_c
  obtain ⟨b, h_b, rfl⟩ := List.mem_map.mp h_c
  unfold fill
  split_ifs with h_none
  · exact h.made b.text
  · exact h.given call h_call b h_b h_none

/-- Each chunk that is held has the one dimension. -/
theorem Uniform.held (h : Uniform parts d calls) (col : String) :
    ∀ c ∈ parts.held calls col, c.vector.length = d := by
  intro c h_c
  obtain ⟨call, h_call, h_c⟩ := List.mem_flatMap.mp h_c
  exact h.batch (List.mem_of_mem_filter h_call) c h_c

theorem Uniform.of_append {calls' : List (IngestCall α)}
    (h : Uniform parts d (calls ++ calls')) : Uniform parts d calls :=
  ⟨h.pos, h.made, fun call h_call => h.given call (List.mem_append_left _ h_call)⟩

/-- **The shelves after a run**: every call was taken, and both stores have all of its chunks. -/
theorem Uniform.shelf_after (h : Uniform parts d calls) (col : String) :
    shelf col (parts.after calls) =
      (parts.held calls col, batchDim (parts.held calls col), parts.held calls col) := by
  induction calls using List.reverseRecOn with
  | nil => rfl
  | append_singleton calls call ih =>
    have h_batch := h.batch (List.mem_append_right calls (List.mem_singleton_self call))
    -- the call adds its batch to its own collection
    have h_held : parts.held (calls ++ [call]) col = parts.held calls col ++
        if parts.collection call.ctx call.collection = col then parts.batch call else [] := by
      unfold Components.held
      rw [List.filter_append, List.flatMap_append]
      congr 1
      split_ifs with h_col <;> simp [h_col]
    rw [after, List.foldl_concat, shelf_ingest, h_held]
    change (if _ then grow _ (shelf col (parts.after calls)) else shelf col (parts.after calls)) = _
    rw [ih h.of_append]
    split_ifs with h_col
    · -- one dimension for all
      rw [grow, if_pos, batchDim_append]
      intro d₁ h_d₁ d₂ h_d₂
      rw [mem_batchDim (h.of_append.held col) h_d₁, mem_batchDim h_batch h_d₂]
    · rw [List.append_nil]

/-! ### What a retrieval finds -/

variable [LinearOrder R]

/-- The chunks of a collection from the highest score down. -/
def ranking (parts : Components α R) (query : String) (cs : List (DocumentChunk α)) :
    List (DocumentChunk α) :=
  cs.insertionSort fun c c' =>
    parts.score (parts.embed query) c'.vector ≤ parts.score (parts.embed query) c.vector

theorem ranking_perm (parts : Components α R) (query : String) (cs : List (DocumentChunk α)) :
    (parts.ranking query cs).Perm cs :=
  List.perm_insertionSort _ cs

/-- The ranking is by falling score. -/
theorem ranking_sorted (parts : Components α R) (query : String) (cs : List (DocumentChunk α)) :
    (parts.ranking query cs).Pairwise fun c c' =>
      parts.score (parts.embed query) c'.vector ≤ parts.score (parts.embed query) c.vector := by
  have : Std.Total fun c c' : DocumentChunk α =>
      parts.score (parts.embed query) c'.vector ≤ parts.score (parts.embed query) c.vector :=
    ⟨fun _ _ => le_total _ _⟩
  have : IsTrans (DocumentChunk α) fun c c' =>
      parts.score (parts.embed query) c'.vector ≤ parts.score (parts.embed query) c.vector :=
    ⟨fun _ _ _ h h' => h'.trans h⟩
  exact List.pairwise_insertionSort _ cs

/-- The answer of the vector store. -/
theorem Uniform.search_eq (h : Uniform parts d calls) (col query : String) (k : ℤ) :
    (parts.after calls).store.search parts.score col (parts.embed query) k =
      .ok (InMemoryVectorStore.upTo k (parts.ranking query (parts.held calls col))) := by
  obtain ⟨h_chunks, h_rest⟩ := Prod.mk.inj (h.shelf_after col)
  have h_dims := (Prod.mk.inj h_rest).1
  -- a positive dimension: no chunk held has an empty vector
  have h_all : embedded (parts.held calls col) = parts.held calls col := by
    refine List.filter_eq_self.mpr fun c h_c => ?_
    have h_length := h.held col c h_c
    have h_pos := h.pos
    cases h_vector : c.vector with
    | nil => simp [h_vector] at h_length; omega
    | cons x xs => rfl
  have h_query : (parts.after calls).store.Suits col (parts.embed query) := by
    intro d' h_d'
    rw [h_dims] at h_d'
    rw [h.made, mem_batchDim (h.held col) h_d']
  have h_scored : (parts.after calls).store.scored parts.score col (parts.embed query) =
      .ok ((parts.held calls col).map fun c => (c, parts.score (parts.embed query) c.vector)) := by
    have h_lengths : ∀ c ∈ embedded ((parts.after calls).store.chunks col),
        c.vector.length = (parts.embed query).length := by
      intro c h_c
      rw [h_chunks, h_all] at h_c
      exact (h.held col c h_c).trans (h.made query).symm
    rw [InMemoryVectorStore.scored_eq parts.score h_lengths, h_chunks, h_all]
  -- sorting the pairs by their scores sorts the chunks
  have h_sort := List.map_insertionSort
    (fun c c' : DocumentChunk α =>
      parts.score (parts.embed query) c'.vector ≤ parts.score (parts.embed query) c.vector)
    (fun x y : DocumentChunk α × R => y.2 ≤ x.2)
    (fun c => (c, parts.score (parts.embed query) c.vector)) (parts.held calls col)
    (fun _ _ _ _ => Iff.rfl)
  rw [InMemoryVectorStore.search, InMemoryVectorStore.checkQuery_eq_ok.mpr h_query, h_scored]
  show Except.ok ((InMemoryVectorStore.upTo k _).map Prod.fst) = _
  rw [← h_sort, ← InMemoryVectorStore.map_upTo, List.map_map]
  exact congrArg (fun cs => Except.ok (InMemoryVectorStore.upTo k cs)) (List.map_id _)

omit [LinearOrder R] in
/-- At least as many candidates are asked for as are returned. -/
theorem candidateK_ge (parts : Components α R) (k : ℤ) : k ≤ parts.candidateK k := by
  unfold candidateK
  simp only
  split_ifs
  · exact le_max_of_le_left (le_max_left _ _)
  · exact le_max_left _ _

omit [LinearOrder R] in
/-- The own calls of a user are those into the collection. -/
theorem held_eq {users : Set RunContext}
    (h_apart : ∀ u ∈ users, ∀ u' ∈ users, Apart parts.config.scopeLevel u u')
    (h_calls : ∀ call ∈ calls, call.ctx ∈ users) {ctx : RunContext} (h_ctx : ctx ∈ users) :
    parts.held calls (parts.collection ctx none) =
      (calls.filter (parts.Shares ctx none)).flatMap parts.batch := by
  unfold held
  congr 1
  refine List.filter_congr fun call h_call => ?_
  exact decide_eq_decide.mpr (collection_eq_iff (h_apart _ (h_calls call h_call) _ h_ctx))

/-- **A dense retrieval is exact**: it is the top of a ranking, by score, of all chunks that the
user's own calls have brought. -/
theorem retrieval_exact {users : Set RunContext}
    (h_apart : ∀ u ∈ users, ∀ u' ∈ users, Apart parts.config.scopeLevel u u')
    (h_calls : ∀ call ∈ calls, call.ctx ∈ users) (h : Uniform parts d calls)
    (h_dense : parts.config.retrieval.hybrid = false)
    (h_plain : parts.config.retrieval.rerank = false) {ctx : RunContext} (h_ctx : ctx ∈ users)
    (query : String) {k : ℤ} (h_k : 0 ≤ k) :
    ∃ ranked : List (DocumentChunk α),
      ranked.Perm ((calls.filter (parts.Shares ctx none)).flatMap parts.batch) ∧
      (ranked.Pairwise fun c c' => parts.score (parts.embed query) c'.vector ≤
        parts.score (parts.embed query) c.vector) ∧
      parts.retrieve (parts.after calls) ctx query k = .ok (ranked.take k.toNat) := by
  refine ⟨parts.ranking query (parts.held calls (parts.collection ctx none)), ?_,
    ranking_sorted parts query _, ?_⟩
  · rw [← held_eq h_apart h_calls h_ctx]
    exact ranking_perm parts query _
  · -- as many candidates as were asked for, at least
    have h_ge := parts.candidateK_ge k
    unfold retrieve
    simp only [h.search_eq, h_dense, h_plain]
    show Except.ok (InMemoryVectorStore.upTo k _) = _
    rw [InMemoryVectorStore.upTo, if_pos h_k, InMemoryVectorStore.upTo, if_pos (h_k.trans h_ge),
      List.take_take, min_eq_left (Int.toNat_le_toNat h_ge)]

/-- All vectors of the example have two dimensions. -/
theorem uniform_twoTenants (hybrid : Bool) : (byLength hybrid).Uniform 2 twoTenants := by
  refine ⟨by decide, fun s => rfl, fun call h_call c h_c h_vector => ?_⟩
  simp only [twoTenants, List.mem_cons, List.not_mem_nil, or_false] at h_call
  rcases h_call with rfl | rfl | rfl <;>
    simp_all [byLength, pieces, DocumentChunk.vector]

/-- Two tenants: the first one finds its own chunk. -/
theorem retrieval_exact_twoTenants :
    ∃ ranked : List (DocumentChunk ℚ),
      ranked.Perm ((twoTenants.filter ((byLength false).Shares (tenant "acme") none)).flatMap
        (byLength false).batch) ∧
      (ranked.Pairwise fun c c' => (byLength false).score ((byLength false).embed "fox") c'.vector ≤
        (byLength false).score ((byLength false).embed "fox") c.vector) ∧
      (byLength false).retrieve ((byLength false).after twoTenants) (tenant "acme") "fox" 1 =
        .ok (ranked.take 1) :=
  retrieval_exact apart_twoTenants users_twoTenants (uniform_twoTenants false) rfl rfl
    (Set.mem_insert _ _) "fox" (by decide)

/-- A reranker gives its chunks another order and cuts them. -/
def Reorders (rerank : String → List (DocumentChunk α) → ℤ → List (DocumentChunk α)) : Prop :=
  ∀ query cs k, ∃ order, order.Perm cs ∧ rerank query cs k = InMemoryVectorStore.upTo k order

/-- What the index of words finds is held. -/
theorem mem_sparse_search {s : InMemorySparseIndex α} {lower : String → String} {round : ℚ → ℚ}
    {col query : String} {k : ℤ} {c : DocumentChunk α} (h : c ∈ s.search lower round col query k) :
    c ∈ s.chunks col := by
  unfold InMemorySparseIndex.search at h
  split_ifs at h with h_empty
  · cases h
  · obtain ⟨⟨r, c⟩, h_found, rfl⟩ := List.mem_map.mp h
    -- what is found was scored
    have h_scored := (InMemoryVectorStore.upTo_sublist k _).subset h_found
    rw [List.mem_insertionSort, List.mem_filterMap] at h_scored
    obtain ⟨b, h_b, h_eq⟩ := h_scored
    unfold InMemorySparseIndex.overlap? at h_eq
    simp only at h_eq
    split_ifs at h_eq
    -- and what is scored is a chunk of the collection
    obtain rfl := (Prod.mk.inj (Option.some.inj h_eq)).2
    exact h_b

theorem upTo_of_length_le {β : Type} {xs : List β} {k : ℤ} (h : (xs.length : ℤ) ≤ k) :
    InMemoryVectorStore.upTo k xs = xs := by
  rw [InMemoryVectorStore.upTo, if_pos (by omega), List.take_of_length_le (by omega)]

/-- **A hybrid retrieval** never raises. It has at most `k` chunks with distinct ids, all brought by
the user's own calls, and where those are no more than `k` it has each of their ids. -/
theorem retrieval_fused {users : Set RunContext}
    (h_apart : ∀ u ∈ users, ∀ u' ∈ users, Apart parts.config.scopeLevel u u')
    (h_calls : ∀ call ∈ calls, call.ctx ∈ users) (h : Uniform parts d calls)
    (h_hybrid : parts.config.retrieval.hybrid = true) (h_rerank : Reorders parts.rerank)
    {ctx : RunContext} (h_ctx : ctx ∈ users) (query : String) {k : ℤ} (h_k : 0 ≤ k) :
    ∃ out, parts.retrieve (parts.after calls) ctx query k = .ok out ∧ (out.length : ℤ) ≤ k ∧
      (out.map DocumentChunk.id).Nodup ∧
      (∀ c ∈ out, c ∈ (calls.filter (parts.Shares ctx none)).flatMap parts.batch) ∧
      ((((calls.filter (parts.Shares ctx none)).flatMap parts.batch).length : ℤ) ≤ k →
        ∀ c ∈ (calls.filter (parts.Shares ctx none)).flatMap parts.batch,
          c.id ∈ out.map DocumentChunk.id) := by
  rw [← held_eq h_apart h_calls h_ctx]
  obtain ⟨-, h_rest⟩ := Prod.mk.inj (h.shelf_after (parts.collection ctx none))
  have h_sparse := (Prod.mk.inj h_rest).2
  have h_ge := parts.candidateK_ge k
  set own := parts.held calls (parts.collection ctx none) with h_own
  set dense := InMemoryVectorStore.upTo (parts.candidateK k) (parts.ranking query own) with h_dense
  set words := (parts.after calls).sparse.search parts.lower parts.round
    (parts.collection ctx none) query (parts.candidateK k) with h_words
  obtain ⟨f, h_reads, h_fused⟩ := fusion_eq parts.round (k := 60) (by decide) [dense, words]
  obtain ⟨fused, h_out, h_ids, h_latest⟩ := h_fused (parts.candidateK k)
  -- both answers are from what is held
  have h_found : ∀ c ∈ [dense, words].flatten, c ∈ own := by
    intro c h_c
    simp only [List.flatten_cons, List.flatten_nil, List.append_nil, List.mem_append] at h_c
    rcases h_c with h_c | h_c
    · exact (ranking_perm parts query own).mem_iff.mp
        ((InMemoryVectorStore.upTo_sublist _ _).subset h_c)
    · exact h_sparse ▸ mem_sparse_search h_c
  have h_nodup : (fused.map DocumentChunk.id).Nodup := by
    rw [h_ids]
    exact (InMemoryVectorStore.upTo_sublist _ _).nodup h_reads.nodup_ordered
  obtain ⟨order, h_order, h_cut⟩ : ∃ order, order.Perm fused ∧
      (if parts.config.retrieval.rerank then parts.rerank query fused k
        else InMemoryVectorStore.upTo k fused) = InMemoryVectorStore.upTo k order := by
    split_ifs
    · exact h_rerank query fused k
    · exact ⟨fused, List.Perm.refl _, rfl⟩
  refine ⟨InMemoryVectorStore.upTo k order, ?_, InMemoryVectorStore.length_upTo_le h_k order,
    ?_, fun c h_c => ?_, fun h_room c h_c => ?_⟩
  · unfold retrieve
    simp only [h.search_eq, h_hybrid, if_true, ← h_own, ← h_dense, ← h_words, h_out]
    rw [h_cut]
  · exact ((InMemoryVectorStore.upTo_sublist k order).map DocumentChunk.id).nodup
      ((h_order.map DocumentChunk.id).nodup_iff.mpr h_nodup)
  · have h_mem := h_order.mem_iff.mp ((InMemoryVectorStore.upTo_sublist k order).subset h_c)
    exact h_found c (mem_of_latest? (h_latest c h_mem))
  · -- nothing is cut off: neither among the candidates nor behind
    have h_all : dense = parts.ranking query own :=
      upTo_of_length_le (by rw [(ranking_perm parts query own).length_eq]; omega)
    have h_ordered : (f.ordered.length : ℤ) ≤ k := by
      have h_sub : f.ordered ⊆ own.map DocumentChunk.id := by
        intro x h_x
        obtain ⟨b, h_b, rfl⟩ := List.mem_map.mp (h_reads.mem_ordered.mp h_x)
        exact List.mem_map_of_mem (h_found b h_b)
      have h_length := (h_reads.nodup_ordered.subperm h_sub).length_le
      rw [List.length_map] at h_length
      omega
    have h_length : (order.length : ℤ) ≤ k := by
      rw [h_order.length_eq, ← List.length_map (f := DocumentChunk.id), h_ids,
        upTo_of_length_le (h_ordered.trans h_ge)]
      exact h_ordered
    rw [upTo_of_length_le h_length, (h_order.map DocumentChunk.id).mem_iff, h_ids,
      upTo_of_length_le (h_ordered.trans h_ge), h_reads.mem_ordered]
    refine List.mem_map_of_mem ?_
    rw [h_all]
    exact List.mem_append_left _ ((ranking_perm parts query own).mem_iff.mpr h_c)

/-- Two tenants with the hybrid search: the first one finds its own chunk. -/
theorem retrieval_fused_twoTenants :
    ∃ out, (byLength true).retrieve ((byLength true).after twoTenants) (tenant "acme") "fox" 5 =
        .ok out ∧ (out.map DocumentChunk.id).Nodup ∧ "ant" ∈ out.map DocumentChunk.id := by
  have h_reorders : Reorders (byLength true).rerank := fun _ cs _ => ⟨cs, List.Perm.refl cs, rfl⟩
  obtain ⟨out, h_out, -, h_nodup, -, h_room⟩ :=
    retrieval_fused apart_twoTenants users_twoTenants (uniform_twoTenants true) rfl h_reorders
      (Set.mem_insert _ _) "fox" (by decide : (0 : ℤ) ≤ 5)
  refine ⟨out, h_out, h_nodup, ?_⟩
  exact h_room (by decide +kernel) ⟨"ant", "ant", [], some [3, 1]⟩ (by decide +kernel)

end Components

end Nexus.Rag
