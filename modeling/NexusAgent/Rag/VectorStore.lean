import Mathlib
import NexusAgent.Lib.Dict
import NexusAgent.Lib.Json
import NexusAgent.Lib.Steps
import NexusAgent.Lib.Traverse

/-!
# The vector store in memory

`InMemoryVectorStore` of `nexus/rag/memory.py`. The dimension of a batch is read off its first
embedding while all its chunks are stored, and an upsert stores a chunk behind those that have its
id. So a batch with embeddings of two lengths is taken, and a chunk that is stored again is found
twice.

* `upserts_healthy_iff`: the runs in which neither happens are those where the collections stay in
  order.
* `search_of_uneven`: once embeddings of two dimensions are stored, every search raises.
-/

open Lib

namespace Nexus.Rag

/-! ### The store -/

/-- `DocumentChunk`. -/
structure DocumentChunk (α : Type) where
  id : String
  text : String
  metadata : List (String × Json) := []
  embedding : Option (List α) := none
  deriving DecidableEq

/-- The `ValueError`s of the store. -/
inductive MismatchError
  /-- Two vectors, or a query and a collection. -/
  | vectors (left right : ℕ)
  /-- A collection and a batch. -/
  | collection (name : String) (existing dim : ℕ)
  deriving DecidableEq

/-- The text of the error, for the `repr` of a collection's name. -/
def MismatchError.message (reprName : String → String) : MismatchError → String
  | .vectors left right => s!"Embedding dimension mismatch: {left} vs {right}"
  | .collection name existing dim =>
    s!"Embedding dimension mismatch: collection {reprName name} " ++
      s!"has dim {existing}, new chunks have dim {dim}"

/-- `InMemoryVectorStore`. -/
structure InMemoryVectorStore (α : Type) where
  data : Dict String (List (DocumentChunk α)) := []
  dims : Dict String ℕ := []
  deriving DecidableEq

variable {α R : Type}

/-- `chunk.embedding or []`: a chunk has an embedding when this is not empty. -/
def DocumentChunk.vector (c : DocumentChunk α) : List α := c.embedding.getD []

/-- The dimension of a batch: that of the first embedding in it. -/
def batchDim : List (DocumentChunk α) → Option ℕ
  | [] => none
  | c :: cs => if c.vector = [] then batchDim cs else some c.vector.length

namespace InMemoryVectorStore

/-- The chunks of a collection. -/
def chunks (s : InMemoryVectorStore α) (collection : String) : List (DocumentChunk α) :=
  (s.data.get? collection).getD []

/-- The error with which `upsert` rejects a batch. -/
def mismatch? (s : InMemoryVectorStore α) (collection : String) (batch : List (DocumentChunk α)) :
    Option MismatchError :=
  match s.dims.get? collection, batchDim batch with
  | some existing, some dim =>
    if existing ≠ dim then some (.collection collection existing dim) else none
  | _, _ => none

/-- `InMemoryVectorStore.upsert`. -/
def upsert (s : InMemoryVectorStore α) (collection : String) (batch : List (DocumentChunk α)) :
    Except MismatchError Unit × InMemoryVectorStore α :=
  match s.mismatch? collection batch with
  | some e => (.error e, s)
  | none =>
    (.ok (),
      { data := s.data.set collection (s.chunks collection ++ batch)
        dims := match batchDim batch with
          | some dim => s.dims.set collection dim
          | none => s.dims })

/-- `_cosine`, with the arithmetic for vectors of one length as `score`. -/
def cosine (score : List α → List α → R) (a b : List α) : Except MismatchError R :=
  if a.length ≠ b.length then .error (.vectors a.length b.length) else .ok (score a b)

/-- `xs[:k]`. -/
def upTo {β : Type} (k : ℤ) (xs : List β) : List β :=
  if 0 ≤ k then xs.take k.toNat else xs.take (xs.length - k.natAbs)

/-- The test of a query against the dimension of its collection. -/
def checkQuery (s : InMemoryVectorStore α) (collection : String) (query : List α) :
    Except MismatchError Unit :=
  match s.dims.get? collection with
  | some expected =>
    if query.length ≠ expected then .error (.vectors query.length expected) else .ok ()
  | none => .ok ()

/-- The chunks with an embedding, each with its score. -/
def scored (score : List α → List α → R) (s : InMemoryVectorStore α) (collection : String)
    (query : List α) : Except MismatchError (List (DocumentChunk α × R)) :=
  ((s.chunks collection).filter fun c => !c.vector.isEmpty).mapM fun c =>
    (cosine score query c.vector).map fun r => (c, r)

/-- `InMemoryVectorStore.search`: the sort is stable, from the highest score down. -/
def search [LinearOrder R] (score : List α → List α → R) (s : InMemoryVectorStore α)
    (collection : String) (query : List α) (k : ℤ := 5) :
    Except MismatchError (List (DocumentChunk α)) := do
  s.checkQuery collection query
  let items ← s.scored score collection query
  return (upTo k (items.insertionSort fun x y => y.2 ≤ x.2)).map Prod.fst

end InMemoryVectorStore

/-! ### Versions of a chunk -/

/-- The version of a chunk that was stored last. -/
def latest? (id : String) : List (DocumentChunk α) → Option (DocumentChunk α)
  | [] => none
  | c :: cs => (latest? id cs).or (if c.id = id then some c else none)

/-- The chunks that a search scores. -/
abbrev embedded (cs : List (DocumentChunk α)) : List (DocumentChunk α) :=
  cs.filter fun c => !c.vector.isEmpty

/-- No chunk with an embedding stands before another with its id. -/
def Fresh (cs : List (DocumentChunk α)) : Prop :=
  cs.Pairwise fun c c' => c.vector ≠ [] → c.id ≠ c'.id

theorem mem_embedded {cs : List (DocumentChunk α)} {c : DocumentChunk α} :
    c ∈ embedded cs ↔ c ∈ cs ∧ c.vector ≠ [] := by
  simp [embedded]

/-- An id without a chunk has no latest one. -/
theorem latest?_eq_none {id : String} {cs : List (DocumentChunk α)} :
    latest? id cs = none ↔ ∀ c ∈ cs, c.id ≠ id := by
  induction cs with
  | nil => simp [latest?]
  | cons c cs ih =>
    rw [latest?, Option.or_eq_none_iff, ih, List.forall_mem_cons, and_comm]
    simp

/-- The latest chunk of an id is one of the chunks. -/
theorem mem_of_latest? {id : String} {cs : List (DocumentChunk α)} {c : DocumentChunk α}
    (h : latest? id cs = some c) : c ∈ cs := by
  induction cs with
  | nil => cases h
  | cons b cs ih =>
    rw [latest?, Option.or_eq_some_iff] at h
    rcases h with h | ⟨-, h⟩
    · exact List.mem_cons_of_mem b (ih h)
    · split_ifs at h
      exact Option.some.inj h ▸ List.mem_cons_self

/-- A chunk that is stored has a latest version behind it or is it. -/
theorem latest?_cons_of_mem {cs : List (DocumentChunk α)} {b c : DocumentChunk α} (h : c ∈ cs) :
    latest? c.id (b :: cs) = latest? c.id cs := by
  have h_some : latest? c.id cs ≠ none := fun h_none => latest?_eq_none.mp h_none c h rfl
  obtain ⟨c', h_c'⟩ := Option.ne_none_iff_exists'.mp h_some
  rw [latest?, h_c', Option.some_or]

/-- **A collection without old versions**: what a search scores are chunks of distinct ids, each the
latest version of its id. -/
theorem fresh_iff {cs : List (DocumentChunk α)} :
    Fresh cs ↔
      ((embedded cs).map DocumentChunk.id).Nodup ∧ ∀ c ∈ embedded cs, latest? c.id cs = some c := by
  induction cs with
  | nil => simp [Fresh]
  | cons b cs ih =>
    have h_rest : (∀ c ∈ embedded cs, latest? c.id (b :: cs) = some c) ↔
        ∀ c ∈ embedded cs, latest? c.id cs = some c :=
      forall₂_congr fun c h_c => by rw [latest?_cons_of_mem (mem_embedded.mp h_c).1]
    have h_cons : Fresh (b :: cs) ↔ (∀ c ∈ cs, b.vector ≠ [] → b.id ≠ c.id) ∧ Fresh cs :=
      List.pairwise_cons
    rw [h_cons, ih]
    by_cases h_b : b.vector = []
    · have h_drop : embedded (b :: cs) = embedded cs := List.filter_cons_of_neg (by simp [h_b])
      simp only [h_drop, h_rest, h_b, ne_eq, not_true_eq_false, false_implies, implies_true,
        true_and]
    · have h_keep : embedded (b :: cs) = b :: embedded cs := List.filter_cons_of_pos (by simp [h_b])
      rw [h_keep, List.map_cons, List.nodup_cons, List.forall_mem_cons, h_rest]
      constructor
      · rintro ⟨h_ids, h_nodup, h_latest⟩
        have h_none : latest? b.id cs = none :=
          latest?_eq_none.mpr fun c h_c h_eq => h_ids c h_c h_b h_eq.symm
        refine ⟨⟨fun h_mem => ?_, h_nodup⟩, by rw [latest?, h_none]; simp, h_latest⟩
        obtain ⟨c, h_c, h_eq⟩ := List.mem_map.mp h_mem
        exact h_ids c (mem_embedded.mp h_c).1 h_b h_eq.symm
      · rintro ⟨⟨h_new, h_nodup⟩, h_own, h_latest⟩
        refine ⟨fun c h_c _ h_eq => ?_, h_nodup, h_latest⟩
        -- the latest version of `b.id` would be `b` once more, behind itself
        rw [h_eq, latest?_cons_of_mem h_c] at h_own
        exact h_new (List.mem_map.mpr ⟨b, mem_embedded.mpr ⟨mem_of_latest? h_own, h_b⟩, rfl⟩)

/-! ### Searches -/

namespace InMemoryVectorStore

variable {s : InMemoryVectorStore α} {collection : String} {query : List α}

/-- The embeddings of a collection have its recorded dimension. -/
def Even (s : InMemoryVectorStore α) (collection : String) : Prop :=
  ∀ c ∈ s.chunks collection, c.vector ≠ [] → s.dims.get? collection = some c.vector.length

/-- A query has the dimension of a collection, if one is recorded. -/
def Suits (s : InMemoryVectorStore α) (collection : String) (query : List α) : Prop :=
  ∀ d, s.dims.get? collection = some d → query.length = d

/-- A query passes the check if its dimension is that of the collection. -/
theorem checkQuery_eq_ok : s.checkQuery collection query = .ok () ↔ s.Suits collection query := by
  unfold checkQuery Suits
  cases s.dims.get? collection with
  | none => simp
  | some d =>
    by_cases h : query.length = d <;> simp [h]

/-- A slice keeps the order. -/
theorem upTo_sublist {β : Type} (k : ℤ) (xs : List β) : (upTo k xs).Sublist xs := by
  unfold upTo
  split_ifs
  · exact List.take_sublist _ _
  · exact List.take_sublist _ _

theorem length_upTo_le {β : Type} {k : ℤ} (h : 0 ≤ k) (xs : List β) :
    ((upTo k xs).length : ℤ) ≤ k := by
  rw [upTo, if_pos h, List.length_take]
  omega

theorem upTo_length {β : Type} (xs : List β) : upTo (xs.length : ℤ) xs = xs := by
  rw [upTo, if_pos (Int.natCast_nonneg _), Int.toNat_natCast, List.take_length]

/-- Embeddings of the query's dimension are all scored. -/
theorem scored_eq (score : List α → List α → R)
    (h : ∀ c ∈ embedded (s.chunks collection), c.vector.length = query.length) :
    s.scored score collection query =
      .ok ((embedded (s.chunks collection)).map fun c => (c, score query c.vector)) := by
  refine mapM_ok_iff.mpr (List.forall₂_map_right_iff.mpr (List.forall₂_same.mpr ?_))
  intro c h_c
  rw [cosine, if_neg (not_not.mpr (h c h_c).symm)]
  rfl

variable [LinearOrder R] {score : List α → List α → R}

/-- **A search of a collection whose embeddings have its dimension** cuts off a permutation of the
chunks with an embedding. -/
theorem search_spec (score : List α → List α → R) (h : s.Even collection)
    (h_query : s.Suits collection query) (k : ℤ) :
    ∃ found, found.Perm (embedded (s.chunks collection)) ∧
      s.search score collection query k = .ok (upTo k found) := by
  -- all vectors are as long as the query
  have h_length : ∀ c ∈ embedded (s.chunks collection), c.vector.length = query.length :=
    fun c h_c => (h_query _ (h c (mem_embedded.mp h_c).1 (mem_embedded.mp h_c).2)).symm
  let items := (embedded (s.chunks collection)).map fun c => (c, score query c.vector)
  refine ⟨(items.insertionSort fun x y => y.2 ≤ x.2).map Prod.fst, ?_, ?_⟩
  · -- sorting by score keeps the chunks
    calc ((items.insertionSort fun x y => y.2 ≤ x.2).map Prod.fst).Perm (items.map Prod.fst) :=
          (List.perm_insertionSort _ items).map Prod.fst
      _ = embedded (s.chunks collection) := by
          rw [List.map_map]
          exact List.map_id _
  · -- cutting and forgetting the scores commute
    have h_cut : ∀ xs : List (DocumentChunk α × R),
        (upTo k xs).map Prod.fst = upTo k (xs.map Prod.fst) := by
      intro xs
      unfold upTo
      split_ifs <;> simp
    rw [search, checkQuery_eq_ok.mpr h_query, scored_eq score h_length, ← h_cut]
    rfl

/-- What a search of a collection has to find, for the chunks that were upserted to it: at most `k`
chunks of distinct ids, each the latest version. -/
def Finds (score : List α → List α → R) (s : InMemoryVectorStore α) (collection : String)
    (upserted : List (DocumentChunk α)) (query : List α) (k : ℤ) : Prop :=
  ∃ found, s.search score collection query k = .ok found ∧ (0 ≤ k → (found.length : ℤ) ≤ k) ∧
    (found.map DocumentChunk.id).Nodup ∧ ∀ c ∈ found, latest? c.id upserted = some c

/-- **A healthy store**: the embeddings of each collection have its recorded dimension, and every
search with a query of that dimension finds what it should. -/
structure Healthy (score : List α → List α → R) (s : InMemoryVectorStore α)
    (upserted : String → List (DocumentChunk α)) : Prop where
  dims : ∀ collection, s.Even collection
  finds : ∀ collection query k, s.Suits collection query →
    s.Finds score collection (upserted collection) query k

/-- The searches of a collection in order find what they should exactly when there are no old
versions in it. -/
theorem finds_iff (h : s.Even collection) :
    (∀ query k, s.Suits collection query →
        s.Finds score collection (s.chunks collection) query k) ↔
      Fresh (s.chunks collection) := by
  rw [fresh_iff]
  constructor
  · intro h_finds
    by_cases h_none : embedded (s.chunks collection) = []
    · rw [h_none]
      exact ⟨List.nodup_nil, fun c h_c => absurd h_c List.not_mem_nil⟩
    · -- an embedding of the collection is a query of its dimension
      obtain ⟨b, h_b⟩ := List.exists_mem_of_ne_nil _ h_none
      have h_query : s.Suits collection b.vector := by
        intro d h_d
        have h_len := h b (mem_embedded.mp h_b).1 (mem_embedded.mp h_b).2
        exact Option.some.inj (h_len.symm.trans h_d)
      obtain ⟨found, h_perm, h_search⟩ := search_spec score h h_query
        (embedded (s.chunks collection)).length
      rw [← h_perm.length_eq, upTo_length] at h_search
      obtain ⟨found', h_found', -, h_nodup, h_latest⟩ := h_finds b.vector found.length h_query
      obtain rfl : found = found' := Except.ok.inj (h_search.symm.trans h_found')
      exact ⟨(h_perm.map DocumentChunk.id).nodup_iff.mp h_nodup,
        fun c h_c => h_latest c (h_perm.mem_iff.mpr h_c)⟩
  · rintro ⟨h_nodup, h_latest⟩ query k h_query
    obtain ⟨found, h_perm, h_search⟩ := search_spec score h h_query k
    have h_sub := upTo_sublist k found
    refine ⟨upTo k found, h_search, fun h_k => length_upTo_le h_k found, ?_, fun c h_c => ?_⟩
    · exact (h_sub.map DocumentChunk.id).nodup
        ((h_perm.map DocumentChunk.id).nodup_iff.mpr h_nodup)
    · exact h_latest c (h_perm.mem_iff.mp (h_sub.subset h_c))

/-- **Health, read off the store.** -/
theorem healthy_iff {upserted : String → List (DocumentChunk α)} (h : s.chunks = upserted) :
    s.Healthy score upserted ↔
      ∀ collection, s.Even collection ∧ Fresh (s.chunks collection) := by
  subst h
  constructor
  · intro h collection
    exact ⟨h.dims collection, (finds_iff (h.dims collection)).mp (h.finds collection)⟩
  · intro h
    exact ⟨fun collection => (h collection).1,
      fun collection => (finds_iff (h collection).1).mpr (h collection).2⟩

/-! ### One upsert -/

/-- Whether a collection is even depends on its own chunks and dimension. -/
theorem Even.congr {t : InMemoryVectorStore α}
    (h_dims : t.dims.get? collection = s.dims.get? collection)
    (h_chunks : t.chunks collection = s.chunks collection) :
    t.Even collection ↔ s.Even collection := by
  rw [Even, Even, h_dims, h_chunks]

/-- A batch whose embeddings have the dimension it is taken to have. -/
def EvenBatch (batch : List (DocumentChunk α)) : Prop :=
  ∀ c ∈ batch, c.vector ≠ [] → batchDim batch = some c.vector.length

/-- **When an upsert keeps a collection in order**: it is rejected, or its embeddings are of one
length and no chunk with an embedding, stored or in the batch, stands before another with its id. -/
def Clean (s : InMemoryVectorStore α) (collection : String) (batch : List (DocumentChunk α)) :
    Prop :=
  s.mismatch? collection batch = none → EvenBatch batch ∧ Fresh (s.chunks collection ++ batch)

theorem upsert_of_mismatch {batch : List (DocumentChunk α)} {e : MismatchError}
    (h : s.mismatch? collection batch = some e) : s.upsert collection batch = (.error e, s) := by
  rw [upsert, h]

theorem fst_upsert_of_accepted {batch : List (DocumentChunk α)}
    (h : s.mismatch? collection batch = none) : (s.upsert collection batch).1 = .ok () := by
  rw [upsert, h]

/-- The chunks of an accepted batch stand behind those of their collection. -/
theorem chunks_upsert {batch : List (DocumentChunk α)} (h : s.mismatch? collection batch = none)
    (c : String) :
    (s.upsert collection batch).2.chunks c =
      s.chunks c ++ if collection = c then batch else [] := by
  rw [upsert, h]
  show ((Dict.set s.data collection _).get? c).getD [] = _
  rw [Dict.get?_set]
  split_ifs with h_c
  · rw [h_c, Option.getD_some]
  · rw [List.append_nil, chunks]

/-- A batch matches if its dimension is that of the collection. -/
theorem mismatch?_eq_none {batch : List (DocumentChunk α)} :
    s.mismatch? collection batch = none ↔
      ∀ d d', s.dims.get? collection = some d → batchDim batch = some d' → d = d' := by
  unfold mismatch?
  cases s.dims.get? collection <;> cases batchDim batch <;> simp

/-- The dimension of an accepted batch becomes that of its collection. -/
theorem dim_of_accepted {batch : List (DocumentChunk α)} (h : s.mismatch? collection batch = none)
    {d : ℕ} (h_d : batchDim batch = some d) :
    (s.dims.get? collection).or (batchDim batch) = some d := by
  rw [h_d]
  cases h_dim : s.dims.get? collection with
  | none => rfl
  | some existing => rw [mismatch?_eq_none.mp h existing d h_dim h_d, Option.some_or]

/-- A recorded dimension stays as it is. -/
theorem dims_upsert {batch : List (DocumentChunk α)} (h : s.mismatch? collection batch = none)
    (c : String) :
    (s.upsert collection batch).2.dims.get? c =
      (s.dims.get? c).or (if collection = c then batchDim batch else none) := by
  rw [upsert, h]
  cases h_batch : batchDim batch with
  -- a batch without vectors sets no dimension
  | none => simp
  | some dim =>
    show (Dict.set s.dims collection dim).get? c = _
    rw [Dict.get?_set]
    -- the collection's own dimension, or another one
    split_ifs with h_c
    · subst h_c
      rw [← h_batch, dim_of_accepted h h_batch, h_batch]
    · rw [Option.or_none]

/-- A batch with an embedding has a dimension. -/
theorem exists_batchDim {batch : List (DocumentChunk α)} {c : DocumentChunk α} (h_c : c ∈ batch)
    (h : c.vector ≠ []) : ∃ d, batchDim batch = some d := by
  induction batch with
  | nil => cases h_c
  | cons b batch ih =>
    rw [batchDim]
    split_ifs with h_b
    · rcases List.mem_cons.mp h_c with rfl | h_c
      · exact absurd h_b h
      · exact ih h_c
    · exact ⟨_, rfl⟩

/-- A batch that is accepted into a collection that is even leaves it so exactly when its own
embeddings are of one length. -/
theorem even_upsert_iff {batch : List (DocumentChunk α)} (h : s.mismatch? collection batch = none)
    (h_even : s.Even collection) :
    (s.upsert collection batch).2.Even collection ↔ EvenBatch batch := by
  have h_dims := dims_upsert h collection
  have h_chunks := chunks_upsert h collection
  rw [if_pos rfl] at h_dims h_chunks
  rw [Even, h_dims, h_chunks, List.forall_mem_append]
  constructor
  · -- the first vector sets the dimension, and all agree with it
    rintro ⟨-, h_batch⟩ c h_c h_vector
    obtain ⟨d, h_d⟩ := exists_batchDim h_c h_vector
    rw [h_d, ← dim_of_accepted h h_d]
    exact h_batch c h_c h_vector
  · -- so an even batch is even with what is there
    intro h_batch
    refine ⟨fun c h_c h_vector => ?_, fun c h_c h_vector => ?_⟩
    · rw [h_even c h_c h_vector, Option.some_or]
    · exact dim_of_accepted h (h_batch c h_c h_vector)

/-- **One upsert**: it keeps all collections in order exactly when it is clean. -/
theorem ordered_upsert_iff {batch : List (DocumentChunk α)}
    (h : ∀ c, s.Even c ∧ Fresh (s.chunks c)) :
    (∀ c, (s.upsert collection batch).2.Even c ∧ Fresh ((s.upsert collection batch).2.chunks c)) ↔
      s.Clean collection batch := by
  cases h_mismatch : s.mismatch? collection batch with
  | some e =>
    rw [upsert_of_mismatch h_mismatch]
    exact iff_of_true h fun h_none => absurd (h_mismatch.symm.trans h_none) (by simp)
  | none =>
    -- the other collections are as they were
    have h_other : ∀ c, collection ≠ c →
        (s.upsert collection batch).2.Even c ∧ Fresh ((s.upsert collection batch).2.chunks c) := by
      intro c h_c
      have h_dims := dims_upsert h_mismatch c
      have h_chunks := chunks_upsert h_mismatch c
      rw [if_neg h_c, Option.or_none] at h_dims
      rw [if_neg h_c, List.append_nil] at h_chunks
      rw [Even.congr h_dims h_chunks, h_chunks]
      exact h c
    have h_own := even_upsert_iff h_mismatch (h collection).1
    have h_chunks := chunks_upsert h_mismatch collection
    rw [if_pos rfl] at h_chunks
    constructor
    · intro h_all _
      exact ⟨h_own.mp (h_all collection).1, h_chunks ▸ (h_all collection).2⟩
    · intro h_clean c
      by_cases h_c : collection = c
      · subst h_c
        obtain ⟨h_batch, h_fresh⟩ := h_clean h_mismatch
        exact ⟨h_own.mpr h_batch, h_chunks ▸ h_fresh⟩
      · exact h_other c h_c

end InMemoryVectorStore

/-! ### Runs of upserts -/

open InMemoryVectorStore

/-- A call of `upsert`. -/
structure Upsert (α : Type) where
  collection : String
  batch : List (DocumentChunk α)

/-- The store after a call. -/
def InMemoryVectorStore.after (s : InMemoryVectorStore α) (u : Upsert α) : InMemoryVectorStore α :=
  (s.upsert u.collection u.batch).2

/-- The store after calls of `upsert`, from an empty one. -/
def storeAfter (us : List (Upsert α)) : InMemoryVectorStore α := us.foldl after {}

/-- The calls that are accepted. -/
def acceptedFrom : InMemoryVectorStore α → List (Upsert α) → List (Upsert α)
  | _, [] => []
  | s, u :: us =>
    match (s.upsert u.collection u.batch).1 with
    | .ok _ => u :: acceptedFrom (s.after u) us
    | .error _ => acceptedFrom (s.after u) us

/-- The chunks that were upserted to a collection, in order. -/
def upserted (us : List (Upsert α)) (collection : String) : List (DocumentChunk α) :=
  (acceptedFrom {} us).flatMap fun u => if u.collection = collection then u.batch else []

theorem storeAfter_concat (us : List (Upsert α)) (u : Upsert α) :
    storeAfter (us ++ [u]) = (storeAfter us).after u := by
  rw [storeAfter, List.foldl_append]
  rfl

/-- A collection is what was upserted to it. -/
theorem chunks_foldl (us : List (Upsert α)) (s : InMemoryVectorStore α) (c : String) :
    (us.foldl after s).chunks c =
      s.chunks c ++
        (acceptedFrom s us).flatMap fun u => if u.collection = c then u.batch else [] := by
  induction us generalizing s with
  | nil => exact (List.append_nil _).symm
  | cons u us ih =>
    rw [List.foldl_cons, ih, acceptedFrom]
    cases h : s.mismatch? u.collection u.batch with
    -- refused: nothing is added
    | some e =>
      rw [after, upsert_of_mismatch h]
    -- accepted: the batch is added
    | none =>
      rw [after, fst_upsert_of_accepted h, chunks_upsert h, List.flatMap_cons, List.append_assoc]

theorem chunks_storeAfter (us : List (Upsert α)) : (storeAfter us).chunks = upserted us := by
  funext c
  exact chunks_foldl us {} c

/-- **What holds in a run of upserts**: the store is healthy all along, and a rejected call leaves
it as it was. -/
structure KeepsOrder [LinearOrder R] (score : List α → List α → R) (us : List (Upsert α)) :
    Prop where
  healthy : ∀ done, done <+: us → (storeAfter done).Healthy score (upserted done)
  rejected : ∀ done u e, done ++ [u] <+: us →
    ((storeAfter done).upsert u.collection u.batch).1 = .error e →
      storeAfter (done ++ [u]) = storeAfter done

/-- **The runs that keep the collections in order** are those whose every call is clean in the store
it finds. -/
theorem upserts_healthy_iff [LinearOrder R] (score : List α → List α → R) (us : List (Upsert α)) :
    KeepsOrder score us ↔
      ∀ done u, done ++ [u] <+: us → (storeAfter done).Clean u.collection u.batch := by
  have h_rejected : ∀ done (u : Upsert α) e,
      ((storeAfter done).upsert u.collection u.batch).1 = .error e →
        storeAfter (done ++ [u]) = storeAfter done := by
    intro done u e h_e
    cases h : (storeAfter done).mismatch? u.collection u.batch with
    | some e' => rw [storeAfter_concat, after, upsert_of_mismatch h]
    | none =>
      rw [fst_upsert_of_accepted h] at h_e
      cases h_e
  have h_healthy : ∀ done : List (Upsert α), (storeAfter done).Healthy score (upserted done) ↔
      ∀ c, (storeAfter done).Even c ∧ Fresh ((storeAfter done).chunks c) :=
    fun done => healthy_iff (chunks_storeAfter done)
  have h_step : ∀ (done : List (Upsert α)) u, (storeAfter done).Healthy score (upserted done) →
      ((storeAfter (done ++ [u])).Healthy score (upserted (done ++ [u])) ↔
        (storeAfter done).Clean u.collection u.batch) := by
    intro done u h
    rw [h_healthy, storeAfter_concat]
    exact ordered_upsert_iff ((h_healthy done).mp h)
  constructor
  · intro h done u h_pre
    exact (h_step done u (h.healthy done ((List.prefix_append done [u]).trans h_pre))).mp
      (h.healthy _ h_pre)
  · intro h
    refine ⟨fun done => ?_, fun done u e _ => h_rejected done u e⟩
    -- along the calls from the last one backwards
    induction done using List.reverseRecOn with
    | nil =>
      intro _
      exact (h_healthy []).mpr fun c =>
        ⟨fun c h_c => absurd h_c List.not_mem_nil, List.Pairwise.nil⟩
    | append_singleton done u ih =>
      intro h_pre
      exact (h_step done u (ih ((List.prefix_append done [u]).trans h_pre))).mpr (h done u h_pre)

/-- The product of two vectors of whole numbers, as a score. -/
def product (a b : List ℤ) : ℤ := (List.zipWith (· * ·) a b).sum

/-- A batch with embeddings of two lengths. -/
def mixedBatch : List (Upsert ℤ) :=
  [⟨"rag", [{ id := "a", text := "one", embedding := some [1, 0] },
    { id := "b", text := "two", embedding := some [0, 1, 0] }]⟩]

/-- A chunk in two versions. -/
def twoVersions : List (Upsert ℤ) :=
  [⟨"rag", [{ id := "a", text := "old", embedding := some [1, 0] }]⟩,
    ⟨"rag", [{ id := "a", text := "new", embedding := some [1, 0] }]⟩]

/-- After a mixed batch a query of the recorded dimension raises. -/
theorem search_mixedBatch :
    (storeAfter mixedBatch).search product "rag" [1, 0] = .error (.vectors 2 3) ∧
      (storeAfter mixedBatch).Suits "rag" [1, 0] := by
  refine ⟨by decide +kernel, fun d h_d => ?_⟩
  obtain rfl : 2 = d := Option.some.inj h_d
  rfl

/-- A mixed batch is searched with an error, and two versions of a chunk are both found. -/
theorem upserts_healthy_fails :
    ¬ KeepsOrder product mixedBatch ∧ ¬ KeepsOrder product twoVersions := by
  constructor
  · -- the vectors of the mixed batch have two dimensions
    intro h
    obtain ⟨h_search, h_query⟩ := search_mixedBatch
    obtain ⟨found, h_found, -⟩ := (h.healthy _ List.prefix_rfl).finds "rag" [1, 0] 5 h_query
    exact absurd (h_search.symm.trans h_found) (by simp)
  · -- the second version does not replace the first
    intro h
    have h_query : (storeAfter twoVersions).Suits "rag" [1, 0] := fun d h_d =>
      (Option.some.inj h_d : 2 = d)
    obtain ⟨found, h_found, -, h_nodup, -⟩ :=
      (h.healthy _ List.prefix_rfl).finds "rag" [1, 0] 5 h_query
    have h_two : ((storeAfter twoVersions).search product "rag" [1, 0]).map
        (List.map DocumentChunk.id) = .ok ["a", "a"] := by decide +kernel
    rw [h_found] at h_two
    rw [Except.ok.inj h_two] at h_nodup
    exact absurd h_nodup (by decide)

/-- An old version is found, beside the new one and in front of it. -/
example :
    ((storeAfter twoVersions).search product "rag" [1, 0]).map (List.map DocumentChunk.text) =
      .ok ["old", "new"] := by
  decide +kernel

/-! ### After a mixed batch -/

/-- An embedding is stored that does not have the dimension of its collection. -/
def Uneven (s : InMemoryVectorStore α) (collection : String) : Prop :=
  ∃ d, s.dims.get? collection = some d ∧
    ∃ c ∈ s.chunks collection, c.vector ≠ [] ∧ c.vector.length ≠ d

/-- Nothing that is upserted puts a collection in order again. -/
theorem Uneven.after {s : InMemoryVectorStore α} {collection : String} (h : Uneven s collection)
    (u : Upsert α) : Uneven (s.after u) collection := by
  cases h_mismatch : s.mismatch? u.collection u.batch with
  | some e =>
    -- a refused batch changes nothing
    rw [InMemoryVectorStore.after, upsert_of_mismatch h_mismatch]
    exact h
  | none =>
    obtain ⟨d, h_d, c, h_c, h_vector, h_length⟩ := h
    -- an accepted one removes no chunk
    refine ⟨d, ?_, c, ?_, h_vector, h_length⟩
    · rw [InMemoryVectorStore.after, dims_upsert h_mismatch, h_d, Option.some_or]
    · rw [InMemoryVectorStore.after, chunks_upsert h_mismatch]
      exact List.mem_append_left _ h_c

/-- **Once embeddings of two dimensions are stored, every search of the collection raises**,
whatever is upserted later. -/
theorem search_of_uneven [LinearOrder R] (score : List α → List α → R)
    {s : InMemoryVectorStore α} {collection : String} (h : Uneven s collection)
    (us : List (Upsert α)) (query : List α) (k : ℤ) :
    ∃ e, (us.foldl InMemoryVectorStore.after s).search score collection query k = .error e := by
  have h_end : Uneven (us.foldl InMemoryVectorStore.after s) collection := by
    induction us generalizing s with
    | nil => exact h
    | cons u us ih => exact ih (h.after u)
  generalize us.foldl InMemoryVectorStore.after s = t at h_end
  obtain ⟨d, h_d, c, h_c, h_vector, h_length⟩ := h_end
  cases h_search : t.search score collection query k with
  | error e => exact ⟨e, rfl⟩
  | ok found =>
    -- both checks would have to pass, with one query for two lengths
    obtain ⟨⟨⟩, h_check, h_rest⟩ := bind_ok_iff.mp h_search
    obtain ⟨items, h_items, -⟩ := bind_ok_iff.mp h_rest
    have h_query : query.length = d := checkQuery_eq_ok.mp h_check d h_d
    obtain ⟨item, -, h_item⟩ := forall₂_mem (mapM_ok_iff.mp h_items)
      (mem_embedded.mpr ⟨h_c, h_vector⟩)
    rw [cosine, if_pos fun h_eq => h_length (h_eq.symm.trans h_query)] at h_item
    cases h_item

end Nexus.Rag
