import Mathlib
import NexusAgent.Lib.Dict
import NexusAgent.Rag.VectorStore

/-!
# Reciprocal rank fusion

`reciprocal_rank_fusion` of `nexus/rag/fusion.py` adds, for each ranked list that has a chunk, the
reciprocal of its rank to the chunk's score, and puts the chunks in the order of their scores. The
scores are floating-point numbers; all that is used of them is that `+` and `/` are rounded, by a
monotone rounding that keeps what is already rounded.

* `fusion_wellFormed`: the fused list has every id once, up to the cut, each with the version that
  was read last.
* `fusion_dominance`: a chunk that no list ranks behind another comes before it, whatever the
  rounding errors.
-/

open Lib

namespace Nexus.Rag

/-! ### The fusion as written -/

/-- A rounding to floating-point numbers. -/
structure IsRounding (round : ℚ → ℚ) : Prop where
  mono : Monotone round
  idem : ∀ q, round (round q) = round q
  zero : round 0 = 0
  one : round 1 = 1

/-- The dictionaries that the loops of `reciprocal_rank_fusion` fill. -/
structure Fusion (α : Type) where
  scores : Dict String ℚ := []
  listCounts : Dict String ℕ := []
  byId : Dict String (DocumentChunk α) := []
  deriving DecidableEq

variable {α : Type} (round : ℚ → ℚ)

/-- `1.0 / n`, with the `ZeroDivisionError`. -/
def weight? (n : ℤ) : Option ℚ :=
  if n = 0 then none else some (round (1 / round n))

namespace Fusion

/-- The body of the inner loop. -/
def add (f : Fusion α) (chunk : DocumentChunk α) (w : ℚ) : Fusion α where
  byId := f.byId.set chunk.id chunk
  scores := f.scores.set chunk.id (round ((f.scores.get? chunk.id).getD 0 + w))
  listCounts := f.listCounts.set chunk.id ((f.listCounts.get? chunk.id).getD 0 + 1)

/-- The inner loop, from a rank on. -/
def addRanked (k : ℤ) : ℕ → List (DocumentChunk α) → Fusion α → Option (Fusion α)
  | _, [], f => some f
  | rank, chunk :: ranked, f => do
    let w ← weight? round (k + rank)
    addRanked k (rank + 1) ranked (f.add round chunk w)

/-- The outer loop. -/
def addLists (k : ℤ) : List (List (DocumentChunk α)) → Fusion α → Option (Fusion α)
  | [], f => some f
  | ranked :: rankedLists, f => do
    let f ← f.addRanked round k 1 ranked
    addLists k rankedLists f

/-- `scores[cid]`. -/
def score (f : Fusion α) (cid : String) : ℚ := (f.scores.get? cid).getD 0

/-- `list_counts.get(cid, 0)`. -/
def count (f : Fusion α) (cid : String) : ℕ := (f.listCounts.get? cid).getD 0

/-- The pairs that are compared, a pair by its first entry first. -/
def key (f : Fusion α) (cid : String) : ℚ ×ₗ ℕ := toLex (f.score cid, f.count cid)

/-- The ids from the highest key down, equal ones as they were first seen. -/
def ordered (f : Fusion α) : List String :=
  (f.scores.map Prod.fst).insertionSort fun i j => f.key j ≤ f.key i

end Fusion

/-- `reciprocal_rank_fusion`. -/
def reciprocalRankFusion (rankedLists : List (List (DocumentChunk α))) (k : ℤ := 60)
    (topN : ℤ := 50) : Option (List (DocumentChunk α)) := do
  let f ← Fusion.addLists round k rankedLists {}
  (InMemoryVectorStore.upTo topN f.ordered).mapM f.byId.get?

/-! ### What the loops compute -/

/-- The weight of a rank that is no divisor by zero. -/
def weight (n : ℤ) : ℚ := round (1 / round n)

/-- The ranks at which an id stands in a list. -/
def ranksOf (cid : String) : ℕ → List (DocumentChunk α) → List ℕ
  | _, [] => []
  | rank, chunk :: ranked =>
    if chunk.id = cid then rank :: ranksOf cid (rank + 1) ranked else ranksOf cid (rank + 1) ranked

/-- A score after the weights of these ranks. -/
def gain (k : ℤ) (s : ℚ) (ranks : List ℕ) : ℚ :=
  ranks.foldl (fun s (rank : ℕ) => round (s + weight round (k + rank))) s

/-- The ids in the order in which they are first seen. -/
def seen (ids : List String) (chunks : List (DocumentChunk α)) : List String :=
  chunks.foldl (fun ids c => if c.id ∈ ids then ids else ids ++ [c.id]) ids

/-- Setting a key puts it last, if it is new. -/
theorem keys_set {ν : Type} (d : Dict String ν) (i : String) (v : ν) :
    (d.set i v).map Prod.fst =
      if i ∈ d.map Prod.fst then d.map Prod.fst else d.map Prod.fst ++ [i] := by
  induction d with
  | nil => rfl
  | cons p d ih =>
    obtain ⟨j, u⟩ := p
    by_cases h_eq : j = i
    · simp [Dict.set, h_eq]
    · simp only [Dict.set, if_neg h_eq, List.map_cons, ih, List.mem_cons, Ne.symm h_eq, false_or]
      split_ifs <;> simp

/-- The latest version is that of the later list, if it has one. -/
theorem latest?_append (x : String) (cs cs' : List (DocumentChunk α)) :
    latest? x (cs ++ cs') = (latest? x cs').or (latest? x cs) := by
  induction cs with
  | nil => simp [latest?]
  | cons c cs ih => rw [List.cons_append, latest?, latest?, ih, Option.or_assoc]

/-- The latest chunk of an id has this id. -/
theorem id_of_latest? {x : String} {cs : List (DocumentChunk α)} {c : DocumentChunk α}
    (h : latest? x cs = some c) : c.id = x := by
  induction cs with
  | nil => cases h
  | cons b cs ih =>
    rw [latest?, Option.or_eq_some_iff] at h
    rcases h with h | ⟨-, h⟩
    · exact ih h
    · split_ifs at h with h_id
      obtain rfl := Option.some.inj h
      exact h_id

/-- What a stretch of the loops does to the dictionaries: the chunks that were read, and the ranks
that each id was seen at. -/
structure Reads (k : ℤ) (f f' : Fusion α) (chunks : List (DocumentChunk α))
    (ranks : String → List ℕ) : Prop where
  score : ∀ x, f'.score x = gain round k (f.score x) (ranks x)
  count : ∀ x, f'.count x = f.count x + (ranks x).length
  keys : f'.scores.map Prod.fst = seen (f.scores.map Prod.fst) chunks
  byId : ∀ x, f'.byId.get? x = (latest? x chunks).or (f.byId.get? x)

variable {round} {k : ℤ}

namespace Reads

/-- Nothing was read yet. -/
theorem refl (f : Fusion α) : Reads round k f f [] fun _ => [] where
  score _ := rfl
  count _ := rfl
  keys := rfl
  byId _ := by simp [latest?]

/-- Two lists are read one after the other. -/
theorem trans {f f' f'' : Fusion α} {chunks chunks' : List (DocumentChunk α)}
    {ranks ranks' : String → List ℕ} (h : Reads round k f f' chunks ranks)
    (h' : Reads round k f' f'' chunks' ranks') :
    Reads round k f f'' (chunks ++ chunks') fun x => ranks x ++ ranks' x where
  score x := by rw [h'.score, h.score, gain, gain, gain, List.foldl_append]
  count x := by rw [h'.count, h.count, List.length_append, Nat.add_assoc]
  keys := by rw [h'.keys, h.keys, seen, seen, seen, List.foldl_append]
  byId x := by rw [h'.byId, h.byId, latest?_append, Option.or_assoc]

/-- One more chunk adds its weight to its own score and nothing to the others. -/
theorem add (f : Fusion α) (chunk : DocumentChunk α) (rank : ℕ) :
    Reads round k f (f.add round chunk (weight round (k + rank))) [chunk]
      fun x => if chunk.id = x then [rank] else [] where
  score x := by
    -- the chunk's own id, or another one
    by_cases h_eq : chunk.id = x
    · subst h_eq
      simp [Fusion.score, Fusion.add, gain]
    · simp [Fusion.score, Fusion.add, gain, Dict.get?_set, h_eq]
  count x := by
    by_cases h_eq : chunk.id = x
    · subst h_eq
      simp [Fusion.count, Fusion.add]
    · simp [Fusion.count, Fusion.add, Dict.get?_set, h_eq]
  keys := keys_set _ _ _
  byId x := by
    by_cases h_eq : chunk.id = x
    · subst h_eq
      simp [Fusion.add, latest?]
    · simp [Fusion.add, latest?, Dict.get?_set, h_eq]

end Reads

theorem weight?_eq {n : ℤ} (h : 0 < n) : weight? round n = some (weight round n) :=
  if_neg (by omega)

/-- The inner loop reads one list. -/
theorem addRanked_reads (h_k : 0 ≤ k) (ranked : List (DocumentChunk α)) {rank : ℕ}
    (h_rank : 0 < rank) (f : Fusion α) :
    ∃ f', f.addRanked round k rank ranked = some f' ∧
      Reads round k f f' ranked fun x => ranksOf x rank ranked := by
  induction ranked generalizing rank f with
  | nil => exact ⟨f, rfl, Reads.refl f⟩
  | cons chunk ranked ih =>
    obtain ⟨f', h_run, h_reads⟩ := ih (Nat.succ_pos rank)
      (f.add round chunk (weight round (k + rank)))
    refine ⟨f', ?_, ?_⟩
    · rw [Fusion.addRanked, weight?_eq (by omega)]
      exact h_run
    · -- the first chunk has this rank, the others the next ones
      have h_ranks : ∀ x, ranksOf x rank (chunk :: ranked) =
          (if chunk.id = x then [rank] else []) ++ ranksOf x (rank + 1) ranked := by
        intro x
        rw [ranksOf]
        split_ifs <;> rfl
      simp only [h_ranks]
      exact (Reads.add f chunk rank).trans h_reads

variable (round) in
/-- The outer loop reads all of them. -/
theorem addLists_reads (h_k : 0 ≤ k) (rankedLists : List (List (DocumentChunk α)))
    (f : Fusion α) :
    ∃ f', f.addLists round k rankedLists = some f' ∧
      Reads round k f f' rankedLists.flatten fun x => rankedLists.flatMap (ranksOf x 1) := by
  induction rankedLists generalizing f with
  | nil => exact ⟨f, rfl, Reads.refl f⟩
  | cons ranked rankedLists ih =>
    -- each list is ranked from one on
    obtain ⟨f₁, h_run₁, h_reads₁⟩ := addRanked_reads h_k ranked Nat.one_pos f
    obtain ⟨f₂, h_run₂, h_reads₂⟩ := ih f₁
    refine ⟨f₂, ?_, h_reads₁.trans h_reads₂⟩
    rw [Fusion.addLists, h_run₁]
    exact h_run₂

/-! ### Ids in the order in which they are seen -/

/-- The ids that were seen are those from before and those of the chunks. -/
theorem mem_seen {ids : List String} {cs : List (DocumentChunk α)} {x : String} :
    x ∈ seen ids cs ↔ x ∈ ids ∨ x ∈ cs.map DocumentChunk.id := by
  induction cs generalizing ids with
  | nil => simp [seen]
  | cons c cs ih =>
    rw [seen, List.foldl_cons, ← seen, ih]
    -- an id that was seen is not added again
    by_cases h_mem : c.id ∈ ids
    · rw [if_pos h_mem, List.map_cons, List.mem_cons]
      have h_own : x = c.id → x ∈ ids := fun h_eq => h_eq ▸ h_mem
      tauto
    · rw [if_neg h_mem, List.map_cons, List.mem_cons, List.mem_append, List.mem_singleton]
      tauto

/-- No id is seen twice. -/
theorem nodup_seen {ids : List String} (h : ids.Nodup) (cs : List (DocumentChunk α)) :
    (seen ids cs).Nodup := by
  induction cs generalizing ids with
  | nil => exact h
  | cons c cs ih =>
    rw [seen, List.foldl_cons, ← seen]
    apply ih
    split_ifs with h_mem
    · exact h
    · refine List.nodup_append.2 ⟨h, List.nodup_singleton _, ?_⟩
      simpa using fun i h_i => ne_of_mem_of_not_mem h_i h_mem

/-- Ids that are new are put behind. -/
theorem prefix_seen (ids : List String) (cs : List (DocumentChunk α)) : ids <+: seen ids cs := by
  induction cs generalizing ids with
  | nil => exact List.prefix_rfl
  | cons c cs ih =>
    rw [seen, List.foldl_cons, ← seen]
    refine List.IsPrefix.trans ?_ (ih _)
    split_ifs
    · exact List.prefix_rfl
    · exact List.prefix_append _ _

/-- An id that is seen while another is not comes before it. -/
theorem pair_sublist_seen {ids : List String} {before behind : List (DocumentChunk α)}
    {x y : String} (h_x : x ∈ seen ids before) (h_y : y ∉ seen ids before)
    (h_mem : y ∈ behind.map DocumentChunk.id) : [x, y].Sublist (seen ids (before ++ behind)) := by
  rw [seen, List.foldl_append, ← seen, ← seen]
  obtain ⟨rest, h_rest⟩ := prefix_seen (seen ids before) behind
  have h_y' : y ∈ rest := by
    have : y ∈ seen (seen ids before) behind := mem_seen.2 (Or.inr h_mem)
    rw [← h_rest, List.mem_append] at this
    exact this.resolve_left h_y
  rw [← h_rest]
  exact List.Sublist.append (List.singleton_sublist.2 h_x) (List.singleton_sublist.2 h_y')

/-! ### Dominance -/

/-- However far the list is read, `x` has been seen as often as `y`. -/
def Dominates (x y : String) (ranked : List (DocumentChunk α)) : Prop :=
  ∀ n, (ranked.take n).countP (fun c => c.id = y) ≤ (ranked.take n).countP fun c => c.id = x

/-- Dominance adds up over two rankings. -/
theorem Dominates.append {x y : String} {ranked ranked' : List (DocumentChunk α)}
    (h : Dominates x y ranked) (h' : Dominates x y ranked') :
    Dominates x y (ranked ++ ranked') := by
  intro n
  rw [List.take_append, List.countP_append, List.countP_append]
  exact Nat.add_le_add (h n) (h' _)

/-- And over all of them. -/
theorem dominates_flatten {x y : String} {rankedLists : List (List (DocumentChunk α))}
    (h : ∀ ranked ∈ rankedLists, Dominates x y ranked) : Dominates x y rankedLists.flatten := by
  induction rankedLists with
  | nil => exact fun n => by simp
  | cons ranked rankedLists ih =>
    obtain ⟨h_ranked, h_rest⟩ := List.forall_mem_cons.1 h
    exact h_ranked.append (ih h_rest)

/-- An id is seen before those it dominates. -/
theorem Dominates.pair_sublist {x y : String} (h_ne : x ≠ y) {chunks : List (DocumentChunk α)}
    (h : Dominates x y chunks) (h_mem : y ∈ chunks.map DocumentChunk.id) :
    [x, y].Sublist (seen [] chunks) := by
  -- where `y` comes first
  obtain ⟨ids, ids', h_split, h_first⟩ := List.eq_append_cons_of_mem h_mem
  obtain ⟨before, behind, rfl, h_before, h_behind⟩ := List.map_eq_append_iff.1 h_split
  obtain ⟨c, behind, rfl, h_c, -⟩ := List.map_eq_cons_iff.1 h_behind
  subst h_before
  have h_count := h (before.length + 1)
  -- the list up to this place ends with it
  have h_take : (before ++ c :: behind).take (before.length + 1) = before ++ [c] := by
    simp [List.take_append]
  -- so `x` comes before, or the two would not be counted alike
  have h_x : x ∈ before.map DocumentChunk.id := by
    rw [h_take, List.countP_append, List.countP_append, List.countP_singleton,
      List.countP_singleton, if_pos (by simpa using h_c),
      if_neg (by simp [h_c, Ne.symm h_ne])] at h_count
    obtain ⟨b, h_b, h_id⟩ := List.countP_pos_iff.1 (by omega : 0 < before.countP fun c => c.id = x)
    exact List.mem_map.2 ⟨b, h_b, by simpa using h_id⟩
  exact pair_sublist_seen (mem_seen.2 (Or.inr h_x)) (by simpa [mem_seen] using h_first)
    (by simp [h_c])

/-! ### Earlier ranks score more -/

/-- The first ranks are at least as many as the second ones, and each is no later. -/
inductive Earlier : List ℕ → List ℕ → Prop
  | nil (ranks : List ℕ) : Earlier ranks []
  | cons {rank rank' : ℕ} {ranks ranks' : List ℕ} (h : rank ≤ rank')
      (h_rest : Earlier ranks ranks') :
    Earlier (rank :: ranks) (rank' :: ranks')

/-- A list with earlier ranks is at least as long. -/
theorem Earlier.length_le {ranks ranks' : List ℕ} (h : Earlier ranks ranks') :
    ranks'.length ≤ ranks.length := by
  induction h with
  | nil => exact Nat.zero_le _
  | cons _ _ ih => exact Nat.succ_le_succ ih

/-- No rank is below the first. -/
theorem le_of_mem_ranksOf {x : String} {ranked : List (DocumentChunk α)} {rank r : ℕ}
    (h : r ∈ ranksOf x rank ranked) : rank ≤ r := by
  induction ranked generalizing rank with
  | nil => cases h
  | cons c ranked ih =>
    rw [ranksOf] at h
    split_ifs at h with h_eq
    · rcases List.mem_cons.1 h with rfl | h_rest
      · exact le_rfl
      · exact Nat.le_of_succ_le (ih h_rest)
    · exact Nat.le_of_succ_le (ih h)

/-- The ranks of `x` that no rank of `y` has been matched with wait in front. -/
theorem earlier_of_count {x y : String} (h_ne : x ≠ y) {ranked : List (DocumentChunk α)} {rank : ℕ}
    {waiting : List ℕ} (h_waiting : ∀ r ∈ waiting, r ≤ rank)
    (h : ∀ n, (ranked.take n).countP (fun c => c.id = y) ≤
      waiting.length + (ranked.take n).countP fun c => c.id = x) :
    Earlier (waiting ++ ranksOf x rank ranked) (ranksOf y rank ranked) := by
  induction ranked generalizing rank waiting with
  | nil => exact Earlier.nil _
  | cons c ranked ih =>
    -- the counts behind the first chunk, with its own part put aside
    have h_tail : ∀ n, (if c.id = y then 1 else 0) + (ranked.take n).countP (fun c => c.id = y) ≤
        waiting.length + ((if c.id = x then 1 else 0) +
          (ranked.take n).countP fun c => c.id = x) := by
      intro n
      have h_n := h (n + 1)
      simp only [List.take_succ_cons, List.countP_cons, decide_eq_true_eq] at h_n
      omega
    by_cases h_x : c.id = x
    · have h_y : c.id ≠ y := h_x ▸ h_ne
      rw [ranksOf, if_pos h_x, ranksOf, if_neg h_y]
      suffices h_step : Earlier (waiting ++ [rank] ++ ranksOf x (rank + 1) ranked)
          (ranksOf y (rank + 1) ranked) by
        simpa using h_step
      -- a chunk of `x` waits for one of `y`
      refine ih ?_ ?_
      · intro r h_r
        rcases List.mem_append.1 h_r with h_r | h_r
        · exact Nat.le_succ_of_le (h_waiting r h_r)
        · rw [List.mem_singleton.1 h_r]
          exact Nat.le_succ _
      · intro n
        have h_n := h_tail n
        rw [if_pos h_x, if_neg h_y] at h_n
        rw [List.length_append, List.length_singleton]
        omega
    · rw [ranksOf, if_neg h_x]
      by_cases h_y : c.id = y
      · rw [ranksOf, if_pos h_y]
        -- a chunk of `y` takes the first one waiting, and by the count there is one
        cases waiting with
        | nil =>
          have h_n := h_tail 0
          simp [h_y, Ne.symm h_ne] at h_n
        | cons r waiting =>
          obtain ⟨h_r, h_rest⟩ := List.forall_mem_cons.1 h_waiting
          refine Earlier.cons h_r (ih (fun r h_r => Nat.le_succ_of_le (h_rest r h_r)) fun n => ?_)
          have h_n := h_tail n
          rw [if_neg h_x, if_pos h_y, List.length_cons] at h_n
          omega
      · rw [ranksOf, if_neg h_y]
        refine ih (fun r h_r => Nat.le_succ_of_le (h_waiting r h_r)) fun n => ?_
        have h_n := h_tail n
        rw [if_neg h_x, if_neg h_y] at h_n
        omega

/-- A dominating chunk has the earlier ranks. -/
theorem Dominates.earlier {x y : String} (h_ne : x ≠ y) {ranked : List (DocumentChunk α)}
    (h : Dominates x y ranked) (rank : ℕ) :
    Earlier (ranksOf x rank ranked) (ranksOf y rank ranked) :=
  @earlier_of_count α x y h_ne ranked rank [] (fun _ h_r => absurd h_r List.not_mem_nil) fun n => by
    simpa using h n

/-! ### The fused list -/

section Ordered

variable {f : Fusion α} {chunks : List (DocumentChunk α)} {ranks : String → List ℕ}

theorem Reads.ordered_perm (h : Reads round k {} f chunks ranks) :
    f.ordered.Perm (seen [] chunks) := by
  rw [Fusion.ordered, h.keys]
  exact List.perm_insertionSort _ _

theorem Reads.nodup_ordered (h : Reads round k {} f chunks ranks) : f.ordered.Nodup :=
  h.ordered_perm.nodup_iff.2 (nodup_seen List.nodup_nil _)

theorem Reads.mem_ordered (h : Reads round k {} f chunks ranks) {x : String} :
    x ∈ f.ordered ↔ x ∈ chunks.map DocumentChunk.id := by
  rw [h.ordered_perm.mem_iff, mem_seen]
  simp

end Ordered

/-- Every id that was seen has its latest chunk. -/
theorem mapM_get? {d : Dict String (DocumentChunk α)} {chunks : List (DocumentChunk α)}
    (h_d : ∀ x, d.get? x = latest? x chunks) {ids : List String}
    (h_ids : ∀ x ∈ ids, x ∈ chunks.map DocumentChunk.id) :
    ∃ out, ids.mapM d.get? = some out ∧ out.map DocumentChunk.id = ids ∧
      ∀ c ∈ out, latest? c.id chunks = some c := by
  induction ids with
  | nil => exact ⟨[], rfl, rfl, fun c h_c => absurd h_c List.not_mem_nil⟩
  | cons x ids ih =>
    obtain ⟨h_x, h_rest⟩ := List.forall_mem_cons.1 h_ids
    obtain ⟨out, h_out, h_map, h_latest⟩ := ih h_rest
    obtain ⟨b, h_b, rfl⟩ := List.mem_map.1 h_x
    -- a chunk of this id is there, so it has a latest one
    obtain ⟨c, h_c⟩ := Option.ne_none_iff_exists'.1 fun h_none =>
      latest?_eq_none.1 h_none b h_b rfl
    have h_id := id_of_latest? h_c
    refine ⟨c :: out, ?_, by rw [List.map_cons, h_map, h_id], ?_⟩
    · rw [List.mapM_cons, h_d, h_c, h_out]
      rfl
    · exact List.forall_mem_cons.2 ⟨by rw [h_id, h_c], h_latest⟩

variable (round) in
/-- The cut of the ids in order, each with its last version. -/
theorem fusion_eq (h_k : 0 ≤ k) (rankedLists : List (List (DocumentChunk α))) :
    ∃ f : Fusion α,
      Reads round k {} f rankedLists.flatten (fun x => rankedLists.flatMap (ranksOf x 1)) ∧
      ∀ topN, ∃ out, reciprocalRankFusion round rankedLists k topN = some out ∧
        out.map DocumentChunk.id = InMemoryVectorStore.upTo topN f.ordered ∧
        ∀ c ∈ out, latest? c.id rankedLists.flatten = some c := by
  -- the lists are read without an error
  obtain ⟨f, h_run, h_reads⟩ := addLists_reads round h_k rankedLists {}
  refine ⟨f, h_reads, fun topN => ?_⟩
  -- the ordered ids are those of the chunks
  have h_ids : ∀ x ∈ InMemoryVectorStore.upTo topN f.ordered,
      x ∈ rankedLists.flatten.map DocumentChunk.id := by
    intro x h_x
    exact h_reads.mem_ordered.1 ((InMemoryVectorStore.upTo_sublist topN f.ordered).subset h_x)
  obtain ⟨out, h_out, h_map, h_latest⟩ :=
    mapM_get? (fun x => by rw [h_reads.byId]; simp) h_ids
  refine ⟨out, ?_, h_map, h_latest⟩
  rw [reciprocalRankFusion, h_run]
  exact h_out

/-- **The fused list**: one ranking has the id of each chunk once, and the list is its cut, each id
with the version that was read last. -/
theorem fusion_wellFormed (round : ℚ → ℚ) {k : ℤ} (h_k : 0 ≤ k)
    (rankedLists : List (List (DocumentChunk α))) :
    ∃ ranking : List String, ranking.Nodup ∧
      (∀ x, x ∈ ranking ↔ x ∈ rankedLists.flatten.map DocumentChunk.id) ∧
      ∀ topN, ∃ out, reciprocalRankFusion round rankedLists k topN = some out ∧
        out.map DocumentChunk.id = InMemoryVectorStore.upTo topN ranking ∧
        ∀ c ∈ out, latest? c.id rankedLists.flatten = some c := by
  obtain ⟨f, h_reads, h_out⟩ := fusion_eq round h_k rankedLists
  exact ⟨f.ordered, h_reads.nodup_ordered, fun x => h_reads.mem_ordered, h_out⟩

/-- Two lists with the default `k`: the second version of `a` is the one that is kept. -/
theorem fusion_wellFormed_twoLists :
    ∃ ranking : List String, ranking.Nodup ∧
      (∀ x, x ∈ ranking ↔ x ∈ [[(⟨"a", "one", [], none⟩ : DocumentChunk ℚ)],
        [⟨"a", "two", [], none⟩]].flatten.map DocumentChunk.id) ∧
      ∀ topN, ∃ out, reciprocalRankFusion id [[(⟨"a", "one", [], none⟩ : DocumentChunk ℚ)],
          [⟨"a", "two", [], none⟩]] 60 topN = some out ∧
        out.map DocumentChunk.id = InMemoryVectorStore.upTo topN ranking ∧
        ∀ c ∈ out, latest? c.id [[(⟨"a", "one", [], none⟩ : DocumentChunk ℚ)],
          [⟨"a", "two", [], none⟩]].flatten = some c :=
  fusion_wellFormed id (by norm_num) _

/-- What stands before `y` in a list stands before it in every cut. -/
theorem exists_before_of_sublist {ids : List String} {x y : String} (h_nodup : ids.Nodup)
    (h_pair : [x, y].Sublist ids) {j : ℕ} (h_j : ids[j]? = some y) :
    ∃ i < j, ids[i]? = some x := by
  obtain ⟨before, behind, rfl, h_x, h_y⟩ := List.cons_sublist_iff.1 h_pair
  obtain ⟨i, h_i⟩ := List.mem_iff_getElem?.1 h_x
  have h_lt : i < before.length := (List.getElem?_eq_some_iff.1 h_i).1
  refine ⟨i, ?_, by rw [List.getElem?_append_left h_lt, h_i]⟩
  by_contra h_le
  rw [List.getElem?_append_left (by omega)] at h_j
  exact List.disjoint_of_nodup_append h_nodup (List.mem_of_getElem? h_j)
    (List.singleton_sublist.1 h_y)

variable (h_round : IsRounding round)
include h_round

theorem round_natCast_pos {n : ℤ} (h : 0 < n) : 0 < round n := by
  have h_one : (1 : ℚ) ≤ n := by exact_mod_cast h
  linarith [h_round.mono h_one, h_round.one]

theorem weight_nonneg {n : ℤ} (h : 0 < n) : 0 ≤ weight round n := by
  have h_pos := round_natCast_pos h_round h
  calc (0 : ℚ) = round 0 := h_round.zero.symm
    _ ≤ weight round n := h_round.mono (by positivity)

theorem weight_anti {m n : ℤ} (h : 0 < m) (h_le : m ≤ n) : weight round n ≤ weight round m := by
  have h_pos := round_natCast_pos h_round h
  have h_rounded : round m ≤ round n := h_round.mono (by exact_mod_cast h_le)
  exact h_round.mono (one_div_le_one_div_of_le h_pos h_rounded)

/-- A score that is rounded stays so. -/
theorem gain_idem {s : ℚ} (h_s : round s = s) (ranks : List ℕ) :
    round (gain round k s ranks) = gain round k s ranks := by
  induction ranks generalizing s with
  | nil => exact h_s
  | cons rank ranks ih => exact ih (h_round.idem _)

/-- Further ranks take nothing away. -/
theorem le_gain (h_k : 0 ≤ k) {s : ℚ} (h_s : round s = s) {ranks : List ℕ}
    (h_pos : ∀ rank ∈ ranks, 0 < rank) : s ≤ gain round k s ranks := by
  induction ranks generalizing s with
  | nil => exact le_rfl
  | cons rank ranks ih =>
    obtain ⟨h_rank, h_pos'⟩ := List.forall_mem_cons.1 h_pos
    have h_weight := weight_nonneg h_round (n := k + rank) (by omega)
    calc s = round s := h_s.symm
      _ ≤ round (s + weight round (k + rank)) := h_round.mono (by linarith)
      _ ≤ gain round k s (rank :: ranks) := ih (h_round.idem _) h_pos'

/-- **One list**: earlier ranks gain at least as much. -/
theorem gain_mono (h_k : 0 ≤ k) {ranks ranks' : List ℕ} (h : Earlier ranks ranks')
    (h_pos : ∀ rank ∈ ranks, 0 < rank) {s s' : ℚ} (h_s : round s = s) (h_le : s' ≤ s) :
    gain round k s' ranks' ≤ gain round k s ranks := by
  induction h generalizing s s' with
  | nil ranks => exact h_le.trans (le_gain h_round h_k h_s h_pos)
  | @cons rank rank' ranks ranks' h_rank _ ih =>
    obtain ⟨h_first, h_pos'⟩ := List.forall_mem_cons.1 h_pos
    have h_weight := weight_anti h_round (m := k + rank) (n := k + rank') (by omega) (by omega)
    exact ih h_pos' (h_round.idem _) (h_round.mono (add_le_add h_le h_weight))

/-- **All lists**: what no list ranks behind ends with the higher key. -/
theorem gain_flatMap_mono (h_k : 0 ≤ k) {x y : String} (h_ne : x ≠ y)
    {rankedLists : List (List (DocumentChunk α))}
    (h : ∀ ranked ∈ rankedLists, Dominates x y ranked) {s s' : ℚ} (h_s : round s = s)
    (h_le : s' ≤ s) :
    gain round k s' (rankedLists.flatMap (ranksOf y 1)) ≤
        gain round k s (rankedLists.flatMap (ranksOf x 1)) ∧
      (rankedLists.flatMap (ranksOf y 1)).length ≤ (rankedLists.flatMap (ranksOf x 1)).length := by
  induction rankedLists generalizing s s' with
  | nil => exact ⟨h_le, le_rfl⟩
  | cons ranked rankedLists ih =>
    obtain ⟨h_ranked, h_rest⟩ := List.forall_mem_cons.1 h
    have h_earlier := h_ranked.earlier h_ne 1
    -- the first list keeps the order of the scores
    have h_first := gain_mono h_round h_k h_earlier (fun _ h_r => le_of_mem_ranksOf h_r) h_s h_le
    -- and so do the others
    obtain ⟨h_score, h_count⟩ := ih h_rest (gain_idem h_round h_s _) h_first
    rw [List.flatMap_cons, List.flatMap_cons, List.length_append, List.length_append]
    refine ⟨?_, Nat.add_le_add h_earlier.length_le h_count⟩
    simpa only [gain, List.foldl_append] using h_score

omit h_round in
/-- A cut list agrees with the whole one up to where it ends. -/
theorem getElem?_upTo {ids : List String} {topN : ℤ} {j : ℕ} {y : String}
    (h : (InMemoryVectorStore.upTo topN ids)[j]? = some y) :
    ids[j]? = some y ∧ ∀ i < j, (InMemoryVectorStore.upTo topN ids)[i]? = ids[i]? := by
  -- up to a number, or from the end
  have h_cut : ∃ n, InMemoryVectorStore.upTo topN ids = ids.take n := by
    unfold InMemoryVectorStore.upTo
    split_ifs
    · exact ⟨_, rfl⟩
    · exact ⟨_, rfl⟩
  obtain ⟨n, h_n⟩ := h_cut
  rw [h_n, List.getElem?_take] at h
  split_ifs at h with h_lt
  refine ⟨h, fun i h_i => ?_⟩
  rw [h_n, List.getElem?_take, if_pos (h_i.trans h_lt)]

/-- **What every list ranks first stays first**: where no list ranks `x` behind `y`, the fused list
has `y` only behind `x`, for every rounding. -/
theorem fusion_dominance (h_k : 0 ≤ k) {x y : String} (h_ne : x ≠ y)
    {rankedLists : List (List (DocumentChunk α))}
    (h : ∀ ranked ∈ rankedLists, Dominates x y ranked) {topN : ℤ} {out : List (DocumentChunk α)}
    (h_out : reciprocalRankFusion round rankedLists k topN = some out) {j : ℕ}
    (h_j : (out.map DocumentChunk.id)[j]? = some y) :
    ∃ i < j, (out.map DocumentChunk.id)[i]? = some x := by
  obtain ⟨f, h_reads, h_fused⟩ := fusion_eq round h_k rankedLists
  obtain ⟨out', h_out', h_map, -⟩ := h_fused topN
  obtain rfl : out = out' := Option.some.inj (h_out.symm.trans h_out')
  rw [h_map] at h_j ⊢
  obtain ⟨h_y, h_keep⟩ := getElem?_upTo h_j
  -- the key of `x` is at least that of `y`, and it was seen first
  have h_key : f.key y ≤ f.key x := by
    obtain ⟨h_score, h_count⟩ := gain_flatMap_mono h_round h_k h_ne h h_round.zero le_rfl
    rw [Fusion.key, Fusion.key, Prod.Lex.toLex_le_toLex]
    simp only [h_reads.score, h_reads.count]
    rcases h_score.lt_or_eq with h_lt | h_eq
    · exact Or.inl h_lt
    · exact Or.inr ⟨h_eq, Nat.add_le_add_left h_count _⟩
  have h_mem : y ∈ rankedLists.flatten.map DocumentChunk.id :=
    h_reads.mem_ordered.1 (List.mem_of_getElem? h_y)
  have h_seen : [x, y].Sublist (f.scores.map Prod.fst) := by
    rw [h_reads.keys]
    exact (dominates_flatten h).pair_sublist h_ne h_mem
  obtain ⟨i, h_i, h_x⟩ := exists_before_of_sublist h_reads.nodup_ordered
    (List.pair_sublist_insertionSort h_key h_seen) h_y
  exact ⟨i, h_i, (h_keep i h_i).trans h_x⟩

omit h_round in
/-- `a` is behind `b` in no list. With `k = 0` and two ranks the floating-point numbers are
exact. -/
theorem fusion_dominance_twoLists :
    ∃ i < 1, (([⟨"a", "", [], none⟩, ⟨"b", "", [], none⟩] : List (DocumentChunk ℚ)).map
      DocumentChunk.id)[i]? = some "a" := by
  have h_rounding : IsRounding id := ⟨fun _ _ h => h, fun _ => rfl, rfl, rfl⟩
  let lists : List (List (DocumentChunk ℚ)) :=
    [[⟨"a", "", [], none⟩, ⟨"b", "", [], none⟩], [⟨"a", "", [], none⟩]]
  -- in both lists `a` comes first
  have h_lists : ∀ ranked ∈ lists, Dominates "a" "b" ranked := by
    intro ranked h_ranked n
    simp only [lists, List.mem_cons, List.not_mem_nil, or_false] at h_ranked
    rcases h_ranked with rfl | rfl <;> rcases n with _ | _ | n <;> simp
  have h_out : reciprocalRankFusion id lists 0 50 =
      some [⟨"a", "", [], none⟩, ⟨"b", "", [], none⟩] := by decide +kernel
  exact fusion_dominance h_rounding le_rfl (by decide) h_lists h_out (j := 1) rfl

end Nexus.Rag
