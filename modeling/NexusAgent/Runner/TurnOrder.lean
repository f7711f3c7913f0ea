import NexusAgent.Runner.History

/-!
# Turn indices and folding

The loop numbers its turns from the length of the session's turn list, and the summarizer
removes turns by their numbers. As long as nothing was ever removed, the length is above
every number; a run that starts on a folded session numbers its turns from below the fold.

* `OrderedBelow n`: turn indices increase, lie above the summary and below `n`. Folding
  keeps it (`orderedBelow_fold`), a turn numbered `n` takes it to `n + 1`.
* `turns_ordered`: in a history whose runs all start on an unfolded session, turn indices
  stay ordered, whatever is folded inside the runs.
* `turns_disordered`: a run on a folded session.
-/

open Lib

namespace Nexus

variable {a : StoreAdapter}

/-! ### The invariant -/

/-- The turn indices of a session, in the order of its turns. -/
def AgentSession.turnIndices (s : AgentSession) : List ℕ := s.turns.map TurnRecord.turnIndex

/-- Turn indices strictly increase, and every remaining turn comes after the summary. -/
structure TurnsOrdered (s : AgentSession) : Prop where
  increasing : s.turnIndices.Pairwise (· < ·)
  unfolded : ∀ i ∈ s.turnIndices, s.summaryThroughTurn < (i : ℤ)

/-- Ordered, and `n` is above everything numbered so far. -/
structure OrderedBelow (n : ℕ) (s : AgentSession) : Prop extends TurnsOrdered s where
  below : ∀ i ∈ s.turnIndices, i < n
  summary : s.summaryThroughTurn < (n : ℤ)

theorem AgentSession.turnIndices_core (s : AgentSession) : s.core.turnIndices = s.turnIndices := by
  simp [turnIndices, core, bare, TurnRecord.shell, TurnRecord.bare, Function.comp_def]

theorem AgentSession.turnIndices_of_core {s s' : AgentSession} (h : s'.core = s.core) :
    s'.turnIndices = s.turnIndices := by
  rw [← turnIndices_core s', h, turnIndices_core]

/-- The order of the turns belongs to the core. -/
theorem coreInv_turnsOrdered : Live.CoreInv TurnsOrdered := by
  rintro s s' h ⟨h_inc, h_unfolded⟩
  have h_turns := AgentSession.turnIndices_of_core h
  have h_through := AgentSession.summaryThroughTurn_of_core h
  exact ⟨h_turns ▸ h_inc, h_turns ▸ h_through ▸ h_unfolded⟩

/-- So does the bound on their indices. -/
theorem coreInv_orderedBelow (n : ℕ) : Live.CoreInv (OrderedBelow n) := by
  rintro s s' h ⟨h_ordered, h_below, h_summary⟩
  have h_turns := AgentSession.turnIndices_of_core h
  have h_through := AgentSession.summaryThroughTurn_of_core h
  exact ⟨coreInv_turnsOrdered s s' h h_ordered, h_turns ▸ h_below, h_through ▸ h_summary⟩

/-- A larger bound holds as well. -/
theorem OrderedBelow.mono {n m : ℕ} (h_le : n ≤ m) {s : AgentSession} (h : OrderedBelow n s) :
    OrderedBelow m s where
  toTurnsOrdered := h.toTurnsOrdered
  below i hi := (h.below i hi).trans_le h_le
  summary := h.summary.trans_le (by exact_mod_cast h_le)

/-- Appending the turn numbered `n`. -/
theorem OrderedBelow.addTurn {n : ℕ} {s : AgentSession} (h : OrderedBelow n s) {turn : TurnRecord}
    (h_turn : turn.turnIndex = n) : OrderedBelow (n + 1) (s.addTurn turn) := by
  -- the index of the turn comes last
  have h_indices : (s.addTurn turn).turnIndices = s.turnIndices ++ [n] := by
    simp [AgentSession.turnIndices, h_turn]
  refine ⟨⟨?_, ?_⟩, ?_, ?_⟩
  · -- the indices stay increasing
    rw [h_indices, List.pairwise_append]
    exact ⟨h.increasing, List.pairwise_singleton _ _, by simpa using h.below⟩
  · -- and above the summary
    rw [h_indices, List.forall_mem_append]
    refine ⟨h.unfolded, ?_⟩
    simp only [List.mem_singleton, forall_eq]
    exact h.summary
  · rw [h_indices, List.forall_mem_append]
    exact ⟨fun i hi => (h.below i hi).trans (Nat.lt_succ_self n), by simp⟩
  · change s.summaryThroughTurn < _
    exact h.summary.trans (by exact_mod_cast Nat.lt_succ_self n)

/-- Ordered below `n`, and nothing below `n` is missing unless turns were folded. -/
structure Numbered (n : ℕ) (s : AgentSession) : Prop extends OrderedBelow n s where
  dense : s.summaryThroughTurn = -1 → n ≤ s.turns.length

/-- The numbering belongs to the core. -/
theorem coreInv_numbered (n : ℕ) : Live.CoreInv (Numbered n) := by
  rintro s s' h ⟨h_below, h_dense⟩
  have h_length : s'.turns.length = s.turns.length := by
    simpa [AgentSession.turnIndices] using congrArg List.length (AgentSession.turnIndices_of_core h)
  have h_through := AgentSession.summaryThroughTurn_of_core h
  exact ⟨coreInv_orderedBelow n s s' h h_below, h_length ▸ h_through ▸ h_dense⟩

/-- What the next run starts from, when nothing was folded. -/
theorem Numbered.restart {m : ℕ} {s : AgentSession} (h : Numbered m s)
    (h_unfolded : s.summaryThroughTurn = -1) : Numbered s.turns.length s where
  toOrderedBelow := h.toOrderedBelow.mono (h.dense h_unfolded)
  dense _ := le_rfl

/-! ### Folding -/

/-- A list in order is its own insertion sort by index. -/
theorem foldableTurns_eq {s : AgentSession} (h : TurnsOrdered s) : foldableTurns s = s.turns := by
  have h_filter : s.turns.filter (fun t => s.summaryThroughTurn < (t.turnIndex : ℤ)) = s.turns :=
    List.filter_eq_self.mpr fun t ht =>
      decide_eq_true (h.unfolded _ (List.mem_map_of_mem ht))
  unfold foldableTurns
  rw [h_filter]
  refine List.Pairwise.insertionSort_eq ?_
  exact (List.pairwise_map.mp h.increasing).imp fun h_lt => Nat.le_of_lt h_lt

/-- The largest folded index is one of those folded. -/
theorem foldl_max_lt {n : ℕ} (is : List ℕ) {m : ℕ} (h_m : m < n) (h : ∀ i ∈ is, i < n) :
    is.foldl max m < n := by
  induction is generalizing m with
  | nil => exact h_m
  | cons i is ih =>
    rw [List.forall_mem_cons] at h
    exact ih (max_lt h_m h.1) h.2

/-- **Folding keeps the order**: the oldest turns go, the summary moves up to the last of
them. -/
theorem orderedBelow_fold {cfg : ContextSummaryConfig} {s : AgentSession} {n : ℕ}
    (h : OrderedBelow n s) (h_some : turnsToFold cfg s ≠ []) (newPart : String) :
    Numbered n (foldSession cfg (turnsToFold cfg s) newPart s) := by
  set fold := turnsToFold cfg s with h_fold
  have h_take : fold = s.turns.take cfg.turnsToFold := by
    rw [h_fold, turnsToFold, foldableTurns_eq h.toTurnsOrdered]
  obtain ⟨t₀, h_t₀⟩ := List.exists_mem_of_ne_nil _ h_some
  have h_mem : ∀ t ∈ fold, t ∈ s.turns := fun t ht => List.mem_of_mem_take (h_take ▸ ht)
  have h_pairwise := List.pairwise_map.mp h.increasing
  -- a turn that stays comes after every folded one
  have h_after : ∀ t ∈ s.turns, t.turnIndex ∉ fold.map TurnRecord.turnIndex →
      ∀ i ∈ fold.map TurnRecord.turnIndex, i < t.turnIndex := by
    intro t ht h_stays i hi
    obtain ⟨u, hu, rfl⟩ := List.mem_map.mp hi
    rw [← List.take_append_drop cfg.turnsToFold s.turns, ← h_take] at h_pairwise ht
    refine (List.pairwise_append.mp h_pairwise).2.2 u hu t ?_
    exact (List.mem_append.mp ht).resolve_left fun h => h_stays (List.mem_map_of_mem h)
  have h_through : ∀ {m : ℕ}, (∀ i ∈ fold.map TurnRecord.turnIndex, i < m) →
      s.summaryThroughTurn < (m : ℤ) →
      max s.summaryThroughTurn ((fold.map TurnRecord.turnIndex).foldl max 0 : ℕ) < (m : ℤ) := by
    intro m h_m h_s
    refine max_lt h_s ?_
    have h_pos : 0 < m := Nat.zero_lt_of_lt (h_m _ (List.mem_map_of_mem h_t₀))
    exact_mod_cast foldl_max_lt _ h_pos h_m
  have h_indices : ∀ i ∈ (foldSession cfg fold newPart s).turnIndices, ∃ t ∈ s.turns,
      t.turnIndex = i ∧ t.turnIndex ∉ fold.map TurnRecord.turnIndex := by
    intro i hi
    obtain ⟨t, ht, rfl⟩ := List.mem_map.mp hi
    obtain ⟨h_turn, h_stays⟩ := List.mem_filter.mp ht
    exact ⟨t, h_turn, rfl, by simpa using h_stays⟩
  refine ⟨⟨⟨?_, ?_⟩, ?_, ?_⟩, ?_⟩
  · exact (h_pairwise.filter _).map _ fun _ _ h_lt => h_lt
  · intro i hi
    obtain ⟨t, ht, rfl, h_stays⟩ := h_indices i hi
    exact h_through (h_after t ht h_stays) (h.unfolded _ (List.mem_map_of_mem ht))
  · intro i hi
    obtain ⟨t, ht, rfl, -⟩ := h_indices i hi
    exact h.below _ (List.mem_map_of_mem ht)
  · refine h_through (fun i hi => ?_) h.summary
    obtain ⟨t, ht, rfl⟩ := List.mem_map.mp hi
    exact h.below _ (List.mem_map_of_mem (h_mem t ht))
  · intro h_unfolded
    have h_le := le_max_right s.summaryThroughTurn
      ((fold.map TurnRecord.turnIndex).foldl max 0 : ℕ)
    change max s.summaryThroughTurn ((fold.map TurnRecord.turnIndex).foldl max 0 : ℕ) = -1
      at h_unfolded
    omega

/-! ### A run -/

/-- The numbering of a run that goes on with `n`: of its working session, and of the stored
entry, which may lag behind when the run does not save. -/
structure Numbering (env : Env a) (n : ℕ) (l : Live a) : Prop where
  owned : Owned env.context l.session
  session : OrderedBelow n l.session
  dense : persists a env.context = true → l.session.summaryThroughTurn = -1 →
    n ≤ l.session.turns.length
  stored : ∀ s, l.contents.find? l.session.sessionId = some s →
    Owned env.context s ∧ ∃ m ≤ n, Numbered m s

namespace Numbering

variable {env : Env a} {n : ℕ} {l l' : Live a}

/-- Numbering depends on the core of the session only. -/
theorem sameCore (h : Numbering env n l) (h_core : l.SameCore l') : Numbering env n l' where
  owned := coreInv_owned _ _ _ h_core.session h.owned
  session := coreInv_orderedBelow n _ _ h_core.session h.session
  dense h_persists :=
    (coreInv_numbered n _ _ h_core.session ⟨h.session, h.dense h_persists⟩).dense
  stored := by
    -- what the stored session satisfies is kept along the core
    have hP : Live.CoreInv fun s => Owned env.context s ∧ ∃ m ≤ n, Numbered m s := by
      rintro s s' h_s ⟨h_owned, m, h_le, h_num⟩
      exact ⟨coreInv_owned _ _ _ h_s h_owned, m, h_le, coreInv_numbered m _ _ h_s h_num⟩
    intro s hs
    rw [h_core.sessionId] at hs
    have h_eq := h_core.contents l.session.sessionId
    rw [hs, Option.map_some] at h_eq
    obtain ⟨s₀, hs₀, h_s⟩ := Option.map_eq_some_iff.mp h_eq.symm
    exact hP s₀ s h_s.symm (h.stored s₀ hs₀)

/-- A session that is in step with its entry. -/
theorem of_synced (h_owned : Owned env.context l.session) (h : Numbered n l.session)
    (h_synced : l.Synced) : Numbering env n l where
  owned := h_owned
  session := h.toOrderedBelow
  dense _ := h.dense
  stored s hs := by
    obtain rfl := Option.some.inj (h_synced.symm.trans hs)
    exact ⟨h_owned, n, le_rfl, h⟩

/-- Folding keeps the numbering. -/
theorem folded (h : Numbering env n l) {k : ℕ} (h_folded : Folded env k l l') :
    Numbering env n l' := by
  cases h_folded with
  | kept => exact h
  | folded h_on h_some newPart =>
    exact of_synced (l := Live.saveSession _) h.owned (orderedBelow_fold h.session h_some newPart)
      (Live.synced_saveSession _)

/-- A save keeps the numbering. -/
theorem save (h : Numbering env n l) : Numbering env n (maybeSave env.context l) := by
  cases h_persists : persists a env.context with
  | true =>
    have h_eq := maybeSave_session env.context l
    exact of_synced (h_eq ▸ h.owned) (h_eq ▸ ⟨h.session, h.dense h_persists⟩)
      (synced_maybeSave h_persists l)
  | false =>
    rw [maybeSave_of_not_persists h_persists]
    exact h

/-- Reading the session again may fall back to an entry that lags behind. -/
theorem reread (h : Numbering env n l) (h_reread : l.Reread l') : ∃ m ≤ n, Numbering env m l' := by
  have h_entry : l'.contents.find? l'.session.sessionId = l.contents.find? l.session.sessionId := by
    rw [h_reread.sessionId, h_reread.entry]
  rcases h_reread.session with h_eq | h_old
  · exact ⟨n, le_rfl, h_eq ▸ h.owned, h_eq ▸ h.session, h_eq ▸ h.dense, h_entry ▸ h.stored⟩
  · obtain ⟨h_owned, m, h_le, h_num⟩ := h.stored _ h_old
    exact ⟨m, h_le, of_synced h_owned h_num (h_entry.trans h_old)⟩

/-- A run that does not save may leave numbers out. -/
theorem skip {m : ℕ} (h : Numbering env m l) (h_le : m ≤ n)
    (h_persists : persists a env.context = false) : Numbering env n l where
  owned := h.owned
  session := h.session.mono h_le
  dense h_true := absurd h_true (by simp [h_persists])
  stored s hs := by
    obtain ⟨h_owned, k, h_k, h_num⟩ := h.stored s hs
    exact ⟨h_owned, k, h_k.trans h_le, h_num⟩

/-- **Storing the turn numbered `n`.** -/
theorem persisted {s : RunState a} (h : Numbering env n s.live) (turn : TurnRecord)
    (h_turn : turn.turnIndex = n) : Numbering env (n + 1) (persistTurnWithState env turn s).live := by
  have h_state : OrderedBelow n (s.live.session.withState (jsonSafeState s.state)) :=
    coreInv_orderedBelow n s.live.session _ rfl h.session
  have h_new : OrderedBelow (n + 1) (s.live.session.withTurn turn (jsonSafeState s.state)) :=
    h_state.addTurn h_turn
  have h_owned : Owned env.context (s.live.session.withTurn turn (jsonSafeState s.state)) := h.owned
  have h_session := persistTurnWithState_session turn h.owned
  cases h_persists : persists a env.context with
  | true =>
    have h_dense : (s.live.session.withTurn turn (jsonSafeState s.state)).summaryThroughTurn = -1 →
        n + 1 ≤ (s.live.session.withTurn turn (jsonSafeState s.state)).turns.length := by
      intro h_unfolded
      have := h.dense h_persists h_unfolded
      simpa using this
    exact of_synced (h_session ▸ h_owned) (h_session ▸ ⟨h_new, h_dense⟩)
      (persistTurnWithState_synced turn h_persists h.owned)
  -- nothing is written: the entry keeps its own bound, which is no larger
  | false =>
    have h_entry := persistTurnWithState_entry turn h.owned
    rw [h_persists] at h_entry
    refine ⟨h_session ▸ h_owned, h_session ▸ h_new, fun h_true => ?_, fun s' hs' => ?_⟩
    · exact absurd h_true (by simp [h_persists])
    · rw [h_session] at hs'
      obtain ⟨h_owned', m, h_le, h_num⟩ := h.stored s' (h_entry.symm.trans hs')
      exact ⟨h_owned', m, h_le.trans n.le_succ, h_num⟩

/-- Storing a turn and curating. -/
theorem storedTurn {s : RunState a} (h : Numbering env n s.live) (turn : TurnRecord)
    (h_turn : turn.turnIndex = n) (k : ℕ) :
    Numbering env (n + 1) (Nexus.storedTurn env k turn s).live := by
  have h_persisted := h.persisted turn h_turn
  have h_reread := reread_maybeCurate env k (persistTurnWithState env turn s).live
  -- saved: the store has the session in hand
  cases h_persists : persists a env.context with
  | true =>
    obtain ⟨h_session, h_synced⟩ :=
      h_reread.synced (persistTurnWithState_synced turn h_persists h.owned)
    exact of_synced (h_session ▸ h_persisted.owned)
      (h_session ▸ ⟨h_persisted.session, h_persisted.dense h_persists⟩) h_synced
  -- not saved: the index of the next turn leaves a gap
  | false =>
    obtain ⟨m, h_le, h_again⟩ := h_persisted.reread h_reread
    exact h_again.skip h_le h_persists

end Numbering

/-- A model call keeps the numbering and the index of the turn. -/
theorem Replied.numbering {env : Env a} {stream : Bool} {s t : RunState a} {sent : List Message}
    {r : LLMResponse} (h : Replied env stream s sent r t) {n : ℕ} (h_num : Numbering env n s.live) :
    Numbering env n t.live ∧ t.sessionTurnIndex = s.sessionTurnIndex := by
  obtain ⟨u, h_open, h_live⟩ := h.live
  obtain ⟨l, l', h_similar, h_folded, h_similar'⟩ := h_open.live
  refine ⟨?_, by rw [h.rest]⟩
  rw [h_live]
  exact ((h_num.sameCore h_similar.sameCore).folded h_folded).sameCore h_similar'.sameCore

theorem Accepted.sessionTurnIndex {env : Env a} {r : LLMResponse} {s t : RunState a}
    (h : Accepted env r s t) : t.sessionTurnIndex = s.sessionTurnIndex := by
  cases h <;> rfl

/-- After a turn was stored. -/
theorem EndTurn.numbering {env : Env a} {k : ℕ} {final : Bool} {s s' : RunState a}
    {o : Except RunError Prog.Ctl} (h : EndTurn env k final s o s')
    (h_num : Numbering env (s.sessionTurnIndex + 1) s.live) :
    Numbering env (s.sessionTurnIndex + 1) s'.live ∧
      (o = .ok .next → s'.sessionTurnIndex = s.sessionTurnIndex + 1) := by
  cases h with
  | stopped => exact ⟨h_num, fun h => by cases h⟩
  | injected => exact ⟨h_num, fun _ => rfl⟩
  | human => exact ⟨(h_num.sameCore (Live.sameCore_mutate s.live rfl)).save, fun h => by cases h⟩
  | timedOut => exact ⟨h_num, fun h => by cases h⟩
  | onward => exact ⟨h_num, fun _ => rfl⟩

/-- **A pass keeps the numbering**, and a pass that goes on has counted its turn. -/
theorem TurnStep.numbering {env : Env a} {stream : Bool} {s s' : RunState a}
    {o : Except RunError Prog.Ctl} (h : TurnStep env stream s o s')
    (h_num : Numbering env s.sessionTurnIndex s.live) :
    ∃ n, Numbering env n s'.live ∧ (o = .ok .next → s'.sessionTurnIndex = n) := by
  cases h with
  | cancelled => exact ⟨_, h_num, fun h => by cases h⟩
  | callFailed h_open =>
    obtain ⟨l, l', h_similar, h_folded, h_similar'⟩ := h_open.live
    have h_t := ((h_num.sameCore h_similar.sameCore).folded h_folded).sameCore h_similar'.sameCore
    exact ⟨_, h_t, fun h => by cases h⟩
  | retried h_reply =>
    obtain ⟨h_t, h_index⟩ := h_reply.numbering h_num
    exact ⟨_, h_t, fun _ => h_index⟩
  | rejected h_reply => exact ⟨_, (h_reply.numbering h_num).1, fun h => by cases h⟩
  | @answered sent r t u h_reply h_accepted _ _ savings _ _ h_end =>
    obtain ⟨h_t, h_index⟩ := h_reply.numbering h_num
    rw [← h_accepted.live, ← h_index, ← h_accepted.sessionTurnIndex] at h_t
    -- the record takes the number, and the end of the turn the next one
    have h_stored := Numbering.storedTurn (s := answering r u) h_t
      (answerRecord r savings (answering r u)) rfl s.calls
    exact ⟨_, h_end.numbering h_stored⟩
  | toolsRaised h_reply h_accepted _ h_effect =>
    have h_t := (h_reply.numbering h_num).1
    rw [← h_accepted.live] at h_t
    exact ⟨_, h_t.sameCore h_effect.live, fun h => by cases h⟩
  | @paused sent r t u v h_reply h_accepted _ outs obs h_effect handled n _ _ c savings w h_w =>
    subst h_w
    obtain ⟨h_t, h_index⟩ := h_reply.numbering h_num
    rw [← h_accepted.live, ← h_index, ← h_accepted.sessionTurnIndex] at h_t
    have h_v := h_t.sameCore h_effect.live
    -- handling the calls leaves the number alone
    rw [show u.sessionTurnIndex = v.sessionTurnIndex by rw [h_effect.rest]] at h_v
    exact ⟨_, (h_v.persisted (toolRecord env r c savings n handled v) rfl).save,
      fun h => by cases h⟩
  | @handled sent r t u v h_reply h_accepted _ outs obs h_effect handled n _ _ c savings _ _ h_end =>
    obtain ⟨h_t, h_index⟩ := h_reply.numbering h_num
    rw [← h_accepted.live, ← h_index, ← h_accepted.sessionTurnIndex] at h_t
    have h_v := h_t.sameCore h_effect.live
    rw [show u.sessionTurnIndex = v.sessionTurnIndex by rw [h_effect.rest]] at h_v
    have h_stored := Numbering.storedTurn (s := v) h_v
      (toolRecord env r c savings n handled v) rfl s.calls
    exact ⟨_, h_end.numbering h_stored⟩

/-! ### Opening and ending a run -/

/-- The session a run gets has not been folded. -/
def StartsUnfolded (env : Env a) (_stream : Bool) (args : RunArgs) (st : Store a) : Prop :=
  (getOrCreateSession env args st).session.summaryThroughTurn = -1

/-- Opening a session keeps the numbering. -/
theorem Numbering.openSession {env : Env a} {args : RunArgs} {st : Store a} {n : ℕ}
    (h : Numbering env n (getOrCreateSession env args st)) :
    Numbering env n (Nexus.openSession env args st).1 := by
  obtain ⟨state, h_eq⟩ := openSession_eq env args st
  have h_saved := (h.sameCore (sameCore_enteredSession env args _)).save
  have h_state := h_saved.sameCore (Live.sameCore_mutate _ (f := .withState state) rfl)
  rw [h_eq]
  dsimp only
  split_ifs
  · exact h_state
  · exact h_state.save

/-- The length of an unfolded session is where its numbering goes on. -/
theorem numbering_getOrCreateSession {env : Env a} {args : RunArgs} {st : Store a}
    (h_unfolded : StartsUnfolded env stream args st)
    (h : Stored (runSessionId env args) (fun s => ∃ n, Numbered n s) st) :
    Numbering env (getOrCreateSession env args st).session.turns.length
      (getOrCreateSession env args st) := by
  unfold StartsUnfolded at h_unfolded
  have h_owned := owned_of_matches (matches_getOrCreateSession env args st)
  rcases getOrCreateSession_cases env args st with ⟨s, h_find, -, h_eq⟩ | ⟨-, h_eq⟩ <;>
    rw [h_eq] at h_unfolded h_owned ⊢
  · -- the session was loaded
    obtain ⟨m, h_num⟩ := h s h_find
    refine .of_synced h_owned (h_num.restart h_unfolded) ?_
    unfold Live.Synced
    rw [Live.find?_contents_self, Store.find?_sessionId h_find, h_find, ite_self]
  · -- it was created, without turns
    refine .of_synced h_owned ⟨⟨⟨.nil, ?_⟩, ?_, ?_⟩, fun _ => le_rfl⟩ ?_
    · exact fun i hi => absurd hi List.not_mem_nil
    · exact fun i hi => absurd hi List.not_mem_nil
    · change (-1 : ℤ) < ((0 : ℕ) : ℤ)
      decide
    · unfold Live.Synced
      rw [Live.find?_contents_self, Store.find?_saveSession_self, ite_self]

/-- Opening a session keeps the number of its turns. -/
theorem turns_length_openSession (env : Env a) (args : RunArgs) (st : Store a) :
    (openSession env args st).1.session.turns.length =
      (getOrCreateSession env args st).session.turns.length := by
  have h_indices := AgentSession.turnIndices_of_core (core_openSession env args st)
  simpa [AgentSession.turnIndices] using congrArg List.length h_indices

/-- **A run** that starts on an unfolded session leaves it numbered. -/
theorem stored_numbered_run {env : Env a} {stream : Bool} {args : RunArgs} {st : Store a}
    (h_unfolded : StartsUnfolded env stream args st)
    (h : Stored (runSessionId env args) (fun s => ∃ n, Numbered n s) st) :
    Stored (runSessionId env args) (fun s => ∃ n, Numbered n s)
      (storeAfter (execRun env stream args st)) := by
  have h_open := (numbering_getOrCreateSession h_unfolded h).openSession
  rw [← turns_length_openSession env args st] at h_open
  have h_loop : ∃ n, Numbering env n
      (runLoop env stream (turnLimit env args) (startRun env stream args st)).live := by
    -- the invariant of the loop: the next number is that of the turns stored so far
    have h_cases := runLoop_cases env stream (turnLimit env args)
      (I := fun s => Numbering env s.sessionTurnIndex s.live)
      (Q := fun s => ∃ n, Numbering env n s.live) (E := fun _ s => ∃ n, Numbering env n s.live)
      (startRun env stream args st) ?_ ?_ ?_ h_open (startRun_retries env stream args st)
    · rcases h_cases with ⟨s, h_s, -, -, h_eq⟩ | ⟨s, h_s, h_eq⟩ | ⟨e, s, h_s, h_eq⟩ <;> rw [h_eq]
      · exact ⟨_, h_s⟩
      · split_ifs <;> exact h_s
      · rw [raised_live]
        exact h_s
    · intro s s' _ h_s _ h_step
      obtain ⟨n, h_num, h_index⟩ := h_step.numbering h_s
      exact h_index rfl ▸ h_num
    · intro s s' _ h_s _ h_step
      obtain ⟨n, h_num, -⟩ := h_step.numbering h_s
      exact ⟨n, h_num⟩
    · intro s e s' _ h_s _ h_step
      obtain ⟨n, h_num, -⟩ := h_step.numbering h_s
      exact ⟨n, h_num⟩
  obtain ⟨n, h_num⟩ := h_loop
  obtain ⟨m, -, h_end⟩ := h_num.reread (reread_curateAtEnd env _)
  -- after the loop only the curation and the state are written
  have h_final : Numbering env m (execRun env stream args st).live := by
    rw [execRun_live]
    exact (h_end.sameCore (Live.sameCore_mutate _ rfl)).save
  have h_id := (execRun_keeps env stream args st (curatorWrites_derived env _)).sessionId
  rw [openSession_sessionId] at h_id
  intro s hs
  obtain ⟨-, k, -, h_k⟩ := h_final.stored s (h_id ▸ hs)
  exact ⟨k, h_k⟩

/-! ### Histories -/

/-- **Turn indices stay ordered** along every history whose runs start on an unfolded
session. -/
theorem turns_ordered {sid : String} {st st' : Store a} (h_start : st.find? sid = none)
    (h : History sid StartsUnfolded st st') : Stored sid TurnsOrdered st' := by
  have h_num : Stored sid (fun s => ∃ n, Numbered n s) st' := by
    refine h.stored ?_ ?_ (stored_of_none h_start _)
    · -- a run of the caller
      rintro env stream args st rfl h_unfolded h_st
      exact stored_numbered_run h_unfolded h_st
    · -- a resume
      intro env results st st' h_store h_st
      refine h_st.resume ?_ h_store
      rintro s s' h_core ⟨n, h_n⟩
      exact ⟨n, coreInv_numbered n s s' h_core h_n⟩
  intro s hs
  obtain ⟨n, h_n⟩ := h_num s hs
  exact h_n.toTurnsOrdered

/-- An agent that folds when half of a small window is used, with a model that answers at
once. -/
def foldingEnv : Env .memory where
  config :=
    { contextSummary := { summarizeOn := some (1 / 2) }
      contextWindowTokens := 100 }
  counter := ⟨fun _ _ => 0, fun messages => 20 * messages.length⟩
  proxy := .scripted [{ content := some "Noted." }]
  summaryReply _ := some "The user said hi."

/-- The store after another run of the folding agent on the session `s`. -/
def foldingRun (st : Store .memory) : Store .memory :=
  storeAfter (execRun foldingEnv false { userMessage := "hi", sessionId := some "s" } st)

/-- The second of two runs folds the turn of the first; both start on an unfolded session. -/
theorem turns_ordered_twice :
    Stored "s" TurnsOrdered (foldingRun (foldingRun (.empty .memory))) := by
  have h_start : (Store.empty .memory).find? "s" = none := rfl
  refine turns_ordered h_start ?_
  have h_first : History "s" StartsUnfolded (.empty .memory) (foldingRun (.empty .memory)) :=
    .single (.ran (.run (by decide +kernel) (by unfold StartsUnfolded; decide +kernel)))
  exact h_first.tail (.ran (.run (by decide +kernel) (by unfold StartsUnfolded; decide +kernel)))

/-- A third run numbers its turn from below the fold. -/
theorem turns_disordered :
    ∃ st : Store .memory, History "s" (fun _ _ _ _ => True) (.empty .memory) st ∧
      ¬Stored "s" TurnsOrdered st := by
  refine ⟨foldingRun (foldingRun (foldingRun (.empty .memory))), ?_, fun h => ?_⟩
  · have h_run : ∀ st, Served "s" (fun _ _ _ _ => True) st (foldingRun st) :=
      fun st => .ran (.run (by decide +kernel) trivial)
    exact .tail (.tail (.single (h_run _)) (h_run _)) (h_run _)
  · -- the third run folded the turn that it numbered like the summary
    have h_find : ((foldingRun (foldingRun (foldingRun (.empty .memory)))).find? "s").map
        (fun s => (s.turnIndices, s.summaryThroughTurn)) = some ([1], 1) := by decide +kernel
    obtain ⟨s, hs, h_eq⟩ := Option.map_eq_some_iff.mp h_find
    obtain ⟨h_indices, h_through⟩ := Prod.mk.inj h_eq
    have := (h s hs).unfolded 1 (h_indices ▸ List.mem_singleton_self 1)
    rw [h_through] at this
    exact absurd this (by decide)

end Nexus
