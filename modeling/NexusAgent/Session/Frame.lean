import NexusAgent.Context.Summarizer
import NexusAgent.Rcs.Compactor
import NexusAgent.Tools.Interceptor

/-!
# What the summaries leave alone

The interceptor and the compactor write summaries into records the session already has,
in the working session and in the store. Nothing else of a session changes: it is the
same once the summaries are erased (`AgentSession.bare`). `Live.Similar` says so for a
working session and its store, and that the entries of other sessions are untouched.
-/

open Lib

namespace Nexus

/-- The record without its summary. -/
def ToolCallRecord.bare (tc : ToolCallRecord) : ToolCallRecord :=
  { tc with summarizedResponse := none, summarizedByTurn := none, tokensSummarized := none }

@[simp] theorem ToolCallRecord.bare_withSummary (summary : String) (byTurn : ℕ)
    (tc : ToolCallRecord) : (tc.withSummary summary byTurn).bare = tc.bare := rfl

@[simp] theorem ToolCallRecord.bare_withSummaryTokens (tokens : ℕ) (tc : ToolCallRecord) :
    (tc.withSummaryTokens tokens).bare = tc.bare := rfl

/-- The turn without the summaries of its records. -/
def TurnRecord.bare (t : TurnRecord) : TurnRecord :=
  { t with toolCalls := t.toolCalls.map ToolCallRecord.bare }

/-- The session without summaries of records and without the savings they count for. -/
def AgentSession.bare (s : AgentSession) : AgentSession :=
  { s with
    turns := s.turns.map TurnRecord.bare
    totalTokensSavedByRcs := 0
    cumulativeInputTokensSavedByRcs := 0 }

/-- Turns that differ in summaries only, and other savings, leave the bare session. -/
theorem AgentSession.bare_of_turns (s : AgentSession) {turns : List TurnRecord} (saved : ℕ)
    (h : turns.map TurnRecord.bare = s.turns.map TurnRecord.bare) :
    ({ s with turns := turns, totalTokensSavedByRcs := saved } : AgentSession).bare = s.bare := by
  simp [bare, h]

theorem AgentSession.sessionId_of_bare {s s' : AgentSession} (h : s'.bare = s.bare) :
    s'.sessionId = s.sessionId :=
  (AgentSession.mk.inj h).1

/-! ### Updates that only touch summaries -/

section Updates

variable {f g : ToolCallRecord → ToolCallRecord} {p : ToolCallRecord → Bool}

/-- A view of the records that does not see the update of a record. -/
theorem map_updateFirst (h : ∀ tc, p tc = true → g (f tc) = g tc) (tcs : List ToolCallRecord) :
    (updateFirst p f tcs).map g = tcs.map g := by
  induction tcs with
  | nil => rfl
  | cons tc tcs ih =>
    unfold updateFirst
    split_ifs with h_p
    · simp [h tc h_p]
    · simp [ih]

/-- An update of the first record that keeps the view keeps the view of all turns. -/
theorem map_updateFirstTc (h : ∀ tc, p tc = true → g (f tc) = g tc) (ts : List TurnRecord) :
    (updateFirstTc p f ts).map (fun t => { t with toolCalls := t.toolCalls.map g }) =
      ts.map fun t => { t with toolCalls := t.toolCalls.map g } := by
  induction ts with
  | nil => rfl
  | cons t ts ih =>
    unfold updateFirstTc
    split_ifs
    · simp [map_updateFirst h]
    · simp [ih]

/-- Updating the first call of each turn keeps what the view shows. -/
theorem map_map_updateFirst (h : ∀ tc, p tc = true → g (f tc) = g tc) (ts : List TurnRecord) :
    (ts.map fun t => { t with toolCalls := updateFirst p f t.toolCalls }).map
        (fun t => { t with toolCalls := t.toolCalls.map g }) =
      ts.map fun t => { t with toolCalls := t.toolCalls.map g } := by
  rw [List.map_map]
  refine List.map_congr_left fun t _ => ?_
  simp [map_updateFirst h]

end Updates

section Bare

variable {f : ToolCallRecord → ToolCallRecord} (hf : ∀ tc, (f tc).bare = tc.bare)

include hf

theorem bare_updateFirstTc (p : ToolCallRecord → Bool) (ts : List TurnRecord) :
    (updateFirstTc p f ts).map TurnRecord.bare = ts.map TurnRecord.bare :=
  map_updateFirstTc (fun tc _ => hf tc) ts

theorem bare_map_updateFirst (p : ToolCallRecord → Bool) (ts : List TurnRecord) :
    (ts.map fun t => { t with toolCalls := updateFirst p f t.toolCalls }).map TurnRecord.bare =
      ts.map TurnRecord.bare :=
  map_map_updateFirst (fun tc _ => hf tc) ts

/-- Modifying a call keeps the bare calls. -/
theorem bare_modify (tcs : List ToolCallRecord) (j : ℕ) :
    (tcs.modify j f).map ToolCallRecord.bare = tcs.map ToolCallRecord.bare := by
  induction tcs generalizing j with
  | nil => simp
  | cons tc tcs ih => cases j <;> simp [hf, ih]

/-- Updating a call at a place keeps the bare session. -/
theorem bare_updateTcAt (i j : ℕ) (s : AgentSession) :
    (updateTcAt i j f s).bare = s.bare := by
  -- by induction on the turns, the turn at the place being modified
  have h_turns : ∀ ts : List TurnRecord,
      (ts.modify i fun t => { t with toolCalls := t.toolCalls.modify j f }).map TurnRecord.bare =
        ts.map TurnRecord.bare := by
    intro ts
    induction ts generalizing i with
    | nil => simp
    | cons t ts ih =>
      cases i with
      | zero => simp [TurnRecord.bare, bare_modify hf]
      | succ i => simp [ih]
  simp [AgentSession.bare, updateTcAt, h_turns]

end Bare

/-- The session with other turns. -/
def AgentSession.withTurns (turns : List TurnRecord) (s : AgentSession) : AgentSession :=
  { s with turns := turns }

/-- Storing a summary, under a view of the sessions that does not see it. -/
theorem Store.map_find?_updateTcSummary {a : StoreAdapter} (st : Store a)
    (sid tcId summary : String) (byTurn : ℕ) (scope : SessionScope)
    (view : AgentSession → AgentSession)
    (h_first : ∀ s : AgentSession, view (s.withTurns
      (updateFirstTc (fun tc => tc.tcId = tcId) (.withSummary summary byTurn) s.turns)) = view s)
    (h_each : ∀ s : AgentSession, view (s.withTurns (s.turns.map fun t => { t with
        toolCalls := updateFirst (fun tc => tc.tcId = tcId) (.withSummary summary byTurn)
          t.toolCalls })) = view s) (sid' : String) :
    ((st.updateTcSummary sid tcId summary byTurn scope).find? sid').map view =
      (st.find? sid').map view := by
  -- only the session of the call is written
  by_cases hs : sid = sid'
  · subst hs
    unfold updateTcSummary
    cases hl : st.loadSession sid scope with
    | none => rfl
    | some s =>
      obtain ⟨h_find, -⟩ := loadSession_eq_some.mp hl
      have h_id : s.sessionId = sid := find?_sessionId h_find
      -- what is saved under the id looks the same
      have h_saved : ∀ s' : AgentSession, s'.sessionId = sid → view s' = view s →
          ((st.saveSession s').find? sid).map view = (st.find? sid).map view := by
        intro s' h_id' h_view
        -- each adapter saves its own update of the loaded session
        rw [← h_id', find?_saveSession_self, h_id', h_find, Option.map_some, Option.map_some, h_view]
      cases a with
      | memory => exact h_saved _ h_id (h_first s)
      | redis keyPrefix => exact h_saved _ h_id (h_each s)
  · rw [find?_updateTcSummary_ne st tcId summary byTurn scope hs]

/-! ### Working sessions -/

namespace Live

variable {a : StoreAdapter}

/-- `l'` is `l` up to summaries, and has the same entries for other sessions. -/
structure Similar (l l' : Live a) : Prop where
  session : l'.session.bare = l.session.bare
  contents : ∀ sid, (l'.contents.find? sid).map AgentSession.bare =
    (l.contents.find? sid).map AgentSession.bare
  frame : ∀ sid, sid ≠ l.session.sessionId → l'.contents.find? sid = l.contents.find? sid

theorem Similar.sessionId {l l' : Live a} (h : Similar l l') :
    l'.session.sessionId = l.session.sessionId :=
  AgentSession.sessionId_of_bare h.session

@[refl] theorem Similar.refl (l : Live a) : Similar l l := ⟨rfl, fun _ => rfl, fun _ _ => rfl⟩

/-- Similarity is transitive. -/
theorem Similar.trans {l l' l'' : Live a} (h : Similar l l') (h' : Similar l' l'') :
    Similar l l'' where
  session := h'.session.trans h.session
  contents sid := (h'.contents sid).trans (h.contents sid)
  frame sid hsid := (h'.frame sid (h.sessionId ▸ hsid)).trans (h.frame sid hsid)

/-- A mutation of the working session is not seen under another id. -/
theorem find?_mutate_ne (l : Live a) {f : AgentSession → AgentSession}
    (h_id : (f l.session).sessionId = l.session.sessionId) {sid : String}
    (hsid : sid ≠ l.session.sessionId) :
    (l.mutate f).contents.find? sid = l.contents.find? sid := by
  rw [find?_contents_ne (l.mutate f) (by simpa [h_id] using hsid.symm),
    find?_contents_ne l hsid.symm, mutate_store]

/-- What a mutation does to the contents, seen through `g`, when `g` does not see it on the
working session. -/
theorem map_find?_mutate (l : Live a) {f : AgentSession → AgentSession}
    (h_id : (f l.session).sessionId = l.session.sessionId) (g : AgentSession → AgentSession)
    (hg : g (f l.session) = g l.session) (sid : String) :
    ((l.mutate f).contents.find? sid).map g = (l.contents.find? sid).map g := by
  by_cases hsid : sid = l.session.sessionId
  · subst hsid
    have h_self := find?_contents_self (l.mutate f)
    rw [mutate_session, h_id] at h_self
    rw [h_self, find?_contents_self]
    split_ifs <;> simp [hg]
  · rw [find?_mutate_ne l h_id hsid]

/-- A mutation that only touches summaries. -/
theorem similar_mutate (l : Live a) {f : AgentSession → AgentSession}
    (hf : (f l.session).bare = l.session.bare) : Similar l (l.mutate f) where
  session := hf
  contents := map_find?_mutate l (AgentSession.sessionId_of_bare hf) _ hf
  frame _ hsid := find?_mutate_ne l (AgentSession.sessionId_of_bare hf) hsid

/-- A summary leaves the other sessions. -/
theorem find?_updateTcSummary_ne (l : Live a) (tcId summary : String) (byTurn : ℕ) {sid : String}
    (hsid : sid ≠ l.session.sessionId) :
    (l.updateTcSummary tcId summary byTurn).contents.find? sid = l.contents.find? sid := by
  rw [find?_contents_ne _ (by simpa using hsid.symm)]
  exact Store.find?_updateTcSummary_ne _ _ _ _ _ hsid.symm

/-- Storing a summary, under a view of the sessions that does not see it. -/
theorem map_find?_updateTcSummary (l : Live a) (tcId summary : String) (byTurn : ℕ)
    (view : AgentSession → AgentSession)
    (h_first : ∀ s : AgentSession, view (s.withTurns
      (updateFirstTc (fun tc => tc.tcId = tcId) (.withSummary summary byTurn) s.turns)) = view s)
    (h_each : ∀ s : AgentSession, view (s.withTurns (s.turns.map fun t => { t with
        toolCalls := updateFirst (fun tc => tc.tcId = tcId) (.withSummary summary byTurn)
          t.toolCalls })) = view s) (sid : String) :
    ((l.updateTcSummary tcId summary byTurn).contents.find? sid).map view =
      (l.contents.find? sid).map view := by
  -- another session is not written
  by_cases hsid : sid = l.session.sessionId
  · subst hsid
    have h_self := find?_contents_self (l.updateTcSummary tcId summary byTurn)
    rw [updateTcSummary_session] at h_self
    rw [h_self]
    -- the object at hand is the stored one, or the store holds its own
    split_ifs with ha
    · rw [find?_contents_self, if_pos ha]
    · exact Store.map_find?_updateTcSummary _ _ _ _ _ _ _ h_first h_each _
  · rw [find?_updateTcSummary_ne l tcId summary byTurn hsid]

/-- Storing a summary. -/
theorem similar_updateTcSummary (l : Live a) (tcId summary : String) (byTurn : ℕ) :
    Similar l (l.updateTcSummary tcId summary byTurn) where
  session := rfl
  contents := l.map_find?_updateTcSummary tcId summary byTurn _
    (fun s => s.bare_of_turns _ (bare_updateFirstTc (by simp) _ _))
    (fun s => s.bare_of_turns _ (bare_map_updateFirst (by simp) _ _))
  frame _ hsid := find?_updateTcSummary_ne l tcId summary byTurn hsid

end Live

variable {a : StoreAdapter}

/-! ### Identity, turns and folding state -/

/-- The turn without the results of its records. -/
def TurnRecord.shell (t : TurnRecord) : TurnRecord :=
  { t with toolCalls := t.toolCalls.map fun tc => { tc.bare with rawResponse := "" } }

/-- The session reduced to its identity, its turns without results and summaries and how
far it has been folded. -/
def AgentSession.core (s : AgentSession) : AgentSession :=
  { s.bare with
    turns := s.bare.turns.map TurnRecord.shell
    pendingInteractions := []
    state := []
    tcCounter := 0
    rcsEnabled := false }

@[simp] theorem TurnRecord.shell_bare (t : TurnRecord) : t.bare.shell = t.shell := by
  simp [shell, bare, ToolCallRecord.bare, Function.comp_def]

/-- Turns that differ in results and summaries only, with other pending interactions, leave
the core. -/
theorem AgentSession.core_of_turns (s : AgentSession) {turns : List TurnRecord}
    (pending : List PendingInteraction)
    (h : turns.map TurnRecord.shell = s.turns.map TurnRecord.shell) :
    ({ s with turns := turns, pendingInteractions := pending } : AgentSession).core = s.core := by
  simp [core, bare, Function.comp_def, h]

/-- Rewriting results leaves the shells. -/
theorem TurnRecord.shell_mapToolCalls (f : ToolCallRecord → ToolCallRecord)
    (hf : ∀ tc, { (f tc).bare with rawResponse := "" } = { tc.bare with rawResponse := "" })
    (t : TurnRecord) : ({ t with toolCalls := t.toolCalls.map f } : TurnRecord).shell = t.shell := by
  simp [shell, Function.comp_def, hf]

theorem AgentSession.core_of_bare {s s' : AgentSession} (h : s'.bare = s.bare) :
    s'.core = s.core := by
  simp only [core, h]

theorem AgentSession.sessionId_of_core {s s' : AgentSession} (h : s'.core = s.core) :
    s'.sessionId = s.sessionId :=
  (AgentSession.mk.inj h).1

theorem AgentSession.toScope_of_core {s s' : AgentSession} (h : s'.core = s.core) :
    s'.toScope = s.toScope := by
  have := congrArg AgentSession.toScope h
  exact this

theorem AgentSession.summaryThroughTurn_of_core {s s' : AgentSession} (h : s'.core = s.core) :
    s'.summaryThroughTurn = s.summaryThroughTurn := by
  have := congrArg AgentSession.summaryThroughTurn h
  exact this

namespace Live

/-- `l'` has the session and the entries of `l` up to what `AgentSession.core` forgets. -/
structure SameCore (l l' : Live a) : Prop where
  session : l'.session.core = l.session.core
  contents : ∀ sid, (l'.contents.find? sid).map AgentSession.core =
    (l.contents.find? sid).map AgentSession.core
  frame : ∀ sid, sid ≠ l.session.sessionId → l'.contents.find? sid = l.contents.find? sid

theorem SameCore.sessionId {l l' : Live a} (h : SameCore l l') :
    l'.session.sessionId = l.session.sessionId :=
  AgentSession.sessionId_of_core h.session

@[refl] theorem SameCore.refl (l : Live a) : SameCore l l := ⟨rfl, fun _ => rfl, fun _ _ => rfl⟩

/-- Having the same core is transitive. -/
theorem SameCore.trans {l l' l'' : Live a} (h : SameCore l l') (h' : SameCore l' l'') :
    SameCore l l'' where
  session := h'.session.trans h.session
  contents sid := (h'.contents sid).trans (h.contents sid)
  frame sid hsid := (h'.frame sid (h.sessionId ▸ hsid)).trans (h.frame sid hsid)

/-- Similar sessions have the same core. -/
theorem Similar.sameCore {l l' : Live a} (h : Similar l l') : SameCore l l' where
  session := AgentSession.core_of_bare h.session
  contents sid := by
    have h_eq := h.contents sid
    cases hx : l'.contents.find? sid <;> cases hy : l.contents.find? sid <;>
      simp_all [AgentSession.core]
  frame := h.frame

/-- A mutation that leaves the core. -/
theorem sameCore_mutate (l : Live a) {f : AgentSession → AgentSession}
    (hf : (f l.session).core = l.session.core) : SameCore l (l.mutate f) where
  session := hf
  contents := map_find?_mutate l (AgentSession.sessionId_of_core hf) _ hf
  frame _ hsid := find?_mutate_ne l (AgentSession.sessionId_of_core hf) hsid

end Live

/-! ### Turns with their results -/

/-- The session reduced to its identity, its turns without summaries and how far it has been
folded: what handling the calls of a response leaves alone. -/
def AgentSession.stem (s : AgentSession) : AgentSession :=
  { s.bare with pendingInteractions := [], state := [], tcCounter := 0, rcsEnabled := false }

theorem AgentSession.stem_of_bare {s s' : AgentSession} (h : s'.bare = s.bare) :
    s'.stem = s.stem := by
  simp only [stem, h]

/-- Sessions with the same stem have the same core. -/
theorem AgentSession.core_of_stem {s s' : AgentSession} (h : s'.stem = s.stem) :
    s'.core = s.core := by
  have := congrArg AgentSession.core h
  simpa [core, stem, bare, TurnRecord.shell, TurnRecord.bare, ToolCallRecord.bare,
    Function.comp_def] using this

theorem AgentSession.sessionId_of_stem {s s' : AgentSession} (h : s'.stem = s.stem) :
    s'.sessionId = s.sessionId :=
  (AgentSession.mk.inj h).1

theorem AgentSession.turns_of_stem {s s' : AgentSession} (h : s'.stem = s.stem) :
    s'.turns.map TurnRecord.bare = s.turns.map TurnRecord.bare := by
  have := congrArg AgentSession.turns h
  exact this

theorem AgentSession.toScope_of_stem {s s' : AgentSession} (h : s'.stem = s.stem) :
    s'.toScope = s.toScope := by
  have := congrArg AgentSession.toScope h
  exact this

namespace Live

/-- `l'` has the session and the entries of `l` up to what `AgentSession.stem` forgets. -/
structure SameStem (l l' : Live a) : Prop where
  session : l'.session.stem = l.session.stem
  contents : ∀ sid, (l'.contents.find? sid).map AgentSession.stem =
    (l.contents.find? sid).map AgentSession.stem

@[refl] theorem SameStem.refl (l : Live a) : SameStem l l := ⟨rfl, fun _ => rfl⟩

theorem SameStem.trans {l l' l'' : Live a} (h : SameStem l l') (h' : SameStem l' l'') :
    SameStem l l'' where
  session := h'.session.trans h.session
  contents sid := (h'.contents sid).trans (h.contents sid)

/-- Similar sessions have the same stem. -/
theorem Similar.sameStem {l l' : Live a} (h : Similar l l') : SameStem l l' where
  session := AgentSession.stem_of_bare h.session
  contents sid := by
    have h_eq := h.contents sid
    cases hx : l'.contents.find? sid <;> cases hy : l.contents.find? sid <;>
      simp_all [AgentSession.stem]

/-- A mutation that leaves the stem. -/
theorem sameStem_mutate (l : Live a) {f : AgentSession → AgentSession}
    (hf : (f l.session).stem = l.session.stem) : SameStem l (l.mutate f) where
  session := hf
  contents := map_find?_mutate l (AgentSession.sessionId_of_stem hf) _ hf

end Live

/-! ### The record counter -/

/-- `s'` has the stem of `s`, and its record counter is not behind. -/
structure AgentSession.Grown (s s' : AgentSession) : Prop where
  stem : s'.stem = s.stem
  counter : s.tcCounter ≤ s'.tcCounter

theorem AgentSession.Grown.core {s s' : AgentSession} (h : s.Grown s') : s'.core = s.core :=
  core_of_stem h.stem

@[refl] theorem AgentSession.Grown.refl (s : AgentSession) : s.Grown s := ⟨rfl, le_rfl⟩

theorem AgentSession.Grown.trans {s s' s'' : AgentSession} (h : s.Grown s') (h' : s'.Grown s'') :
    s.Grown s'' :=
  ⟨h'.stem.trans h.stem, h.counter.trans h'.counter⟩

/-- Sessions that are the same when bare have grown by nothing. -/
theorem AgentSession.grown_of_bare {s s' : AgentSession} (h : s'.bare = s.bare) : s.Grown s' where
  stem := stem_of_bare h
  counter := by
    have h_counter : s'.bare.tcCounter = s.bare.tcCounter := congrArg AgentSession.tcCounter h
    exact h_counter.ge

namespace Live

/-- The session of `l` and its entry have grown to those of `l'`. -/
structure Grows (l l' : Live a) : Prop where
  session : l.session.Grown l'.session
  stored : ∀ s', l'.contents.find? l.session.sessionId = some s' →
    ∃ s, l.contents.find? l.session.sessionId = some s ∧ s.Grown s'

theorem Grows.sessionId {l l' : Live a} (h : Grows l l') :
    l'.session.sessionId = l.session.sessionId :=
  AgentSession.sessionId_of_core h.session.core

@[refl] theorem Grows.refl (l : Live a) : Grows l l := ⟨.refl _, fun s hs => ⟨s, hs, .refl s⟩⟩

/-- Growing is transitive. -/
theorem Grows.trans {l l' l'' : Live a} (h : Grows l l') (h' : Grows l' l'') : Grows l l'' where
  session := h.session.trans h'.session
  stored s'' hs'' := by
    obtain ⟨s', hs', h_grown'⟩ := h'.stored s'' (h.sessionId ▸ hs'')
    obtain ⟨s, hs, h_grown⟩ := h.stored s' (h.sessionId ▸ hs')
    exact ⟨s, hs, h_grown.trans h_grown'⟩

/-- A similar session has grown by nothing. -/
theorem Similar.grows {l l' : Live a} (h : Similar l l') : Grows l l' where
  session := AgentSession.grown_of_bare h.session
  stored s' hs' := by
    have h_eq := h.contents l.session.sessionId
    rw [hs', Option.map_some] at h_eq
    obtain ⟨s, hs, h_s⟩ := Option.map_eq_some_iff.mp h_eq.symm
    exact ⟨s, hs, AgentSession.grown_of_bare h_s.symm⟩

/-- A mutation the session has grown by. -/
theorem grows_mutate (l : Live a) {f : AgentSession → AgentSession}
    (hf : l.session.Grown (f l.session)) : Grows l (l.mutate f) where
  session := hf
  -- what is stored afterwards is the object at hand, or what was stored before
  stored s' hs' := by
    have h_id := AgentSession.sessionId_of_core hf.core
    have h_self := find?_contents_self (l.mutate f)
    rw [mutate_session, h_id] at h_self
    rw [h_self] at hs'
    rw [find?_contents_self]
    split_ifs at hs' ⊢
    · exact ⟨_, rfl, Option.some.inj hs' ▸ hf⟩
    · exact ⟨s', hs', .refl s'⟩

end Live

/-! ### Turns with what waits for an answer -/

/-- The session without summaries, counters, flags and the state bag: its turns with their
results, and its pending interactions. -/
def AgentSession.dialogue (s : AgentSession) : AgentSession :=
  { s.bare with state := [], tcCounter := 0, rcsEnabled := false }

theorem AgentSession.dialogue_of_bare {s s' : AgentSession} (h : s'.bare = s.bare) :
    s'.dialogue = s.dialogue := by
  simp only [dialogue, h]

/-- The stem, and the pending interactions. -/
theorem AgentSession.dialogue_of_stem {s s' : AgentSession} (h : s'.stem = s.stem)
    (h_pending : s'.pendingInteractions = s.pendingInteractions) : s'.dialogue = s.dialogue := by
  show ({ s'.stem with pendingInteractions := s'.pendingInteractions } : AgentSession) =
    { s.stem with pendingInteractions := s.pendingInteractions }
  rw [h, h_pending]

theorem AgentSession.sessionId_of_dialogue {s s' : AgentSession} (h : s'.dialogue = s.dialogue) :
    s'.sessionId = s.sessionId :=
  (AgentSession.mk.inj h).1

theorem AgentSession.toScope_of_dialogue {s s' : AgentSession} (h : s'.dialogue = s.dialogue) :
    s'.toScope = s.toScope := by
  have := congrArg AgentSession.toScope h
  exact this

theorem AgentSession.turns_of_dialogue {s s' : AgentSession} (h : s'.dialogue = s.dialogue) :
    s'.turns.map TurnRecord.bare = s.turns.map TurnRecord.bare := by
  have := congrArg AgentSession.turns h
  exact this

theorem AgentSession.pendingInteractions_of_dialogue {s s' : AgentSession}
    (h : s'.dialogue = s.dialogue) : s'.pendingInteractions = s.pendingInteractions := by
  have := congrArg AgentSession.pendingInteractions h
  exact this

namespace Live

/-- The entries of `l'` are those of `l` up to what `AgentSession.dialogue` forgets. -/
def SameEntries (l l' : Live a) : Prop :=
  ∀ sid, (l'.contents.find? sid).map AgentSession.dialogue =
    (l.contents.find? sid).map AgentSession.dialogue

theorem SameEntries.trans {l l' l'' : Live a} (h : SameEntries l l') (h' : SameEntries l' l'') :
    SameEntries l l'' :=
  fun sid => (h' sid).trans (h sid)

/-- Similar sessions have the same entries. -/
theorem Similar.sameEntries {l l' : Live a} (h : Similar l l') : SameEntries l l' := by
  intro sid
  have h_eq := h.contents sid
  cases hx : l'.contents.find? sid <;> cases hy : l.contents.find? sid <;>
    simp_all [AgentSession.dialogue]

/-- A mutation that leaves the dialogue. -/
theorem sameEntries_mutate (l : Live a) {f : AgentSession → AgentSession}
    (hf : (f l.session).dialogue = l.session.dialogue) : SameEntries l (l.mutate f) :=
  map_find?_mutate l (AgentSession.sessionId_of_dialogue hf) _ hf

/-- A store that hands out copies does not see what is done to the working session. -/
theorem sameEntries_of_not_aliased (h : a.aliased = false) (l : Live a)
    (f : AgentSession → AgentSession) : SameEntries l (l.mutate f) := by
  intro sid
  unfold contents
  rw [if_neg (by simp [h]), if_neg (by simp [h])]
  rfl

end Live

/-! ### The interceptor -/

/-- Applying one update leaves the run similar. -/
theorem similar_applyUpdate (counter : TokenCounter) (turnIndex : ℕ) (tcId summary : String)
    (tc : ToolCallRecord) (l : Live a) :
    Live.Similar l (applyUpdate counter turnIndex tcId summary tc l).2 := by
  unfold applyUpdate
  dsimp only
  refine .trans (Live.similar_mutate l ?_) (.trans (Live.similar_updateTcSummary _ tcId summary
    turnIndex) (Live.similar_mutate _ ?_))
  · exact AgentSession.bare_of_turns _ _ (bare_updateFirstTc (by simp) _ _)
  · exact AgentSession.bare_of_turns _ _ (bare_updateFirstTc (by simp) _ _)

/-- Intercepting items leaves the run similar, and raises on the first malformed one. -/
theorem wp_interceptItems (counter : TokenCounter) (turnIndex : ℕ) (items : List Json)
    (done : List ContextUpdate) (l : Live a) :
    Prog.wp (interceptItems counter turnIndex items done)
      (fun _ l' => Live.Similar l l' ∧ ∀ item ∈ items, ∀ e, updateItem item ≠ .error e)
      (fun _ l' => Live.Similar l l' ∧ ∃ item ∈ items, ∃ e, updateItem item = .error e) l := by
  induction items generalizing done l with
  | nil => exact ⟨Live.Similar.refl l, by simp⟩
  | cons item items ih =>
    unfold interceptItems
    rw [Prog.wp_bind, Prog.wp_ofExcept]
    cases h_item : updateItem item with
    | error e => exact ⟨Live.Similar.refl l, item, List.mem_cons_self, e, h_item⟩
    | ok found =>
      -- a well-formed item leaves the verdict to the rest
      have h_rest : ∀ l' done', l.Similar l' →
          Prog.wp (interceptItems counter turnIndex items done')
            (fun _ l'' => Live.Similar l l'' ∧ ∀ i ∈ item :: items, ∀ e, updateItem i ≠ .error e)
            (fun _ l'' => Live.Similar l l'' ∧ ∃ i ∈ item :: items, ∃ e, updateItem i = .error e)
            l' := by
        intro l' done' h_l'
        refine Prog.wp_mono (ih done' l') ?_ ?_
        · rintro _ l'' ⟨h_similar, h_ok⟩
          exact ⟨h_l'.trans h_similar, List.forall_mem_cons.mpr ⟨by simp [h_item], h_ok⟩⟩
        · rintro _ l'' ⟨h_similar, i, h_i, h_bad⟩
          exact ⟨h_l'.trans h_similar, i, List.mem_cons_of_mem _ h_i, h_bad⟩
      cases found with
      | none => exact h_rest l done (.refl l)
      | some p =>
        simp only [Prog.wp_bind, Prog.wp_get]
        cases (l.session.turns.flatMap TurnRecord.toolCalls).find? fun tc => tc.tcId = p.1 with
        | none => exact h_rest l done (.refl l)
        | some tc =>
          simp only [Prog.wp_bind, Prog.wp_update]
          exact h_rest _ _ (similar_applyUpdate counter turnIndex p.1 p.2 tc l)

/-- **The interceptor** returns the cleaned arguments and touches nothing but summaries. It
raises on malformed updates. -/
theorem wp_intercept (cfg : InterceptorConfig) (counter : TokenCounter) (turnIndex : ℕ)
    (args : ToolArgs) (l : Live a) :
    Prog.wp (intercept cfg counter turnIndex args)
      (fun r l' => r.1 = (if cfg.enabled then Dict.erase args cfg.contextUpdatesParamName else args) ∧
        Live.Similar l l' ∧ malformedUpdates cfg args = false)
      (fun _ l' => Live.Similar l l' ∧ malformedUpdates cfg args = true) l := by
  unfold intercept malformedUpdates
  cases cfg.enabled with
  | false => exact ⟨rfl, .refl l, rfl⟩
  | true =>
    simp only [Bool.not_true, Bool.false_eq_true, if_false, if_true, Bool.true_and]
    generalize (Dict.get? args cfg.contextUpdatesParamName).getD (.arr []) = raw
    rw [Prog.wp_ite]
    refine ⟨fun h_none => ⟨rfl, .refl l, by simp_all⟩, fun h_some => ?_⟩
    simp only [Prog.wp_bind, Prog.wp_pure, Prog.wp_ofExcept]
    -- a value that is no sequence raises before any item is looked at
    cases h_items : updateItems raw with
    | error e => exact ⟨.refl l, by simp_all⟩
    | ok items =>
      refine Prog.wp_mono (wp_interceptItems counter turnIndex items [] l) ?_ ?_
      · rintro _ l' ⟨h_similar, h_ok⟩
        refine ⟨trivial, h_similar, ?_⟩
        rw [Bool.and_eq_false_iff, List.any_eq_false]
        refine .inr fun item h_item => ?_
        cases h_result : updateItem item with
        | error e => exact absurd h_result (h_ok item h_item e)
        | ok _ => simp
      · rintro _ l' ⟨h_similar, item, h_item, e, h_bad⟩
        refine ⟨h_similar, ?_⟩
        rw [Bool.and_eq_true, List.any_eq_true]
        exact ⟨by simpa using h_some, item, h_item, by simp [h_bad]⟩

/-! ### The compactor -/

/-- Compacting one call leaves the run similar. -/
theorem similar_compactOne (counter : TokenCounter) (turnIndex : ℕ) (p : TcPosition)
    (summary : String) (l : Live a) :
    Live.Similar l (compactOne counter turnIndex p summary l).1 := by
  unfold compactOne
  dsimp only
  refine .trans (Live.similar_mutate l ?_) (.trans (Live.similar_updateTcSummary _ p.record.tcId
    summary turnIndex) (.trans (Live.similar_mutate _ ?_) (Live.similar_mutate _ ?_)))
  · exact bare_updateTcAt (by simp) _ _ _
  · exact bare_updateTcAt (by simp) _ _ _
  · exact AgentSession.bare_of_turns _ _ rfl

/-- So does compacting the calls one after the other. -/
theorem similar_compactFrom (counter : TokenCounter) (turnIndex : ℕ) (reply : ℕ → Option String)
    (ps : List TcPosition) (j : ℕ) (acc : Live a × ℕ) :
    Live.Similar acc.1 (compactFrom counter turnIndex reply j ps acc).1 := by
  -- by induction on the positions that are left
  induction ps generalizing j acc with
  | nil => exact .refl _
  | cons p ps ih =>
    unfold compactFrom
    dsimp only
    split_ifs
    · exact ih _ _
    · -- the call is compacted, and then the others
      have h_one := similar_compactOne counter turnIndex p (PyStr.strip ((reply j).getD "")) acc.1
      generalize compactOne counter turnIndex p (PyStr.strip ((reply j).getD "")) acc.1 = r at h_one
      exact h_one.trans (ih (j + 1) (r.1, acc.2 + r.2))

/-- **The compactor** touches nothing but summaries. -/
theorem similar_compact (cfg : ServerCompactorConfig) (counter : TokenCounter) (turnIndex : ℕ)
    (reply : ℕ → Option String) (l : Live a) :
    Live.Similar l (compact cfg counter turnIndex reply l).1 := by
  unfold compact
  exact similar_compactFrom counter turnIndex reply _ 0 (l, 0)

end Nexus
