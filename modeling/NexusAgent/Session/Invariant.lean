import NexusAgent.Session.Frame

/-!
# Invariants of a session and of its stored copy

A run has two copies of its session: the one it works on and the store's entry. A
property that is to survive a reload has to hold of both (`Live.Inv`). This module proves
it for the primitive operations on a working session; `Live.Keeps` is the frame that goes
with it: the session id stays, and so do the entries of other sessions, save those a
curating agent may write (`E`).
-/

open Lib

namespace Nexus

/-- The id a curating agent works under. -/
def curatorId (sid : String) : String := sid ++ "__memcurator"

theorem curatorId_ne (sid : String) : sid ≠ curatorId sid := by
  intro h
  have := congrArg String.length h
  simp [curatorId] at this

namespace Live

variable {a : StoreAdapter}

/-! ### The frame -/

/-- `l'` works on the same session id as `l` and has the same entries under all other ids
outside `E`. -/
structure Keeps (E : Set String) (l l' : Live a) : Prop where
  sessionId : l'.session.sessionId = l.session.sessionId
  others : ∀ sid, sid ≠ l.session.sessionId → sid ∉ E →
    l'.contents.find? sid = l.contents.find? sid

variable {E : Set String}

@[refl] theorem Keeps.refl (l : Live a) : Keeps E l l := ⟨rfl, fun _ _ _ => rfl⟩

theorem Keeps.trans {l l' l'' : Live a} (h : Keeps E l l') (h' : Keeps E l' l'') :
    Keeps E l l'' where
  sessionId := h'.sessionId.trans h.sessionId
  others sid h_sid hE := (h'.others sid (h.sessionId ▸ h_sid) hE).trans (h.others sid h_sid hE)

theorem SameCore.keeps {l l' : Live a} (h : SameCore l l') : Keeps E l l' :=
  ⟨h.sessionId, fun sid h_sid _ => h.frame sid h_sid⟩

theorem Similar.keeps {l l' : Live a} (h : Similar l l') : Keeps E l l' := h.sameCore.keeps

theorem keeps_mutate (l : Live a) {f : AgentSession → AgentSession}
    (h_id : (f l.session).sessionId = l.session.sessionId) : Keeps E l (l.mutate f) :=
  ⟨h_id, fun _ h_sid _ => find?_mutate_ne l h_id h_sid⟩

/-- A change of the store that leaves the entries of other sessions. -/
theorem keeps_store (l : Live a) (st : Store a)
    (h : ∀ sid, sid ≠ l.session.sessionId → sid ∉ E → st.find? sid = l.contents.find? sid) :
    Keeps E l { l with store := st } where
  sessionId := rfl
  others sid h_sid hE := (find?_contents_ne ⟨l.session, st⟩ h_sid.symm).trans (h sid h_sid hE)

theorem keeps_saveSession (l : Live a) : Keeps E l l.saveSession :=
  keeps_store l _ fun _ h_sid _ => Store.find?_saveSession_ne _ _ h_sid.symm

theorem keeps_appendTurn (l : Live a) (turn : TurnRecord) (scope : SessionScope) :
    Keeps E l (l.appendTurn turn scope) :=
  keeps_store l _ fun _ h_sid _ => Store.find?_appendTurn_ne _ _ _ h_sid.symm

/-- Loading the session again, from a store that agrees with the contents elsewhere. -/
theorem keeps_reload (l : Live a) (scope : SessionScope) : Keeps E l (l.reload scope) := by
  have h_id : (l.reload scope).session.sessionId = l.session.sessionId := by
    unfold reload
    cases h : l.store.loadSession l.session.sessionId scope with
    | none => rfl
    | some s => exact Store.find?_sessionId (Store.loadSession_eq_some.mp h).1
  refine ⟨h_id, fun sid h_sid _ => ?_⟩
  rw [find?_contents_ne _ (h_id ▸ h_sid.symm), find?_contents_ne l h_sid.symm]
  rfl

/-! ### Invariants -/

/-- `P` holds of the working session and of the store's entry for it. -/
structure Inv (P : AgentSession → Prop) (l : Live a) : Prop where
  session : P l.session
  stored : ∀ s, l.contents.find? l.session.sessionId = some s → P s

/-- A property that only looks at what `AgentSession.core` keeps. -/
def CoreInv (P : AgentSession → Prop) : Prop := ∀ s s', s'.core = s.core → P s → P s'

/-- A property that a session keeps when it grows. -/
def GrowInv (P : AgentSession → Prop) : Prop := ∀ s s', s.Grown s' → P s → P s'

variable {P P' : AgentSession → Prop}

theorem CoreInv.grow (hP : CoreInv P) : GrowInv P := fun s s' h_grown => hP s s' h_grown.core

/-- A property of every turn that does not look at results and summaries. -/
theorem CoreInv.turns {Q : TurnRecord → Prop} (hQ : ∀ t t', t'.shell = t.shell → Q t → Q t') :
    CoreInv fun s => ∀ t ∈ s.turns, Q t := by
  intro s s' h h_all t' ht'
  have h_turns : s'.turns.map TurnRecord.shell = s.turns.map TurnRecord.shell := by
    have := congrArg AgentSession.turns h
    simpa [AgentSession.core, AgentSession.bare, Function.comp_def] using this
  have h_mem := List.mem_map_of_mem (f := TurnRecord.shell) ht'
  rw [h_turns] at h_mem
  obtain ⟨t, ht, h_shell⟩ := List.mem_map.mp h_mem
  exact hQ t t' h_shell.symm (h_all t ht)

theorem Inv.mono {l : Live a} (h : l.Inv P) (hP : ∀ s, P s → P' s) : l.Inv P' :=
  ⟨hP _ h.session, fun s hs => hP s (h.stored s hs)⟩

/-- An invariant of the core is kept by what keeps the core. -/
theorem Inv.sameCore {l l' : Live a} (h : l.Inv P) (hP : CoreInv P) (h_core : SameCore l l') :
    l'.Inv P where
  session := hP _ _ h_core.session h.session
  stored s' hs' := by
    rw [h_core.sessionId] at hs'
    have h_eq := h_core.contents l.session.sessionId
    rw [hs', Option.map_some] at h_eq
    obtain ⟨s, hs, h_s⟩ := Option.map_eq_some_iff.mp h_eq.symm
    exact hP s s' h_s.symm (h.stored s hs)

/-- An invariant that growing keeps is kept. -/
theorem Inv.grows {l l' : Live a} (h : l.Inv P) (hP : GrowInv P) (h_grows : Grows l l') :
    l'.Inv P where
  session := hP _ _ h_grows.session h.session
  stored s' hs' := by
    rw [h_grows.sessionId] at hs'
    obtain ⟨s, hs, h_grown⟩ := h_grows.stored s' hs'
    exact hP s s' h_grown (h.stored s hs)

/-- Mutating the working session, when the result has the property. -/
theorem Inv.mutate {l : Live a} (h : l.Inv P) {f : AgentSession → AgentSession}
    (h_id : (f l.session).sessionId = l.session.sessionId) (hf : P (f l.session)) :
    (l.mutate f).Inv P where
  session := hf
  stored s hs := by
    -- what is stored is the changed session, or what was stored before
    have h_self := find?_contents_self (l.mutate f)
    rw [h_self] at hs
    split_ifs at hs with ha
    · exact Option.some.inj hs ▸ hf
    · refine h.stored s ?_
      rw [find?_contents_self, if_neg ha]
      simpa [h_id] using hs

/-- What a save leaves in the store. -/
theorem find?_saveSession_contents (l : Live a) :
    l.saveSession.contents.find? l.session.sessionId = some l.session := by
  have h_self := find?_contents_self l.saveSession
  rw [saveSession_session] at h_self
  rw [h_self]
  split_ifs
  · rfl
  · exact Store.find?_saveSession_self _ _

/-- A save keeps the invariant. -/
theorem Inv.saveSession {l : Live a} (h : P l.session) : l.saveSession.Inv P where
  session := h
  stored s hs := by
    rw [saveSession_session, find?_saveSession_contents] at hs
    exact Option.some.inj hs ▸ h

/-- A reload from a store whose entry has the property. -/
theorem Inv.reload {l : Live a} (h : P l.session)
    (h_store : ∀ s, l.store.find? l.session.sessionId = some s → P s) (scope : SessionScope) :
    (l.reload scope).Inv P := by
  -- the session at hand is kept, or the stored one is loaded
  have h_session : P (l.reload scope).session := by
    unfold Live.reload
    cases h_load : l.store.loadSession l.session.sessionId scope with
    | none => exact h
    | some s => exact h_store s (Store.loadSession_eq_some.mp h_load).1
  refine ⟨h_session, fun s hs => ?_⟩
  -- under the id there is that session, or what was stored before
  have h_self := find?_contents_self (l.reload scope)
  rw [h_self] at hs
  split_ifs at hs
  · exact Option.some.inj hs ▸ h_session
  · rw [(keeps_reload (E := ∅) l scope).sessionId] at hs
    exact h_store s hs

/-- Appending a turn and loading the session again. -/
theorem Inv.appendTurn_reload {l : Live a} (h : l.Inv P) (hP : ∀ s, P s → P' s)
    {turn : TurnRecord} (h_append : ∀ s, P s → P' (s.addTurn turn)) (scope : SessionScope) :
    ((l.appendTurn turn scope).reload scope).Inv P' := by
  -- the turn is appended in the store, and then the session is loaded again
  refine Inv.reload (l := l.appendTurn turn scope) (hP _ h.session) (fun s hs => ?_) scope
  have h_self := hs.symm.trans
    (Store.find?_appendTurn_self l.contents l.session.sessionId turn scope)
  -- not found: nothing is appended
  cases h_load : l.contents.loadSession l.session.sessionId scope with
  | none =>
    rw [h_load] at h_self
    exact hP s (h.stored s h_self.symm)
  -- found: the turn is at the end of it
  | some s₀ =>
    rw [h_load] at h_self
    exact Option.some.inj h_self ▸ h_append s₀ (h.stored s₀ (Store.loadSession_eq_some.mp h_load).1)

end Live
end Nexus
