import NexusAgent.Runner.StorageOps

/-!
# The turns of runs that share a session

What becomes of the turns that several runs append to one session, for every interleaving of
their storage operations.

* `SharedRuns.view`: the runs as parties of a shared log, whose entries are the turns without
  the results of their records.
* `SharedRuns.Tended`: every copy, and the entry once it is there, belong to one owner.
* `turns_kept_of_spared`: if every operation spares the turns of the other runs, the stored
  session has every appended turn once.
-/

open Lib

namespace Nexus

/-! ### The store -/

theorem RunContext.sessionScope_congr (ctx : RunContext) {s s' : AgentSession}
    (h : s'.toScope = s.toScope) : ctx.sessionScope (some s') = ctx.sessionScope (some s) := by
  obtain ⟨h_tenant, h_company, h_user⟩ := SessionScope.mk.inj h
  simp only [sessionScope, Option.bind_some, h_tenant, h_company, h_user]

namespace CopyingAdapter

variable {σ : Type} {A : CopyingAdapter σ} {st : σ} {sid : String} {scope : SessionScope}

theorem loadSession_eq_some {s : AgentSession} :
    A.loadSession st sid scope = some s ↔
      A.find? st sid = some s ∧ scope.matchesSession s = true := by
  simp [loadSession, Option.filter_eq_some_iff]

/-- The session a save leaves. -/
theorem loadSession_saveSession (st : σ) {s : AgentSession} (h_id : s.sessionId = sid)
    (h_match : scope.matchesSession s = true) :
    A.loadSession (A.saveSession st s) sid scope = some s :=
  loadSession_eq_some.mpr ⟨h_id ▸ A.find?_saveSession st s, h_match⟩

/-- The session an append leaves. -/
theorem loadSession_appendTurn {s : AgentSession} (h : A.loadSession st sid scope = some s)
    {scope' : SessionScope} (h_match : scope'.matchesSession s = true) (turn : TurnRecord) :
    A.loadSession (A.appendTurn st sid turn scope') sid scope = some (s.addTurn turn) := by
  obtain ⟨h_find, h_scope⟩ := loadSession_eq_some.mp h
  refine loadSession_eq_some.mpr ⟨?_, h_scope⟩
  rw [A.find?_appendTurn, h_find, Option.map_some, if_pos h_match]

theorem turns_of_load {ctx : RunContext} {s : AgentSession}
    (h : A.loadSession st sid (ctx.sessionScope none) = some s) : A.turns ctx sid st = s.turns := by
  simp [turns, h]

end CopyingAdapter

/-! ### The copies of a run -/

/-- The turns of the copy a run works on. -/
def Phase.working : Phase → Option (List TurnRecord)
  | .load | .ended => none
  | .create => some []
  | .opened c | .loop c | .summarizing c _ | .synced c _ | .appended c => some c.turns

/-- The turns of the copy a run holds for a summary. -/
def Phase.held : Phase → Option (List TurnRecord)
  | .summarizing _ s => some s.turns
  | _ => none

/-- The sessions a run has in its hands. -/
def Phase.sessions : Phase → List AgentSession
  | .load | .create | .ended => []
  | .opened c | .loop c | .synced c _ | .appended c => [c]
  | .summarizing c s => [c, s]

/-- The two copies of a run: the one it works on (`false`) and the one for a summary. -/
def Party.copies (r : Party) : Bool → Option (LogCopy TurnRecord)
  | false => r.phase.working.map fun turns => ⟨turns.map TurnRecord.shell, r.seen⟩
  | true => r.phase.held.map fun turns => ⟨turns.map TurnRecord.shell, r.seenHeld⟩

namespace SharedRuns

variable {ι σ : Type} {A : CopyingAdapter σ} {ctx : RunContext} {sid : String}
  {owner : SessionScope} {s : SharedRuns ι σ}

/-- The runs as parties of a shared log. -/
def view (A : CopyingAdapter σ) (ctx : RunContext) (sid : String) (s : SharedRuns ι σ) :
    LogView (ι × Bool) TurnRecord where
  contents := (A.turns ctx sid s.store).map TurnRecord.shell
  copies x := (s.runs x.1).copies x.2
  appended := s.persisted.map TurnRecord.shell

/-- What an operation does to the log. -/
def effect (s : SharedRuns ι σ) (act : ι × StorageOp) : LogEffect (ι × Bool) TurnRecord :=
  match act.2 with
  | .load | .reload => .fetched (act.1, false)
  | .create _ | .save _ | .sync _ _ | .finish _ => .written (act.1, false) fun _ => true
  | .fold folded _ => .written (act.1, false) fun t => t.turnIndex ∉ folded
  | .readSummary => .fetched (act.1, true)
  | .writeSummary _ => .written (act.1, true) fun _ => true
  | .append =>
    match (s.runs act.1).phase with
    | .synced _ turn => .appended turn.shell
    | _ => .idle

/-- An operation that spares the turns is one that spares the log. -/
theorem Spares.view {act : ι × StorageOp} (h : s.Spares act) :
    (s.view A ctx sid).Spares (s.effect act) := by
  obtain ⟨i, op⟩ := act
  -- a copy made when all the turns were there has them all
  have h_working : (s.runs i).seen = s.persisted.length →
      ∀ c ∈ (s.runs i).copies false, c.seen = (s.persisted.map TurnRecord.shell).length := by
    intro h_seen c h_c
    obtain ⟨turns, -, rfl⟩ := Option.map_eq_some_iff.mp h_c
    rw [List.length_map]
    exact h_seen
  cases op with
  | load => trivial
  | reload => trivial
  | readSummary => trivial
  | append =>
    show LogView.Spares _ (match (s.runs i).phase with | .synced _ turn => _ | _ => _)
    split <;> trivial
  | create agentId => exact ⟨h_working h, fun _ _ => rfl⟩
  | save session => exact ⟨h_working h, fun _ _ => rfl⟩
  | sync session turn => exact ⟨h_working h, fun _ _ => rfl⟩
  | finish session => exact ⟨h_working h, fun _ _ => rfl⟩
  | fold folded session =>
    refine ⟨h_working h.1, fun x h_x => ?_⟩
    obtain ⟨t, h_t, rfl⟩ := List.mem_map.mp h_x
    exact decide_eq_true (h.2 t h_t)
  | writeSummary session =>
    refine ⟨fun c h_c => ?_, fun _ _ => rfl⟩
    obtain ⟨turns, -, rfl⟩ := Option.map_eq_some_iff.mp h_c
    show (s.runs i).seenHeld = (s.persisted.map TurnRecord.shell).length
    rw [List.length_map]
    exact h

/-! ### One owner -/

/-- Every copy, and the entry once it is there, belong to `owner`, whom the scope of the runs
admits; and as long as the entry is missing, a new session would be `owner`'s. -/
structure Tended (A : CopyingAdapter σ) (ctx : RunContext) (sid : String) (owner : SessionScope)
    (s : SharedRuns ι σ) : Prop where
  admits : ∀ x : AgentSession, x.toScope = owner → (ctx.sessionScope none).matchesSession x = true
  entry : ∀ e ∈ A.loadSession s.store sid (ctx.sessionScope none), e.toScope = owner
  missing : A.loadSession s.store sid (ctx.sessionScope none) = none → owner = ctx.sessionScope none
  create : ∀ i, (s.runs i).phase = .create → owner = ctx.sessionScope none
  copies : ∀ i, ∀ c ∈ (s.runs i).phase.sessions, c.sessionId = sid ∧ c.toScope = owner
  present : ∀ i, (s.runs i).phase.sessions ≠ [] →
    ∃ e, A.loadSession s.store sid (ctx.sessionScope none) = some e

/-- Before the first operation: the owner is that of the entry, if the scope admits one. -/
theorem tended_start (A : CopyingAdapter σ) (ctx : RunContext) (sid : String) (st : σ) :
    Tended A ctx sid
      (((A.loadSession st sid (ctx.sessionScope none)).map AgentSession.toScope).getD
        (ctx.sessionScope none)) (start ι st) where
  admits x h_x := by
    -- at the start there is no session, or the one that is loaded
    cases h_load : A.loadSession st sid (ctx.sessionScope none) with
    | none =>
      rw [h_load] at h_x
      exact (show x.toScope = ctx.sessionScope none from h_x) ▸ x.matches_toScope
    | some e =>
      rw [h_load] at h_x
      rw [SessionScope.matchesSession_congr _ h_x]
      exact (CopyingAdapter.loadSession_eq_some.mp h_load).2
  -- the owner is that of the entry
  entry e h_e := by
    have h_load : A.loadSession st sid (ctx.sessionScope none) = some e := h_e
    rw [h_load]
    rfl
  missing h_none := by
    have h_load : A.loadSession st sid (ctx.sessionScope none) = none := h_none
    rw [h_load]
    rfl
  create i h_i := by cases h_i
  copies i c h_c := by cases h_c
  present i h_i := absurd rfl h_i

namespace Tended

/-- A run with a copy finds the entry, under whatever scope it asks with. -/
theorem entry_of_copy (h : Tended A ctx sid owner s) {i : ι} {c : AgentSession}
    (h_c : c ∈ (s.runs i).phase.sessions) :
    ∃ e, A.loadSession s.store sid (ctx.sessionScope none) = some e ∧ e.toScope = c.toScope ∧
      A.loadSession s.store sid (ctx.sessionScope (some c)) = some e ∧
      A.loadSession s.store sid c.toScope = some e := by
  -- the session was loaded, so it is still there
  obtain ⟨e, h_load⟩ := h.present i (List.ne_nil_of_mem h_c)
  obtain ⟨h_find, h_match⟩ := CopyingAdapter.loadSession_eq_some.mp h_load
  -- and has the scope of the copy
  have h_same : e.toScope = c.toScope := (h.entry e h_load).trans (h.copies i c h_c).2.symm
  refine ⟨e, h_load, h_same, CopyingAdapter.loadSession_eq_some.mpr ⟨h_find, ?_⟩,
    CopyingAdapter.loadSession_eq_some.mpr ⟨h_find, ?_⟩⟩
  · rw [← ctx.sessionScope_congr h_same]
    exact owned_of_matches h_match
  · rw [← h_same]
    exact e.matches_toScope

variable [DecidableEq ι]

/-- What has to hold of one run's operation. -/
theorem advance (h : Tended A ctx sid owner s) {i : ι} {st : σ} {r : Party}
    {persisted : List TurnRecord}
    (h_entry : ∀ e ∈ A.loadSession st sid (ctx.sessionScope none), e.toScope = owner)
    (h_some : A.loadSession s.store sid (ctx.sessionScope none) ≠ none →
      A.loadSession st sid (ctx.sessionScope none) ≠ none)
    (h_create : r.phase = .create → owner = ctx.sessionScope none)
    (h_copies : ∀ c ∈ r.phase.sessions, c.sessionId = sid ∧ c.toScope = owner)
    (h_present : r.phase.sessions ≠ [] → A.loadSession st sid (ctx.sessionScope none) ≠ none) :
    Tended A ctx sid owner
      { store := st, runs := Function.update s.runs i r, persisted := persisted } where
  admits := h.admits
  entry := h_entry
  missing h_none := h.missing (by
    by_contra h_not
    exact h_some h_not h_none)
  create j h_j := by
    by_cases h_i : j = i
    · subst h_i
      exact h_create (by simpa using h_j)
    · -- the other runs are as they were
      exact h.create j (by simpa [h_i] using h_j)
  copies j c h_c := by
    by_cases h_i : j = i
    · subst h_i
      exact h_copies c (by simpa using h_c)
    · exact h.copies j c (by simpa [h_i] using h_c)
  present j h_j := by
    apply Option.ne_none_iff_exists'.mp
    by_cases h_i : j = i
    · subst h_i
      exact h_present (by simpa using h_j)
    · refine h_some (Option.ne_none_iff_exists'.mpr ?_)
      exact h.present j (by simpa [h_i] using h_j)

end Tended

/-! ### One operation -/

variable [DecidableEq ι] {i : ι} {st : σ} {r : Party}

/-- A run's operation, seen as one on the log: the list, the record and the run's own copies
are as it says; the copies of the other runs are not concerned. -/
theorem within_update {e : LogEffect (ι × Bool) TurnRecord} {persisted : List TurnRecord}
    (h_contents : (A.turns ctx sid st).map TurnRecord.shell =
      ((s.view A ctx sid).apply e).contents)
    (h_appended : persisted.map TurnRecord.shell = ((s.view A ctx sid).apply e).appended)
    (h_copies : ∀ b c, r.copies b = some c → ((s.view A ctx sid).apply e).copies (i, b) = some c)
    (h_others : ∀ j b, j ≠ i →
      ((s.view A ctx sid).apply e).copies (j, b) = (s.runs j).copies b) :
    (view A ctx sid
      { store := st, runs := Function.update s.runs i r, persisted := persisted }).Within
        ((s.view A ctx sid).apply e) where
  contents := h_contents
  appended := h_appended
  copies := by
    rintro ⟨j, b⟩ c h_c
    by_cases h_j : j = i
    · -- the run that moved
      subst h_j
      exact h_copies b c (by simpa [view] using h_c)
    · -- and the others, which keep their copies
      rw [h_others j b h_j]
      simpa [view, h_j] using h_c

/-- A load, into copy `b` of the run. -/
theorem within_fetched (b : Bool)
    (h_new : ∀ c, r.copies b = some c →
      c = ⟨(A.turns ctx sid s.store).map TurnRecord.shell, s.persisted.length⟩)
    (h_old : ∀ c, r.copies (!b) = some c → (s.runs i).copies (!b) = some c) :
    (view A ctx sid
      { store := s.store, runs := Function.update s.runs i r, persisted := s.persisted }).Within
        ((s.view A ctx sid).apply (.fetched (i, b))) := by
  refine within_update rfl rfl (fun b' c h_c => ?_) (fun j b' h_j => ?_)
  · by_cases h_b : b' = b
    · -- the copy that was fetched is what the store has now
      subst h_b
      rw [h_new c h_c]
      simp [LogView.apply, view]
    · -- the other copy of this run
      obtain rfl : b' = !b := by
        cases b <;> cases b' <;> simp_all
      simpa [LogView.apply, view] using h_old c h_c
  · simp [LogView.apply, view, h_j]

/-- A save of copy `b` of the run, without the turns `p` rejects. -/
theorem within_written {b : Bool} {c : LogCopy TurnRecord} {p : TurnRecord → Bool}
    (h_copy : (s.runs i).copies b = some c)
    (h_turns : (A.turns ctx sid st).map TurnRecord.shell = c.entries.filter p)
    (h_new : ∀ c', r.copies b = some c' → c' = ⟨c.entries.filter p, c.seen⟩)
    (h_old : ∀ c, r.copies (!b) = some c → (s.runs i).copies (!b) = some c) :
    (view A ctx sid
      { store := st, runs := Function.update s.runs i r, persisted := s.persisted }).Within
        ((s.view A ctx sid).apply (.written (i, b) p)) := by
  have h_apply : (s.view A ctx sid).apply (.written (i, b) p) =
      { s.view A ctx sid with
        contents := c.entries.filter p
        copies := Function.update (s.view A ctx sid).copies (i, b)
          (some ⟨c.entries.filter p, c.seen⟩) } := by
    have h_view : (s.view A ctx sid).copies (i, b) = some c := h_copy
    simp only [LogView.apply, h_view]
  refine within_update (e := .written (i, b) p) ?_ ?_ (fun b' c' h_c => ?_)
    (fun j b' h_j => ?_) <;> rw [h_apply]
  · exact h_turns
  · rfl
  · by_cases h_b : b' = b
    · subst h_b
      rw [h_new c' h_c]
      simp
    · -- a run has two copies, and the other one is left alone
      obtain rfl : b' = !b := by
        cases b <;> cases b' <;> simp_all
      simpa [view] using h_old c' h_c
  · simp [view, h_j]

/-- An append. -/
theorem within_appended {turn : TurnRecord}
    (h_turns : A.turns ctx sid st = A.turns ctx sid s.store ++ [turn])
    (h_old : ∀ b c, r.copies b = some c → (s.runs i).copies b = some c) :
    (view A ctx sid
      { store := st, runs := Function.update s.runs i r, persisted := s.persisted ++ [turn] }).Within
        ((s.view A ctx sid).apply (.appended turn.shell)) := by
  refine within_update ?_ ?_ (fun b c h_c => h_old b c h_c) (fun _ _ _ => rfl)
  · -- the stored turns and the appended ones get the same turn
    show _ = (A.turns ctx sid s.store).map TurnRecord.shell ++ [turn.shell]
    rw [h_turns, List.map_append]
    rfl
  · show _ = s.persisted.map TurnRecord.shell ++ [turn.shell]
    rw [List.map_append]
    rfl

/-! ### Every operation -/

/-- A step of the system is an operation of one of the runs. -/
theorem step_eq_some {i : ι} {op : StorageOp} {t : SharedRuns ι σ}
    (h : step A ctx sid s (i, op) = some t) :
    ∃ st r turns, op.step A ctx sid s.persisted.length s.store (s.runs i) = some (st, r, turns) ∧
      t = { store := st
            runs := Function.update s.runs i r
            persisted := s.persisted ++ turns } := by
  obtain ⟨⟨st, r, turns⟩, h_op, rfl⟩ := Option.map_eq_some_iff.mp h
  exact ⟨st, r, turns, h_op, rfl⟩

namespace Tended

variable (h : Tended A ctx sid owner s)

include h

/-- Writing an edited copy back, if need be without some of its turns. -/
theorem written {b : Bool} {c x : AgentSession} {seen : ℕ} {p : TurnRecord → Bool}
    (h_c : c ∈ (s.runs i).phase.sessions)
    (h_copy : (s.runs i).copies b = some ⟨c.turns.map TurnRecord.shell, seen⟩)
    (h_id : x.sessionId = c.sessionId) (h_scope : x.toScope = c.toScope)
    (h_turns : x.turns.map TurnRecord.shell = (c.turns.map TurnRecord.shell).filter p)
    (h_create : r.phase ≠ .create)
    (h_sessions : ∀ y ∈ r.phase.sessions, y = x ∨ y ∈ (s.runs i).phase.sessions)
    (h_new : ∀ c', r.copies b = some c' → c' = ⟨x.turns.map TurnRecord.shell, seen⟩)
    (h_old : ∀ c', r.copies (!b) = some c' → (s.runs i).copies (!b) = some c') :
    let t : SharedRuns ι σ :=
      { store := A.saveSession s.store x
        runs := Function.update s.runs i r
        persisted := s.persisted }
    Tended A ctx sid owner t ∧
      (t.view A ctx sid).Within ((s.view A ctx sid).apply (.written (i, b) p)) := by
  obtain ⟨h_sid, h_owner⟩ := h.copies i c h_c
  have h_x : x.sessionId = sid ∧ x.toScope = owner := ⟨h_id.trans h_sid, h_scope.trans h_owner⟩
  -- what was saved is what the next load finds
  have h_load := A.loadSession_saveSession s.store h_x.1 (h.admits x h_x.2)
  refine ⟨h.advance (fun e h_e => ?_) (fun _ => ?_) (fun h_eq => absurd h_eq h_create)
    (fun y h_y => ?_) (fun _ => ?_), within_written h_copy ?_ ?_ h_old⟩
  · obtain rfl := Option.some.inj (h_load.symm.trans h_e)
    exact h_x.2
  · simp [h_load]
  · rcases h_sessions y h_y with rfl | h_mem
    · exact h_x
    · exact h.copies i y h_mem
  · simp [h_load]
  · rw [CopyingAdapter.turns_of_load h_load, h_turns]
  · intro c' h_c'
    rw [h_new c' h_c', h_turns]

/-- Loading the session into copy `b`. -/
theorem fetched {b : Bool}
    (h_create : r.phase = .create → owner = ctx.sessionScope none)
    (h_copies : ∀ c ∈ r.phase.sessions, c.sessionId = sid ∧ c.toScope = owner)
    (h_present : r.phase.sessions ≠ [] →
      A.loadSession s.store sid (ctx.sessionScope none) ≠ none)
    (h_new : ∀ c, r.copies b = some c →
      c = ⟨(A.turns ctx sid s.store).map TurnRecord.shell, s.persisted.length⟩)
    (h_old : ∀ c, r.copies (!b) = some c → (s.runs i).copies (!b) = some c) :
    let t : SharedRuns ι σ :=
      { store := s.store
        runs := Function.update s.runs i r
        persisted := s.persisted }
    Tended A ctx sid owner t ∧
      (t.view A ctx sid).Within ((s.view A ctx sid).apply (.fetched (i, b))) :=
  ⟨h.advance h.entry id h_create h_copies h_present, within_fetched b h_new h_old⟩

/-- Writing the edited copy a run works on, and going on with it. -/
theorem saved {c x : AgentSession} (folded : List ℕ) {phase : Phase}
    (h_working : (s.runs i).phase.working = some c.turns) (h_c : c ∈ (s.runs i).phase.sessions)
    (h_edited : (c.withoutTurns folded).Edited x)
    (h_phase : phase = .loop x ∨ phase = .ended ∨ ∃ turn, phase = .synced x turn) :
    let t : SharedRuns ι σ :=
      { store := A.saveSession s.store x
        runs := Function.update s.runs i { s.runs i with phase := phase }
        persisted := s.persisted }
    Tended A ctx sid owner t ∧
      (t.view A ctx sid).Within
        ((s.view A ctx sid).apply (.written (i, false) fun t => t.turnIndex ∉ folded)) := by
  -- the working copy, with what it has seen
  have h_copy : (s.runs i).copies false = some ⟨c.turns.map TurnRecord.shell, (s.runs i).seen⟩ := by
    show (s.runs i).phase.working.map _ = _
    rw [h_working]
    rfl
  -- what is written are its turns less the folded ones
  have h_turns : x.turns.map TurnRecord.shell =
      (c.turns.map TurnRecord.shell).filter fun t => t.turnIndex ∉ folded := by
    rw [h_edited.turns, List.filter_map]
    rfl
  refine h.written h_c h_copy h_edited.sessionId h_edited.toScope h_turns ?_ ?_ ?_ ?_ <;>
    rcases h_phase with rfl | rfl | ⟨turn, rfl⟩ <;>
    simp [Phase.sessions, Party.copies, Phase.working, Phase.held]

/-- The same without a fold. -/
theorem saved_all {c x : AgentSession} {phase : Phase}
    (h_working : (s.runs i).phase.working = some c.turns) (h_c : c ∈ (s.runs i).phase.sessions)
    (h_edited : c.Edited x)
    (h_phase : phase = .loop x ∨ phase = .ended ∨ ∃ turn, phase = .synced x turn) :
    let t : SharedRuns ι σ :=
      { store := A.saveSession s.store x
        runs := Function.update s.runs i { s.runs i with phase := phase }
        persisted := s.persisted }
    Tended A ctx sid owner t ∧
      (t.view A ctx sid).Within
        ((s.view A ctx sid).apply (.written (i, false) fun _ => true)) := by
  -- nothing is folded
  have h_none : c.withoutTurns [] = c := by
    simp [AgentSession.withoutTurns]
  have h_saved := h.saved [] h_working h_c (h_none.symm ▸ h_edited) h_phase
  simpa using h_saved

/-- Loading the session, with whatever scope finds the entry, and going on with it. -/
theorem loaded {e : AgentSession} {phase : Phase}
    (h_load : A.loadSession s.store sid (ctx.sessionScope none) = some e)
    (h_phase : phase = .opened e ∨ phase = .loop e) :
    let t : SharedRuns ι σ :=
      { store := s.store
        runs := Function.update s.runs i { s.runs i with phase := phase, seen := s.persisted.length }
        persisted := s.persisted }
    Tended A ctx sid owner t ∧
      (t.view A ctx sid).Within ((s.view A ctx sid).apply (.fetched (i, false))) := by
  -- the entry has the session's id and its owner's scope
  have h_id : e.sessionId = sid :=
    A.find?_sessionId _ _ _ (CopyingAdapter.loadSession_eq_some.mp h_load).1
  have h_owner := h.entry e h_load
  refine h.fetched ?_ ?_ ?_ ?_ ?_ <;> rcases h_phase with rfl | rfl <;>
    simp [Phase.sessions, Party.copies, Phase.working, Phase.held, h_load, h_id, h_owner,
      CopyingAdapter.turns_of_load h_load]

/-- Creating the session: the run had found none. -/
theorem created (agentId : String) (h_phase : (s.runs i).phase = .create) :
    let x := newSession agentId sid (ctx.sessionScope none)
    let t : SharedRuns ι σ :=
      { store := A.saveSession s.store x
        runs := Function.update s.runs i { s.runs i with phase := .opened x }
        persisted := s.persisted }
    Tended A ctx sid owner t ∧
      (t.view A ctx sid).Within
        ((s.view A ctx sid).apply (.written (i, false) fun _ => true)) := by
  intro x
  have h_x : x.sessionId = sid ∧ x.toScope = owner := ⟨rfl, (h.create i h_phase).symm⟩
  have h_load := A.loadSession_saveSession s.store h_x.1 (h.admits x h_x.2)
  -- a session just made has no turns, and nothing was dropped to make it
  have h_copy : (s.runs i).copies false = some ⟨[], (s.runs i).seen⟩ := by
    show (s.runs i).phase.working.map _ = _
    rw [h_phase]
    rfl
  refine ⟨h.advance (fun e h_e => ?_) (fun _ => by simp [h_load]) nofun (fun y h_y => ?_)
    (fun _ => by simp [h_load]), within_written h_copy ?_ (fun c h_c => ?_) nofun⟩
  · obtain rfl := Option.some.inj (h_load.symm.trans h_e)
    exact h_x.2
  · obtain rfl : y = x := by simpa [Phase.sessions] using h_y
    exact h_x
  · rw [CopyingAdapter.turns_of_load h_load]
    rfl
  · exact (Option.some.inj h_c).symm

/-- The load of an `update_tc_summary`. -/
theorem heldForSummary {c e : AgentSession} (h_phase : (s.runs i).phase = .loop c)
    (h_load : A.loadSession s.store sid (ctx.sessionScope none) = some e) :
    let t : SharedRuns ι σ :=
      { store := s.store
        runs := Function.update s.runs i
          { s.runs i with phase := .summarizing c e, seenHeld := s.persisted.length }
        persisted := s.persisted }
    Tended A ctx sid owner t ∧
      (t.view A ctx sid).Within ((s.view A ctx sid).apply (.fetched (i, true))) := by
  -- the fetched session has the id
  have h_id : e.sessionId = sid :=
    A.find?_sessionId _ _ _ (CopyingAdapter.loadSession_eq_some.mp h_load).1
  have h_c := h.copies i c (by simp [h_phase, Phase.sessions])
  refine h.fetched nofun (fun y h_y => ?_) (fun _ => by simp [h_load]) (fun c' h_c' => ?_)
    (fun c' h_c' => ?_)
  · -- the working copy, and the fetched one
    rcases List.mem_pair.mp h_y with rfl | rfl
    · exact h_c
    · exact ⟨h_id, h.entry _ h_load⟩
  · -- the fetched one has the turns of the store
    rw [CopyingAdapter.turns_of_load h_load]
    exact (Option.some.inj h_c').symm
  · show (s.runs i).phase.working.map _ = some c'
    rw [h_phase]
    exact h_c'

/-- The save of an `update_tc_summary`: the turns of the session it has loaded. -/
theorem summarized {c held x : AgentSession} (h_phase : (s.runs i).phase = .summarizing c held)
    (h_stem : x.stem = held.stem) :
    let t : SharedRuns ι σ :=
      { store := A.saveSession s.store x
        runs := Function.update s.runs i { s.runs i with phase := .loop c }
        persisted := s.persisted }
    Tended A ctx sid owner t ∧
      (t.view A ctx sid).Within
        ((s.view A ctx sid).apply (.written (i, true) fun _ => true)) := by
  have h_core := AgentSession.core_of_stem h_stem
  -- the summary touches no turn, so the copy writes what it held
  have h_turns : x.turns.map TurnRecord.shell = held.turns.map TurnRecord.shell := by
    simpa [AgentSession.core, AgentSession.bare, Function.comp_def]
      using congrArg AgentSession.turns h_core
  have h_copy : (s.runs i).copies true =
      some ⟨held.turns.map TurnRecord.shell, (s.runs i).seenHeld⟩ := by
    show (s.runs i).phase.held.map _ = _
    rw [h_phase]
    rfl
  have h_id := h.copies i c (by simp [h_phase, Phase.sessions])
  have h_held := h.copies i held (by simp [h_phase, Phase.sessions])
  have h_x : x.sessionId = sid ∧ x.toScope = owner :=
    ⟨(AgentSession.sessionId_of_core h_core).trans h_held.1,
      (AgentSession.toScope_of_core h_core).trans h_held.2⟩
  have h_load := A.loadSession_saveSession s.store h_x.1 (h.admits x h_x.2)
  refine ⟨h.advance (fun e h_e => ?_) (fun _ => by simp [h_load]) (by simp) (fun y h_y => ?_)
    (fun _ => by simp [h_load]), within_written h_copy ?_ (by rintro _ ⟨⟩) (fun c' h_c' => ?_)⟩
  · obtain rfl := Option.some.inj (h_load.symm.trans h_e)
    exact h_x.2
  · obtain rfl : y = c := by simpa [Phase.sessions] using h_y
    exact h_id
  · rw [CopyingAdapter.turns_of_load h_load, h_turns]
    exact (List.filter_true _).symm
  · show (s.runs i).phase.working.map _ = some c'
    rw [h_phase]
    exact h_c'

/-- The append. -/
theorem appended {c : AgentSession} {turn : TurnRecord}
    (h_phase : (s.runs i).phase = .synced c turn) :
    let t : SharedRuns ι σ :=
      { store := A.appendTurn s.store sid turn (ctx.sessionScope (some c))
        runs := Function.update s.runs i { s.runs i with phase := .appended c }
        persisted := s.persisted ++ [turn] }
    Tended A ctx sid owner t ∧
      (t.view A ctx sid).Within ((s.view A ctx sid).apply (s.effect (i, .append))) := by
  have h_c : c ∈ (s.runs i).phase.sessions := by simp [h_phase, Phase.sessions]
  obtain ⟨e, h_load, h_same, h_own, -⟩ := h.entry_of_copy h_c
  have h_match := (CopyingAdapter.loadSession_eq_some.mp h_own).2
  -- the append reads the stored entry, not the run's copy of it
  have h_append := A.loadSession_appendTurn h_load h_match turn
  have h_effect : s.effect (i, .append) = .appended turn.shell := by simp [effect, h_phase]
  rw [h_effect]
  refine ⟨h.advance (fun x h_x => ?_) (fun _ => by simp [h_append]) nofun (fun y h_y => ?_)
    (fun _ => by simp [h_append]), within_appended ?_ (fun b c' h_c' => ?_)⟩
  · obtain rfl := Option.some.inj (h_append.symm.trans h_x)
    exact h.entry e h_load
  · obtain rfl : y = c := by simpa [Phase.sessions] using h_y
    exact h.copies i _ h_c
  · rw [CopyingAdapter.turns_of_load h_append, CopyingAdapter.turns_of_load h_load]
    rfl
  · cases b with
    | true => cases h_c'
    | false =>
      show (s.runs i).phase.working.map _ = some c'
      rw [h_phase]
      exact h_c'

/-- **One operation of one run.** -/
theorem step {act : ι × StorageOp} {t : SharedRuns ι σ}
    (h_step : SharedRuns.step A ctx sid s act = some t) :
    Tended A ctx sid owner t ∧
      (t.view A ctx sid).Within ((s.view A ctx sid).apply (s.effect act)) := by
  obtain ⟨i, op⟩ := act
  obtain ⟨st, r, turns, h_op, rfl⟩ := step_eq_some h_step
  unfold StorageOp.step at h_op
  split at h_op
  · -- the session is there, or has to be created
    next h_phase =>
    cases h_load : A.loadSession s.store sid (ctx.sessionScope none) with
    | some e =>
      rw [h_load] at h_op
      cases h_op
      rw [List.append_nil]
      exact h.loaded h_load (.inl rfl)
    | none =>
      rw [h_load] at h_op
      cases h_op
      have h_turns : A.turns ctx sid s.store = [] := by simp [CopyingAdapter.turns, h_load]
      rw [List.append_nil]
      refine h.fetched (b := false) (fun _ => h.missing h_load) ?_ ?_ ?_ ?_ <;>
        simp [Phase.sessions, Party.copies, Phase.working, Phase.held, h_turns]
  · -- a new session is the owner's
    next agentId h_phase =>
    cases h_op
    rw [List.append_nil]
    exact h.created agentId h_phase
  · next c x h_phase =>
    obtain ⟨h_edited, h_op⟩ := Option.ite_none_right_eq_some.mp h_op
    cases h_op
    rw [List.append_nil]
    exact h.saved_all (c := c) (by simp [h_phase, Phase.working]) (by simp [h_phase, Phase.sessions])
      h_edited (.inl rfl)
  · next c x h_phase =>
    obtain ⟨h_edited, h_op⟩ := Option.ite_none_right_eq_some.mp h_op
    cases h_op
    rw [List.append_nil]
    exact h.saved_all (c := c) (by simp [h_phase, Phase.working]) (by simp [h_phase, Phase.sessions])
      h_edited (.inl rfl)
  · next c folded x h_phase =>
    obtain ⟨h_edited, h_op⟩ := Option.ite_none_right_eq_some.mp h_op
    cases h_op
    rw [List.append_nil]
    exact h.saved (c := c) folded (by simp [h_phase, Phase.working]) (by simp [h_phase, Phase.sessions])
      h_edited (.inl rfl)
  · -- an `update_tc_summary` reads what any load reads
    next c h_phase =>
    obtain ⟨e, h_load, -, -, h_own⟩ := h.entry_of_copy (i := i) (c := c)
      (by simp [h_phase, Phase.sessions])
    rw [h_own] at h_op
    cases h_op
    rw [List.append_nil]
    exact h.heldForSummary h_phase h_load
  · next c held x h_phase =>
    obtain ⟨h_stem, h_op⟩ := Option.ite_none_right_eq_some.mp h_op
    cases h_op
    rw [List.append_nil]
    exact h.summarized h_phase h_stem
  · next c x turn h_phase =>
    obtain ⟨h_edited, h_op⟩ := Option.ite_none_right_eq_some.mp h_op
    cases h_op
    rw [List.append_nil]
    exact h.saved_all (c := c) (by simp [h_phase, Phase.working]) (by simp [h_phase, Phase.sessions])
      h_edited (.inr (.inr ⟨turn, rfl⟩))
  · next c turn h_phase =>
    cases h_op
    exact h.appended h_phase
  · next c h_phase =>
    obtain ⟨e, h_load, -, h_own, -⟩ := h.entry_of_copy (i := i) (c := c)
      (by simp [h_phase, Phase.sessions])
    rw [h_own] at h_op
    cases h_op
    rw [List.append_nil]
    exact h.loaded h_load (.inr rfl)
  · next c h_phase =>
    obtain ⟨e, h_load, -, h_own, -⟩ := h.entry_of_copy (i := i) (c := c)
      (by simp [h_phase, Phase.sessions])
    rw [h_own] at h_op
    cases h_op
    rw [List.append_nil]
    exact h.loaded h_load (.inr rfl)
  · next c x h_phase =>
    obtain ⟨h_edited, h_op⟩ := Option.ite_none_right_eq_some.mp h_op
    cases h_op
    rw [List.append_nil]
    exact h.saved_all (c := c) (by simp [h_phase, Phase.working]) (by simp [h_phase, Phase.sessions])
      h_edited (.inr (.inl rfl))
  · cases h_op

end Tended

/-! ### Every interleaving -/

/-- The stored session has the turns the runs have appended, each of them once and in the
order they were, after turns it had before. The results of records are left aside. -/
def KeepsTurns (A : CopyingAdapter σ) (ctx : RunContext) (sid : String) (st : σ)
    (s : SharedRuns ι σ) : Prop :=
  ∃ kept, kept.Sublist ((A.turns ctx sid st).map TurnRecord.shell) ∧
    (A.turns ctx sid s.store).map TurnRecord.shell = kept ++ s.persisted.map TurnRecord.shell

/-- **Runs that share a session keep their turns**, for every session store, every number of
runs under one identity and every interleaving of their storage operations, if each operation
spares the turns: what is written back as a whole was loaded after the last append, and no
context summary folds an appended turn away. -/
theorem turns_kept_of_spared (A : CopyingAdapter σ) (ctx : RunContext) (sid : String) (st : σ)
    {acts : List (ι × StorageOp)}
    (h : runSteps (SharedRuns.step A ctx sid) (start ι st) acts = some s)
    (h_each : EachStep (SharedRuns.step A ctx sid) Spares (start ι st) acts) :
    s.KeepsTurns A ctx sid st :=
  (sound_of_spared (tended_start A ctx sid st) (fun _ _ _ h_tended h_step => h_tended.step h_step)
    (fun _ _ h_spares => h_spares.view)
    (fun ⟨_, b⟩ => by cases b <;> rfl) rfl h h_each).kept

end SharedRuns

/-- The operations of a run that answers at once. -/
def answerOps (c : AgentSession) (turn : TurnRecord) : List StorageOp :=
  [.load, .save c, .sync c turn, .append, .reload, .finish (c.addTurn turn)]

/-- A chat without turns. -/
def chatSession : AgentSession := { sessionId := "chat", agentId := "helper" }

/-- The answer to a message, stored as the chat's next turn. -/
def chatTurn (index : ℕ) (message : String) : TurnRecord :=
  { turnIndex := index
    userMessage := some message
    llmMessages := [buildAssistantLlmMessage (some "Done.") []] }

/-- The redis store with the chat. -/
def chatStore : Store (.redis "") := (Store.empty _).saveSession chatSession

/-- One run after the other. -/
def oneAfterTheOther : List (Bool × StorageOp) :=
  (answerOps chatSession (chatTurn 0 "Book it.")).map (Prod.mk false) ++
    (answerOps (chatSession.addTurn (chatTurn 0 "Book it.")) (chatTurn 1 "Cancel it.")).map
      (Prod.mk true)

/-- Two runs one after the other keep both turns. -/
theorem turns_kept_one_after_the_other :
    ∃ s, runSteps (SharedRuns.step (CopyingAdapter.redis "") {} "chat") (.start Bool chatStore)
        oneAfterTheOther = some s ∧
      s.KeepsTurns (CopyingAdapter.redis "") {} "chat" chatStore := by
  have h_some : (runSteps (SharedRuns.step (CopyingAdapter.redis "") {} "chat")
      (.start Bool chatStore) oneAfterTheOther).isSome = true := by decide +kernel
  obtain ⟨s, h_s⟩ := Option.isSome_iff_exists.mp h_some
  exact ⟨s, h_s, SharedRuns.turns_kept_of_spared _ _ _ _ h_s (by decide +kernel)⟩

/-- The second run opens the session, the first runs to its end, the second goes on. -/
def oneWithinTheOther : List (Bool × StorageOp) :=
  let second := answerOps chatSession (chatTurn 0 "Cancel it.")
  (second.take 2).map (Prod.mk true) ++
    (answerOps chatSession (chatTurn 0 "Book it.")).map (Prod.mk false) ++
      (second.drop 2).map (Prod.mk true)

/-- **Two runs on one chat, and the turn of the first is gone**: the second saves the state
bag into the copy it had loaded before that turn. -/
theorem turns_lost :
    ∃ s, runSteps (SharedRuns.step (CopyingAdapter.redis "") {} "chat") (.start Bool chatStore)
        oneWithinTheOther = some s ∧
      s.Over ∧ ¬s.KeepsTurns (CopyingAdapter.redis "") {} "chat" chatStore := by
  -- the first run writes its own copy over the turn of the second
  have h_run : (runSteps (SharedRuns.step (CopyingAdapter.redis "") {} "chat")
      (.start Bool chatStore) oneWithinTheOther).map (fun s =>
        ((s.runs false).phase, (s.runs true).phase,
          (CopyingAdapter.redis "").turns {} "chat" s.store, s.persisted)) =
      some (.ended, .ended, [chatTurn 0 "Cancel it."],
        [chatTurn 0 "Book it.", chatTurn 0 "Cancel it."]) := by decide +kernel
  obtain ⟨s, h_s, h_end⟩ := Option.map_eq_some_iff.mp h_run
  simp only [Prod.mk.injEq] at h_end
  obtain ⟨h_first, h_second, h_turns, h_persisted⟩ := h_end
  refine ⟨s, h_s, fun i => ?_, fun ⟨kept, _, h_eq⟩ => ?_⟩
  · cases i with
    | false => exact h_first
    | true => exact h_second
  · rw [h_turns, h_persisted] at h_eq
    -- one turn is stored, and two were appended
    have h_length := congrArg List.length h_eq
    simp only [List.length_append, List.length_map, List.length_cons, List.length_nil] at h_length
    omega

end Nexus
