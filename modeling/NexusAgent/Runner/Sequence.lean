import Mathlib.Data.List.Range
import Mathlib.Logic.Function.Basic
import Mathlib.Tactic.Common

/-!
# Sequence numbers of stream events

`run_stream` numbers every event it yields with a counter of the runner, and the counter is
kept in the session. A run starts from the counter of the stored session; the number of an
event gets there with the next save. Whoever stops reading does so at an event, so the save
after the last event he read never happens.

* `Numbering`: the stored counter, the counters of the runners, and the numbers emitted.
* `Sequenced`: what is promised of the numbers: they go up from run to run, and by one within
  a run.
* `Tracker`: whether the stored counter is behind, told from the runs and resumes alone.
* `sequenced_iff`: the numbers keep the promise exactly when no run that emits starts from a
  counter that is behind.
* `number_used_twice`: a caller who stops at the first event.
-/

namespace Nexus

namespace StreamSeq

/-! ### The counter -/

/-- What a run does about the counter between its opening and its end. -/
inductive Mark
  /-- `_number_stream_event`: an event gets its number and is yielded. -/
  | event
  /-- `_maybe_save_session`. -/
  | save
  /-- A context summary is stored, whether the run persists or not. -/
  | fold
  deriving DecidableEq, Repr

/-- A run at work: the stored counter, `_stream_seq`, and the numbers it emitted. -/
structure Progress where
  stored : ℕ
  seq : ℕ
  emitted : List ℕ := []
  deriving DecidableEq, Repr

/-- One of the things a run does. The working session has the runner's counter, so this is
what a save stores. -/
def Progress.mark (persist : Bool) (p : Progress) : Mark → Progress
  | .event => { p with seq := p.seq + 1, emitted := p.emitted ++ [p.seq + 1] }
  | .save => if persist then { p with stored := p.seq } else p
  | .fold => { p with stored := p.seq }

/-- `_run_loop`: the runner takes its counter from the session it loads. -/
def runLoop (persist : Bool) (stored : ℕ) (marks : List Mark) : Progress :=
  marks.foldl (Progress.mark persist) { stored := stored, seq := stored }

/-- The counter of a runner, and whether the session it last worked on (`_loop_session`) is
the one under consideration. -/
structure Counter where
  seq : ℕ := 0
  bound : Bool := false
  deriving DecidableEq, Repr

/-- A session, its runners, and the numbers of its events so far, run by run. A session that
is still to be created has the counter `0`. -/
structure Numbering where
  stored : ℕ
  counter : ℕ → Counter := fun _ => {}
  runs : List (List ℕ) := []

/-- A use of a runner `i`. -/
inductive Action
  /-- `run_stream` on the session, read to its end or left at an event. -/
  | runStream (i : ℕ) (persist : Bool) (marks : List Mark) (exhausted : Bool)
  /-- `resume` of the session, which finds interactions to resume. -/
  | resume (i : ℕ) (persist : Bool) (marks : List Mark)
  /-- A run on another session, which leaves the runner with that session's counter. -/
  | elsewhere (i seq : ℕ)
  deriving DecidableEq, Repr

/-- What a run that is read to its end does besides: `_persist_loop_stream_seq`. -/
def allMarks (marks : List Mark) (exhausted : Bool) : List Mark :=
  marks ++ if exhausted then [.save] else []

/-- `run_stream`. -/
def Numbering.runStream (σ : Numbering) (i : ℕ) (persist : Bool) (marks : List Mark)
    (exhausted : Bool) : Numbering :=
  let p := runLoop persist σ.stored (allMarks marks exhausted)
  { stored := p.stored
    counter := Function.update σ.counter i ⟨p.seq, true⟩
    runs := σ.runs ++ [p.emitted] }

/-- The counter a `resume` saves before its run: a runner that last worked on the session
saves its own. -/
def Numbering.resumed (σ : Numbering) (i : ℕ) (persist : Bool) : ℕ :=
  if persist && (σ.counter i).bound then (σ.counter i).seq else σ.stored

/-- `resume`. The events of its run are numbered by nobody. -/
def Numbering.resume (σ : Numbering) (i : ℕ) (persist : Bool) (marks : List Mark) : Numbering :=
  let p := runLoop persist (σ.resumed i persist) (marks.filter (· ≠ .event))
  { σ with stored := p.stored, counter := Function.update σ.counter i ⟨p.seq, true⟩ }

/-- One action. -/
def Numbering.step (σ : Numbering) : Action → Numbering
  | .runStream i persist marks exhausted => σ.runStream i persist marks exhausted
  | .resume i persist marks => σ.resume i persist marks
  | .elsewhere i seq => { σ with counter := Function.update σ.counter i ⟨seq, false⟩ }

/-- A session found with a counter, and a history of it. -/
def history (stored : ℕ) (acts : List Action) : Numbering :=
  acts.foldl Numbering.step { stored := stored }

/-- The numbers of the runs go up without repetition, and by one within each run. -/
structure Sequenced (runs : List (List ℕ)) : Prop where
  increasing : runs.flatten.Pairwise (· < ·)
  gapless : ∀ r ∈ runs, ∃ n, r = List.range' n r.length

/-! ### Who is behind -/

/-- Where the counter of a runner stands. -/
inductive Standing
  /-- The runner did not work on the session last. -/
  | away
  /-- Events were emitted since the runner worked on the session. -/
  | outdated
  /-- The runner has the number of the last event. -/
  | current
  deriving DecidableEq, Repr

/-- A runner once others emit events. -/
def Standing.overtaken : Standing → Standing
  | .away => .away
  | _ => .outdated

/-- Whether the stored counter is behind the last event, and where the runners stand. -/
structure Tracker where
  behind : Bool := false
  standing : ℕ → Standing := fun _ => .away

/-- Whether the stored counter is behind that of the run, after one more mark. -/
def unsaved (persist : Bool) : Bool → Mark → Bool
  | _, .event => true
  | u, .save => u && !persist
  | _, .fold => false

/-- The run emits events for the session. -/
def Action.emits : Action → Bool
  | .runStream _ _ marks _ => marks.any (· = .event)
  | _ => false

/-- What an action does to the standing of the counters. -/
def Tracker.step (t : Tracker) : Action → Tracker
  | .runStream i persist marks exhausted =>
    if marks.any (· = .event) then
      { behind := (allMarks marks exhausted).foldl (unsaved persist) false
        standing := Function.update (fun j => (t.standing j).overtaken) i .current }
    else
      { t with standing := Function.update t.standing i (if t.behind then .outdated else .current) }
  | .resume i persist _ =>
    -- resuming saves the session, with the number that this runner holds
    let behind := if persist then
        match t.standing i with
        | .away => t.behind
        | .outdated => true
        | .current => false
      else t.behind
    { behind := behind
      standing := Function.update t.standing i (if behind then .outdated else .current) }
  | .elsewhere i _ => { t with standing := Function.update t.standing i .away }

/-- No run of the history that emits events starts from a counter that is behind. -/
def UpToDate : Tracker → List Action → Prop
  | _, [] => True
  | t, act :: acts => (act.emits = true → t.behind = false) ∧ UpToDate (t.step act) acts

/-! ### One run -/

/-- How many events a run yields. -/
def eventCount (marks : List Mark) : ℕ := marks.count .event

theorem eventCount_allMarks (marks : List Mark) (exhausted : Bool) :
    eventCount (allMarks marks exhausted) = eventCount marks := by
  cases exhausted <;> simp [eventCount, allMarks]

theorem emits_iff {marks : List Mark} : marks.any (· = .event) = true ↔ 0 < eventCount marks := by
  simp [eventCount, List.count_pos_iff]

/-- Events get the numbers after the last one, in order. -/
theorem foldl_mark (persist : Bool) (marks : List Mark) (p : Progress) :
    (marks.foldl (Progress.mark persist) p).seq = p.seq + eventCount marks ∧
      (marks.foldl (Progress.mark persist) p).emitted =
        p.emitted ++ List.range' (p.seq + 1) (eventCount marks) := by
  induction marks generalizing p with
  | nil => simp [eventCount]
  | cons m marks ih =>
    obtain ⟨h_seq, h_emitted⟩ := ih (p.mark persist m)
    rw [List.foldl_cons, h_seq, h_emitted]
    cases m with
    | event =>
      have h_count : eventCount (.event :: marks) = eventCount marks + 1 := by simp [eventCount]
      rw [h_count, List.range'_succ]
      refine ⟨?_, ?_⟩
      · show p.seq + 1 + _ = _
        omega
      · show p.emitted ++ [p.seq + 1] ++ _ = _
        rw [List.append_assoc]
        rfl
    -- a save changes what is stored, not the numbers given out
    | save =>
      have h_count : eventCount (.save :: marks) = eventCount marks := by simp [eventCount]
      rw [h_count]
      cases persist <;> exact ⟨rfl, rfl⟩
    | fold =>
      have h_count : eventCount (.fold :: marks) = eventCount marks := by simp [eventCount]
      rw [h_count]
      exact ⟨rfl, rfl⟩

/-- The stored counter follows that of the run, and `unsaved` tells whether it is behind. -/
theorem foldl_mark_stored (persist : Bool) (marks : List Mark) (p : Progress)
    (h : p.stored ≤ p.seq) :
    p.stored ≤ (marks.foldl (Progress.mark persist) p).stored ∧
      (marks.foldl (Progress.mark persist) p).stored ≤
        (marks.foldl (Progress.mark persist) p).seq ∧
      marks.foldl (unsaved persist) (p.stored < p.seq) =
        decide ((marks.foldl (Progress.mark persist) p).stored <
          (marks.foldl (Progress.mark persist) p).seq) := by
  induction marks generalizing p with
  | nil => exact ⟨le_rfl, h, rfl⟩
  | cons m marks ih =>
    -- one mark: the stored counter grows, and stays behind the counter
    have h_mark : p.stored ≤ (p.mark persist m).stored ∧
        (p.mark persist m).stored ≤ (p.mark persist m).seq ∧
        unsaved persist (p.stored < p.seq) m =
          decide ((p.mark persist m).stored < (p.mark persist m).seq) := by
      cases m with
      | event =>
        refine ⟨le_rfl, Nat.le_succ_of_le h, ?_⟩
        -- an event leaves the store behind
        exact (decide_eq_true (Nat.lt_succ_of_le h)).symm
      | save => cases persist <;> simp [Progress.mark, unsaved, h]
      | fold => simp [Progress.mark, unsaved, h]
    obtain ⟨h_grows, h_le, h_unsaved⟩ := h_mark
    obtain ⟨h_grows', h_le', h_unsaved'⟩ := ih (p.mark persist m) h_le
    refine ⟨h_grows.trans h_grows', h_le', ?_⟩
    rw [List.foldl_cons, h_unsaved]
    exact h_unsaved'

/-- **One run**: it emits the numbers after the counter it found. -/
structure Ran (persist : Bool) (stored : ℕ) (marks : List Mark) (p : Progress) : Prop where
  seq : p.seq = stored + eventCount marks
  emitted : p.emitted = List.range' (stored + 1) (eventCount marks)
  stored_ge : stored ≤ p.stored
  stored_le : p.stored ≤ p.seq
  behind : marks.foldl (unsaved persist) false = decide (p.stored < p.seq)

/-- The loop of a run marks its progress. -/
theorem ran_runLoop (persist : Bool) (stored : ℕ) (marks : List Mark) :
    Ran persist stored marks (runLoop persist stored marks) := by
  have h_mark := foldl_mark persist marks { stored := stored, seq := stored }
  have h_stored := foldl_mark_stored persist marks { stored := stored, seq := stored } le_rfl
  refine ⟨h_mark.1, h_mark.2, h_stored.1, h_stored.2.1, ?_⟩
  rw [← runLoop] at h_stored
  rw [← h_stored.2.2]
  simp

/-- A run without events leaves the counter alone. -/
theorem Ran.silent {persist : Bool} {stored : ℕ} {marks : List Mark} {p : Progress}
    (h : Ran persist stored marks p) (h_none : eventCount marks = 0) :
    p.stored = stored ∧ p.seq = stored := by
  have h_seq := h.seq
  have h_ge := h.stored_ge
  have h_le := h.stored_le
  omega

/-! ### Histories -/

/-- The number of the last event, `init` before the first. -/
def lastSeq (init : ℕ) (runs : List (List ℕ)) : ℕ := runs.flatten.getLast?.getD init

/-- The counter of a runner stands where the tracker says. -/
def Stands (init last : ℕ) (c : Counter) : Standing → Prop
  | .away => c.bound = false
  | .outdated => c.bound = true ∧ init ≤ c.seq ∧ c.seq < last
  | .current => c.bound = true ∧ c.seq = last

/-- The tracker tells where the counters are. -/
structure Tracks (init : ℕ) (t : Tracker) (σ : Numbering) : Prop where
  stored_ge : init ≤ σ.stored
  stored_le : σ.stored ≤ lastSeq init σ.runs
  behind : t.behind = decide (σ.stored < lastSeq init σ.runs)
  standing : ∀ i, Stands init (lastSeq init σ.runs) (σ.counter i) (t.standing i)

section History

variable {init : ℕ} {t : Tracker} {σ : Numbering}

theorem lastSeq_concat_nil (init : ℕ) (runs : List (List ℕ)) :
    lastSeq init (runs ++ [[]]) = lastSeq init runs := by
  simp [lastSeq]

/-- The last number is that of the last run. -/
theorem lastSeq_concat_range' (init : ℕ) (runs : List (List ℕ)) {n k : ℕ} (h : 0 < k) :
    lastSeq init (runs ++ [List.range' (n + 1) k]) = n + k := by
  have h_last : (List.range' (n + 1) k).getLast? = some (n + k) := by
    rw [List.getLast?_range', if_neg (by omega)]
    congr 1
    omega
  simp [lastSeq, h_last]

/-- The runner that just left a run stands where the stored counter is. -/
theorem stands_of_behind {last stored : ℕ} (h_ge : init ≤ stored) (h_le : stored ≤ last) :
    Stands init last ⟨stored, true⟩ (if stored < last then .outdated else .current) := by
  split_ifs with h_lt
  · exact ⟨rfl, h_ge, h_lt⟩
  · exact ⟨rfl, le_antisymm h_le (not_lt.mp h_lt)⟩

/-- A change at one runner. -/
theorem Tracks.update (h : Tracks init t σ) {i : ℕ} {c : Counter} (st : Standing)
    (h_c : Stands init (lastSeq init σ.runs) c st) (j : ℕ) :
    Stands init (lastSeq init σ.runs) (Function.update σ.counter i c j)
      (Function.update t.standing i st j) := by
  by_cases h_j : j = i
  · subst h_j
    rwa [Function.update_self, Function.update_self]
  · rw [Function.update_of_ne h_j, Function.update_of_ne h_j]
    exact h.standing j

/-- A counter that is overtaken is outdated. -/
theorem Stands.overtaken {last last' : ℕ} {c : Counter} {st : Standing} (h : Stands init last c st)
    (h_init : init ≤ last) (h_lt : last < last') : Stands init last' c st.overtaken := by
  cases st with
  | away => exact h
  | outdated =>
    obtain ⟨h_bound, h_ge, h_seq⟩ := h
    exact ⟨h_bound, h_ge, h_seq.trans h_lt⟩
  | current =>
    obtain ⟨h_bound, h_seq⟩ := h
    exact ⟨h_bound, h_seq.ge.trans' h_init, h_seq.le.trans_lt h_lt⟩

/-- A run that emits, from a counter that is up to date. -/
theorem Tracks.emitting (h : Tracks init t σ) (i : ℕ) (persist : Bool) {marks : List Mark}
    (exhausted : Bool) (h_emits : marks.any (· = .event) = true) (h_ok : t.behind = false) :
    Tracks init (t.step (.runStream i persist marks exhausted))
      (σ.runStream i persist marks exhausted) := by
  have h_ran := ran_runLoop persist σ.stored (allMarks marks exhausted)
  -- nothing is behind, so the stored counter is the last number given
  have h_stored : σ.stored = lastSeq init σ.runs := by
    have h_behind := h.behind
    rw [h_ok] at h_behind
    have := of_decide_eq_false h_behind.symm
    have := h.stored_le
    omega
  have h_pos : 0 < eventCount (allMarks marks exhausted) := by
    rw [eventCount_allMarks]
    exact emits_iff.mp h_emits
  have h_new : lastSeq init (σ.runStream i persist marks exhausted).runs =
      (runLoop persist σ.stored (allMarks marks exhausted)).seq := by
    show lastSeq init (σ.runs ++ [_]) = _
    rw [h_ran.emitted, lastSeq_concat_range' init σ.runs h_pos, h_ran.seq]
  -- a run that emits gives higher numbers than all before
  have h_lt : lastSeq init σ.runs < lastSeq init (σ.runStream i persist marks exhausted).runs := by
    rw [h_new, h_ran.seq, ← h_stored]
    omega
  have h_tracker : t.step (.runStream i persist marks exhausted) =
      { behind := (allMarks marks exhausted).foldl (unsaved persist) false
        standing := Function.update (fun j => (t.standing j).overtaken) i .current } := by
    rw [Tracker.step, if_pos h_emits]
  rw [h_tracker]
  refine ⟨h.stored_ge.trans h_ran.stored_ge, h_ran.stored_le.trans h_new.ge, ?_, fun j => ?_⟩
  · rw [h_new]
    exact h_ran.behind
  · show Stands init _ (Function.update σ.counter i _ j)
      (Function.update (fun j => (t.standing j).overtaken) i .current j)
    by_cases h_j : j = i
    · subst h_j
      rw [Function.update_self, Function.update_self]
      exact ⟨rfl, h_new.symm⟩
    · rw [Function.update_of_ne h_j, Function.update_of_ne h_j]
      exact (h.standing j).overtaken (h.stored_ge.trans h.stored_le) h_lt

/-- A run that emits nothing. -/
theorem Tracks.silent (h : Tracks init t σ) (i : ℕ) (persist : Bool) {marks : List Mark}
    (exhausted : Bool) (h_none : ¬marks.any (· = .event) = true) :
    Tracks init (t.step (.runStream i persist marks exhausted))
      (σ.runStream i persist marks exhausted) := by
  have h_ran := ran_runLoop persist σ.stored (allMarks marks exhausted)
  -- a run without events gives out no number and saves the one it read
  have h_count : eventCount (allMarks marks exhausted) = 0 := by
    rw [eventCount_allMarks]
    exact Nat.eq_zero_of_not_pos (mt emits_iff.mpr h_none)
  obtain ⟨h_stored, h_seq⟩ := h_ran.silent h_count
  have h_runs : lastSeq init (σ.runStream i persist marks exhausted).runs = lastSeq init σ.runs := by
    show lastSeq init (σ.runs ++ [_]) = _
    rw [h_ran.emitted, h_count]
    exact lastSeq_concat_nil init σ.runs
  have h_kept : (σ.runStream i persist marks exhausted).stored = σ.stored := h_stored
  have h_tracker : t.step (.runStream i persist marks exhausted) = { t with
      standing := Function.update t.standing i (if t.behind then .outdated else .current) } := by
    rw [Tracker.step, if_neg h_none]
  rw [h_tracker]
  refine ⟨?_, ?_, ?_, fun j => ?_⟩
  · rw [h_kept]
    exact h.stored_ge
  · rw [h_runs, h_kept]
    exact h.stored_le
  · rw [h_runs, h_kept]
    exact h.behind
  · rw [h_runs]
    refine h.update _ ?_ j
    rw [h_seq, h.behind]
    simpa using stands_of_behind h.stored_ge h.stored_le

/-- What the first save of a resume does to the stored counter. -/
theorem Tracks.resumed (h : Tracks init t σ) (i : ℕ) (persist : Bool) (marks : List Mark) :
    init ≤ σ.resumed i persist ∧ σ.resumed i persist ≤ lastSeq init σ.runs ∧
      (t.step (.resume i persist marks)).behind =
        decide (σ.resumed i persist < lastSeq init σ.runs) := by
  have h_i := h.standing i
  cases persist with
  | false => exact ⟨h.stored_ge, h.stored_le, h.behind⟩
  | true =>
    simp only [Numbering.resumed, Tracker.step, Bool.true_and, if_true]
    cases h_st : t.standing i with
    -- a runner that holds no counter reads the stored number
    | away =>
      rw [h_st] at h_i
      rw [show (σ.counter i).bound = false from h_i]
      exact ⟨h.stored_ge, h.stored_le, h.behind⟩
    | outdated =>
      rw [h_st] at h_i
      obtain ⟨h_bound, h_ge, h_lt⟩ := h_i
      rw [if_pos h_bound]
      exact ⟨h_ge, h_lt.le, (decide_eq_true h_lt).symm⟩
    | current =>
      rw [h_st] at h_i
      obtain ⟨h_bound, h_eq⟩ := h_i
      rw [if_pos h_bound, h_eq]
      exact ⟨h.stored_ge.trans h.stored_le, le_rfl, (decide_eq_false (lt_irrefl _)).symm⟩

/-- A resume keeps the track. -/
theorem Tracks.resume (h : Tracks init t σ) (i : ℕ) (persist : Bool) (marks : List Mark) :
    Tracks init (t.step (.resume i persist marks)) (σ.resume i persist marks) := by
  -- a resume emits no event before its run
  have h_ran := ran_runLoop persist (σ.resumed i persist) (marks.filter (· ≠ .event))
  obtain ⟨h_stored, h_seq⟩ := h_ran.silent (by simp [eventCount, List.count_eq_zero])
  obtain ⟨h_ge, h_le, h_behind⟩ := h.resumed i persist marks
  have h_kept : (σ.resume i persist marks).stored = σ.resumed i persist := h_stored
  refine ⟨?_, ?_, ?_, fun j => ?_⟩
  · rw [h_kept]
    exact h_ge
  · rw [h_kept]
    exact h_le
  · rw [h_kept]
    exact h_behind
  · -- whether this counter is outdated or current is told by the store
    refine h.update (if (t.step (.resume i persist marks)).behind then .outdated else .current) ?_ j
    rw [h_seq, h_behind]
    simpa using stands_of_behind h_ge h_le

/-- An action that emits nothing, or starts from an up-to-date counter, is tracked. -/
theorem Tracks.step (h : Tracks init t σ) (act : Action)
    (h_ok : act.emits = true → t.behind = false) : Tracks init (t.step act) (σ.step act) := by
  cases act with
  | runStream i persist marks exhausted =>
    by_cases h_emits : marks.any (· = .event) = true
    · exact h.emitting i persist exhausted h_emits (h_ok h_emits)
    · exact h.silent i persist exhausted h_emits
  | resume i persist marks => exact h.resume i persist marks
  | elsewhere i seq =>
    exact ⟨h.stored_ge, h.stored_le, h.behind, fun j => h.update (c := ⟨seq, false⟩) .away rfl j⟩

/-- More runs keep no promise that was broken. -/
theorem Sequenced.of_append {runs more : List (List ℕ)} (h : Sequenced (runs ++ more)) :
    Sequenced runs where
  increasing := by
    have := h.increasing
    rw [List.flatten_append, List.pairwise_append] at this
    exact this.1
  gapless r h_r := h.gapless r (List.mem_append_left _ h_r)

/-- A step adds to the runs only. -/
theorem step_runs (σ : Numbering) (act : Action) :
    ∃ more, (σ.step act).runs = σ.runs ++ more := by
  cases act with
  | runStream => exact ⟨_, rfl⟩
  | resume => exact ⟨[], (List.append_nil _).symm⟩
  | elsewhere => exact ⟨[], (List.append_nil _).symm⟩

/-- Steps only add runs. -/
theorem steps_runs (σ : Numbering) (acts : List Action) :
    ∃ more, (acts.foldl Numbering.step σ).runs = σ.runs ++ more := by
  induction acts generalizing σ with
  | nil => exact ⟨[], (List.append_nil _).symm⟩
  | cons act acts ih =>
    obtain ⟨more, h_more⟩ := step_runs σ act
    obtain ⟨more', h_more'⟩ := ih (σ.step act)
    exact ⟨more ++ more', by rw [List.foldl_cons, h_more', h_more, List.append_assoc]⟩

/-- The last number is the largest. -/
theorem le_lastSeq {runs : List (List ℕ)} (h : Sequenced runs) {n : ℕ} (h_n : n ∈ runs.flatten) :
    n ≤ lastSeq init runs := by
  unfold lastSeq
  obtain ⟨ns, last, h_eq⟩ := List.eq_nil_or_concat runs.flatten |>.resolve_left
    (List.ne_nil_of_mem h_n)
  have h_increasing := h.increasing
  rw [h_eq, List.concat_eq_append] at h_increasing h_n ⊢
  rw [List.getLast?_concat, Option.getD_some]
  rcases List.mem_append.mp h_n with h_old | h_new
  · exact ((List.pairwise_append.mp h_increasing).2.2 n h_old last (List.mem_singleton_self _)).le
  · exact (List.mem_singleton.mp h_new).le

/-- One action keeps the promise exactly if it emits nothing or the counter is not behind. -/
theorem sequenced_step (h : Tracks init t σ) (h_seq : Sequenced σ.runs) (act : Action) :
    Sequenced (σ.step act).runs ↔ (act.emits = true → t.behind = false) := by
  cases act with
  | resume => exact ⟨fun _ => nofun, fun _ => h_seq⟩
  | elsewhere => exact ⟨fun _ => nofun, fun _ => h_seq⟩
  | runStream i persist marks exhausted =>
    have h_ran := ran_runLoop persist σ.stored (allMarks marks exhausted)
    have h_runs : (σ.runStream i persist marks exhausted).runs =
        σ.runs ++ [List.range' (σ.stored + 1) (eventCount marks)] := by
      show σ.runs ++ [_] = _
      rw [h_ran.emitted, eventCount_allMarks]
    show Sequenced (σ.runStream i persist marks exhausted).runs ↔ _
    rw [h_runs]
    constructor
    · intro h_new h_emits
      rw [h.behind, decide_eq_false_iff_not]
      intro h_behind
      -- the first new number is not above the last one
      have h_pos : 0 < eventCount marks := emits_iff.mp h_emits
      have h_some : σ.runs.flatten ≠ [] := by
        intro h_nil
        rw [lastSeq, h_nil] at h_behind
        exact absurd h_behind (not_lt.mpr h.stored_ge)
      have h_mem : lastSeq init σ.runs ∈ σ.runs.flatten := by
        rw [lastSeq, List.getLast?_eq_some_getLast h_some]
        exact List.getLast_mem h_some
      have h_first : σ.stored + 1 ∈ List.range' (σ.stored + 1) (eventCount marks) := by
        rw [List.mem_range'_1]
        omega
      have h_increasing := h_new.increasing
      rw [List.flatten_append, List.pairwise_append] at h_increasing
      have := h_increasing.2.2 _ h_mem (σ.stored + 1) (by simpa using h_first)
      omega
    · intro h_ok
      refine ⟨?_, fun r h_r => ?_⟩
      · rw [List.flatten_append, List.pairwise_append]
        refine ⟨h_seq.increasing, by simpa using List.pairwise_lt_range', fun m h_m n h_n => ?_⟩
        replace h_n : n ∈ List.range' (σ.stored + 1) (eventCount marks) := by simpa using h_n
        rw [List.mem_range'_1] at h_n
        have h_behind := h_ok (emits_iff.mpr (by omega))
        rw [h.behind, decide_eq_false_iff_not] at h_behind
        have : m ≤ lastSeq init σ.runs := le_lastSeq h_seq h_m
        omega
      · rcases List.mem_append.mp h_r with h_old | h_new
        · exact h_seq.gapless r h_old
        · obtain rfl := List.mem_singleton.mp h_new
          exact ⟨σ.stored + 1, by rw [List.length_range']⟩

/-- From a tracked state on. -/
theorem sequenced_steps_iff (h : Tracks init t σ) (h_seq : Sequenced σ.runs) (acts : List Action) :
    Sequenced (acts.foldl Numbering.step σ).runs ↔ UpToDate t acts := by
  induction acts generalizing t σ with
  | nil => exact ⟨fun _ => trivial, fun _ => h_seq⟩
  | cons act acts ih =>
    have h_step := sequenced_step h h_seq act
    rw [List.foldl_cons, UpToDate]
    constructor
    · intro h_all
      -- the runs so far are the first of all runs
      obtain ⟨more, h_more⟩ := steps_runs (σ.step act) acts
      rw [h_more] at h_all
      have h_now := h_all.of_append
      rw [← h_more] at h_all
      -- so this step is up to date, and the others start from here
      have h_ok := h_step.mp h_now
      exact ⟨h_ok, (ih (h.step act h_ok) h_now).mp h_all⟩
    · rintro ⟨h_ok, h_rest⟩
      exact (ih (h.step act h_ok) (h_step.mpr h_ok)).mpr h_rest

end History

/-- **The numbers of a session's events** go up across its runs, without a gap in any, exactly
when no run that emits starts while the stored counter is behind. -/
theorem sequenced_iff (stored : ℕ) (acts : List Action) :
    Sequenced (history stored acts).runs ↔ UpToDate {} acts := by
  have h_tracks : Tracks stored {} { stored := stored } :=
    ⟨le_rfl, le_rfl, (decide_eq_false (lt_irrefl stored)).symm, fun _ => rfl⟩
  exact sequenced_steps_iff h_tracks ⟨List.Pairwise.nil, by simp⟩ acts

/-- The caller stops at the first event of a new session, and asks again. -/
theorem number_used_twice :
    ¬Sequenced (history 0 [.runStream 0 true [.save, .event] false,
      .runStream 0 true [.save, .event] false]).runs := by
  intro h
  have h_runs : (history 0 [.runStream 0 true [.save, .event] false,
      .runStream 0 true [.save, .event] false]).runs = [[1], [1]] := by decide
  have h_increasing := h.increasing
  rw [h_runs] at h_increasing
  exact absurd h_increasing (by decide)

end StreamSeq

end Nexus
