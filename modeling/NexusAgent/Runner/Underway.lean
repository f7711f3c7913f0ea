import NexusAgent.Runner.History

/-!
# Sessions in the middle of a run

A run that is killed leaves the store as its last write left it, so the sessions an agent
can meet are not only those of finished runs. `Underway` lists the moments of a run, with
the working session and the store as they are then. A history in which any run may break
off at any of them is made of `Moves`, and `Reachable` are the sessions seen along the way,
stored or in the hands of a run.

Between the moments listed, summaries are written one by one; `Underway.summarized` stands
for all of these writes.

* `Reachable.of_runs`: what finished and unfinished runs keep holds of every session reached.
* `Underway.inv`: a property that does not look at summaries, pending interactions and the
  state bag, kept by folding, by the turns the passes store and by superseding what a session
  waits for, holds at every moment.
-/

open Lib

namespace Nexus

variable {a : StoreAdapter}

/-! ### The moments of a run -/

/-- The working session and the store at some moment of a run. -/
inductive Underway (env : Env a) (stream : Bool) (args : RunArgs) (st : Store a) : Live a → Prop
  /-- The session was loaded, or created and saved. -/
  | got : Underway env stream args st (getOrCreateSession env args st)
  /-- It was entered and saved. -/
  | entered : Underway env stream args st
      (maybeSave env.context (enteredSession env args (getOrCreateSession env args st)))
  | opened : Underway env stream args st (openSession env args st).1
  /-- The context of a model call was built. -/
  | prepared {s t : RunState a} {sent : List Message} (h_turn : TurnOf env stream args st s)
      (h_open : Opened env s sent t) : Underway env stream args st t.live
  /-- Some tool calls of a response were handled. -/
  | handling {s t u v : RunState a} {sent : List Message} {r : LLMResponse}
      {outs : List (ℕ × Except RunError Handled)} {obs : List Obs}
      (h_turn : TurnOf env stream args st s) (h_reply : Replied env stream s sent r t)
      (h_accepted : Accepted env r t u) (h_effect : HandlingEffect env r.toolCalls u outs obs v) :
    Underway env stream args st v.live
  /-- The session was saved before its turn is appended. -/
  | saved {s v : RunState a} {turn : TurnRecord} (h_turn : TurnOf env stream args st s)
      (h_storing : Storing env stream s turn v) :
    Underway env stream args st
      (maybeSave env.context (v.live.mutate (.withState (jsonSafeState v.state))))
  /-- The turn was appended. -/
  | appended {s v : RunState a} {turn : TurnRecord} (h_turn : TurnOf env stream args st s)
      (h_storing : Storing env stream s turn v) :
    Underway env stream args st (persistTurnWithState env turn v).live
  /-- A pass of the loop ended. -/
  | passed {s s' : RunState a} {o : Except RunError Prog.Ctl}
      (h_turn : TurnOf env stream args st s) (h_step : TurnStep env stream s o s') :
    Underway env stream args st s'.live
  | finished : Underway env stream args st (execRun env stream args st).live
  | summarized {l l' : Live a} (h : Underway env stream args st l) (h_similar : l.Similar l') :
    Underway env stream args st l'

/-! ### Invariants of a run underway -/

/-- A property of states that the passes keep holds at every head of the loop. -/
theorem headOf_invariant {env : Env a} {stream : Bool} {limit : ℕ} {J : RunState a → Prop}
    {s₀ s : RunState a} (h : HeadOf env stream limit s₀ s)
    (h_step : ∀ s s', J s → TurnStep env stream s (.ok .next) s' → J s') (h_init : J s₀) : J s := by
  induction h with
  | refl => exact h_init
  | @tail s s' _ h_pass ih =>
    have h_turn := Prog.wp_ok (wp_turn env stream s) h_pass.2
    exact h_step s s' ih h_turn

section Inv

variable {P : AgentSession → Prop} {env : Env a} {stream : Bool} {args : RunArgs} {st : Store a}
  {l : Live a}

/-- **A run underway** keeps an invariant of the session. -/
theorem Underway.inv (hP : Live.GrowInv P) (h_fold : FoldInv env P)
    (h_persist : ∀ s turn v, Storing env stream s turn v → s.live.Inv P →
      (persistTurnWithState env turn v).live.Inv P)
    (h_got : (getOrCreateSession env args st).Inv P)
    (h_close : args.userMessage ≠ "" → ∀ s,
      s.dialogue = (getOrCreateSession env args st).session.dialogue → P s →
        P (closePendingInteractions s))
    (h : Underway env stream args st l) : l.Inv P := by
  have h_open : (openSession env args st).1.Inv P := inv_openSession hP h_got h_close
  -- every pass starts from a state that the passes before it have kept
  have h_head : ∀ {s}, TurnOf env stream args st s → s.live.Inv P := fun h_turn =>
    headOf_invariant h_turn.1
      (fun s _ h_s h_step => h_step.inv hP hP h_fold (fun _ h => h) (h_persist s) h_s) h_open
  induction h with
  | got => exact h_got
  | entered => exact inv_maybeSave (inv_enteredSession hP h_got h_close) _
  | opened => exact h_open
  | prepared h_turn h_opened => exact h_opened.inv hP h_fold (h_head h_turn)
  | handling h_turn h_reply h_accepted h_effect =>
    refine Live.Inv.grows ?_ hP h_effect.grows
    rw [h_accepted.live]
    exact h_reply.inv hP h_fold (h_head h_turn)
  | saved h_turn h_storing =>
    exact inv_maybeSave (inv_withState hP (h_storing.inv hP h_fold (h_head h_turn)) _) _
  | appended h_turn h_storing =>
    exact h_persist _ _ _ h_storing (h_head h_turn)
  | passed h_turn h_step =>
    exact h_step.inv hP hP h_fold (fun _ h => h) (h_persist _) (h_head h_turn)
  | finished => exact execRun_inv hP h_fold h_persist h_open
  | summarized _ h_similar ih => exact ih.grows hP h_similar.grows

/-- What a run has in hands has the session id of the run. -/
theorem Underway.sessionId (h : Underway env stream args st l) :
    l.session.sessionId = runSessionId env args := by
  have hP : Live.GrowInv fun s => s.sessionId = runSessionId env args :=
    fun _ _ h_grown h_id => (AgentSession.sessionId_of_core h_grown.core).trans h_id
  have h_fold : FoldInv env fun s => s.sessionId = runSessionId env args := fun _ _ _ h_id => h_id
  have h_inv := h.inv hP h_fold
    (fun _ _ _ h_storing => h_storing.inv_persist hP hP h_fold (fun _ h_id => h_id)
      (fun _ _ _ h_id => h_id))
    (inv_getOrCreateSession (fun _ h_find _ => Store.find?_sessionId h_find) rfl)
    (fun _ _ _ h_id => h_id)
  exact h_inv.session

end Inv

/-! ### Histories with runs that break off -/

/-- How the session `sid` is entered: by a run, or by the run of a resume, on the store in
which the results were filled in. -/
inductive Enters (sid : String) : Env a → RunArgs → Store a → Store a → Prop
  | run {env : Env a} {args : RunArgs} {st : Store a} (h_sid : runSessionId env args = sid) :
    Enters sid env args st st
  | resume {env : Env a} {results : List ResumeItem} {st st' : Store a}
      (h_sid : runSessionId env (resumeArgs sid) = sid)
      (h_store : resumeStore env sid results st = .ok st') :
    Enters sid env (resumeArgs sid) st st'

/-- The session entered is that of the run. -/
theorem Enters.sid {sid : String} {env : Env a} {args : RunArgs} {st st' : Store a}
    (h : Enters sid env args st st') : runSessionId env args = sid := by
  cases h with
  | run h_sid => exact h_sid
  | resume h_sid _ => exact h_sid

/-- One step in a history of the session `sid`: a run or a resume, finished or broken off,
or something that leaves the session alone. -/
inductive Moves (sid : String) : Store a → Store a → Prop
  | ran {env : Env a} {stream : Bool} {args : RunArgs} {st st' : Store a} {l : Live a}
      (h_enter : Enters sid env args st st') (h_run : Underway env stream args st' l) :
    Moves sid st l.contents
  /-- The results of a resume were saved, and its run never began. -/
  | resumed {env : Env a} {args : RunArgs} {st st' : Store a}
      (h_enter : Enters sid env args st st') : Moves sid st st'
  | other {st st' : Store a} (h_same : st'.find? sid = st.find? sid) : Moves sid st st'

/-- A session under `sid` seen in a history that starts without one: in the store, or in the
hands of a run. -/
inductive Reachable (sid : String) : AgentSession → Prop
  | stored {a : StoreAdapter} {st st' : Store a} {s : AgentSession} (h_start : st.find? sid = none)
      (h : Relation.ReflTransGen (Moves sid) st st') (h_find : st'.find? sid = some s) : Reachable sid s
  | working {a : StoreAdapter} {st st' st'' : Store a} {env : Env a} {stream : Bool} {args : RunArgs}
      {l : Live a} (h_start : st.find? sid = none) (h : Relation.ReflTransGen (Moves sid) st st')
      (h_enter : Enters sid env args st' st'') (h_run : Underway env stream args st'' l) :
    Reachable sid l.session

/-! ### Histories whose entries are restricted -/

/-- A step of a history of the session `sid` in which it is only entered as `R` allows. -/
inductive MovesBy (sid : String)
    (R : ∀ {a : StoreAdapter}, Env a → RunArgs → Store a → Store a → Prop) :
    Store a → Store a → Prop
  | ran {env : Env a} {stream : Bool} {args : RunArgs} {st st' : Store a} {l : Live a}
      (h_enter : R env args st st') (h_run : Underway env stream args st' l) :
    MovesBy sid R st l.contents
  | resumed {env : Env a} {args : RunArgs} {st st' : Store a} (h_enter : R env args st st') :
    MovesBy sid R st st'
  | other {st st' : Store a} (h_same : st'.find? sid = st.find? sid) : MovesBy sid R st st'

/-- A session seen in such a history. -/
inductive ReachableBy (sid : String)
    (R : ∀ {a : StoreAdapter}, Env a → RunArgs → Store a → Store a → Prop) : AgentSession → Prop
  | stored {a : StoreAdapter} {st st' : Store a} {s : AgentSession} (h_start : st.find? sid = none)
      (h : Relation.ReflTransGen (MovesBy sid R) st st') (h_find : st'.find? sid = some s) :
    ReachableBy sid R s
  | working {a : StoreAdapter} {st st' st'' : Store a} {env : Env a} {stream : Bool} {args : RunArgs}
      {l : Live a} (h_start : st.find? sid = none)
      (h : Relation.ReflTransGen (MovesBy sid R) st st') (h_enter : R env args st' st'')
      (h_run : Underway env stream args st'' l) : ReachableBy sid R l.session

/-- **Every session reached** has what the entries and the runs keep. -/
theorem ReachableBy.of_runs {sid : String}
    {R : ∀ {a : StoreAdapter}, Env a → RunArgs → Store a → Store a → Prop}
    {P : AgentSession → Prop} {s : AgentSession} (h : ReachableBy sid R s)
    (h_sid : ∀ {a : StoreAdapter} {env : Env a} {args st st'}, R env args st st' →
      runSessionId env args = sid)
    (h_store : ∀ {a : StoreAdapter} {env : Env a} {args st st'}, R env args st st' →
      Stored sid P st → Stored sid P st')
    (h_run : ∀ {a : StoreAdapter} {env : Env a} {stream args st st' l}, R env args st st' →
      Stored sid P st' → Underway env stream args st' l → l.Inv P) : P s := by
  -- what is stored satisfies it after any moves
  have h_history : ∀ {a : StoreAdapter} {st st' : Store a}, st.find? sid = none →
      Relation.ReflTransGen (MovesBy sid R) st st' → Stored sid P st' := by
    intro a st st' h_start h
    induction h with
    | refl => exact stored_of_none h_start P
    | tail _ h_move ih =>
      cases h_move with
      -- a run, as far as it has come
      | ran h_enter h_underway =>
        have h_inv := h_run h_enter (h_store h_enter ih) h_underway
        have h_id := h_underway.sessionId.trans (h_sid h_enter)
        exact fun s hs => h_inv.stored s (h_id ▸ hs)
      -- a resume, before its run
      | resumed h_enter => exact h_store h_enter ih
      | other h_same => exact fun s hs => ih s (h_same ▸ hs)
  cases h with
  | stored h_start h h_find => exact h_history h_start h s h_find
  | working h_start h h_enter h_underway =>
    exact (h_run h_enter (h_store h_enter (h_history h_start h)) h_underway).session

section Reachable

variable {P : AgentSession → Prop} {sid : String}

/-- Entering a run keeps what a resume keeps. -/
theorem Enters.stored {env : Env a} {args : RunArgs} {st st' : Store a}
    (h : Enters sid env args st st')
    (h_resume : ∀ results s, P s → P (resumeSession results s)) (h_st : Stored sid P st) :
    Stored sid P st' := by
  cases h with
  | run => exact h_st
  | resume _ h_store =>
    obtain ⟨s, h_find, -, h_find'⟩ := find?_resumeStore h_store
    intro s' hs'
    -- saved, or seen on the same object
    obtain rfl := Option.some.inj (h_find'.symm.trans hs')
    split_ifs
    · exact h_resume _ s (h_st s h_find)
    · exact h_st s h_find

/-- Each move comes from a step that enters it. -/
theorem Moves.by_enters {st st' : Store a} (h : Moves sid st st') :
    MovesBy sid (Enters sid) st st' := by
  cases h with
  | ran h_enter h_run => exact .ran h_enter h_run
  | resumed h_enter => exact .resumed h_enter
  | other h_same => exact .other h_same

/-- And so each reachable session is reached by such steps. -/
theorem Reachable.by_enters {s : AgentSession} (h : Reachable sid s) :
    ReachableBy sid (Enters sid) s := by
  cases h with
  | stored h_start h h_find => exact .stored h_start (Relation.ReflTransGen.mono (fun _ _ => Moves.by_enters) _ _ h) h_find
  | working h_start h h_enter h_run =>
    exact .working h_start (Relation.ReflTransGen.mono (fun _ _ => Moves.by_enters) _ _ h) h_enter h_run

/-- **Every session reached** has what runs and resumes keep. -/
theorem Reachable.of_runs {s : AgentSession} (h : Reachable sid s)
    (h_run : ∀ {a : StoreAdapter} {env : Env a} {stream args st l}, runSessionId env args = sid →
      Stored sid P st → Underway env stream args st l → l.Inv P)
    (h_resume : ∀ results s, P s → P (resumeSession results s)) : P s :=
  h.by_enters.of_runs Enters.sid (fun h_enter => h_enter.stored h_resume)
    fun h_enter => h_run h_enter.sid

/-- **Every turn of a session reached** has what every stored turn has, if it does not look at
results and summaries. -/
theorem Reachable.turns {Q : TurnRecord → Prop} {s : AgentSession} (h : Reachable sid s)
    (hQ : ∀ t t', t'.shell = t.shell → Q t → Q t')
    (h_turn : ∀ {a : StoreAdapter} {env : Env a} {stream : Bool} {s : RunState a} {turn : TurnRecord},
      NewTurn env stream s turn → Q turn) : ∀ t ∈ s.turns, Q t := by
  have h_core := Live.CoreInv.turns hQ
  refine h.of_runs ?_ fun results s h_s => h_core _ _ (core_resumeSession results s) h_s
  intro a env stream args st l h_sid h_st h_run
  subst h_sid
  -- folding only removes turns
  have h_fold : FoldInv env fun s => ∀ t ∈ s.turns, Q t :=
    fun s _ _ h_s t ht => h_s t (List.mem_filter.mp ht).1
  refine h_run.inv h_core.grow h_fold (fun s turn v h_storing => ?_) ?_ fun _ s _ => h_core.close s
  · -- a new turn, behind those that are there
    exact h_storing.inv_persist h_core.grow h_core.grow h_fold (fun _ h => h) fun _ h_new _ h_x =>
      AgentSession.forall_turns_addTurn h_x (h_turn h_new)
  · exact inv_getOrCreateSession (fun s hs _ => h_st s hs) (fun t ht => by cases ht)

end Reachable

end Nexus
