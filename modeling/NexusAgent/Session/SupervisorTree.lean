import NexusAgent.Lib.Deal
import NexusAgent.Lib.Grouping
import NexusAgent.Session.Groups

/-!
# Turns in the supervisor tree

The turns of a member that the supervisor delegates to are dealt out to its delegate calls by
time. A call wants the turns of its window: from its own time on, up to the time of the next
call of any member. What no window holds is not in the tree.

* `turnsUnder_supervisorTree`: the nodes of a member hold what `deal` hands out to the windows of
  the calls of the member.
* `supervisorTree_conserves_iff`: the nodes of every member hold its turns, each once and in
  order, exactly when the turns of every delegated member are stored by turn index and dealt
  to the windows of its calls, and no window of a call that names the supervisor holds a turn
  of its own.
* `dealt_of_ordered_calls`: with calls in the order of time, turns that have a window are dealt.
-/

open Lib

namespace Nexus

/-! ### Windows -/

/-- The times a call speaks for. -/
abbrev CallWindow : Type := ℤ × Option ℤ

/-- The turn lies in the window. -/
def inWindow (w : CallWindow) (turn : TimedTurn) : Bool :=
  w.1 ≤ turn.timestamp && !w.2.any (· ≤ turn.timestamp)

/-- The windows of the calls of a member. -/
def windowsOf (memberName : String) : List (String × ℤ) → List CallWindow
  | [] => []
  | (name, start) :: calls =>
    if name = memberName then (start, calls.head?.map Prod.snd) :: windowsOf memberName calls
    else windowsOf memberName calls

/-- Distinct turn indices, and times that increase with them. -/
structure Timed (turns : List TimedTurn) : Prop where
  distinct : (turns.map TimedTurn.turnIndex).Nodup
  increasing : ∀ t ∈ turns, ∀ t' ∈ turns, t.turnIndex < t'.turnIndex → t.timestamp < t'.timestamp

/-- The order of turns by their indices. -/
abbrev IndexLe (t t' : TimedTurn) : Prop := t.turnIndex ≤ t'.turnIndex

theorem sortTurns_perm (turns : List TimedTurn) : (sortTurns turns).Perm turns :=
  List.perm_insertionSort _ _

theorem pairwise_sortTurns (turns : List TimedTurn) : (sortTurns turns).Pairwise IndexLe :=
  List.pairwise_insertionSort _ _

theorem sortTurns_eq {turns : List TimedTurn} (h : turns.Pairwise IndexLe) :
    sortTurns turns = turns := h.insertionSort_eq

namespace Timed

variable {turns : List TimedTurn}

theorem nodup_sortTurns (h : Timed turns) : (sortTurns turns).Nodup :=
  (sortTurns_perm turns).nodup_iff.mpr (List.Nodup.of_map _ h.distinct)

/-- In the order of indices, times increase. -/
theorem times_sortTurns (h : Timed turns) :
    (sortTurns turns).Pairwise fun t t' => t.timestamp ≤ t'.timestamp := by
  have h_distinct : ((sortTurns turns).map TimedTurn.turnIndex).Nodup :=
    ((sortTurns_perm turns).map _).nodup_iff.mpr h.distinct
  have h_lt := (pairwise_sortTurns turns).and (List.pairwise_map.mp h_distinct)
  refine h_lt.imp_of_mem fun {t t'} ht ht' h_index => ?_
  have h_mem : ∀ u, u ∈ sortTurns turns → u ∈ turns := fun u => (sortTurns_perm turns).mem_iff.mp
  exact (h.increasing t (h_mem t ht) t' (h_mem t' ht') (lt_of_le_of_ne h_index.1 h_index.2)).le

end Timed

/-- Along increasing times, the turns from a start up to a stop are those of the window. -/
theorem windowTurns_eq_filter {turns : List TimedTurn} (start : ℤ) (stop : Option ℤ)
    (h : turns.Pairwise fun t t' => t.timestamp ≤ t'.timestamp) :
    windowTurns start stop turns = turns.filter (inWindow (start, stop)) := by
  induction turns with
  | nil => rfl
  | cons t turns ih =>
    obtain ⟨h_head, h_tail⟩ := List.pairwise_cons.mp h
    rw [windowTurns, ih h_tail]
    by_cases h_start : t.timestamp < start
    · rw [if_pos h_start, List.filter_cons_of_neg]
      simp [inWindow, h_start]
    · rw [if_neg h_start]
      cases h_stop : stop.any (· ≤ t.timestamp) with
      | false =>
        rw [List.filter_cons_of_pos]
        · rfl
        · simpa [inWindow, h_stop] using not_lt.mp h_start
      | true =>
        obtain ⟨e, rfl, h_e⟩ := Option.any_eq_true _ _ |>.mp h_stop
        rw [if_pos rfl]
        refine (List.filter_eq_nil_iff.mpr fun t' ht' => ?_).symm
        -- the turns are in order, so all behind the end of the window are too late
        have h_late : t.timestamp ≤ t'.timestamp := by
          rcases List.mem_cons.mp ht' with rfl | ht'
          · exact le_rfl
          · exact h_head t' ht'
        have h_e' : e ≤ t'.timestamp := (of_decide_eq_true h_e).trans h_late
        simp [inWindow, h_e']

/-- What a call gets of the turns from the cursor on: those of its window. -/
theorem childTurns_eq_filter {turns : List TimedTurn} (start : ℤ) (stop : Option ℤ)
    (h_sorted : turns.Pairwise IndexLe)
    (h_times : turns.Pairwise fun t t' => t.timestamp ≤ t'.timestamp) :
    childTurns turns start stop = turns.filter (inWindow (start, stop)) := by
  unfold childTurns sliceTurnsByTimestamp
  rw [sortTurns_eq h_sorted, windowTurns_eq_filter start stop h_times]
  exact ite_self _

/-! ### The nodes of a member -/

/-- The turns in the nodes of a member, node by node. -/
def turnsIn (memberName : String) (nodes : List SessionNode) : List TimedTurn :=
  (nodes.filter (·.memberName = some memberName)).flatMap (·.turns)

/-- The turns a tree has under a member. -/
def turnsUnder (memberName : String) (tops : List TopNode) : List TimedTurn :=
  turnsIn memberName (treeNodes tops)

theorem turnsIn_append (memberName : String) (xs ys : List SessionNode) :
    turnsIn memberName (xs ++ ys) = turnsIn memberName xs ++ turnsIn memberName ys := by
  simp [turnsIn]

theorem turnsIn_cons (memberName : String) (node : SessionNode) (nodes : List SessionNode) :
    turnsIn memberName (node :: nodes) =
      (if node.memberName = some memberName then node.turns else []) ++ turnsIn memberName nodes := by
  by_cases h : node.memberName = some memberName <;> simp [turnsIn, h]

/-- **The children of a member** hold what is dealt to the windows of its calls. -/
theorem turnsIn_children {d : Dict String TimedSession} {memberName : String} {s : TimedSession}
    (h_get : Dict.get? d memberName = some s) (h_timed : Timed s.turns) (calls : List (String × ℤ))
    (cursors : Dict String ℕ) :
    turnsIn memberName (delegationChildren d cursors calls) =
      (deal ((windowsOf memberName calls).map inWindow)
        ((sortTurns s.turns).drop ((Dict.get? cursors memberName).getD 0))).flatten := by
  induction calls generalizing cursors with
  | nil => rfl
  | cons call calls ih =>
    obtain ⟨name, start⟩ := call
    unfold delegationChildren windowsOf
    by_cases h_name : name = memberName
    · subst h_name
      have h_child := childTurns_eq_filter start (calls.head?.map Prod.snd)
        ((pairwise_sortTurns s.turns).sublist
          (List.drop_sublist ((Dict.get? cursors name).getD 0) _))
        (h_timed.times_sortTurns.sublist (List.drop_sublist _ _))
      simp only [h_get, if_true, List.map_cons, deal, List.flatten_cons, turnsIn_cons,
        TimedSession.node, ih, Dict.get?_set_self, Option.getD_some, List.drop_drop, h_child]
    · -- a call to another member moves that member's cursor only
      rw [if_neg h_name]
      cases h_other : Dict.get? d name with
      | none => exact ih cursors
      | some s' =>
        have h_skip : (some name : Option String) ≠ some memberName := by simpa using h_name
        simp only [turnsIn_cons, TimedSession.node, h_skip, if_false, List.nil_append, ih,
          Dict.get?_set_ne _ _ h_name]

/-! ### Nodes at the top -/

/-- The nodes of sessions at the top. -/
theorem treeNodes_sessions (d : Dict String TimedSession) :
    treeNodes (d.map fun p => sessionToNode p.2 (some p.1)) =
      d.map fun p => p.2.node (some p.1) p.2.turns := by
  induction d with
  | nil => rfl
  | cons p d ih =>
    rw [List.map_cons, treeNodes, List.flatMap_cons, ← treeNodes, ih]
    rfl

/-- A name that is not there has no node. -/
theorem filter_sessions_none {d : Dict String TimedSession} {name : String}
    (h : name ∉ d.map Prod.fst) :
    (d.map fun p => p.2.node (some p.1) p.2.turns).filter (·.memberName = some name) = [] := by
  refine List.filter_eq_nil_iff.mpr fun node h_node => ?_
  obtain ⟨p, h_mem, rfl⟩ := List.mem_map.mp h_node
  have h_ne : p.1 ≠ name := fun h_eq => h (h_eq ▸ List.mem_map_of_mem h_mem)
  simpa [TimedSession.node] using h_ne

/-- Without repeated keys, a session has one node. -/
theorem filter_sessions {d : Dict String TimedSession} (h_keys : (d.map Prod.fst).Nodup)
    {p : String × TimedSession} (h_mem : p ∈ d) :
    (d.map fun q => q.2.node (some q.1) q.2.turns).filter (·.memberName = some p.1) =
      [p.2.node (some p.1) p.2.turns] := by
  -- by induction on the sessions; the names differ
  induction d with
  | nil => cases h_mem
  | cons q d ih =>
    obtain ⟨h_new, h_keys⟩ := List.nodup_cons.mp h_keys
    rw [List.map_cons]
    -- the session is the first one, or among the others
    rcases List.mem_cons.mp h_mem with rfl | h_mem
    · rw [List.filter_cons_of_pos (by simp [TimedSession.node]), filter_sessions_none h_new]
    · have h_ne : q.1 ≠ p.1 := fun h_eq => h_new (h_eq ▸ List.mem_map_of_mem h_mem)
      rw [List.filter_cons_of_neg (by simpa [TimedSession.node] using h_ne), ih h_keys h_mem]

/-- A session that was never called shows all its turns. -/
theorem turnsUnder_sessions {d : Dict String TimedSession} (h_keys : (d.map Prod.fst).Nodup)
    {p : String × TimedSession} (h_mem : p ∈ d) :
    turnsUnder p.1 (d.map fun q => sessionToNode q.2 (some q.1)) = p.2.turns := by
  rw [turnsUnder, treeNodes_sessions, turnsIn, filter_sessions h_keys h_mem]
  simp [TimedSession.node]

/-- Sorting the nodes at the top does not touch the nodes of one member. -/
theorem turnsUnder_chronological {d : Dict String TimedSession} (h_keys : (d.map Prod.fst).Nodup)
    {p : String × TimedSession} (h_mem : p ∈ d) :
    turnsUnder p.1 (buildChronologicalTree d) = p.2.turns := by
  have h_perm : ((treeNodes (buildChronologicalTree d)).filter (·.memberName = some p.1)).Perm
      [p.2.node (some p.1) p.2.turns] := by
    rw [← filter_sessions h_keys h_mem, ← treeNodes_sessions]
    exact ((List.perm_insertionSort _ _).flatMap_right _).filter _
  rw [turnsUnder, turnsIn, List.perm_singleton.mp h_perm]
  simp [TimedSession.node]

/-! ### The tree -/

/-- **The tree conserves turns**: the nodes of every member hold its turns, each once and in
order. -/
def TreeConserves (d : Dict String TimedSession) (tops : List TopNode) : Prop :=
  ∀ p ∈ d, turnsUnder p.1 tops = p.2.turns

/-- The turns of a member under its supervisor. -/
theorem turnsUnder_supervisorTree {d : Dict String TimedSession} {supervisor : String}
    {s : TimedSession} (h_keys : (d.map Prod.fst).Nodup) {p : String × TimedSession}
    (h_mem : p ∈ d) :
    turnsUnder p.1 (supervisorTree d supervisor s) =
      (if supervisor = p.1 then s.turns else []) ++
        turnsIn p.1 (delegationChildren d [] (collectDelegateCalls s)) ++
        (if p.1 ∈ supervisor :: (collectDelegateCalls s).map Prod.fst then [] else p.2.turns) := by
  have h_top : ∀ others : List TopNode, treeNodes ({ sessionToNode s (some supervisor) with
      children := delegationChildren d [] (collectDelegateCalls s) } :: others) =
      s.node (some supervisor) s.turns ::
        (delegationChildren d [] (collectDelegateCalls s) ++ treeNodes others) := fun _ => rfl
  -- the turns of the supervisor, of its delegations and of the sessions never called
  simp only [turnsUnder, supervisorTree, h_top, turnsIn_cons, turnsIn_append, TimedSession.node,
    Option.some.injEq, List.append_assoc]
  congr 2
  -- a called member has no node of its own
  split_ifs with h_ref
  · rw [treeNodes_sessions, turnsIn, filter_sessions_none]
    · rfl
    · rintro h_key
      obtain ⟨q, h_q, h_eq⟩ := List.mem_map.mp h_key
      have h_out := (List.mem_filter.mp h_q).2
      rw [h_eq] at h_out
      exact absurd h_ref (by simpa using h_out)
  · -- another one has exactly one
    have h_keys' := h_keys.sublist ((List.filter_sublist
      (p := fun q => decide (q.1 ∉ supervisor :: (collectDelegateCalls s).map Prod.fst))).map Prod.fst)
    exact turnsUnder_sessions h_keys' (List.mem_filter.mpr ⟨h_mem, by simpa using h_ref⟩)

/-- What a member is dealt is its turns exactly when they are stored by index and dealt. -/
theorem deal_sortTurns_iff {turns : List TimedTurn} (h_timed : Timed turns)
    (ws : List (TimedTurn → Bool)) :
    (deal ws (sortTurns turns)).flatten = turns ↔ turns.Pairwise IndexLe ∧ Dealt ws turns := by
  -- dealing gives all turns back in order if they are sorted and each goes to one window
  constructor
  · -- the turns dealt are those sorted
    intro h
    have h_perm : (deal ws (sortTurns turns)).flatten.Perm (sortTurns turns) := by
      rw [h]
      exact (sortTurns_perm turns).symm
    have h_sorted := deal_flatten_of_perm h_timed.nodup_sortTurns h_perm
    have h_eq : sortTurns turns = turns := h_sorted.symm.trans h
    exact ⟨h_eq ▸ pairwise_sortTurns turns, deal_flatten_iff.mp (h_eq ▸ h_sorted)⟩
  · -- sorted turns are dealt in their order
    rintro ⟨h_stored, h_dealt⟩
    rw [sortTurns_eq h_stored]
    exact deal_flatten_iff.mpr h_dealt

/-- The windows of the delegate calls to a member. -/
def callWindows (s : TimedSession) (memberName : String) : List (TimedTurn → Bool) :=
  (windowsOf memberName (collectDelegateCalls s)).map inWindow

/-- A member that is never called has no windows. -/
theorem windowsOf_eq_nil {memberName : String} {calls : List (String × ℤ)}
    (h : memberName ∉ calls.map Prod.fst) : windowsOf memberName calls = [] := by
  induction calls with
  | nil => rfl
  | cons call calls ih =>
    obtain ⟨name, start⟩ := call
    rw [List.map_cons, List.mem_cons, not_or] at h
    rw [windowsOf, if_neg (Ne.symm h.1), ih h.2]

/-- The condition: the turns of every member the supervisor delegates to are stored by index
and dealt to the windows of its calls, and no window of a call that names the supervisor holds
a turn of its own. -/
structure TurnsDealt (d : Dict String TimedSession) (supervisor : String) (s : TimedSession) :
    Prop where
  delegated : ∀ p ∈ d, p.1 ≠ supervisor → p.1 ∈ (collectDelegateCalls s).map Prod.fst →
    p.2.turns.Pairwise IndexLe ∧ Dealt (callWindows s p.1) p.2.turns
  own : ∀ w ∈ callWindows s supervisor, ∀ t ∈ s.turns, w t = false

/-- A window starts with a call. -/
theorem start_of_mem_windowsOf {memberName : String} {calls : List (String × ℤ)} {w : CallWindow}
    (h : w ∈ windowsOf memberName calls) : ∃ call ∈ calls, call.2 = w.1 := by
  -- by induction on the calls
  induction calls with
  | nil => cases h
  | cons call calls ih =>
    have h_tail : w ∈ windowsOf memberName calls → ∃ c ∈ call :: calls, c.2 = w.1 := by
      intro h_w
      obtain ⟨c, h_c, h_eq⟩ := ih h_w
      exact ⟨c, List.mem_cons_of_mem _ h_c, h_eq⟩
    unfold windowsOf at h
    split_ifs at h with h_name
    · rcases List.mem_cons.mp h with rfl | h_w
      · exact ⟨call, List.mem_cons_self, rfl⟩
      · exact h_tail h_w
    · exact h_tail h

/-- With calls in the order of time, a window ends before the next one starts. -/
theorem pairwise_windowsOf {memberName : String} {calls : List (String × ℤ)}
    (h : calls.Pairwise fun call call' => call.2 ≤ call'.2) :
    (windowsOf memberName calls).Pairwise fun w w' => ∃ stop ∈ w.2, stop ≤ w'.1 := by
  -- by induction on the calls, in the order of their starts
  induction calls with
  | nil => exact .nil
  | cons call calls ih =>
    obtain ⟨-, h_tail⟩ := List.pairwise_cons.mp h
    unfold windowsOf
    split_ifs with h_name
    · -- a window stops where the next call starts, which no later window precedes
      refine List.pairwise_cons.mpr ⟨fun w h_w => ?_, ih h_tail⟩
      obtain ⟨call', h_call', h_start⟩ := start_of_mem_windowsOf h_w
      cases calls with
      | nil => cases h_call'
      | cons next calls =>
        refine ⟨next.2, rfl, h_start ▸ ?_⟩
        rcases List.mem_cons.mp h_call' with rfl | h_later
        · exact le_rfl
        · exact (List.pairwise_cons.mp h_tail).1 call' h_later
    · exact ih h_tail

/-- **With delegate calls in the order of time** it is enough that every turn has a window. -/
theorem dealt_of_ordered_calls {s : TimedSession} {memberName : String} {turns : List TimedTurn}
    (h_calls : (collectDelegateCalls s).Pairwise fun call call' => call.2 ≤ call'.2)
    (h_timed : Timed turns) (h_stored : turns.Pairwise IndexLe)
    (h_taken : ∀ t ∈ turns, ∃ w ∈ callWindows s memberName, w t = true) :
    Dealt (callWindows s memberName) turns where
  taken := h_taken
  inOrder := by
    have h_times := h_timed.times_sortTurns
    rw [sortTurns_eq h_stored] at h_times
    refine h_times.imp_of_mem fun {t t'} ht _ h_le => firstTaker_le ?_ (h_taken t ht)
    refine List.pairwise_map.mpr ((pairwise_windowsOf h_calls).imp fun {w w'} h_apart h_w => ?_)
    -- the later turn comes before the end of the earlier window, and so does the earlier turn
    obtain ⟨stop, h_stop, h_start⟩ := h_apart
    obtain ⟨-, h_before⟩ : w.1 ≤ t'.timestamp ∧ t'.timestamp < stop := by
      simpa [inWindow, Option.mem_def.mp h_stop] using h_w
    have h_early : t.timestamp < w'.1 := h_le.trans_lt (h_before.trans_le h_start)
    simp [inWindow, h_early]

section Conserves

variable {d : Dict String TimedSession} {supervisor : String} {s : TimedSession}

/-- What conservation means for a session under the supervisor. -/
theorem turnsUnder_eq_iff (h_keys : (d.map Prod.fst).Nodup) (h_timed : ∀ p ∈ d, Timed p.2.turns)
    (h_get : Dict.get? d supervisor = some s) {p : String × TimedSession} (h_mem : p ∈ d) :
    turnsUnder p.1 (supervisorTree d supervisor s) = p.2.turns ↔
      if p.1 = supervisor then ∀ w ∈ callWindows s supervisor, ∀ t ∈ s.turns, w t = false
      else p.1 ∈ (collectDelegateCalls s).map Prod.fst →
        p.2.turns.Pairwise IndexLe ∧ Dealt (callWindows s p.1) p.2.turns := by
  rw [turnsUnder_supervisorTree h_keys h_mem,
    turnsIn_children (Dict.get?_of_mem h_keys h_mem) (h_timed p h_mem), Dict.get?_nil,
    Option.getD_none, List.drop_zero]
  -- the supervisor's own turns are shown in full, before those of any window
  by_cases h_sup : p.1 = supervisor
  · have h_s : p.2 = s := by
      have h_p := Dict.get?_of_mem h_keys h_mem
      rw [h_sup, h_get] at h_p
      exact (Option.some.inj h_p).symm
    rw [if_pos h_sup, if_pos h_sup.symm, if_pos (h_sup ▸ List.mem_cons_self), List.append_nil,
      h_s, h_sup, List.append_right_eq_self, deal_flatten_eq_nil_iff]
    simp only [(sortTurns_perm s.turns).mem_iff, callWindows]
  · -- a member that is called shows what is dealt to its windows, the others all turns
    rw [if_neg h_sup, if_neg (Ne.symm h_sup), List.nil_append]
    by_cases h_called : p.1 ∈ (collectDelegateCalls s).map Prod.fst
    · rw [if_pos (List.mem_cons_of_mem _ h_called), List.append_nil,
        deal_sortTurns_iff (h_timed p h_mem)]
      simp only [h_called, forall_const, callWindows]
    · rw [windowsOf_eq_nil h_called, if_neg]
      · simp [deal, h_called]
      · exact fun h_ref => h_called ((List.mem_cons.mp h_ref).resolve_left h_sup)

/-- The session that a tree nests delegations under, if there is one. -/
def Supervises (d : Dict String TimedSession) (supervisorName : Option String)
    (supervisor : String) (s : TimedSession) : Prop :=
  pyOr supervisorName (findSupervisorName d) = some supervisor ∧
    Dict.get? d supervisor = some s

/-- **The tree conserves turns** exactly when the turns of the members that its supervisor, if
there is one, delegates to are dealt to its calls. -/
theorem supervisorTree_conserves_iff (h_keys : (d.map Prod.fst).Nodup)
    (h_timed : ∀ p ∈ d, Timed p.2.turns) (supervisorName : Option String) :
    TreeConserves d (buildSupervisorTree d supervisorName) ↔
      ∀ supervisor s, Supervises d supervisorName supervisor s → TurnsDealt d supervisor s := by
  -- without a supervisor the tree is flat, and has every turn once
  have h_flat : TreeConserves d (buildChronologicalTree d) := fun p h_mem =>
    turnsUnder_chronological h_keys h_mem
  unfold buildSupervisorTree Supervises
  cases h_name : pyOr supervisorName (findSupervisorName d) with
  | none => exact iff_of_true h_flat fun _ _ h => by cases h.1
  | some supervisor =>
    cases h_get : Dict.get? d supervisor with
    | none =>
      simp only [h_get]
      refine iff_of_true h_flat fun _ _ h => ?_
      obtain rfl := Option.some.inj h.1
      exact absurd (h_get.symm.trans h.2) (by simp)
    | some s =>
      -- with one, session by session: the turns under its name are its own
      have h_iff : TreeConserves d (supervisorTree d supervisor s) ↔ TurnsDealt d supervisor s := by
        constructor
        · intro h
          refine ⟨fun p h_mem h_ne => ?_, ?_⟩
          · exact (if_neg h_ne).mp ((turnsUnder_eq_iff h_keys h_timed h_get h_mem).mp (h p h_mem))
          · have h_mem := Dict.mem_of_get? h_get
            simpa using (turnsUnder_eq_iff h_keys h_timed h_get h_mem).mp (h _ h_mem)
        · intro h p h_mem
          rw [turnsUnder_eq_iff h_keys h_timed h_get h_mem]
          split_ifs with h_sup
          · exact h.own
          · exact h.delegated p h_mem h_sup
      simp only [h_get, h_iff]
      constructor
      · rintro h _ _ ⟨h_eq, h_s⟩
        obtain rfl := Option.some.inj h_eq
        obtain rfl := Option.some.inj (h_get.symm.trans h_s)
        exact h
      · exact fun h => h supervisor s ⟨rfl, h_get⟩

end Conserves

/-- A supervisor that delegates to a member once, at the time 3, and a member with a turn at the
time `time`. -/
def delegatedOnce (time : ℤ) : Dict String TimedSession :=
  [("supervisor", { sessionId := "g_supervisor", turns := [⟨0, 1, [⟨"TC1", 0, "delegate_to_a", 3⟩]⟩] }),
    ("a", { sessionId := "g_a", turns := [⟨0, time, []⟩] })]

theorem timed_delegatedOnce (time : ℤ) : ∀ p ∈ delegatedOnce time, Timed p.2.turns := by
  intro p h_mem
  simp only [delegatedOnce, List.mem_cons, List.not_mem_nil, or_false] at h_mem
  rcases h_mem with rfl | rfl <;> exact ⟨by simp, by simp⟩

/-- A turn after the call is in the tree. -/
theorem supervisorTree_conserves_after :
    TreeConserves (delegatedOnce 4) (buildSupervisorTree (delegatedOnce 4) none) := by
  refine (supervisorTree_conserves_iff (by decide) (timed_delegatedOnce 4) none).mpr ?_
  rintro supervisor s ⟨h_name, h_get⟩
  -- the supervisor is found by its name
  have h_found : pyOr none (findSupervisorName (delegatedOnce 4)) = some "supervisor" := by
    decide +kernel
  obtain rfl := Option.some.inj (h_found.symm.trans h_name)
  obtain rfl := Option.some.inj h_get
  refine ⟨fun p h_mem h_ne _ => ?_, by decide +kernel⟩
  -- the supervisor and one member
  simp only [delegatedOnce, List.mem_cons, List.not_mem_nil, or_false] at h_mem
  rcases h_mem with rfl | rfl
  · exact absurd rfl h_ne
  · refine ⟨List.pairwise_singleton _ _, ?_, List.pairwise_singleton _ _⟩
    decide +kernel

/-- A turn before the call, whose record is stamped when the member is done, is in no node. -/
theorem supervisorTree_loses_before :
    ((delegatedOnce 2).map Prod.fst).Nodup ∧ (∀ p ∈ delegatedOnce 2, Timed p.2.turns) ∧
      ¬TreeConserves (delegatedOnce 2) (buildSupervisorTree (delegatedOnce 2) none) :=
  ⟨by decide, timed_delegatedOnce 2, by unfold TreeConserves; decide +kernel⟩

end Nexus
