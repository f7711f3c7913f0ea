import Mathlib.Algebra.Order.BigOperators.Group.List
import Mathlib.Algebra.Order.Group.Nat
import NexusAgent.Context.Trimming
import NexusAgent.Llm.TokenCount

/-!
# What a notice costs

The loop of `ContextWindowBuilder.build` replaces the oldest unsummarized result by a notice,
whatever the result's length. The total of the messages changes by the difference between the two
texts, so that a pass makes the list longer where the result is shorter than the notice.

* `count_degrade`, `count_drop_le`: the total after each way to trim a window.
* `totals_antitone_iff`: the runs of the loop in which the total never grows.
* `totals_antitone_of_notices`: it is enough that no notice is longer than the result it replaces.
-/

open Lib

namespace Nexus

/-! ### Sums over marked elements -/

/-- What a sum changes by where the elements with a mark take another value. -/
theorem sum_marked {α : Type} (xs : List α) (p : α → Bool) (f g : α → ℕ) :
    (xs.map fun x => if p x then f x else g x).sum + ((xs.filter p).map g).sum =
      (xs.map g).sum + ((xs.filter p).map f).sum := by
  induction xs with
  | nil => rfl
  | cons x xs ih =>
    -- the head's cost is counted on one side or on the other
    by_cases h_x : p x = true
    · simp only [List.map_cons, List.sum_cons, List.filter_cons_of_pos h_x, h_x, if_true]
      omega
    · simp only [List.map_cons, List.sum_cons, List.filter_cons_of_neg h_x, h_x]
      simp only [Bool.false_eq_true, if_false]
      omega

section Degrading

variable {cfg : BuilderConfig} {tiktoken : Option Tiktoken} {strEntry : ToolCallEntry → String}
  {inp : BuildInput} {w v : Window}

/-! ### The records of a window -/

/-- The records of turns with an id. -/
def withId (turns : List TurnRecord) (tcId : String) : List ToolCallRecord :=
  (turns.flatMap TurnRecord.toolCalls).filter fun tc => tc.tcId = tcId

variable (cfg tiktoken strEntry) in
/-- The builder's counter: of the agent's model. -/
abbrev contextCounter : TokenCounter := tokenCounter tiktoken strEntry cfg.model

variable (cfg tiktoken strEntry) in
/-- What the content of a record's message counts. -/
def renderedCost (degraded : Bool) (tc : ToolCallRecord) : ℕ :=
  textCost tiktoken cfg.model
    (renderToolMessage cfg (contextCounter cfg tiktoken strEntry) tc degraded)

variable (cfg tiktoken strEntry) in
/-- What the messages of a window count. -/
def windowTotal (inp : BuildInput) (w : Window) : ℕ :=
  (contextCounter cfg tiktoken strEntry).countMessages
    (windowMessages cfg (contextCounter cfg tiktoken strEntry) inp w)

variable (cfg tiktoken strEntry) in
/-- What the messages of a turn count. -/
def turnTotal (degraded : List String) (turn : TurnRecord) : ℕ :=
  ((turnToMessages cfg (contextCounter cfg tiktoken strEntry) degraded turn).map
    (messageCost tiktoken strEntry cfg.model)).sum

/-- The total of a window is that of its turns, and what is sent in any case. -/
theorem windowTotal_eq :
    windowTotal cfg tiktoken strEntry inp w =
      (w.turns.map (turnTotal cfg tiktoken strEntry w.degradedTcIds)).sum +
        ((barest inp).map (messageCost tiktoken strEntry cfg.model)).sum +
        replyCost tiktoken := by
  -- the turns are rendered one after the other
  have h_turns : ∀ turns : List TurnRecord, ((turns.flatMap (turnToMessages cfg
      (contextCounter cfg tiktoken strEntry) w.degradedTcIds)).map
        (messageCost tiktoken strEntry cfg.model)).sum =
      (turns.map (turnTotal cfg tiktoken strEntry w.degradedTcIds)).sum := by
    intro turns
    induction turns with
    | nil => rfl
    | cons turn turns ih =>
      rw [List.flatMap_cons, List.map_append, List.sum_append, ih, List.map_cons, List.sum_cons]
      rfl
  rw [windowTotal, countMessages_tokenCounter, windowMessages, barest, List.map_cons,
    List.map_append, List.sum_cons, List.sum_append, h_turns, List.map_cons, List.sum_cons]
  omega

variable (cfg tiktoken strEntry) in
/-- A turn counts its stored messages, and for each record the message around the content and the
content. -/
theorem turnTotal_eq (turn : TurnRecord) :
    ∃ fixed, ∀ degraded, turnTotal cfg tiktoken strEntry degraded turn =
      fixed + (turn.toolCalls.map fun tc =>
        renderedCost cfg tiktoken strEntry (tc.tcId ∈ degraded) tc).sum := by
  -- fixed: the other messages, and each tool message without its text
  refine ⟨((turnToMessages cfg (contextCounter cfg tiktoken strEntry) []
    { turn with toolCalls := [] }).map (messageCost tiktoken strEntry cfg.model)).sum +
      (turn.toolCalls.map fun tc => toolOverhead tiktoken cfg.model (toolCallIdOf turn tc)).sum,
    fun degraded => ?_⟩
  have h_tools : ∀ xs : List ToolCallRecord, ((xs.map fun tc =>
      ({ role := .tool, toolCallId := some (toolCallIdOf turn tc),
         content := some (renderToolMessage cfg (contextCounter cfg tiktoken strEntry) tc
          (tc.tcId ∈ degraded)) } : Message)).map (messageCost tiktoken strEntry cfg.model)).sum =
      (xs.map fun tc => toolOverhead tiktoken cfg.model (toolCallIdOf turn tc)).sum +
        (xs.map fun tc => renderedCost cfg tiktoken strEntry (tc.tcId ∈ degraded) tc).sum := by
    intro xs
    induction xs with
    | nil => rfl
    | cons tc xs ih =>
      simp only [List.map_cons, List.sum_cons]
      rw [ih, messageCost_tool, renderedCost]
      omega
  rw [turnTotal, turnToMessages, List.map_append, List.sum_append, h_tools, turnToMessages]
  simp only [List.map_nil, List.append_nil]
  omega

variable (cfg tiktoken strEntry) in
/-- One more degraded id in a turn. -/
theorem turnTotal_degrade {degraded : List String} {tcId : String} (h_new : tcId ∉ degraded)
    (turn : TurnRecord) :
    turnTotal cfg tiktoken strEntry (tcId :: degraded) turn +
        ((turn.toolCalls.filter fun tc => tc.tcId = tcId).map
          (renderedCost cfg tiktoken strEntry false)).sum =
      turnTotal cfg tiktoken strEntry degraded turn +
        ((turn.toolCalls.filter fun tc => tc.tcId = tcId).map
          (renderedCost cfg tiktoken strEntry true)).sum := by
  obtain ⟨fixed, h_fixed⟩ := turnTotal_eq cfg tiktoken strEntry turn
  have h_marked := sum_marked turn.toolCalls (fun tc => tc.tcId = tcId)
    (renderedCost cfg tiktoken strEntry true)
    (fun tc => renderedCost cfg tiktoken strEntry (tc.tcId ∈ degraded) tc)
  -- the total splits at the calls with this id: these change, all others stay
  have h_after : (turn.toolCalls.map fun tc =>
      renderedCost cfg tiktoken strEntry (tc.tcId ∈ tcId :: degraded) tc) =
      turn.toolCalls.map fun tc => if decide (tc.tcId = tcId) = true then
        renderedCost cfg tiktoken strEntry true tc
        else renderedCost cfg tiktoken strEntry (tc.tcId ∈ degraded) tc := by
    refine List.map_congr_left fun tc _ => ?_
    by_cases h_id : tc.tcId = tcId <;> simp [h_id]
  have h_before : ((turn.toolCalls.filter fun tc => tc.tcId = tcId).map fun tc =>
      renderedCost cfg tiktoken strEntry (tc.tcId ∈ degraded) tc) =
      (turn.toolCalls.filter fun tc => tc.tcId = tcId).map
        (renderedCost cfg tiktoken strEntry false) := by
    refine List.map_congr_left fun tc h_tc => ?_
    have h_id : tc.tcId = tcId := by simpa using (List.mem_filter.mp h_tc).2
    simp [h_id, h_new]
  rw [h_fixed, h_fixed, h_after]
  rw [h_before] at h_marked
  omega

variable (cfg tiktoken strEntry) in
/-- One more degraded id in turns. -/
theorem turnTotals_degrade {degraded : List String} {tcId : String} (h_new : tcId ∉ degraded)
    (turns : List TurnRecord) :
    (turns.map (turnTotal cfg tiktoken strEntry (tcId :: degraded))).sum +
        ((withId turns tcId).map (renderedCost cfg tiktoken strEntry false)).sum =
      (turns.map (turnTotal cfg tiktoken strEntry degraded)).sum +
        ((withId turns tcId).map (renderedCost cfg tiktoken strEntry true)).sum := by
  induction turns with
  | nil => simp [withId]
  | cons turn turns ih =>
    -- in the turn the records of the id change their cost, all others keep it
    have h_turn := turnTotal_degrade cfg tiktoken strEntry h_new turn
    -- and they are the turn's share of the records of the id
    have h_split : withId (turn :: turns) tcId =
        (turn.toolCalls.filter fun tc => tc.tcId = tcId) ++ withId turns tcId := by
      rw [withId, List.flatMap_cons, List.filter_append, withId]
    rw [h_split]
    simp only [List.map_cons, List.sum_cons, List.map_append, List.sum_append]
    omega

/-! ### The loop -/

/-- The call degraded next was not degraded before. -/
theorem not_mem_of_degradeOldestTool {turns : List TurnRecord} {degraded : List String}
    {tcId : String} (h : degradeOldestTool turns degraded = some tcId) : tcId ∉ degraded := by
  obtain ⟨tc, h_find, rfl⟩ := Option.map_eq_some_iff.mp h
  have h_tc := List.find?_some h_find
  simp only [decide_eq_true_eq] at h_tc
  exact h_tc.1

variable (cfg tiktoken strEntry inp) in
/-- **A record is degraded**: the total changes by what the notices of the records with its id count
and what their results counted. -/
theorem count_degrade {tcId : String}
    (h_oldest : degradeOldestTool w.turns w.degradedTcIds = some tcId) (h_turns : v.turns = w.turns)
    (h_ids : v.degradedTcIds = tcId :: w.degradedTcIds) :
    windowTotal cfg tiktoken strEntry inp v +
        ((withId w.turns tcId).map (renderedCost cfg tiktoken strEntry false)).sum =
      windowTotal cfg tiktoken strEntry inp w +
        ((withId w.turns tcId).map (renderedCost cfg tiktoken strEntry true)).sum := by
  have h_new := not_mem_of_degradeOldestTool h_oldest
  have h_marked := turnTotals_degrade cfg tiktoken strEntry h_new w.turns
  rw [windowTotal_eq, windowTotal_eq, h_turns, h_ids]
  omega

/-- **A turn is dropped**: the total does not grow. -/
theorem count_drop_le {turn : TurnRecord} {turns : List TurnRecord} (h : w.turns = turn :: turns)
    (h_turns : v.turns = turns) (h_ids : v.degradedTcIds = w.degradedTcIds) :
    windowTotal cfg tiktoken strEntry inp v ≤ windowTotal cfg tiktoken strEntry inp w := by
  rw [windowTotal_eq, windowTotal_eq, h, h_turns, h_ids, List.map_cons, List.sum_cons]
  omega

variable {counter : TokenCounter}

/-- **A pass that goes on**: over budget, the oldest result is replaced by its notice, or the oldest
turn is dropped. -/
theorem budgetPass_cases (h : budgetPass cfg counter inp w = .inl v) :
    (∃ tcId, degradeOldestTool w.turns w.degradedTcIds = some tcId ∧ v.turns = w.turns ∧
        v.degradedTcIds = tcId :: w.degradedTcIds) ∨
      ∃ turn turns, w.turns = turn :: turns ∧ v.turns = turns ∧
        v.degradedTcIds = w.degradedTcIds := by
  have h_trim := (budgetPass_eq_inl h).2
  unfold Window.trim at h_trim
  -- a tool result is degraded, or else the oldest turn goes
  split at h_trim
  · next tcId h_oldest =>
    have h_v := Option.some.inj h_trim
    exact .inl ⟨tcId, h_oldest, (congrArg Window.turns h_v).symm,
      (congrArg Window.degradedTcIds h_v).symm⟩
  · split at h_trim
    · cases h_trim
    · next turn turns h_turns =>
      have h_v := Option.some.inj h_trim
      exact .inr ⟨turn, turns, h_turns, (congrArg Window.turns h_v).symm,
        (congrArg Window.degradedTcIds h_v).symm⟩

/-- Over budget, the oldest result is degraded. -/
theorem exists_budgetPass {tcId : String} (h_over : ¬ w.Fits cfg counter inp)
    (h_oldest : degradeOldestTool w.turns w.degradedTcIds = some tcId) :
    ∃ v, budgetPass cfg counter inp w = .inl v ∧ v.turns = w.turns ∧
      v.degradedTcIds = tcId :: w.degradedTcIds := by
  unfold Window.Fits at h_over
  rw [budgetPass, if_neg h_over, Window.trim, Window.turns_tally, Window.degradedTcIds_tally, h_oldest]
  exact ⟨_, rfl, rfl, rfl⟩

variable (cfg tiktoken strEntry inp) in
/-- **When the total never grows**: in the runs of the loop where, in every window over budget, the
notices of the records with the id that is next to be degraded count no more than their results. -/
theorem totals_antitone_iff :
    (∀ w v, Visited (budgetPass cfg (contextCounter cfg tiktoken strEntry) inp)
        (fullWindow inp.session) w →
      budgetPass cfg (contextCounter cfg tiktoken strEntry) inp w = .inl v →
      windowTotal cfg tiktoken strEntry inp v ≤ windowTotal cfg tiktoken strEntry inp w) ↔
    ∀ w tcId, Visited (budgetPass cfg (contextCounter cfg tiktoken strEntry) inp)
        (fullWindow inp.session) w →
      ¬ w.Fits cfg (contextCounter cfg tiktoken strEntry) inp →
      degradeOldestTool w.turns w.degradedTcIds = some tcId →
      ((withId w.turns tcId).map (renderedCost cfg tiktoken strEntry true)).sum ≤
        ((withId w.turns tcId).map (renderedCost cfg tiktoken strEntry false)).sum := by
  constructor
  · intro h w tcId h_w h_over h_oldest
    -- the window does not fit, so the next pass degrades the record, and the costs are compared
    obtain ⟨v, h_pass, h_turns, h_ids⟩ := exists_budgetPass h_over h_oldest
    have h_total := h w v h_w h_pass
    have h_count := count_degrade cfg tiktoken strEntry inp h_oldest h_turns h_ids
    omega
  · intro h w v h_w h_pass
    -- a pass that drops a turn never raises the total
    rcases budgetPass_cases h_pass with
      ⟨tcId, h_oldest, h_turns, h_ids⟩ | ⟨turn, turns, h_turns, h_rest, h_ids⟩
    · have h_notices := h w tcId h_w (budgetPass_eq_inl h_pass).1 h_oldest
      have h_count := count_degrade cfg tiktoken strEntry inp h_oldest h_turns h_ids
      omega
    · exact count_drop_le h_turns h_rest h_ids

variable (cfg tiktoken strEntry inp) in
/-- **It is enough** that no notice counts more than the result it takes the place of. -/
theorem totals_antitone_of_notices
    (h : ∀ tc ∈ inp.session.turns.flatMap TurnRecord.toolCalls,
      renderedCost cfg tiktoken strEntry true tc ≤ renderedCost cfg tiktoken strEntry false tc)
    {w v : Window} (h_w : Visited (budgetPass cfg (contextCounter cfg tiktoken strEntry) inp)
      (fullWindow inp.session) w)
    (h_pass : budgetPass cfg (contextCounter cfg tiktoken strEntry) inp w = .inl v) :
    windowTotal cfg tiktoken strEntry inp v ≤ windowTotal cfg tiktoken strEntry inp w := by
  refine (totals_antitone_iff cfg tiktoken strEntry inp).mpr (fun w tcId h_w _ _ => ?_) w v h_w
    h_pass
  refine List.sum_le_sum fun tc h_tc => h tc ?_
  -- the turns that are left are turns of the session
  have h_turns := (trimmed_of_visited h_w).turns
  rw [withId, h_turns] at h_tc
  have h_sub := (List.drop_sublist w.turnsDropped inp.session.turns).flatMap TurnRecord.toolCalls
  exact h_sub.subset (List.mem_of_mem_filter h_tc)

end Degrading

/-- A result of two characters, in a session that does not fit. -/
def shortResult : BuildInput where
  session :=
    { sessionId := "s"
      agentId := "agent"
      turns :=
        [{ turnIndex := 0
           toolCalls := [{ tcId := "TC1", tcIndex := 1, toolName := "ping", rawResponse := "ok" }] }] }
  systemContent := "Answer in one word."
  tokenBudget := 10

/-- At four characters a token, the notice of a short result makes the list longer. -/
theorem totals_antitone_fails :
    ¬ ∀ w v, Visited (budgetPass {} (contextCounter {} none ToolCallEntry.id) shortResult)
        (fullWindow shortResult.session) w →
      budgetPass {} (contextCounter {} none ToolCallEntry.id) shortResult w = .inl v →
      windowTotal {} none ToolCallEntry.id shortResult v ≤
        windowTotal {} none ToolCallEntry.id shortResult w := by
  intro h
  have h_grown := h (fullWindow shortResult.session)
    { fullWindow shortResult.session with degradedTcIds := ["TC1"], untrimmedTokens := 12 } .refl
    (by decide +kernel)
  exact absurd h_grown (by decide +kernel)

end Nexus
