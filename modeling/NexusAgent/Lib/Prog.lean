import Mathlib.Data.Nat.Notation
import Mathlib.Logic.Relation
import Mathlib.Tactic.Common

/-!
# Stateful programs that may raise

`Prog σ ε α` is a program over a mutable state `σ` that returns an `α` or raises
an `ε`. The state reached survives a raise, so whatever a program did before it
raised stays done: this is the discipline of an imperative language, where an
exception unwinds the control stack but not the heap.

* `Prog.wp x Q E s` is the weakest precondition: run from `s`, the program `x`
  either returns into `Q` or raises into `E`. The `wp_*` lemmas compute it along
  the program text, and `wp_mono` is how a specification of a part is used.
* `Prog.loop` is the `while` loop with `continue` and `break`. It carries a fuel
  argument, and `wp_loop` is its total-correctness rule: an invariant together
  with a measure that every completed pass decreases. A run that starts with at
  least the measure as fuel never exhausts it.
* `Prog.Visits` are the states a loop visits at its head, for conditions on every
  step of a run.
-/

namespace Lib

/-- A program over the state `σ` that returns an `α` or raises an `ε`, keeping the
state it reached in either case. -/
def Prog (σ ε α : Type) : Type := σ → Except ε α × σ

namespace Prog

variable {σ ε α β : Type}

instance : Monad (Prog σ ε) where
  pure a := fun s => (.ok a, s)
  bind x f := fun s =>
    match x s with
    | (.ok a, s') => f a s'
    | (.error e, s') => (.error e, s')

/-- Read the state. -/
def get : Prog σ ε σ := fun s => (.ok s, s)

/-- Replace the state by its image under `f`. -/
def modify (f : σ → σ) : Prog σ ε Unit := fun s => (.ok (), f s)

/-- Run the total state transformer `f` and return what it computes. -/
def update (f : σ → α × σ) : Prog σ ε α := fun s => (.ok (f s).1, (f s).2)

/-- Raise `e`. -/
def throw (e : ε) : Prog σ ε α := fun s => (.error e, s)

/-- Run `x` and hand back its outcome instead of raising. -/
def attempt (x : Prog σ ε α) : Prog σ ε (Except ε α) := fun s => (.ok (x s).1, (x s).2)

/-- Raise what an `Except` computation raised. -/
def ofExcept : Except ε α → Prog σ ε α
  | .ok a => pure a
  | .error e => throw e

/-- Run a program over a component of the state: `view` reads the component, `put` writes
it back, and `raise` embeds what the program raises. -/
def zoom {τ δ : Type} (view : σ → τ) (put : σ → τ → σ) (raise : δ → ε) (x : Prog τ δ α) :
    Prog σ ε α := fun s =>
  match x (view s) with
  | (.ok a, t) => (.ok a, put s t)
  | (.error e, t) => (.error (raise e), put s t)

/-- Run one program for each item of a schedule, one whole program after another, each to
its own outcome: what a scheduler makes of tasks that never wait for each other. -/
def gatherFrom (task : ℕ → Prog σ ε β) :
    List (ℕ × Except ε β) → List ℕ → Prog σ ε (List (ℕ × Except ε β))
  | done, [] => pure done
  | done, i :: schedule => do
    let r ← attempt (task i)
    gatherFrom task (done ++ [(i, r)]) schedule

/-- The error of the first task of a schedule that raised. -/
def firstError (outcomes : List (ℕ × Except ε β)) : Option ε :=
  outcomes.findSome? fun o => match o.2 with
    | .error e => some e
    | .ok _ => none

/-- The results of the tasks `0, …, n - 1`, in this order. -/
def inOrder (n : ℕ) (outcomes : List (ℕ × Except ε β)) : List β :=
  (List.range n).filterMap fun i => (outcomes.lookup i).bind Except.toOption

/-- Run the tasks `0, …, n - 1` in the order of the schedule and hand back their results
in the order of the tasks. If tasks raised, all still run, and the first error of the
schedule is raised. -/
def gather (task : ℕ → Prog σ ε β) (schedule : List ℕ) (n : ℕ) : Prog σ ε (List β) := do
  let outcomes ← gatherFrom task [] schedule
  match firstError outcomes with
  | some e => throw e
  | none => pure (inOrder n outcomes)

/-! ### Weakest preconditions -/

/-- From `s`, the program `x` returns into `Q` or raises into `E`. -/
def wp (x : Prog σ ε α) (Q : α → σ → Prop) (E : ε → σ → Prop) (s : σ) : Prop :=
  match x s with
  | (.ok a, s') => Q a s'
  | (.error e, s') => E e s'

section Rules

variable {Q Q' : α → σ → Prop} {R : β → σ → Prop} {E E' : ε → σ → Prop} {s : σ}

@[simp] theorem wp_pure (a : α) : wp (pure a : Prog σ ε α) Q E s ↔ Q a s := Iff.rfl

/-- The rule of sequencing. -/
@[simp] theorem wp_bind (x : Prog σ ε α) (f : α → Prog σ ε β) :
    wp (x >>= f) R E s ↔ wp x (fun a s' => wp (f a) R E s') E s := by
  change (match (match x s with
    | (.ok a, s') => f a s'
    | (.error e, s') => (.error e, s')) with
    | (.ok a, s') => R a s'
    | (.error e, s') => E e s') ↔ _
  unfold wp
  rcases x s with ⟨_ | a, s'⟩ <;> rfl

@[simp] theorem wp_get {R : σ → σ → Prop} : wp (get : Prog σ ε σ) R E s ↔ R s s := Iff.rfl

@[simp] theorem wp_modify {R : Unit → σ → Prop} (f : σ → σ) :
    wp (modify f : Prog σ ε Unit) R E s ↔ R () (f s) := Iff.rfl

@[simp] theorem wp_update (f : σ → α × σ) :
    wp (update f : Prog σ ε α) Q E s ↔ Q (f s).1 (f s).2 := Iff.rfl

@[simp] theorem wp_throw (e : ε) : wp (throw e : Prog σ ε α) Q E s ↔ E e s := Iff.rfl

/-- An attempt turns an error into a result. -/
theorem wp_attempt (x : Prog σ ε α) {R : Except ε α → σ → Prop} :
    wp (attempt x) R E s ↔ wp x (fun a => R (.ok a)) (fun e => R (.error e)) s := by
  change R (x s).1 (x s).2 ↔ _
  unfold wp
  rcases x s with ⟨_ | a, s'⟩ <;> rfl

/-- The precondition of a lifted result is that of its case. -/
theorem wp_ofExcept (r : Except ε α) :
    wp (ofExcept r : Prog σ ε α) Q E s ↔
      match r with
      | .ok a => Q a s
      | .error e => E e s := by
  cases r <;> rfl

@[simp] theorem wp_zoom {τ δ : Type} (view : σ → τ) (put : σ → τ → σ) (raise : δ → ε)
    (x : Prog τ δ α) :
    wp (zoom view put raise x) Q E s ↔
      wp x (fun a t => Q a (put s t)) (fun e t => E (raise e) (put s t)) (view s) := by
  unfold wp zoom
  rcases x (view s) with ⟨_ | a, t⟩ <;> rfl

theorem wp_ite (c : Prop) [Decidable c] (x y : Prog σ ε α) :
    wp (if c then x else y) Q E s ↔ (c → wp x Q E s) ∧ (¬c → wp y Q E s) := by
  by_cases h : c <;> simp [h]

/-- Weakening the postconditions of a part: how a specification is used. -/
theorem wp_mono {x : Prog σ ε α} (h : wp x Q E s) (hQ : ∀ a s', Q a s' → Q' a s')
    (hE : ∀ e s', E e s' → E' e s') : wp x Q' E' s := by
  unfold wp at h ⊢
  rcases hx : x s with ⟨_ | a, s'⟩ <;> rw [hx] at h
  · exact hE _ _ h
  · exact hQ _ _ h

/-- Reading a weakest precondition back at a run that returned. -/
theorem wp_ok {x : Prog σ ε α} {a : α} {s' : σ} (h : wp x Q E s) (hx : x s = (.ok a, s')) :
    Q a s' := by
  unfold wp at h
  rwa [hx] at h

/-- Reading a weakest precondition back at a run that raised. -/
theorem wp_error {x : Prog σ ε α} {e : ε} {s' : σ} (h : wp x Q E s)
    (hx : x s = (.error e, s')) : E e s' := by
  unfold wp at h
  rwa [hx] at h

/-- Two specifications of one program. -/
theorem wp_and {x : Prog σ ε α} (h : wp x Q E s) (h' : wp x Q' E' s) :
    wp x (fun a s' => Q a s' ∧ Q' a s') (fun e s' => E e s' ∧ E' e s') s := by
  unfold wp at h h' ⊢
  rcases hx : x s with ⟨_ | a, s'⟩ <;> rw [hx] at h h' <;> exact ⟨h, h'⟩

/-- A specification of the state a program ends in, however it ends. -/
theorem wp_final {x : Prog σ ε α} {P : σ → Prop} :
    wp x (fun _ => P) (fun _ => P) s ↔ P (x s).2 := by
  unfold wp
  rcases x s with ⟨_ | a, s'⟩ <;> rfl

/-- The rule for tasks run along a schedule: `J` relates the outcomes so far to the state. -/
theorem wp_gatherFrom {task : ℕ → Prog σ ε β} {J : List (ℕ × Except ε β) → σ → Prop}
    (schedule : List ℕ)
    (h_task : ∀ i ∈ schedule, ∀ outs s, J outs s →
      wp (task i) (fun b => J (outs ++ [(i, .ok b)])) (fun e => J (outs ++ [(i, .error e)])) s)
    (outs : List (ℕ × Except ε β)) (s : σ) (hJ : J outs s) :
    wp (gatherFrom task outs schedule)
      (fun outs' s' => J outs' s' ∧ outs'.map Prod.fst = outs.map Prod.fst ++ schedule) E s := by
  induction schedule generalizing outs s with
  | nil => exact ⟨hJ, by simp⟩
  | cons i schedule ih =>
    -- the other tasks run from any state that the first one leaves
    have h_rest := ih fun j hj => h_task j (List.mem_cons_of_mem i hj)
    unfold gatherFrom
    rw [wp_bind, wp_attempt]
    -- a task that raises is recorded like one that returns
    refine wp_mono (h_task i List.mem_cons_self outs s hJ) (fun b s' hJ' => ?_) (fun e s' hJ' => ?_)
    · refine wp_mono (h_rest (outs ++ [(i, .ok b)]) s' hJ') ?_ (fun _ _ h => h)
      exact fun outs' s'' h => ⟨h.1, by simpa using h.2⟩
    · refine wp_mono (h_rest (outs ++ [(i, .error e)]) s' hJ') ?_ (fun _ _ h => h)
      exact fun outs' s'' h => ⟨h.1, by simpa using h.2⟩

end Rules

/-! ### Results of gathered tasks -/

/-- Where `f` is defined throughout, `filterMap` is a map. -/
theorem getElem?_filterMap {γ : Type} {f : γ → Option β} {xs : List γ}
    (h : ∀ x ∈ xs, (f x).isSome = true) :
    (xs.filterMap f).length = xs.length ∧ ∀ i : ℕ, (xs.filterMap f)[i]? = xs[i]?.bind f := by
  induction xs with
  | nil => simp
  | cons x xs ih =>
    rw [List.forall_mem_cons] at h
    -- each value is there, so none is left out
    obtain ⟨b, hb⟩ := Option.isSome_iff_exists.mp h.1
    obtain ⟨h_length, h_get⟩ := ih h.2
    rw [List.filterMap_cons_some hb]
    refine ⟨by simp [h_length], fun i => ?_⟩
    cases i with
    | zero => simp [hb]
    | succ i => simpa using h_get i

/-- A first error is the outcome of a task. -/
theorem exists_error {outcomes : List (ℕ × Except ε β)} (h : firstError outcomes ≠ none) :
    ∃ i e, (i, .error e) ∈ outcomes := by
  obtain ⟨e, h_e⟩ := Option.ne_none_iff_exists'.mp h
  obtain ⟨⟨i, o⟩, h_mem, h_o⟩ := List.exists_of_findSome?_eq_some h_e
  cases o with
  | error e' => exact ⟨i, e', h_mem⟩
  | ok b => cases h_o

/-- The results of tasks that all returned: one for each task, in the order of the tasks. -/
theorem getElem?_inOrder {n : ℕ} {outcomes : List (ℕ × Except ε β)}
    (h_tasks : (outcomes.map Prod.fst).Perm (List.range n)) (h_ok : firstError outcomes = none) :
    (inOrder n outcomes).length = n ∧
      ∀ i b, (inOrder n outcomes)[i]? = some b → (i, .ok b) ∈ outcomes := by
  have h_mem : ∀ {i r}, outcomes.lookup i = some r → (i, r) ∈ outcomes := by
    intro i r hr
    obtain ⟨xs, ys, h_eq, -⟩ := List.lookup_eq_some_iff.mp hr
    simp [h_eq]
  -- every task has an outcome, and none of them is an error
  have h_result : ∀ i ∈ List.range n,
      ((outcomes.lookup i).bind Except.toOption).isSome = true := by
    intro i hi
    obtain ⟨o, ho, h_fst⟩ := List.mem_map.mp (h_tasks.symm.subset hi)
    have h_some : (outcomes.lookup i).isSome = true := by
      rw [List.lookup_isSome_iff]
      exact ⟨o, ho, by simp [h_fst]⟩
    obtain ⟨r, hr⟩ := Option.isSome_iff_exists.mp h_some
    cases r with
    | ok b => simp [hr, Except.toOption]
    | error e =>
      have h_none := List.findSome?_eq_none_iff.mp h_ok (i, .error e) (h_mem hr)
      cases h_none
  obtain ⟨h_length, h_get⟩ := getElem?_filterMap h_result
  refine ⟨by simpa [inOrder] using h_length, fun i b hb => ?_⟩
  have h_bind := (h_get i).symm.trans hb
  obtain ⟨j, hj, h_task⟩ := Option.bind_eq_some_iff.mp h_bind
  -- the `i`-th of the range is `i`
  obtain rfl : i = j := by
    have := List.getElem?_range (List.getElem?_eq_some_iff.mp hj).1
    simp_all
  obtain ⟨r, hr, h_ok'⟩ := Option.bind_eq_some_iff.mp h_task
  cases r with
  | ok b' =>
    obtain rfl : b' = b := Option.some.inj h_ok'
    exact h_mem hr
  | error e => cases h_ok'

/-! ### Loops -/

/-- How one pass of a loop body ends: `continue` (or falling off its end), or `break`. -/
inductive Ctl
  | next
  | stop
  deriving DecidableEq, Repr

/-- How a loop ends: its condition failed, its body broke out, or the fuel ran out. -/
inductive LoopEnd
  | done
  | broke
  | outOfFuel
  deriving DecidableEq, Repr

/-- `while cond: body`, at most `n` passes. -/
def loop (cond : σ → Bool) (body : Prog σ ε Ctl) : ℕ → Prog σ ε LoopEnd
  | 0 => fun s => (.ok (if cond s then .outOfFuel else .done), s)
  | n + 1 => fun s =>
    if cond s then
      match body s with
      | (.ok .next, s') => loop cond body n s'
      | (.ok .stop, s') => (.ok .broke, s')
      | (.error e, s') => (.error e, s')
    else (.ok .done, s)

/-- One completed pass: the condition held and the body fell through or continued. -/
def Pass (cond : σ → Bool) (body : Prog σ ε Ctl) (s s' : σ) : Prop :=
  cond s = true ∧ body s = (.ok .next, s')

/-- The states a loop started at `s` visits at its head. -/
def Visits (cond : σ → Bool) (body : Prog σ ε Ctl) : σ → σ → Prop :=
  Relation.ReflTransGen (Pass cond body)

variable {cond : σ → Bool} {body : Prog σ ε Ctl} {E : ε → σ → Prop}

/-- **The loop rule.** `I` is kept by every completed pass, each of which decreases the
measure `μ`; leaving the loop establishes `Q`. With at least `μ s` passes of fuel the
loop ends on its own. -/
theorem wp_loop {I : σ → Prop} {Q : LoopEnd → σ → Prop} (μ : σ → ℕ)
    (hpos : ∀ s, I s → cond s = true → 0 < μ s)
    (hbody : ∀ s, I s → cond s = true →
      wp body (fun c s' => match c with
        | .next => I s' ∧ μ s' < μ s
        | .stop => Q .broke s') E s)
    (hdone : ∀ s, I s → cond s = false → Q .done s) :
    ∀ n s, I s → μ s ≤ n → wp (loop cond body n) Q E s := by
  intro n
  induction n with
  -- the measure is used up, so the condition is false
  | zero =>
    intro s hI hμ
    have hc : cond s = false := by
      by_contra hc
      have := hpos s hI (by simpa using hc)
      omega
    simpa [wp, loop, hc] using hdone s hI hc
  | succ n ih =>
    intro s hI hμ
    by_cases hc : cond s = true
    · have hb := hbody s hI hc
      unfold wp at hb
      unfold wp loop
      simp only [hc, if_true]
      rcases hs : body s with ⟨e | c, s'⟩
      · rw [hs] at hb
        exact hb
      · rw [hs] at hb
        cases c with
        | next =>
          obtain ⟨hI', hlt⟩ := hb
          exact ih s' hI' (by omega)
        | stop => exact hb
    · have hc' : cond s = false := by simpa using hc
      simpa [wp, loop, hc'] using hdone s hI hc'

/-- The loop rule along the states actually visited: the invariant may use that the
current state is one the loop visits at its head. -/
theorem wp_loop_visits {I : σ → Prop} {Q : LoopEnd → σ → Prop} (μ : σ → ℕ) {s₀ : σ}
    (hpos : ∀ s, I s → cond s = true → 0 < μ s)
    (hbody : ∀ s, Visits cond body s₀ s → I s → cond s = true →
      wp body (fun c s' => match c with
        | .next => I s' ∧ μ s' < μ s
        | .stop => Q .broke s') E s)
    (hdone : ∀ s, Visits cond body s₀ s → I s → cond s = false → Q .done s)
    {n : ℕ} (h₀ : I s₀) (hn : μ s₀ ≤ n) : wp (loop cond body n) Q E s₀ := by
  -- the invariant, together with the visit of the present state
  refine wp_loop (I := fun s => Visits cond body s₀ s ∧ I s) μ (fun s h => hpos s h.2) ?_
    (fun s h => hdone s h.1 h.2) n s₀ ⟨Relation.ReflTransGen.refl, h₀⟩ hn
  rintro s ⟨hv, hI⟩ hc
  have hb := hbody s hv hI hc
  unfold wp at hb ⊢
  -- a body that goes on visits one state more
  rcases hs : body s with ⟨e | c, s'⟩ <;> rw [hs] at hb
  · exact hb
  · cases c with
    | next => exact ⟨⟨hv.tail ⟨hc, hs⟩, hb.1⟩, hb.2⟩
    | stop => exact hb

/-- What a loop does from a state that it visits is what it does. -/
theorem exists_loop_eq {s₀ s : σ} (h_visits : Visits cond body s₀ s) {n : ℕ}
    (h_fuel : (loop cond body n s₀).1 ≠ .ok .outOfFuel) :
    ∃ m, loop cond body n s₀ = loop cond body m s := by
  induction h_visits using Relation.ReflTransGen.head_induction_on generalizing n with
  | refl => exact ⟨n, rfl⟩
  | head h_pass _ ih =>
    cases n with
    | zero => exact absurd (by simp [loop, h_pass.1]) h_fuel
    | succ n =>
      simp only [loop, h_pass.1, if_true, h_pass.2] at h_fuel ⊢
      exact ih h_fuel

/-- A pass that is not completed, at a state the loop visits, is the last one. -/
theorem loop_of_last {s₀ s s' : σ} {last : Except ε Ctl} (h_visits : Visits cond body s₀ s)
    (h_cond : cond s = true) (h_body : body s = (last, s')) (h_last : last ≠ .ok .next) {n : ℕ}
    (h_fuel : (loop cond body n s₀).1 ≠ .ok .outOfFuel) :
    loop cond body n s₀ = (last.map fun _ => .broke, s') := by
  obtain ⟨m, h_eq⟩ := exists_loop_eq h_visits h_fuel
  rw [h_eq] at h_fuel ⊢
  -- the fuel is not used up at the last visit
  cases m with
  | zero => exact absurd (by simp [loop, h_cond]) h_fuel
  | succ m =>
    simp only [loop, h_cond, if_true, h_body]
    -- the last pass raised, went on or stopped
    rcases last with e | _ | _
    · rfl
    · exact absurd rfl h_last
    · rfl

/-- **How a loop ends**, at a state it visits: its condition failed there or the fuel ran out,
or the pass from there broke out, or raised. -/
theorem loop_ends (n : ℕ) (s₀ : σ) :
    (∃ s c, Visits cond body s₀ s ∧ c ≠ .broke ∧ loop cond body n s₀ = (.ok c, s)) ∨
      (∃ s s', Visits cond body s₀ s ∧ cond s = true ∧ body s = (.ok .stop, s') ∧
        loop cond body n s₀ = (.ok .broke, s')) ∨
      ∃ s e s', Visits cond body s₀ s ∧ cond s = true ∧ body s = (.error e, s') ∧
        loop cond body n s₀ = (.error e, s') := by
  induction n generalizing s₀ with
  | zero =>
    refine .inl ⟨s₀, if cond s₀ then .outOfFuel else .done, .refl, ?_, rfl⟩
    split_ifs <;> simp
  | succ n ih =>
    by_cases h_cond : cond s₀ = true
    · rcases h_body : body s₀ with ⟨e | c, s'⟩
      · exact .inr (.inr ⟨s₀, e, s', .refl, h_cond, h_body, by simp [loop, h_cond, h_body]⟩)
      · cases c with
        | stop =>
          exact .inr (.inl ⟨s₀, s', .refl, h_cond, h_body, by simp [loop, h_cond, h_body]⟩)
        | next =>
          -- a pass that goes on: the rest of the loop runs from the state it leaves
          have h_pass : Pass cond body s₀ s' := ⟨h_cond, h_body⟩
          have h_loop : loop cond body (n + 1) s₀ = loop cond body n s' := by
            simp [loop, h_cond, h_body]
          rw [h_loop]
          rcases ih s' with ⟨s, c, h_visits, h⟩ | ⟨s, t, h_visits, h⟩ | ⟨s, e, t, h_visits, h⟩
          · exact .inl ⟨s, c, .head h_pass h_visits, h⟩
          · exact .inr (.inl ⟨s, t, .head h_pass h_visits, h⟩)
          · exact .inr (.inr ⟨s, e, t, .head h_pass h_visits, h⟩)
    · refine .inl ⟨s₀, .done, .refl, by simp, ?_⟩
      simp [loop, h_cond]


end Prog
end Lib
