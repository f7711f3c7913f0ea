import NexusAgent.Tools.Toolsets

/-!
# Grants and revokes over a runner's life

What the allow-list of a runner is after any sequence of runs, grants and revokes. A history
is read from its end: newest first, so that the last word on a name is met first.

A grant is kept in two places and a revoke in one: it changes the allow-list in force, which
the next run computes anew.

* `mem_granted` and `access_allowed` say what the two places hold after a history.
* `allowList_follows_iff`: the allow-list in force in a run is the configured one adjusted by
  the last word on each name exactly when every name revoked last was revoked in that very run,
  or was neither configured for it nor ever granted.
-/

open Lib

namespace Nexus

/-! ### Histories -/

/-- What happens to the allow-list of a runner. -/
inductive AccessEvent
  /-- A run starts; its toolset is that of the context if there is one, else that of the
  settings, expanded by the toolsets registered at the time. -/
  | runStarts (toolsets : Dict String Toolset) (config override : Option (List String))
  | grant (names : Finset String)
  | revoke (names : Finset String)

/-- The events of a runner's life, the newest first. -/
abbrev AccessHistory : Type := List AccessEvent

/-- The allow-list the toolset of a run resolves to. -/
def configuredFor (toolsets : Dict String Toolset) (config override : Option (List String)) :
    Option (Finset String) :=
  resolveToolset toolsets (override.or config)

/-- An event on the runner. -/
def AccessEvent.apply : AccessEvent → ToolAccess → ToolAccess
  | runStarts toolsets config override, access =>
    access.resolveToolsets (configuredFor toolsets config override)
  | grant names, access => access.grantTools names
  | revoke names, access => access.revokeTools names

namespace AccessHistory

/-- The runner after a history. -/
def access : AccessHistory → ToolAccess
  | [] => {}
  | e :: h => e.apply (access h)

/-- The allow-list configured for the current run, if a run was started. -/
def configured : AccessHistory → Option (Option (Finset String))
  | [] => none
  | .runStarts toolsets config override :: _ => some (configuredFor toolsets config override)
  | _ :: h => configured h

/-- The last word on a name: whether it was a grant. -/
def lastWord (name : String) : AccessHistory → Option Bool
  | [] => none
  | .runStarts .. :: h => lastWord name h
  | .grant names :: h => if name ∈ names then some true else lastWord name h
  | .revoke names :: h => if name ∈ names then some false else lastWord name h

/-- The part of a history that belongs to the current run. -/
def thisRun : AccessHistory → AccessHistory
  | [] => []
  | .runStarts .. :: _ => []
  | e :: h => e :: thisRun h

/-- The name was granted at some time. -/
def EverGranted (name : String) (h : AccessHistory) : Prop :=
  ∃ names, .grant names ∈ h ∧ name ∈ names

/-- The configured allow-list, adjusted by the last word on the name. -/
def Adjusted (configured : Option (Finset String)) (h : AccessHistory) (name : String) : Prop :=
  match lastWord name h with
  | some granted => granted = true
  | none => Admits configured name

/-- In the current run, which has the configured allow-list, the one in force is the
configured one adjusted by the last word on each name. -/
def Follows (configured : Option (Finset String)) (h : AccessHistory) : Prop :=
  ∀ name, Admits (access h).allowed name ↔ Adjusted configured h name

/-! ### What the runner holds -/

/-- A name is ever granted by the first event or by a later one. -/
theorem everGranted_cons (name : String) (e : AccessEvent) (h : AccessHistory) :
    EverGranted name (e :: h) ↔ (∃ names, e = .grant names ∧ name ∈ names) ∨ EverGranted name h := by
  simp only [EverGranted, List.mem_cons]
  constructor
  · rintro ⟨names, rfl | h_mem, h_name⟩
    · exact .inl ⟨names, rfl, h_name⟩
    · exact .inr ⟨names, h_mem, h_name⟩
  · rintro (⟨names, rfl, h_name⟩ | ⟨names, h_mem, h_name⟩)
    · exact ⟨names, .inl rfl, h_name⟩
    · exact ⟨names, .inr h_mem, h_name⟩

/-- Every grant is remembered, and nothing is taken out. -/
theorem mem_granted (name : String) (h : AccessHistory) :
    name ∈ (access h).granted ↔ EverGranted name h := by
  induction h with
  | nil => simp [access, EverGranted]
  | cons e h ih =>
    rw [everGranted_cons]
    cases e with
    | runStarts => simpa [access, AccessEvent.apply, ToolAccess.resolveToolsets] using ih
    | grant names => simp [access, AccessEvent.apply, ToolAccess.grantTools, ih, or_comm]
    | revoke => simpa [access, AccessEvent.apply, ToolAccess.revokeTools] using ih

/-- What the allow-list of the current run comes to: no restriction when none is configured;
else the words of the current run decide, and without one a name is in when it is configured
or was ever granted. -/
def Held (base : Option (Finset String)) (h : AccessHistory) (name : String) : Prop :=
  match base, lastWord name (thisRun h) with
  | none, _ => True
  | some _, some granted => granted = true
  | some tools, none => name ∈ tools ∨ EverGranted name h

/-- A word on a name decides over it when the run is restricted. -/
theorem held_cons {base : Option (Finset String)} {h : AccessHistory} {e : AccessEvent}
    {name : String} (h_this : thisRun (e :: h) = e :: thisRun h)
    (h_words : lastWord name (e :: thisRun h) = lastWord name (thisRun h))
    (h_granted : EverGranted name (e :: h) ↔ EverGranted name h) :
    Held base (e :: h) name ↔ Held base h name := by
  unfold Held
  rw [h_this, h_words, h_granted]

/-- Grants and revokes leave a run as restricted as it started. -/
theorem allowed_isSome {h : AccessHistory} {base : Option (Finset String)}
    (h_run : configured h = some base) : (access h).allowed.isSome = base.isSome := by
  induction h with
  | nil => cases h_run
  | cons e h ih =>
    cases e with
    | runStarts toolsets config override =>
      obtain rfl := Option.some.inj h_run
      simp [access, AccessEvent.apply, ToolAccess.resolveToolsets]
    | grant names => simpa [access, AccessEvent.apply, ToolAccess.grantTools] using ih h_run
    | revoke names => simpa [access, AccessEvent.apply, ToolAccess.revokeTools] using ih h_run

/-- **The allow-list in force.** -/
theorem access_allowed {h : AccessHistory} {base : Option (Finset String)}
    (h_run : configured h = some base) (name : String) :
    Admits (access h).allowed name ↔ Held base h name := by
  induction h with
  | nil => cases h_run
  | cons e h ih =>
    cases e with
    -- a new run forgets the last word, but tools granted earlier stay granted
    | runStarts toolsets config override =>
      obtain rfl := Option.some.inj h_run
      have h_granted := mem_granted name (.runStarts toolsets config override :: h)
      simp only [access, AccessEvent.apply, ToolAccess.resolveToolsets, Held, thisRun, lastWord]
        at h_granted ⊢
      cases configuredFor toolsets config override with
      | none => simp
      | some tools => simp [h_granted]
    | grant names =>
      have h_restricted := allowed_isSome (h := h) h_run
      -- on a name it lists the event is the last word; on any other nothing changes
      by_cases h_name : name ∈ names
      · simp only [access, AccessEvent.apply, ToolAccess.grantTools, Held, thisRun, lastWord,
          if_pos h_name]
        cases base <;> cases h_allowed : (access h).allowed <;> simp_all
      · rw [held_cons rfl (by simp [lastWord, h_name]) (by simp [everGranted_cons, h_name]),
          ← ih h_run]
        simp only [access, AccessEvent.apply, ToolAccess.grantTools]
        cases (access h).allowed <;> simp [h_name]
    | revoke names =>
      have h_restricted := allowed_isSome (h := h) h_run
      by_cases h_name : name ∈ names
      · simp only [access, AccessEvent.apply, ToolAccess.revokeTools, Held, thisRun, lastWord,
          if_pos h_name]
        cases base <;> cases h_allowed : (access h).allowed <;> simp_all
      · rw [held_cons rfl (by simp [lastWord, h_name]) (by simp [everGranted_cons]), ← ih h_run]
        simp only [access, AccessEvent.apply, ToolAccess.revokeTools]
        cases (access h).allowed <;> simp [h_name]

/-! ### When the last word counts -/

/-- The last word on a name in the current run is the last word on it. -/
theorem lastWord_of_thisRun {name : String} {h : AccessHistory} {granted : Bool}
    (h_word : lastWord name (thisRun h) = some granted) : lastWord name h = some granted := by
  -- by induction on the history, the latest event first
  induction h with
  | nil => exact h_word
  | cons e h ih =>
    cases e with
    -- a new run has no word of its own
    | runStarts => cases h_word
    | grant names =>
      -- a word of this run is the last word
      simp only [thisRun, lastWord] at h_word ⊢
      split_ifs at h_word ⊢
      · exact h_word
      · exact ih h_word
    | revoke names =>
      simp only [thisRun, lastWord] at h_word ⊢
      split_ifs at h_word ⊢
      · exact h_word
      · exact ih h_word

/-- A name whose last word is a grant was granted, and one without a word was not. -/
theorem everGranted_of_lastWord {name : String} {h : AccessHistory}
    (h_word : lastWord name h = some true) : EverGranted name h := by
  -- by induction on the history, the latest event first
  induction h with
  | nil => cases h_word
  | cons e h ih =>
    rw [everGranted_cons]
    cases e with
    | runStarts => exact .inr (ih h_word)
    | grant names =>
      -- granted now, or earlier
      by_cases h_name : name ∈ names
      · exact .inl ⟨names, rfl, h_name⟩
      · exact .inr (ih (by simpa [lastWord, h_name] using h_word))
    | revoke names =>
      -- revoked now: the last word would be no
      by_cases h_name : name ∈ names
      · simp [lastWord, h_name] at h_word
      · exact .inr (ih (by simpa [lastWord, h_name] using h_word))

/-- A name without a last word was never granted. -/
theorem not_everGranted_of_lastWord {name : String} {h : AccessHistory}
    (h_word : lastWord name h = none) : ¬EverGranted name h := by
  -- by induction on the history: no event names it
  induction h with
  | nil => simp [EverGranted]
  | cons e h ih =>
    rw [everGranted_cons, not_or]
    cases e with
    | runStarts => exact ⟨by simp, ih h_word⟩
    | grant names =>
      by_cases h_name : name ∈ names
      · simp [lastWord, h_name] at h_word
      · exact ⟨by simp [h_name], ih (by simpa [lastWord, h_name] using h_word)⟩
    | revoke names =>
      by_cases h_name : name ∈ names
      · simp [lastWord, h_name] at h_word
      · exact ⟨by simp, ih (by simpa [lastWord, h_name] using h_word)⟩

/-- The condition on a name: when its last word is a revoke, the run is restricted, and the
revoke came in the current run, or the name was neither configured for the run nor ever
granted. -/
def RevokeCounts (base : Option (Finset String)) (h : AccessHistory) (name : String) : Prop :=
  lastWord name h = some false →
    ∃ tools, base = some tools ∧
      (lastWord name (thisRun h) = some false ∨ name ∉ tools ∧ ¬EverGranted name h)

/-- The list held is the one adjusted unless a revocation does not count. -/
theorem held_iff_adjusted (base : Option (Finset String)) (h : AccessHistory) (name : String) :
    (Held base h name ↔ Adjusted base h name) ↔ RevokeCounts base h name := by
  unfold RevokeCounts Adjusted Held
  cases h_this : lastWord name (thisRun h) with
  -- this run has the last word, so both agree
  | some granted =>
    rw [lastWord_of_thisRun h_this]
    cases base <;> cases granted <;> simp
  -- otherwise an earlier one may have it
  | none =>
    cases h_word : lastWord name h with
    | none => cases base <;> simp [not_everGranted_of_lastWord h_word]
    | some granted =>
      cases granted with
      | true => cases base <;> simp [everGranted_of_lastWord h_word]
      | false => cases base <;> simp

/-- **The allow-list in force follows the last word on every name** exactly when every revoke
that is a last word counts. -/
theorem allowList_follows_iff {h : AccessHistory} {base : Option (Finset String)}
    (h_run : configured h = some base) :
    Follows base h ↔ ∀ name, RevokeCounts base h name := by
  unfold Follows
  refine forall_congr' fun name => ?_
  rw [access_allowed h_run, held_iff_adjusted]

/-- A run with one tool, in which another one is granted and taken back. -/
def revokedInRun : AccessHistory :=
  [.revoke {"app.other"}, .grant {"app.other"}, .runStarts [] (some ["app.sample"]) none]

/-- The next run of the runner. -/
def revokedBefore : AccessHistory := .runStarts [] (some ["app.sample"]) none :: revokedInRun

/-- What a toolset of the one tool resolves to. -/
theorem configuredFor_sample :
    configuredFor [] (some ["app.sample"]) none = some {"app.sample"} := by
  simp [configuredFor, resolveToolset, resolveToolsetTools]

/-- Within the run the tool is out. -/
theorem allowList_follows_revokedInRun : Follows (some {"app.sample"}) revokedInRun := by
  refine (allowList_follows_iff ?h_run).mpr fun name h_word => ⟨_, rfl, .inl ?_⟩
  case h_run => exact congrArg some configuredFor_sample
  simpa [revokedInRun, thisRun, lastWord] using h_word

/-- In the next run, where nothing was said about it, it is back. -/
theorem revoked_granted_again : ¬Follows (some {"app.sample"}) revokedBefore := by
  intro h_follows
  have h_held := access_allowed (h := revokedBefore) (congrArg some configuredFor_sample) "app.other"
  have h_out := (h_held.symm.trans (h_follows "app.other")).mp
    (.inr ⟨{"app.other"}, by simp [revokedBefore, revokedInRun], by simp⟩)
  simp [Adjusted, lastWord, revokedBefore, revokedInRun] at h_out

end AccessHistory
end Nexus
