import NexusAgent.Session.Store

/-!
# The working session and the store behind it

A run works on one session object while the store holds its own entry for it. `Live`
is the pair. What the store *contains* at a moment depends on the adapter: the
in-memory adapter shares the run's object, so its entry for the session is always the
working copy (`Live.contents`); a redis entry is the last copy written.
-/

open Lib

namespace Nexus

/-- A working session together with the store. -/
structure Live (a : StoreAdapter) where
  session : AgentSession
  store : Store a

namespace Live

variable {a : StoreAdapter}

/-- What the store contains: under an aliasing adapter, the working session itself. -/
def contents (l : Live a) : Store a :=
  if a.aliased then l.store.saveSession l.session else l.store

/-- Mutate the working session. -/
def mutate (f : AgentSession → AgentSession) (l : Live a) : Live a :=
  { l with session := f l.session }

/-- `session_manager.save_session(session)`. -/
def saveSession (l : Live a) : Live a := { l with store := l.contents.saveSession l.session }

/-- `session_manager.update_tc_summary` for the working session. -/
def updateTcSummary (tcId summary : String) (byTurn : ℕ) (l : Live a) : Live a :=
  { l with store :=
      l.contents.updateTcSummary l.session.sessionId tcId summary byTurn l.session.toScope }

/-- `session_manager.append_turn` for the working session. -/
def appendTurn (turn : TurnRecord) (scope : SessionScope) (l : Live a) : Live a :=
  { l with store := l.contents.appendTurn l.session.sessionId turn scope }

/-- Load the session again; keep the working copy when the store has none. -/
def reload (scope : SessionScope) (l : Live a) : Live a :=
  { l with session := (l.store.loadSession l.session.sessionId scope).getD l.session }

/-! ### Reading the contents -/

/-- The entry of the working session. -/
theorem find?_contents_self (l : Live a) :
    l.contents.find? l.session.sessionId =
      if a.aliased then some l.session else l.store.find? l.session.sessionId := by
  unfold contents
  split_ifs with h <;> simp

/-- Entries of other sessions are the store's own. -/
theorem find?_contents_ne (l : Live a) {sid : String} (h : l.session.sessionId ≠ sid) :
    l.contents.find? sid = l.store.find? sid := by
  unfold contents
  split_ifs
  · exact Store.find?_saveSession_ne _ _ h
  · rfl

@[simp] theorem saveSession_session (l : Live a) : l.saveSession.session = l.session := rfl

@[simp] theorem updateTcSummary_session (l : Live a) (tcId summary : String) (byTurn : ℕ) :
    (l.updateTcSummary tcId summary byTurn).session = l.session := rfl

@[simp] theorem mutate_session (l : Live a) (f : AgentSession → AgentSession) :
    (l.mutate f).session = f l.session := rfl

@[simp] theorem mutate_store (l : Live a) (f : AgentSession → AgentSession) :
    (l.mutate f).store = l.store := rfl

end Live
end Nexus
