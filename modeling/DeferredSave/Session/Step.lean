import DeferredSave.Panel.Service
import DeferredSave.Store.Memory

/-! What happens to a session from outside.

A session is an engine at work: with a store, a clock, a queue of things to do, and the panel in
front of it. Its store can be told to hold calls back or to fail, so that every order of events can
be played through. -/

namespace DeferredSave.Session

/-- The two kinds of call to the store. -/
inductive CallKind where
  | update | fetch
deriving DecidableEq, Repr

def CallKind.name : CallKind → String
  | update => "update"
  | fetch => "fetch"

/-- How calls of a kind are answered. -/
structure CallMode where
  /-- Whether a call is held until it is released. -/
  gate : Bool := false
  /-- What a call that is not held fails with. -/
  failure? : Option Failure := none
  /-- Whether only the next call fails. -/
  once : Bool := false
deriving DecidableEq, Repr

/-- Values by category, to fill a store with. -/
abbrev Seed := List (String × List (String × String))

/-- One thing that is done from outside. Those inside of a listener are done when it is told of one
of its statuses. -/
inductive Step where
  | change (key value : String)
  | discard (keys? : Option (List String))
  | close
  | subscribe (listener : String) (statuses : List Status) (act? : Option Step)
  | unsubscribe (handle : Nat)
  /-- A listener fails. -/
  | fail
  -- looking
  | effective (key : String)
  | warning (key : String) (external : Option String)
  | warnings
  | catalog
  -- the surroundings
  | store (update? fetch? : Option CallMode)
  | release (kind : CallKind) (number : Nat) (failure? : Option Failure) (seed? : Option Seed)
  | server (seed : Seed)
  | trip (service : String) (failures : Nat)
  | detach
  -- tasks
  | flushNow
  | refresh
  | request (r : Panel.Request)

/-- What a step returns. -/
inductive StepResult where
  | nothing
  | keys (ks : List String)
  | value (v : String) (dirty : Bool)
  | warning (w : Option String)
  | warnings (ws : List (String × String))
  | catalog (cs : Categories)
  /-- A task was started. -/
  | task (number : Nat)
  | failed (f : Failure)
deriving Repr

/-- Whether a step is about the surroundings of the engine. -/
def Step.isOutside : Step → Bool
  | store .. | release .. | server _ | trip .. | detach | flushNow | refresh | request _ => true
  | _ => false

/-- How deep the acts of listeners may cause each other. -/
def actDepth : Nat := 200

/-- What a listener does to the engine when it acts. What it does to the surroundings is left to
them, and what it learns or fails with stays with it. -/
def act : (depth : Nat) → Step → Engine Step → Engine Step
  | 0, _, g => g
  | depth + 1, s, g =>
    match s with
    | .change key value => (g.change (act depth) key value).1
    | .discard keys? => (g.discard (act depth) keys?).1
    | .close => g.close
    | .subscribe listener statuses act? => g.subscribe listener (act?.map (⟨statuses, ·⟩))
    | .unsubscribe handle => g.unsubscribe handle
    | s => if s.isOutside then g.emit (.order s) else g

/-- The acts of the listeners of a session. -/
def acting : Engine.Acting Step := act actDepth

end DeferredSave.Session
