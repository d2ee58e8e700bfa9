import DeferredSave.Status.Indicator

/-! The indicator together with those who watch it.

A listener that is registered twice is told twice. When the status changes, the registrations of
that moment are told one after the other. A listener may change the board while it is told: the
others are still told, with the status of the event and the error that is shown by then. -/

namespace DeferredSave

/-- What a listener was told. -/
structure Notice where
  listener : String
  status : Status
  error : Option String
deriving DecidableEq, Repr

structure Board where
  indicator : Indicator := {}
  /-- The registrations in order. -/
  listeners : List String := []
  /-- The listener of every handle that was given out. -/
  handles : List String := []
  /-- What was told, oldest first. -/
  notices : List Notice := []
deriving DecidableEq, Repr

namespace Board

/-- Registers a listener and gives out a handle to it. -/
def subscribe (b : Board) (listener : String) : Board :=
  { b with listeners := b.listeners ++ [listener], handles := b.handles ++ [listener] }

/-- Uses a handle: drops the first registration of its listener, if one is left. -/
def unsubscribe (b : Board) (handle : Nat) : Board :=
  match b.handles[handle]? with
  | some listener => { b with listeners := b.listeners.erase listener }
  | none => b

/-- The board after an event, with the registrations that have to be told. Nobody is told of an
event that leaves the status as it is. -/
def shift (b : Board) (e : StatusEvent) : Except InvalidTransition (Board × List String) :=
  (b.indicator.after e).map fun i =>
    ({ b with indicator := i }, if b.indicator.status = e.target then [] else b.listeners)

/-- Tells a listener of a status, with the error that is shown now. -/
def tell (b : Board) (listener : String) (status : Status) : Board :=
  { b with notices := b.notices ++ [⟨listener, status, b.indicator.error⟩] }

/-! ### Listeners that act on the board -/

/-- What a listener does when it is told. -/
inductive Reaction where
  | nothing
  | fire (e : StatusEvent)
  | unsubscribe (handle : Nat)
deriving DecidableEq, Repr

/-- Fires an event. Events that listeners fire while they are told are carried out at once, down to
the given depth; that such an event is refused stays with the listener. -/
def fire (reactions : String → Reaction) :
    (depth : Nat) → Board → StatusEvent → Board × Option InvalidTransition
  | 0, b, _ => (b, none)
  | depth + 1, b, e =>
    match b.shift e with
    | .error t => (b, some t)
    | .ok (b, told) =>
      let told := told.foldl (fun b listener =>
        let b := b.tell listener e.target
        match reactions listener with
        | .nothing => b
        | .fire e => (fire reactions depth b e).1
        | .unsubscribe handle => b.unsubscribe handle) b
      (told, none)

end Board

end DeferredSave
