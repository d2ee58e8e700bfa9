import DeferredSave.Session.Basic

/-! The store of a session, and what happens around the engine. -/

namespace DeferredSave.Session

/-! ### Calling the store -/

/-- The answer that a caller gets when its call fails. -/
def failedAnswer (f : Failure) : Caller → StoreAnswer
  | .save _ => .saved (.error f)
  | .reload => .reloaded (.error f)
  | .refresh load asker => .loaded load asker (.error f)

/-- Asks the store as it is now; a catalog that is given takes the place of its own. -/
def ask (s : Session) (given? : Option Categories) : Caller → Session × StoreAnswer
  | .save batch =>
    let (store, r) := s.store.update s.stamp batch
    ({ s with store }, .saved r)
  | .reload => (s, .reloaded (.ok (given?.getD s.store.fetch)))
  | .refresh load asker => (s, .loaded load asker (.ok (given?.getD s.store.fetch)))

def mode (s : Session) : CallKind → CallMode
  | .update => s.updateMode
  | .fetch => s.fetchMode

def setMode (s : Session) (kind : CallKind) (m : CallMode) : Session :=
  match kind with
  | .update => { s with updateMode := m }
  | .fetch => { s with fetchMode := m }

/-- Counts a call: the session and the number of the call among those of its kind. -/
def countCall (s : Session) : Caller → Session × Nat
  | .save batch =>
    let inFlight := s.inFlight + 1
    ({ s with
        updateCalls := s.updateCalls + 1, sent := s.sent ++ [batch], inFlight
        maxInFlight := max s.maxInFlight inFlight }, s.updateCalls)
  | _ => ({ s with fetchCalls := s.fetchCalls + 1 }, s.fetchCalls)

/-- Notes that a call is over. -/
def callOver (s : Session) : CallKind → Session
  | .update => { s with inFlight := s.inFlight - 1 }
  | .fetch => s

/-- Calls the store. A call that is not held is answered before anything else happens. -/
def call (s : Session) (caller : Caller) : Session :=
  let kind := caller.kind
  let (s, number) := s.countCall caller
  let m := s.mode kind
  if m.gate then { s with held := s.held ++ [⟨number, caller⟩] }
  else
    let (s, answer) :=
      match m.failure? with
      | some f =>
        (if m.once then s.setMode kind { m with failure? := none } else s, failedAnswer f caller)
      | none => s.ask none caller
    let s := s.callOver kind
    { s with round := .answer answer :: s.round }

/-- Lets a held call go on, at the end of the queue. -/
def release (s : Session) (kind : CallKind) (number : Nat) (failure? : Option Failure)
    (seed? : Option Seed) : Session × StepResult :=
  match s.held.find? fun c => c.caller.kind = kind && c.number = number with
  | some c =>
    ({ s with held := s.held.erase c }.push (.released c.caller failure? seed?), .nothing)
  | none =>
    (s, .failed (.plain .key (some ("('" ++ kind.name ++ "', " ++ Number.natText number ++ ")"))))

/-- The answer to a call that was released. -/
def releasedAnswer (s : Session) (caller : Caller) (failure? : Option Failure)
    (seed? : Option Seed) : Session × StoreAnswer :=
  let s := s.callOver caller.kind
  match failure? with
  | some f => (s, failedAnswer f caller)
  | none => s.ask (seed?.map (Categories.ofValues s.stamp)) caller

/-! ### The surroundings of the engine -/

/-- Carries out a step that is about the surroundings. -/
def arrange (s : Session) : Step → Session × StepResult
  | .store update? fetch? =>
    ({ s with updateMode := update?.getD s.updateMode, fetchMode := fetch?.getD s.fetchMode },
      .nothing)
  | .release kind number failure? seed? => s.release kind number failure? seed?
  | .server seed => ({ s with store := .ofValues seed s.stamp }, .nothing)
  | .trip service failures =>
    let (known, b) := s.breakers.obtain service {}
    let b := failures.repeat (·.recordFailure s.now .runtime) b
    ({ s with breakers := Entries.put service b known }, .nothing)
  | .detach => ({ s with attached := false }, .nothing)
  | .flushNow => s.spawn .flushNow
  | .refresh => s.spawn .refresh
  | .request r => s.spawn (.request r)
  | _ => (s, .nothing)

/-- Does what the engine asks for. -/
def oblige (s : Session) : Effect Step → Session
  | .takeOff => s.push .takeOff
  | .update batch => s.call (.save batch)
  | .reload => s.call .reload
  | .landed failure? =>
    s.waiting.foldl (fun s asker => s.push (.notify asker failure?)) { s with waiting := [] }
  | .order step => (s.arrange step).1

/-- The session with a new state of the engine; what the engine asks for by now is done. -/
def withEngine (s : Session) (g : Engine Step) : Session :=
  g.outbox.foldl oblige { s with engine := { g with outbox := [] } }

end DeferredSave.Session
