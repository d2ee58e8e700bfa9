import DeferredSave.Session.Calls

/-! The turns of a session: one job after the other, each without interruption. -/

namespace DeferredSave.Session

/-! ### Tasks -/

/-- The answer to a request for a new catalog. -/
def refreshAnswer (g : Engine Step) : Except Failure Unit → Panel.Answer
  | .ok () => .view g
  | .error f => if f.isFetch then .refusal 502 f.message else .broken

/-- The answer to a request to save. -/
def flushAnswer (g : Engine Step) : Except Failure Unit → Panel.Answer
  | .ok () => .saveState 200 g
  | .error _ => .broken

/-- Goes on where a catalog was asked for. At its start the service puts up with a catalog that
could not be loaded. -/
def afterLoad (s : Session) (asker : Asker) (r : Except Failure Unit) : Session :=
  match asker with
  | .task n =>
    s.finish n (match r with
      | .ok () => .reloaded
      | .error f => .failed f)
  | .panel n => s.finish n (.answer (refreshAnswer s.engine r))
  | .service =>
    match r with
    | .ok () => s
    | .error f => if f.isFetch then s else { s with stage := .ended (some f) }

/-- Closes the engine, and the store if it can be closed. -/
def closeAll (s : Session) : Session :=
  let s := s.withEngine s.engine.close
  { s with
    storeClosed := if s.closable then s.storeClosed ++ [s.now] else s.storeClosed
    stage := .ended none }

/-- Goes on where a save was asked for. -/
def afterFlight (s : Session) (asker : Asker) (r : Except Failure Unit) : Session :=
  match asker with
  | .task n =>
    s.finish n (match r with
      | .ok () => .status s.engine.status
      | .error f => .failed f)
  | .panel n => s.finish n (.answer (flushAnswer s.engine r))
  | .service =>
    match r with
    | .ok () => s.closeAll
    | .error f => { s with stage := .ended (some f) }

/-- Asks for a new catalog. -/
def startRefresh (s : Session) (asker : Asker) : Session :=
  match s.engine.refresh with
  | (g, .ok ()) => (s.withEngine g).call (.refresh g.loads asker)
  | (g, .error f) => (s.withEngine g).afterLoad asker (.error f)

/-- Asks for a save. -/
def startFlush (s : Session) (asker : Asker) : Session :=
  match s.engine.flushNow with
  | (g, .ok true) =>
    let s := s.withEngine g
    { s with waiting := s.waiting ++ [asker] }
  | (g, .ok false) => (s.withEngine g).afterFlight asker (.ok ())
  | (g, .error f) => (s.withEngine g).afterFlight asker (.error f)

/-- Serves a request. -/
def serve (s : Session) (n : Nat) (r : Panel.Request) : Session :=
  let g? := if s.attached then some s.engine else none
  match Panel.serve acting g? s.breakers r with
  | .answer g? a => (s.withEngine (g?.getD s.engine)).finish n (.answer (a.sent r.method))
  | .refresh => s.startRefresh (.panel n)
  | .flush => s.startFlush (.panel n)

/-- The first turn of a task. -/
def begin (s : Session) (n : Nat) : Work → Session
  | .flushNow => s.startFlush (.task n)
  | .refresh => s.startRefresh (.task n)
  | .request r => s.serve n r

/-- Starts a task with its first turn. -/
def startTask (s : Session) (work : Work) : Session × StepResult :=
  ({ s with tasks := s.tasks + 1 }.begin s.tasks work, .task s.tasks)

/-! ### Steps -/

/-- A result that may be a failure. -/
def resultOf {α : Type} (f : α → StepResult) : Except Failure α → StepResult
  | .ok a => f a
  | .error e => .failed e

/-- Carries out a step. -/
def perform (s : Session) (step : Step) : Session × StepResult :=
  match step with
  | .change key value =>
    let (g, r) := s.engine.change acting key value
    (s.withEngine g, resultOf (fun _ => .nothing) r)
  | .discard keys? =>
    let (g, r) := s.engine.discard acting keys?
    (s.withEngine g, resultOf .keys r)
  | .close => (s.withEngine s.engine.close, .nothing)
  | .subscribe listener statuses act? =>
    (s.withEngine (s.engine.subscribe listener (act?.map (⟨statuses, ·⟩))), .nothing)
  | .unsubscribe handle => (s.withEngine (s.engine.unsubscribe handle), .nothing)
  | .effective key => (s, .value (s.engine.effective key) (s.engine.dirty key))
  | .warning key external =>
    (s, resultOf .warning ((s.engine.warning key external).mapError .tooManyDigits))
  | .warnings => (s, .warnings s.engine.ruleWarnings)
  | .catalog => (s, .catalog s.engine.catalog.categories)
  | .flushNow => s.startTask .flushNow
  | .refresh => s.startTask .refresh
  | .request r => s.startTask (.request r)
  | step => s.arrange step

/-! ### Jobs -/

/-- Takes the expiry of a timer, unless it was stopped or armed again meanwhile. -/
def expire (s : Session) (timer : TimerName) (number : Nat) : Session :=
  let g := s.engine
  match timer with
  | .quiet =>
    match g.quiet.expire? number with
    | some quiet => s.withEngine { g with quiet }.quietOver
    | none => s
  | .shown =>
    match g.shown.expire? number with
    | some shown => s.withEngine ({ g with shown }.shownOver acting)
    | none => s

/-- Hands an answer of the store to the one who asked. -/
def deliver (s : Session) : StoreAnswer → Session
  | .saved r => s.withEngine (s.engine.updated acting r)
  | .reloaded r => s.withEngine (s.engine.reloaded acting r)
  | .loaded load asker r =>
    let (g, r) := s.engine.finishLoad load r
    (s.withEngine g).afterLoad asker (r.map fun _ => ())

/-- Does one job. -/
def turn (s : Session) : Job → Session
  | .step step =>
    let (s, r) := s.perform step
    { s with results := s.results ++ [r] }
  | .begin n work => s.begin n work
  | .takeOff => s.withEngine (s.engine.takeOff acting)
  | .expiry timer number => s.expire timer number
  | .released caller failure? seed? =>
    let (s, answer) := s.releasedAnswer caller failure? seed?
    s.deliver answer
  | .answer a => s.deliver a
  | .notify asker failure? => s.push (.wake asker failure?)
  | .wake asker failure? =>
    s.afterFlight asker (match failure? with
      | some f => .error f
      | none => .ok ())
  | .startUp => s.startRefresh .service
  | .shutDown => if s.engine.edits.isEmpty then s.closeAll else s.startFlush .service

/-! ### Rounds -/

/-- The expiries that are due, the earlier first. -/
def dueJobs (s : Session) : List Job :=
  let due (name : TimerName) (t : Timer) : List (Rat × Job) :=
    ((t.due? s.now).map fun a => (a.due, Job.expiry name a.number)).toList
  let both := due .quiet s.engine.quiet ++ due .shown s.engine.shown
  (both.mergeSort fun a b => decide (a.1 ≤ b.1)).map (·.2)

/-- How many jobs may be done before time goes on. -/
def patience : Nat := 100000

/-- Does jobs until nothing is left to do at this moment, but at most `count` of them. What becomes
ready in a round is done in the next one, before the expiries that are due by then. -/
def settle : (count : Nat) → Session → Session
  | 0, s => s
  | count + 1, s =>
    match s.round with
    | job :: rest => settle count ({ s with round := rest }.turn job)
    | [] =>
      match s.queue ++ s.dueJobs with
      | [] => s
      | round => settle count { s with round, queue := [] }

/-- The next expiry that is due by a time. -/
def nextDue? (s : Session) (limit : Rat) : Option Rat :=
  match s.engine.quiet.due? limit, s.engine.shown.due? limit with
  | some a, some b => some (if b.due < a.due then b.due else a.due)
  | some a, none => some a.due
  | none, b? => b?.map (·.due)

/-- Moves the clock. -/
def setClock (s : Session) (now : Rat) : Session := { s with engine := { s.engine with now } }

/-- Lets time pass up to a limit, stopping at every expiry on the way. -/
def passUntil (limit : Rat) : (count : Nat) → Session → Session
  | 0, s => s.setClock limit
  | count + 1, s =>
    match s.nextDue? limit with
    | none => s.setClock limit
    | some due =>
      let s := if s.now < due then s.setClock due else s
      passUntil limit count (s.settle patience)

/-! ### From outside -/

/-- Forgets what was seen of earlier steps. -/
def cleared (s : Session) : Session :=
  { s with
    results := [], sent := [], done := []
    engine := { s.engine with board := { s.engine.board with notices := [] } } }

/-- Queues steps as one job each, and does all that follows from them. -/
def play (s : Session) (steps : List Step) : Session :=
  settle patience (steps.foldl (fun s step => s.push (.step step)) s.cleared)

/-- Lets time pass. -/
def advance (s : Session) (seconds : Rat) : Session :=
  let s := s.cleared
  s.passUntil (s.now + seconds) patience

/-- Starts the service: its engine loads the catalog. -/
def startUp (s : Session) : Session := settle patience (s.cleared.push .startUp)

/-- Ends the service: unsaved edits are saved, then the engine and the store are closed. -/
def shutDown (s : Session) : Session := settle patience (s.cleared.push .shutDown)

end DeferredSave.Session
