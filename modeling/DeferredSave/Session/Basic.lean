import DeferredSave.Session.Step

/-! The state of a session. -/

namespace DeferredSave

namespace Session

/-- Who waits for a flight or a load. -/
inductive Asker where
  | task (number : Nat)
  /-- A task that serves a request. -/
  | panel (number : Nat)
  /-- The service as a whole, at its start or its end. -/
  | service
deriving DecidableEq, Repr

/-- On whose behalf the store is called. -/
inductive Caller where
  | save (batch : Batch)
  | reload
  | refresh (load : Nat) (asker : Asker)
deriving DecidableEq, Repr

def Caller.kind : Caller → CallKind
  | save _ => .update
  | reload | refresh .. => .fetch

/-- A call that waits to be released. -/
structure HeldCall where
  number : Nat
  caller : Caller
deriving DecidableEq, Repr

/-- An answer of the store, for the one who asked. -/
inductive StoreAnswer where
  | saved (r : Except Failure (List Setting))
  | reloaded (r : Except Failure Categories)
  | loaded (load : Nat) (asker : Asker) (r : Except Failure Categories)
deriving Repr

/-- What a task is to do. -/
inductive Work where
  | flushNow
  | refresh
  | request (r : Panel.Request)
deriving DecidableEq, Repr

/-- What a task ends with. -/
inductive Outcome where
  | status (s : Status)
  | reloaded
  | answer (a : Panel.Answer)
  | failed (f : Failure)
deriving Repr

/-- The timers of the engine. -/
inductive TimerName where
  | quiet | shown
deriving DecidableEq, Repr

/-- One thing that waits in the queue. -/
inductive Job where
  | step (s : Step)
  /-- The first turn of a task. -/
  | begin (number : Nat) (work : Work)
  /-- The first turn of a flight. -/
  | takeOff
  | expiry (timer : TimerName) (number : Nat)
  /-- A held call goes on. -/
  | released (caller : Caller) (failure? : Option Failure) (seed? : Option Seed)
  | answer (a : StoreAnswer)
  /-- The end of a flight is passed on to one who waits for it. -/
  | notify (asker : Asker) (failure? : Option Failure)
  /-- One who waited for a flight goes on. -/
  | wake (asker : Asker) (failure? : Option Failure)
  /-- The service starts. -/
  | startUp
  /-- The service ends. -/
  | shutDown

/-- Where the service is: its start and its end may fail. -/
inductive Stage where
  | up
  | ended (failure? : Option Failure)
deriving DecidableEq, Repr

end Session

open Session

structure Session where
  engine : Engine Step
  store : MemoryStore
  updateMode : CallMode := {}
  fetchMode : CallMode := {}
  breakers : Breakers := []
  /-- Whether the panel knows the engine. -/
  attached : Bool := true
  -- the calls
  held : List HeldCall := []
  updateCalls : Nat := 0
  fetchCalls : Nat := 0
  inFlight : Nat := 0
  maxInFlight : Nat := 0
  -- the queue: what is done in this round, and what in the next
  round : List Job := []
  queue : List Job := []
  /-- Who waits for the flight. -/
  waiting : List Asker := []
  tasks : Nat := 0
  -- the service
  /-- Whether the store can be closed. -/
  closable : Bool := false
  storeClosed : List Rat := []
  stage : Stage := .up
  -- what was seen
  results : List StepResult := []
  sent : List Batch := []
  done : List (Nat × Outcome) := []

namespace Session

/-- The seconds of quiet before a save, unless others are given. -/
def quietPeriod : Rat := 4 / 5

/-- The seconds for which a save is shown, unless others are given. -/
def shownFor : Rat := 2

/-- A session over a store with the given values. -/
def new (seed : Seed) (metas : MetaTable) (rules : List CrossRule) (quiet shown : Rat) : Session :=
  { engine := .new metas rules quiet shown, store := .ofValues seed .epoch }

def now (s : Session) : Rat := s.engine.now

/-- The time of day for the store. -/
def stamp (s : Session) : Stamp := .atClock s.now

def push (s : Session) (j : Job) : Session := { s with queue := s.queue ++ [j] }

/-- Starts a task: its first turn comes at the end of the queue. -/
def spawn (s : Session) (work : Work) : Session × StepResult :=
  ({ s with tasks := s.tasks + 1 }.push (.begin s.tasks work), .task s.tasks)

/-- Notes what a task ended with. -/
def finish (s : Session) (number : Nat) (o : Outcome) : Session :=
  { s with done := s.done ++ [(number, o)] }

/-- What the tasks ended with that are over by now, in the order in which they were started. -/
def outcomes (s : Session) : List (Nat × Outcome) :=
  s.done.mergeSort fun a b => decide (a.1 ≤ b.1)

end Session

end DeferredSave
