import DeferredSave.Advice.Warning
import DeferredSave.Catalog
import DeferredSave.Edit.Buffer
import DeferredSave.Failure
import DeferredSave.Status.Board
import DeferredSave.Timer

/-! The engine: it takes edits, shows them at once, and saves them in batches.

An edit starts a quiet period, and the next edit starts it anew. When it is over, a *flight* takes
off: it sends the edits of that moment to the store as one batch, and when they are stored it loads
the catalog again. There is one flight at most; whoever wants one meanwhile leaves a request, and
the flight goes round again for the edits that were made since its batch was taken.

The engine itself never waits. It stops where it calls the store, and goes on when it is given the
answer. What it asks of its surroundings is put into its outbox. -/

namespace DeferredSave

/-! ### Values -/

/-- The value to show for a key: that of the edit that is not saved yet, if there is one, and the
confirmed value otherwise. An unknown key has the empty value. -/
def effectiveValue (edits : EditBuffer) (catalog : Catalog) (key : String) : String :=
  ((edits.get? key).or (catalog.value? key)).getD ""

/-- Whether an edit differs from the confirmed value. -/
def isDirty (edits : EditBuffer) (catalog : Catalog) (key : String) : Bool :=
  match edits.get? key with
  | none => false
  | some value => catalog.value? key != some value

/-! ### The state -/

/-- Where a flight is. -/
inductive Flight where
  | none
  /-- It was asked for and has not taken its batch yet. -/
  | waiting
  /-- The batch was sent to the store. -/
  | saving (batch : Batch)
  /-- The batch is stored, with the given rows, and the catalog is being loaded again. -/
  | reloading (batch : Batch) (rows : List Setting) (load : Nat)
deriving DecidableEq, Repr

/-- What the engine asks of its surroundings. -/
inductive Effect (ω : Type) where
  /-- To let the new flight take off at its next turn. -/
  | takeOff
  /-- To store a batch. -/
  | update (batch : Batch)
  /-- To load the catalog for the flight. -/
  | reload
  /-- The flight is over, for a reason if it broke off. -/
  | landed (failure? : Option Failure)
  /-- To carry out what a listener asks for. -/
  | order (w : ω)
deriving DecidableEq, Repr

/-- What a listener does when it is told of one of some statuses. -/
structure Reply (ω : Type) where
  statuses : List Status
  act : ω
deriving DecidableEq, Repr

structure Engine (ω : Type) where
  metas : MetaTable
  rules : List CrossRule
  quiet : Timer
  /-- The time for which a save is shown. -/
  shown : Timer
  now : Rat := 0
  edits : EditBuffer := {}
  catalog : Catalog := .empty
  board : Board := {}
  /-- What the listeners do, by their names. -/
  replies : List (String × Reply ω) := []
  flight : Flight := .none
  /-- Whether the flight is to go round again. -/
  requested : Bool := false
  /-- Whether an edit was made since the last batch was taken. -/
  edited : Bool := false
  /-- The number of loads that were started; the last one is the newest. -/
  loads : Nat := 0
  loading : Bool := false
  closed : Bool := false
  outbox : List (Effect ω) := []
deriving DecidableEq, Repr

namespace Engine

variable {ω : Type}

/-- An engine with no catalog and no edits. -/
def new (metas : MetaTable) (rules : List CrossRule) (quietPeriod shownFor : Rat) : Engine ω :=
  { metas, rules, quiet := { delay := quietPeriod }, shown := { delay := shownFor } }

/-! ### Looking -/

def status (g : Engine ω) : Status := g.board.indicator.status

/-- Whether a flight is under way. -/
def flying (g : Engine ω) : Bool := g.flight ≠ .none

/-- The value to show for a key. -/
def effective (g : Engine ω) (key : String) : String := effectiveValue g.edits g.catalog key

def dirty (g : Engine ω) (key : String) : Bool := isDirty g.edits g.catalog key

/-- The warnings that come from rules across settings. -/
def ruleWarnings (g : Engine ω) : List (String × String) :=
  CrossRule.warnings g.effective g.rules

/-- The warning for a key: the one given from outside, that of a rule, or that of the threshold. -/
def warning (g : Engine ω) (key : String) (external : Option String) :
    Except Number.TooManyDigits (Option String) :=
  g.metas.warning key (g.effective key) (external.or (g.ruleWarnings.lookup key))

/-! ### Listeners -/

def emit (g : Engine ω) (e : Effect ω) : Engine ω := { g with outbox := g.outbox ++ [e] }

/-- Registers a listener. One that is known by its name keeps what it does. -/
def subscribe (g : Engine ω) (listener : String) (reply? : Option (Reply ω)) : Engine ω :=
  let replies :=
    match reply? with
    | some reply =>
      if g.board.handles.contains listener then g.replies else g.replies ++ [(listener, reply)]
    | none => g.replies
  { g with board := g.board.subscribe listener, replies }

def unsubscribe (g : Engine ω) (handle : Nat) : Engine ω :=
  { g with board := g.board.unsubscribe handle }

/-- How the acts of listeners change the engine. -/
abbrev Acting (ω : Type) := ω → Engine ω → Engine ω

/-- Tells a listener of a status and lets it act. -/
def tell (acting : Acting ω) (status : Status) (g : Engine ω) (listener : String) : Engine ω :=
  let g := { g with board := g.board.tell listener status }
  match g.replies.lookup listener with
  | some reply => if reply.statuses.contains status then acting reply.act g else g
  | none => g

/-- Moves the indicator, and tells those who watch it. An event that is not allowed changes
nothing. -/
def fire (acting : Acting ω) (g : Engine ω) (e : StatusEvent) :
    Engine ω × Except InvalidTransition Unit :=
  match g.board.shift e with
  | .error t => (g, .error t)
  | .ok (board, told) => (told.foldl (tell acting e.target) { g with board }, .ok ())

end Engine

end DeferredSave
