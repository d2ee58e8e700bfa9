import DeferredSave.Engine.Load

/-! The flight of a batch: it is taken from the edits, stored, and confirmed by a new catalog.

Each function here is one uninterrupted stretch, from an answer or a turn of the flight to its next
call or its end. -/

namespace DeferredSave.Engine

variable {ω : Type}

/-! ### Taking off -/

/-- Asks for a flight. -/
def launch (g : Engine ω) : Engine ω := { g with flight := .waiting }.emit .takeOff

/-- Ends the flight. -/
def land (g : Engine ω) (failure? : Option Failure) : Engine ω :=
  { g with flight := .none }.emit (.landed failure?)

/-- Takes a batch and sends it. Without edits there is nothing to send, and the flight is over. -/
def sendBatch (acting : Acting ω) (g : Engine ω) : Engine ω :=
  let batch := g.edits.snapshot
  let g := { g with edited := false }
  if batch.isEmpty then
    match g.fire acting .idle with
    | (g, .error t) => g.land (some (.transition t))
    | (g, .ok ()) => { g with requested := false }.land none
  else
    match g.fire acting .saving with
    | (g, .error t) => g.land (some (.transition t))
    | (g, .ok ()) => { g with flight := .saving batch }.emit (.update batch)

/-- The first turn of a flight. -/
def takeOff (acting : Acting ω) (g : Engine ω) : Engine ω :=
  sendBatch acting { g with requested := false }

/-- Whether the flight has to go round again: this was requested, and there are edits that are
newer than its batch. -/
def goesAround (g : Engine ω) : Bool :=
  g.requested && g.edited && !g.edits.isEmpty && !g.closed

/-- The end of a round. -/
def endRound (acting : Acting ω) (g : Engine ω) : Engine ω :=
  let again := g.goesAround
  let g := { g with requested := false }
  if again then sendBatch acting g else g.land none

/-! ### Answers of the store -/

/-- The text that is shown for a save that failed. -/
def saveError (f : Failure) : String := if f.message = "" then "Failed to save" else f.message

/-- Takes the answer to a batch: when it is stored the catalog is loaded again. -/
def updated (acting : Acting ω) (g : Engine ω) (answer : Except Failure (List Setting)) :
    Engine ω :=
  match g.flight with
  | .saving batch =>
    if g.closed then endRound acting g
    else
      match answer with
      | .ok rows =>
        let g := g.startLoad
        { g with flight := .reloading batch rows g.loads }.emit .reload
      | .error f =>
        match g.fire acting (.failed (saveError f)) with
        | (g, .error t) => g.land (some (.transition t))
        | (g, .ok ()) => endRound acting g
  | _ => g

/-- Shows that everything is saved, if the flight is still what the indicator shows. -/
def showSaved (acting : Acting ω) (g : Engine ω) : Engine ω :=
  if g.status = .saving then
    match g.fire acting .saved with
    | (g, .error t) => g.land (some (.transition t))
    | (g, .ok ()) => endRound acting { g with shown := g.shown.arm g.now }
  else
    match g.fire acting .idle with
    | (g, .error t) => g.land (some (.transition t))
    | (g, .ok ()) => endRound acting g

/-- Confirms a stored batch. The confirmed values have to be in the catalog before the edits are
dropped, so that no older value is shown in between. -/
def confirm (acting : Acting ω) (g : Engine ω) (batch : Batch) (rows : List Setting)
    (installed : Bool) : Engine ω :=
  let g := if installed then g else { g with catalog := g.catalog.withUpdates rows }
  match g.edits.discardFlushed batch with
  | (edits, .error m) => { g with edits }.land (some (.lengthMismatch m))
  | (edits, .ok _) =>
    let g := { g with edits }
    if g.edits.isEmpty then showSaved acting g else endRound acting g

/-- Takes the answer to the load after a save. If the catalog could not be loaded, the rows that
the save returned are put into the present one. -/
def reloaded (acting : Acting ω) (g : Engine ω) (answer : Except Failure Categories) : Engine ω :=
  match g.flight with
  | .reloading batch rows load =>
    match g.finishLoad load answer with
    | (g, .ok installed) =>
      if g.closed then endRound acting g else confirm acting g batch rows installed
    | (g, .error f) =>
      if !f.isFetch then g.land (some f)
      else if g.closed then endRound acting g
      else confirm acting g batch rows false
  | _ => g

/-! ### Asking for a flight -/

/-- Saves at once. The answer says whether there is a flight to wait for; without edits and without
a flight there is none. -/
def flushNow (g : Engine ω) : Engine ω × Except Failure Bool :=
  if g.closed then (g, .error .engineClosed)
  else
    let g := { g with quiet := g.quiet.cancel }
    if g.flying then ({ g with requested := true }, .ok true)
    else if g.edits.isEmpty then (g, .ok false)
    else (g.launch, .ok true)

/-- The quiet period is over. -/
def quietOver (g : Engine ω) : Engine ω :=
  if g.closed then g
  else if g.flying then { g with requested := true }
  else g.launch

/-- The time is over for which a save is shown. -/
def shownOver (acting : Acting ω) (g : Engine ω) : Engine ω :=
  if !g.closed && g.status = .saved then (g.fire acting .idle).1 else g

end DeferredSave.Engine
