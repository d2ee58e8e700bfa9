import DeferredSave.Engine.Basic

/-! Edits coming in and being dropped, and the end of an engine. -/

namespace DeferredSave.Engine

variable {ω : Type}

/-- Makes an edit and starts the quiet period anew. -/
def change (acting : Acting ω) (g : Engine ω) (key value : String) :
    Engine ω × Except Failure Unit :=
  if g.closed then (g, .error .engineClosed)
  else
    let g := { g with edits := g.edits.set key value, edited := true, shown := g.shown.cancel }
    match g.fire acting .edit with
    | (g, .error t) => (g, .error (.transition t))
    | (g, .ok ()) => ({ g with quiet := g.quiet.arm g.now }, .ok ())

/-- Whether the indicator shows edits that nothing is being done about. -/
def showsEdits (g : Engine ω) : Bool := g.status = .pending || g.status = .error

/-- Drops the edits of the given keys, or all. When none is left there is nothing to wait for. -/
def discard (acting : Acting ω) (g : Engine ω) (keys? : Option (List String)) :
    Engine ω × Except Failure (List String) :=
  match g.edits.discard keys? with
  | (edits, .error missing) => ({ g with edits }, .error (.missingKey missing))
  | (edits, .ok dropped) =>
    let g := { g with edits }
    if !g.edits.isEmpty then (g, .ok dropped)
    else
      let g := { g with quiet := g.quiet.cancel }
      if g.flying || !g.showsEdits then (g, .ok dropped)
      else
        match g.fire acting .idle with
        | (g, .error t) => (g, .error (.transition t))
        | (g, .ok ()) => (g, .ok dropped)

/-- Ends the engine: both timers are stopped, and answers that come later do not count. -/
def close (g : Engine ω) : Engine ω :=
  if g.closed then g
  else
    { g with closed := true, quiet := g.quiet.cancel, shown := g.shown.cancel, requested := false }

end DeferredSave.Engine
