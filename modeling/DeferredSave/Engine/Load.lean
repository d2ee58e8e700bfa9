import DeferredSave.Engine.Basic

/-! Loading the catalog.

Loads are numbered as they start, and the newest wins: an older one that is answered later neither
installs its catalog nor reports its failure. -/

namespace DeferredSave.Engine

variable {ω : Type}

/-- Starts a load; its number is that of the loads so far. -/
def startLoad (g : Engine ω) : Engine ω := { g with loads := g.loads + 1, loading := true }

/-- Whether the answer of a load is of no use any more. -/
def outdated (g : Engine ω) (load : Nat) : Bool := load != g.loads || g.closed

/-- Takes the answer of a load: whether its catalog was installed. The failure of a load that is
outdated does not count. -/
def finishLoad (g : Engine ω) (load : Nat) (answer : Except Failure Categories) :
    Engine ω × Except Failure Bool :=
  let g := if load = g.loads then { g with loading := false } else g
  match answer with
  | .ok categories =>
    if g.outdated load then (g, .ok false) else ({ g with catalog := ⟨categories⟩ }, .ok true)
  | .error f => if f.isFetch && g.outdated load then (g, .ok false) else (g, .error f)

/-- Asks for a new catalog. -/
def refresh (g : Engine ω) : Engine ω × Except Failure Unit :=
  if g.closed then (g, .error .engineClosed) else (g.startLoad, .ok ())

end DeferredSave.Engine
