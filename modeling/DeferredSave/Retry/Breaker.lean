import DeferredSave.Entries
import DeferredSave.Failure

/-! Circuit breakers.

A breaker stands between a caller and a service. After a number of failures in a row it is open,
and calls are refused; once its cool-down is over it is half open, and calls go through as probes;
after a number of probes that succeed it is closed again, and one that fails opens it anew. -/

namespace DeferredSave

/-- When a breaker opens, and how it recovers. -/
structure BreakerPolicy where
  /-- The failures in a row that open it. -/
  failureThreshold : Int := 5
  /-- The probes that have to succeed to close it. -/
  successThreshold : Int := 2
  /-- The cool-down in seconds. -/
  timeout : Rat := 30
  /-- The families of failures that do not count. -/
  excluded : List FailureKind := []
deriving DecidableEq, Repr

inductive Circuit where
  | closed | opened | halfOpen
deriving DecidableEq, Repr

def Circuit.name : Circuit → String
  | closed => "closed"
  | opened => "open"
  | halfOpen => "half_open"

structure Breaker where
  service : String
  policy : BreakerPolicy
  circuit : Circuit := .closed
  failures : Nat := 0
  successes : Nat := 0
  lastFailure : Option Rat := none
deriving DecidableEq, Repr

namespace Breaker

/-- A breaker that has seen no call. -/
def new (service : String) (policy : BreakerPolicy) : Breaker := { service, policy }

def reset (b : Breaker) : Breaker := new b.service b.policy

/-- The seconds that are left of the cool-down. -/
def untilProbe (b : Breaker) (now : Rat) : Rat := b.policy.timeout - (now - b.lastFailure.getD 0)

/-- Asks whether a call may go through now. An open breaker whose cool-down is over lets it through
as a probe. -/
def check (b : Breaker) (now : Rat) : Breaker × Except CircuitOpen Unit :=
  match b.circuit with
  | .closed | .halfOpen => (b, .ok ())
  | .opened =>
    if 0 < b.untilProbe now then (b, .error ⟨b.service, b.untilProbe now⟩)
    else ({ b with circuit := .halfOpen, successes := 0 }, .ok ())

/-- Takes note of a call that succeeded. -/
def recordSuccess (b : Breaker) : Breaker :=
  match b.circuit with
  | .closed => { b with failures := 0 }
  | .opened => b
  | .halfOpen =>
    let successes := b.successes + 1
    if b.policy.successThreshold ≤ successes then
      { b with circuit := .closed, successes, failures := 0 }
    else { b with successes }

/-- Whether a kind of failure counts. -/
def counts (b : Breaker) (kind : FailureKind) : Bool := !b.policy.excluded.any kind.isA

/-- Takes note of a failure that counts. -/
def addFailure (b : Breaker) (now : Rat) : Breaker :=
  let failures := b.failures + 1
  let noted := { b with failures, lastFailure := some now }
  match b.circuit with
  | .opened => b
  | .halfOpen => { noted with circuit := .opened }
  | .closed =>
    if b.policy.failureThreshold ≤ failures then { noted with circuit := .opened } else noted

/-- Takes note of a call that failed. -/
def recordFailure (b : Breaker) (now : Rat) (kind : FailureKind) : Breaker :=
  if b.counts kind then b.addFailure now else b

end Breaker

/-! ### Breakers by service -/

/-- The breakers of all services. -/
abbrev Breakers := List (String × Breaker)

namespace Breakers

/-- The breaker of a service. One that is not there yet is made with the given policy; one that is
keeps its own. -/
def obtain (bs : Breakers) (service : String) (policy : BreakerPolicy) : Breakers × Breaker :=
  match bs.lookup service with
  | some b => (bs, b)
  | none =>
    let b := Breaker.new service policy
    (Entries.put service b bs, b)

end Breakers

end DeferredSave
