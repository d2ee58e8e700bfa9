import DeferredSave.Failure
import DeferredSave.Number.Binary64

/-! How a failed call is tried again: how often, after which failures, and after which delays.

Delays grow by a factor from attempt to attempt up to a bound, and are then spread at random, so
that callers which failed together do not all come back at the same moment. -/

namespace DeferredSave

/-- The families of failures that are gone after a while: timeouts and lost connections. -/
def FailureKind.transient : List FailureKind := [timeout, network, connection, timedOut]

structure RetryPolicy where
  /-- How often a call is tried again after its first attempt. -/
  maxRetries : Int := 3
  /-- The delay after the first attempt, in seconds. -/
  baseDelay : Rat := 1 / 2
  maxDelay : Rat := 10
  /-- The factor from one delay to the next. -/
  growth : Rat := 2
  /-- Whether delays are spread. -/
  jitter : Bool := true
  /-- The families of failures after which a call is tried again. -/
  families : List FailureKind := FailureKind.transient
  /-- The statuses of an answer after which a call is tried again. -/
  statusCodes : List Int := [429, 502, 503, 504]
deriving DecidableEq, Repr

namespace RetryPolicy

/-- Whether a failure is worth another attempt. An answer of the server is judged by its status
alone. -/
def retries (p : RetryPolicy) : Failure → Bool
  | .status code _ => p.statusCodes.contains code
  | f => p.families.any f.kind.isA

/-! ### Delays -/

/-- The delay after an attempt, counted from zero, before it is spread. -/
def bareDelay (p : RetryPolicy) (attempt : Int) : Rat :=
  let grown := p.baseDelay * Rat.zpow p.growth attempt
  if grown ≤ p.maxDelay then grown else p.maxDelay

/-- A delay spread by half of itself to either side; `u`, from zero to one, says where in that
range it lies. -/
def spread (p : RetryPolicy) (u delay : Rat) : Rat :=
  if p.jitter then delay * (1 / 2 + u) else delay

/-- Whether the delays have left the range of numbers by an attempt: the power of the factor is
too large, or there is none. -/
def outOfRange? (p : RetryPolicy) (attempt : Int) : Option FailureKind :=
  if p.growth = 0 ∧ attempt < 0 then some .zeroDivision
  else if (Number.Binary64.ofRat (Rat.zpow p.growth attempt)).isFinite then none
  else some .overflow

/-- The delay after an attempt, counted from zero. -/
def delay (p : RetryPolicy) (u : Rat) (attempt : Int) : Except Failure Rat :=
  match p.outOfRange? attempt with
  | some kind => .error (.plain kind none)
  | none => .ok (p.spread u (p.bareDelay attempt))

end RetryPolicy

end DeferredSave
