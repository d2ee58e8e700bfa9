import DeferredSave.Retry.Breaker
import DeferredSave.Retry.Policy

/-! A call that is tried again after failures.

A call asks its breaker before every attempt and reports one outcome to it at its end. It moves in
steps, so that several calls may share a breaker and take turns. -/

namespace DeferredSave

/-- Where in its range each delay of a call lies, from zero to one. -/
structure Draws where
  /-- The draw for the delay after an attempt. -/
  after : Nat → Rat

/-- A number stands for a call in which all draws are the same. -/
instance : Coe Rat Draws := ⟨fun u => ⟨fun _ => u⟩⟩

/-- Where a call is. Attempts are counted from zero. -/
inductive CallPhase (α : Type) where
  /-- About to make an attempt. -/
  | ready (attempt : Nat)
  /-- Waiting for the outcome of an attempt. -/
  | trying (attempt : Nat)
  /-- Waiting before an attempt, until a time. -/
  | asleep (attempt : Nat) (wake : Rat)
  | ended (result : Except Failure α)
deriving Repr

namespace CallPhase

variable {α : Type}

/-- Begins an attempt if the breaker lets it through; otherwise the call ends. -/
def attempt (n : Nat) (breaker? : Option Breaker) (now : Rat) : Option Breaker × CallPhase α :=
  match breaker? with
  | none => (none, trying n)
  | some b =>
    match b.check now with
    | (b, .ok ()) => (some b, trying n)
    | (b, .error open?) => (some b, ended (.error (.circuitOpen open?)))

/-- What follows the outcome of an attempt: the end, or a sleep before the next attempt. -/
def settle (p : RetryPolicy) (u : Rat) (n : Nat) (outcome : Except Failure α)
    (breaker? : Option Breaker) (now : Rat) : Option Breaker × CallPhase α :=
  match outcome with
  | .ok a => (breaker?.map (·.recordSuccess), ended (.ok a))
  | .error f =>
    if p.maxRetries ≤ n || !p.retries f then
      (breaker?.map (·.recordFailure now f.kind), ended (.error f))
    else
      match p.delay u n with
      | .ok d => (breaker?, asleep (n + 1) (if 0 < d then now + d else now))
      | .error f => (breaker?, ended (.error f))

end CallPhase

/-- The end of a call that was run on its own. -/
structure CallEnd (σ α : Type) where
  result : Except Failure α
  state : σ
  breaker? : Option Breaker
  now : Rat
  /-- When the attempts were made. -/
  attempts : List Rat

/-- Runs a call from its `n`-th attempt to its end with no other call in between. `invoke` makes an
attempt in a state that it may change; at most `left` further attempts follow. -/
def runAttempts {σ α : Type} (p : RetryPolicy) (u : Draws)
    (invoke : Rat → σ → σ × Except Failure α) (left n : Nat) (s : σ) (breaker? : Option Breaker)
    (now : Rat) : CallEnd σ α :=
  match CallPhase.attempt (α := α) n breaker? now with
  | (breaker?, .ended result) => ⟨result, s, breaker?, now, []⟩
  | (breaker?, _) =>
    let (s, outcome) := invoke now s
    match CallPhase.settle p (u.after n) n outcome breaker? now, left with
    | (breaker?, .asleep m wake), left + 1 =>
      let rest := runAttempts p u invoke left m s breaker? wake
      { rest with attempts := now :: rest.attempts }
    | (breaker?, .ended result), _ => ⟨result, s, breaker?, now, [now]⟩
    | (breaker?, _), _ => ⟨outcome, s, breaker?, now, [now]⟩

/-- Runs a call to its end with no other call in between. -/
def runCall {σ α : Type} (p : RetryPolicy) (u : Draws) (invoke : Rat → σ → σ × Except Failure α)
    (s : σ) (breaker? : Option Breaker) (now : Rat) : CallEnd σ α :=
  runAttempts p u invoke p.maxRetries.toNat 0 s breaker? now

end DeferredSave
