import DeferredSave.Failure
import DeferredSave.Timer

/-! A timer on a clock, together with what is done when it fires.

Arming the timer asks the clock for a call. A call that is taken back stays with the clock, which
leaves it out when its time comes. The clock stops at every call on its way, so a call is made at
the moment it is due. What is done then may arm the timer again. -/

namespace DeferredSave

/-- What can be done to a timer. -/
inductive TimerCommand where
  | arm | cancel
deriving DecidableEq, Repr

/-- A call that the clock was asked for. -/
structure Appointment where
  arming : Arming
  cancelled : Bool := false
deriving DecidableEq, Repr

/-- An expiry that happened: when, and whether the timer was armed by then. -/
structure Firing where
  time : Rat
  armed : Bool
deriving DecidableEq, Repr

structure Alarm where
  timer : Timer
  now : Rat := 0
  /-- The calls that the clock was asked for and has not made, in the order of asking. -/
  calls : List Appointment := []
  /-- What is done at the expiries to come; at later ones nothing is done. -/
  replies : List (List TimerCommand) := []
  firings : List Firing := []
deriving DecidableEq, Repr

/-- Arms a timer by a clock. Without a running clock the timer is left disarmed. -/
def Timer.armBy (clock? : Option Rat) (t : Timer) : Timer × Option Failure :=
  match clock? with
  | some now => (t.arm now, none)
  | none => (t.cancel, some (.plain .runtime (some "no running event loop")))

namespace Alarm

/-- The calls that are to be made. -/
def live (a : Alarm) : List Arming := (a.calls.filter fun c => !c.cancelled).map (·.arming)

/-- The next call, if it is to be made by the time `limit`. -/
def next? (a : Alarm) (limit : Rat) : Option Arming :=
  (a.live.minOn? (·.due)).filter (·.due ≤ limit)

/-- Takes the call of the present arming back. -/
def cancel (a : Alarm) : Alarm :=
  match a.timer.pending with
  | none => a
  | some arming =>
    { a with
      timer := a.timer.cancel
      calls := a.calls.map fun c => { c with cancelled := c.cancelled || c.arming = arming } }

/-- Takes the call of the present arming back and asks for a new one. -/
def arm (a : Alarm) : Alarm :=
  let a := a.cancel
  let timer := a.timer.arm a.now
  { a with timer, calls := a.calls ++ timer.pending.toList.map fun arming => { arming } }

/-- Carries a command out at the present moment. -/
def obey (a : Alarm) : TimerCommand → Alarm
  | .arm => a.arm
  | .cancel => a.cancel

/-- Makes a call: the clock moves on to it, and the timer is no longer armed. -/
def ring (a : Alarm) (arming : Arming) : Alarm :=
  let timer := a.timer.cancel
  let now := if a.now < arming.due then arming.due else a.now
  { a with
    timer
    now
    calls := a.calls.filter (·.arming ≠ arming)
    firings := a.firings ++ [⟨now, timer.armed⟩] }

/-- Makes a call and carries the reply out. -/
def expire (a : Alarm) (arming : Arming) : Alarm :=
  (a.replies.headD []).foldl obey { a.ring arming with replies := a.replies.tail }

/-- Makes at most `count` calls that are due by the time `limit`. -/
def expireAll (limit : Rat) : (count : Nat) → Alarm → Alarm
  | 0, a => a
  | count + 1, a =>
    match a.next? limit with
    | none => a
    | some arming => expireAll limit count (a.expire arming)

/-- Makes all calls that are due by the time `limit`. Every expiry but the last uses up a reply, so
there is at most one more of them than replies. -/
def runUntil (a : Alarm) (limit : Rat) : Alarm :=
  a.expireAll limit (a.replies.length + 1)

/-- Carries a command out, and what becomes due by that. -/
def command (a : Alarm) (c : TimerCommand) : Alarm := (a.obey c).runUntil a.now

/-- Lets time pass. -/
def advance (a : Alarm) (seconds : Rat) : Alarm :=
  let limit := a.now + seconds
  { a.runUntil limit with now := limit }

end Alarm

end DeferredSave
