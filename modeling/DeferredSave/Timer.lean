/-! One-shot timers that can be armed again.

Arming starts the whole delay anew, so a timer fires only once it has been left alone for that
long. Each arming has a number, by which an expiry that is waiting to be handled is told from one
that was cancelled or replaced meanwhile. -/

namespace DeferredSave

/-- An armed timer: when it is due, and which arming this is. -/
structure Arming where
  due : Rat
  number : Nat
deriving DecidableEq, Repr

structure Timer where
  delay : Rat
  pending : Option Arming := none
  armings : Nat := 0
deriving DecidableEq, Repr

namespace Timer

def armed (t : Timer) : Bool := t.pending.isSome

/-- Starts the delay at the time `now`. -/
def arm (t : Timer) (now : Rat) : Timer :=
  { t with pending := some ⟨now + t.delay, t.armings + 1⟩, armings := t.armings + 1 }

def cancel (t : Timer) : Timer := { t with pending := none }

/-- Takes the expiry of an arming: the timer is no longer armed. An arming that is not the present
one has no expiry. -/
def expire? (t : Timer) (number : Nat) : Option Timer :=
  if t.pending.any (·.number = number) then some t.cancel else none

/-- The present arming, if it is due by `now`. -/
def due? (t : Timer) (now : Rat) : Option Arming := t.pending.filter (·.due ≤ now)

theorem due?_eq_some_iff {t : Timer} {now : Rat} {a : Arming} :
    t.due? now = some a ↔ t.pending = some a ∧ a.due ≤ now := by
  simp [due?, Option.filter_eq_some_iff]

theorem armed_of_due? {t : Timer} {now : Rat} (h : (t.due? now).isSome = true) :
    t.armed = true := by
  obtain ⟨a, ha⟩ := Option.isSome_iff_exists.1 h
  simp [armed, (due?_eq_some_iff.1 ha).1]

end Timer

end DeferredSave
