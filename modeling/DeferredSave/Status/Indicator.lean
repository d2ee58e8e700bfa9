/-! The indicator of the state of saving. -/

namespace DeferredSave

inductive Status where
  | idle | pending | saving | saved | error
deriving DecidableEq, Repr

def Status.name : Status → String
  | idle => "idle"
  | pending => "pending"
  | saving => "saving"
  | saved => "saved"
  | error => "error"

/-- The statuses that may follow a status. An edit may come at any time, during a save too; a save
starts from unsaved edits or from a failure, and may fail after a newer edit. -/
def Status.canBecome : Status → Status → Bool
  | idle, pending | idle, idle => true
  | pending, pending | pending, saving | pending, error | pending, idle => true
  | saving, pending | saving, saved | saving, error => true
  | saved, pending | saved, idle => true
  | error, pending | error, saving | error, idle => true
  | _, _ => false

/-- What the indicator is told. -/
inductive StatusEvent where
  | edit | saving | saved | failed (message : String) | idle
deriving DecidableEq, Repr

def StatusEvent.target : StatusEvent → Status
  | edit => .pending
  | saving => .saving
  | saved => .saved
  | failed _ => .error
  | idle => .idle

/-- The error that an event shows; every other event clears it. -/
def StatusEvent.error? : StatusEvent → Option String
  | failed message => some message
  | _ => none

/-- The status with the message of the last failure. -/
structure Indicator where
  status : Status := .idle
  error : Option String := none
deriving DecidableEq, Repr

/-- An event that the present status does not allow. -/
structure InvalidTransition where
  current : Status
  target : Status
deriving DecidableEq, Repr

def InvalidTransition.message (t : InvalidTransition) : String :=
  "Invalid autosave transition: " ++ t.current.name ++ " -> " ++ t.target.name

namespace Indicator

/-- The text of the indicator; an idle one has none. -/
def label (i : Indicator) : Option String :=
  match i.status with
  | .idle => none
  | .pending => some "Unsaved changes"
  | .saving => some "Saving..."
  | .saved => some "Saved"
  | .error =>
    match i.error with
    | none | some "" => some "Save failed"
    | some message => some message

/-- The indicator after an event. -/
def after (i : Indicator) (e : StatusEvent) : Except InvalidTransition Indicator :=
  if i.status.canBecome e.target then .ok ⟨e.target, e.error?⟩ else .error ⟨i.status, e.target⟩

end Indicator

end DeferredSave
