import DeferredSave.Number.Whole
import DeferredSave.Text.Blank
import DeferredSave.Text.Digit

/-! The integer at the front of a value, and durations in words.

Values are texts, and many hold a number followed by a unit. Their leading integer is what a
threshold is compared with and what a duration is shown from: as `1d 1h 1m`, or as `45s` below a
minute. -/

namespace DeferredSave

/-! ### The leading integer -/

/-- Splits off the digits at the front of a text; they may be of any script. -/
def leadingDigits : List Char → List Nat
  | [] => []
  | c :: cs =>
    match Text.digitValue? c with
    | some d => d :: leadingDigits cs
    | none => []

/-- The integer at the front of a text, if there is one: blanks, a sign if any, and at least one
digit. Too many digits are an error. -/
def leadingInt? (s : String) : Except Number.TooManyDigits (Option Int) :=
  let (negative, cs) :=
    match s.toList.dropWhile Text.isBlank with
    | '-' :: cs => (true, cs)
    | '+' :: cs => (false, cs)
    | cs => (false, cs)
  match leadingDigits cs with
  | [] => .ok none
  | ds => (Number.intOfDigits negative ds).map some

/-! ### Durations -/

/-- A count with its unit, unless it is not positive. -/
def durationPart (count : Int) (unit : String) : Except Number.TooManyDigits (List String) :=
  if 0 < count then (Number.writtenInt count).map fun text => [text ++ unit] else .ok []

/-- A duration in days, hours and minutes, where parts that are not positive are left out. If
nothing is left the whole is given in seconds. -/
def durationText (seconds : Int) : Except Number.TooManyDigits String := do
  let days ← durationPart (seconds / 86400) "d"
  let hours ← durationPart (seconds % 86400 / 3600) "h"
  let minutes ← durationPart (seconds % 86400 % 3600 / 60) "m"
  let parts := days ++ hours ++ minutes
  if parts.isEmpty then (Number.writtenInt seconds).map (· ++ "s")
  else return " ".intercalate parts

end DeferredSave
