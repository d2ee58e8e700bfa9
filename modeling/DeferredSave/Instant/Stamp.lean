import DeferredSave.Instant.Calendar
import DeferredSave.Number.Reading
import DeferredSave.Json.Basic

/-! Time stamps of settings.

A stamp is a reading of a wall clock down to the microsecond, with the clock's offset from UTC when
it is known. It is written in the ISO form and read from that form, from a few relaxations of it,
and from a count of seconds. -/

namespace DeferredSave

/-- A reading of a wall clock; `offset` is in minutes east of UTC. -/
structure Stamp where
  year : Nat
  month : Nat
  day : Nat
  hour : Nat
  minute : Nat
  second : Nat
  micro : Nat
  offset : Option Int
deriving DecidableEq, Repr

namespace Stamp

open Number Instant

/-! ### From a count of microseconds -/

def microsPerSecond : Int := 1000000

def microsPerDay : Int := 86400 * microsPerSecond

/-- The UTC reading so many microseconds after 1970-01-01, for the years 1 to 9999. -/
def ofMicros? (t : Int) : Option Stamp :=
  let d := Day.ofNumber (t / microsPerDay)
  let rest := (t % microsPerDay).toNat
  let seconds := rest / 1000000
  if 1 ≤ d.year ∧ d.year ≤ 9999 then
    some {
      year := d.year.toNat, month := d.month, day := d.day
      hour := seconds / 3600, minute := seconds / 60 % 60, second := seconds % 60
      micro := rest % 1000000, offset := some 0 }
  else none

/-- The magnitude above which a count is in milliseconds. -/
def millisecondsAbove : Rat := 20000000000

/-- The UTC reading of a count of seconds, or of milliseconds if it is large. -/
def ofCount? (count : Rat) : Option Stamp :=
  let seconds := if millisecondsAbove < count.abs then count / 1000 else count
  ofMicros? (roundHalfOut (seconds * 1000000))

/-- 2024-01-01T00:00:00Z, where every clock of this library starts. -/
def epoch : Stamp := ⟨2024, 1, 1, 0, 0, 0, 0, some 0⟩

/-- The reading `clock` seconds after `epoch`, to the nearest microsecond. -/
def atClock (clock : Rat) : Stamp :=
  (ofMicros? (roundHalfEven ((1704067200 + clock) * 1000000))).getD epoch

/-! ### Writing -/

/-- An offset as `Z` or as signed hours and minutes. -/
def offsetText (minutes : Int) : String :=
  if minutes = 0 then "Z"
  else
    (if minutes < 0 then "-" else "+") ++ paddedText 2 (minutes.natAbs / 60) ++ ":"
      ++ paddedText 2 (minutes.natAbs % 60)

/-- The ISO form. Microseconds are written only when there are some. -/
def text (s : Stamp) : String :=
  paddedText 4 s.year ++ "-" ++ paddedText 2 s.month ++ "-" ++ paddedText 2 s.day ++ "T"
    ++ paddedText 2 s.hour ++ ":" ++ paddedText 2 s.minute ++ ":" ++ paddedText 2 s.second
    ++ (if s.micro = 0 then "" else "." ++ paddedText 6 s.micro)
    ++ (s.offset.map offsetText).getD ""

/-! ### Reading -/

/-- Reads exactly `count` digits. -/
def digits? (count : Nat) (cs : List Char) : Option (Nat × List Char) :=
  let ds := cs.take count
  if ds.length = count && ds.all isAsciiDigit then some (natOfChars ds, cs.drop count) else none

/-- Reads one character of a set. -/
def oneOf? (set cs : List Char) : Option (List Char) :=
  match cs with
  | c :: rest => if c ∈ set then some rest else none
  | [] => none

/-- Reads an offset up to the end of the text; it may be missing. -/
def offset? : List Char → Option (Option Int)
  | [] => some none
  | ['Z'] => some (some 0)
  | ['z'] => some (some 0)
  | c :: cs =>
    if c = '+' || c = '-' then do
      let (hours, rest) ← digits? 2 cs
      let (minutes, rest) ← digits? 2 ((oneOf? [':'] rest).getD rest)
      if rest = [] && hours < 24 && minutes < 60 then
        let total : Int := hours * 60 + minutes
        some (some (if c = '-' then -total else total))
      else none
    else none

/-- Reads the microseconds after the seconds; they may be missing, and digits past the sixth do not
count. -/
def micro? (cs : List Char) : Option (Nat × List Char) :=
  match oneOf? ['.', ','] cs with
  | none => some (0, cs)
  | some rest =>
    let ds := rest.takeWhile isAsciiDigit
    if ds = [] then none
    else
      let six := ds.take 6
      some (natOfChars six * powerOfTen (6 - six.length), rest.dropWhile isAsciiDigit)

/-- Reads the time of a day and an offset: hours and minutes, seconds if any, microseconds if
any. -/
def time? (year month day : Nat) (cs : List Char) : Option Stamp := do
  let (hour, rest) ← digits? 2 cs
  let rest ← oneOf? [':'] rest
  let (minute, rest) ← digits? 2 rest
  let (second, micro, rest) ←
    match oneOf? [':'] rest with
    | none => some (0, 0, rest)
    | some rest => do
      let (second, rest) ← digits? 2 rest
      let (micro, rest) ← micro? rest
      some (second, micro, rest)
  let offset ← offset? rest
  if hour < 24 && minute < 60 && second < 60 then
    some { year, month, day, hour, minute, second, micro, offset }
  else none

/-- Reads the ISO form, where the time may be missing and a `t`, an underscore or a space may stand
for the `T`. -/
def iso? (cs : List Char) : Option Stamp := do
  let (year, rest) ← digits? 4 cs
  let rest ← oneOf? ['-'] rest
  let (month, rest) ← digits? 2 rest
  let rest ← oneOf? ['-'] rest
  let (day, rest) ← digits? 2 rest
  if 1 ≤ year && 1 ≤ month && month ≤ 12 && 1 ≤ day && day ≤ daysInMonth year month then
    if rest = [] then
      some { year, month, day, hour := 0, minute := 0, second := 0, micro := 0, offset := none }
    else
      let rest ← oneOf? ['T', 't', '_', ' '] rest
      time? year month day rest
  else none

/-- Reads a count of seconds: digits, with a sign and decimals if any. -/
def count? (cs : List Char) : Option Rat :=
  let (negative, body) := splitSign cs
  let whole := body.takeWhile isAsciiDigit
  let fraction? :=
    match body.dropWhile isAsciiDigit with
    | [] => some []
    | '.' :: ds => if ds.all isAsciiDigit then some ds else none
    | _ => none
  if whole = [] then none
  else fraction?.map fun ds =>
    let q : Rat := (natOfChars (whole ++ ds) : Rat) / (powerOfTen ds.length : Rat)
    if negative then -q else q

/-- Reads a stamp from a text. -/
def ofText? (s : String) : Option Stamp :=
  (iso? s.toList).or ((count? s.toList).bind ofCount?)

example : (ofText? "2024-05-01 12:00").map text = some "2024-05-01T12:00:00" := by decide +kernel

end Stamp

end DeferredSave
