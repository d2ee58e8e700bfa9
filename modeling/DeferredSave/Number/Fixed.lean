import DeferredSave.Number.Whole

/-! Exact numbers with a fixed count of decimal places. -/

namespace DeferredSave.Number

/-- The integer nearest to `q`; a half goes to the even neighbour. -/
def roundHalfEven (q : Rat) : Int :=
  let low := q.floor
  let part := q - low
  if part < 1 / 2 then low
  else if 1 / 2 < part then low + 1
  else if low % 2 = 0 then low else low + 1

/-- The integer nearest to `q`; a half goes away from zero. -/
def roundHalfOut (q : Rat) : Int :=
  if q < 0 then -((-q + 1 / 2).floor) else (q + 1 / 2).floor

/-- The magnitude of `q` with `places` decimals. -/
def fixedMagnitude (places : Nat) (q : Rat) : String :=
  let magnitude := if q < 0 then -q else q
  let n := (roundHalfEven (magnitude * powerOfTen places)).natAbs
  let whole := natText (n / powerOfTen places)
  if places = 0 then whole else whole ++ "." ++ paddedText places (n % powerOfTen places)

/-- `q` with `places` decimals, rounded to nearest, a half to the even neighbour. A negative number
keeps its sign when it rounds to zero. -/
def fixedText (places : Nat) (q : Rat) : String :=
  if q < 0 then "-" ++ fixedMagnitude places q else fixedMagnitude places q

example : fixedText 1 (1 / 4) = "0.2" ∧ fixedText 1 (3 / 4) = "0.8" := by
  decide +kernel

end DeferredSave.Number
