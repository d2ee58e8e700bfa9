import DeferredSave.Number.Shortest

/-! Doubles with a given count of digits, in exponent form or in the form that suits their size.

Both round the exact value, a half to the even neighbour. -/

namespace DeferredSave.Number.Binary64

/-- The significand with `places` decimals, as an integer, and the exponent of ten of its leading
digit. Zero has exponent zero. -/
def leadingDigits (places : Nat) (n d : Nat) : Nat × Int :=
  if n = 0 then (0, 0)
  else
    let p := decimalExponent n d
    let shift : Int := places - p
    let q : Rat := ((n : Rat) / (d : Rat)) * Rat.zpow 10 shift
    let m := (roundHalfEven q).natAbs
    if m = powerOfTen (places + 1) then (powerOfTen places, p + 1) else (m, p)

/-- A decimal text without the zeros at its end, and without a point that then stands last. -/
def withoutZeros (s : String) : String :=
  if s.toList.contains '.' then
    let cs := (s.toList.reverse.dropWhile (· = '0'))
    String.ofList ((match cs with
      | '.' :: rest => rest
      | cs => cs).reverse)
  else s

/-- A significand of `places + 1` digits with a point after the first of them. -/
def significandText (places m : Nat) (point : Bool) : String :=
  match (paddedText (places + 1) m).toList with
  | [] => ""
  | [c] => String.ofList (if point then [c, '.'] else [c])
  | c :: rest => String.ofList (c :: '.' :: rest)

/-- The magnitude in exponent form. -/
def exponentialMagnitude (places : Nat) (point : Bool) (n d : Nat) : String :=
  let (m, p) := leadingDigits places n d
  significandText places m point ++ exponentText p

/-- The magnitude with `digits` significant digits: in exponent form if it is below `10^-4` or has
more digits before the point than that. Zeros at the end are left out unless `full`. -/
def generalMagnitude (digits : Nat) (full : Bool) (n d : Nat) : String :=
  let places := digits - 1
  let (m, p) := leadingDigits places n d
  let trim (s : String) : String := if full then s else withoutZeros s
  if p < -4 ∨ (digits : Int) ≤ p then
    trim (significandText places m full) ++ exponentText p
  else
    let s := fixedMagnitude ((places : Int) - p).natAbs ((n : Rat) / (d : Rat))
    trim (if full && !s.toList.contains '.' then s ++ "." else s)

/-- The sign and the magnitude of a number, where `write` lays a finite magnitude out. -/
def signed (write : Nat → Nat → String) : Binary64 → Bool × String
  | nan => (false, "nan")
  | infinite negative => (negative, "inf")
  | finite negative m e _ =>
    let (n, d) := magnitude m e
    (negative, write n d)

end DeferredSave.Number.Binary64
