import DeferredSave.Number.Binary64

/-! The text of a double-precision number.

The digits are the fewest that read back as the same number, and of those the nearest to it. A
grid of `k` digits holds such a decimal exactly when one of the two grid points next to the number
reads back, so only those two are tried, for one digit, two, and so on; seventeen always do. -/

namespace DeferredSave.Number

/-- The decimal `significand · 10^exponent`. -/
structure Decimal where
  significand : Nat
  exponent : Int
deriving DecidableEq, Repr

/-- The `p` with `10^p ≤ n / d < 10^(p + 1)`, for positive `n` and `d`. -/
def decimalExponent (n d : Nat) : Int :=
  let p : Int := (digits n).length - (digits d).length
  let reached := if p < 0 then d ≤ n * powerOfTen p.natAbs else d * powerOfTen p.natAbs ≤ n
  if reached then p else p - 1

/-- Drops the zeros at the end of the significand. -/
def Decimal.reduce : Decimal → Decimal
  | ⟨m, k⟩ =>
    if h : m ≠ 0 ∧ m % 10 = 0 then Decimal.reduce ⟨m / 10, k + 1⟩ else ⟨m, k⟩
termination_by x => x.significand
decreasing_by omega

/-- The one of the two neighbours of `± n / d` on the grid of multiples of `10^k` that `accepts`
takes; the nearer if it takes both. -/
def nearestAccepted (accepts : Decimal → Bool) (n d : Nat) (k : Int) : Option Decimal :=
  let (a, b) := if k < 0 then (n * powerOfTen k.natAbs, d) else (n, d * powerOfTen k.natAbs)
  let low : Decimal := ⟨a / b, k⟩
  let high : Decimal := ⟨a / b + 1, k⟩
  let twice := 2 * (a % b)
  let lowIsNearer := decide (twice < b) || (twice == b && low.significand % 2 == 0)
  match accepts low, accepts high with
  | true, true => some (if lowIsNearer then low else high)
  | true, false => some low
  | false, true => some high
  | false, false => none

/-- The decimal with the fewest digits, at least `count` and fewer than `count + more`, that
`accepts` takes. -/
def shortestFrom (accepts : Decimal → Bool) (n d : Nat) (p : Int) :
    (more count : Nat) → Option Decimal
  | 0, _ => none
  | more + 1, count =>
    (nearestAccepted accepts n d (p - count + 1)).or
      (shortestFrom accepts n d p more (count + 1))

namespace Binary64

/-- The shortest decimal that reads back as `± m · 2^e`. -/
def shortest (m : Nat) (e : Int) (canonical : Canonical m e) : Decimal :=
  if m = 0 then ⟨0, 0⟩
  else
    let (n, d) := magnitude m e
    let readsBack (x : Decimal) : Bool :=
      decide (ofDecimal false x.significand x.exponent = .finite false m e canonical)
    ((shortestFrom readsBack n d (decimalExponent n d) 17 1).getD ⟨0, 0⟩).reduce

/-! ### Layout -/

/-- How a shortest decimal is laid out: positionally when its leading digit has a place from
`10^least` to `10^greatest`, with an exponent of at least two digits otherwise. -/
structure Layout where
  least : Int
  greatest : Int

/-- Positional from `0.0001` up to sixteen digits before the point. -/
def layout : Layout := ⟨-4, 15⟩

/-- The sign and digits of an exponent. -/
def exponentText (e : Int) : String :=
  (if e < 0 then "e-" else "e+") ++ paddedText 2 e.natAbs

/-- A decimal in the given layout; a positional one always has a point. -/
def Layout.write (l : Layout) (x : Decimal) : String :=
  let ds := (digits x.significand).map digitChar
  let leading : Int := x.exponent + ds.length - 1
  if leading < l.least ∨ l.greatest < leading then
    match ds with
    | [] => ""
    | [d] => String.ofList [d] ++ exponentText leading
    | d :: rest => String.ofList (d :: '.' :: rest) ++ exponentText leading
  else if leading < 0 then
    String.ofList ('0' :: '.' :: (List.replicate (leading.natAbs - 1) '0' ++ ds))
  else if x.exponent < 0 then
    String.ofList (ds.take (leading.natAbs + 1) ++ '.' :: ds.drop (leading.natAbs + 1))
  else
    String.ofList (ds ++ List.replicate x.exponent.natAbs '0' ++ ['.', '0'])

/-- The shortest text of a number, with the given words for the values that are not finite. -/
def textWith (nanWord infiniteWord : String) : Binary64 → String
  | nan => nanWord
  | infinite negative => (if negative then "-" else "") ++ infiniteWord
  | finite negative m e h => (if negative then "-" else "") ++ layout.write (shortest m e h)

/-- The shortest text of a number. -/
def text : Binary64 → String := textWith "nan" "inf"

/-- A number with `places` decimals, rounded from its exact value, a half to the even neighbour. -/
def fixed (places : Nat) : Binary64 → String
  | nan => "nan"
  | infinite negative => if negative then "-inf" else "inf"
  | finite negative m e _ =>
    let (n, d) := magnitude m e
    (if negative then "-" else "") ++ fixedMagnitude places ((n : Rat) / (d : Rat))

end Binary64

end DeferredSave.Number
