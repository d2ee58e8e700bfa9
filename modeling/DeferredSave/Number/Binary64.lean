import DeferredSave.Number.Fixed

/-! Double-precision numbers as exact values.

A finite number is `± m · 2^e` with `m` and `e` in normal form, so two finite numbers are equal
exactly when they have the same sign, mantissa and exponent. Every conversion goes through
`ofQuotient`, which rounds an exact quotient to the nearest number, a tie to the even mantissa. -/

namespace DeferredSave.Number

/-- The normal form of a mantissa and an exponent: 53 bits, the first of them set unless the
exponent is the least one. -/
def Canonical (m : Nat) (e : Int) : Prop :=
  m < powerOfTwo 53 ∧ -1074 ≤ e ∧ e ≤ 971 ∧ (powerOfTwo 52 ≤ m ∨ e = -1074)

instance (m : Nat) (e : Int) : Decidable (Canonical m e) :=
  inferInstanceAs (Decidable (_ ∧ _ ∧ _ ∧ _))

/-- A double-precision number. -/
inductive Binary64 where
  | nan
  | infinite (negative : Bool)
  | finite (negative : Bool) (mantissa : Nat) (exponent : Int)
      (canonical : Canonical mantissa exponent)
deriving DecidableEq, Repr

namespace Binary64

/-! ### Rounding -/

/-- The natural number nearest to `n / d`; a tie goes to the even one. -/
def roundQuotient (n d : Nat) : Nat :=
  let low := n / d
  let twice := 2 * (n % d)
  if twice < d then low
  else if d < twice then low + 1
  else if low % 2 = 0 then low else low + 1

/-- Zero, with a sign. -/
def zero (negative : Bool) : Binary64 := .finite negative 0 (-1074) (by decide)

/-- The number `± m · 2^e` for a rounded mantissa: one that has grown by a bit is halved, and one
that is too large for the greatest exponent is infinite. -/
def pack (negative : Bool) (m : Nat) (e : Int) : Binary64 :=
  if h : Canonical m e then .finite negative m e h
  else if h : Canonical (m / 2) (e + 1) then .finite negative (m / 2) (e + 1) h
  else .infinite negative

/-- `n / d` as a quotient of multiples of `2^e`. -/
def scaled (n d : Nat) (e : Int) : Nat × Nat :=
  if e < 0 then (n * powerOfTwo e.natAbs, d) else (n, d * powerOfTwo e.natAbs)

/-- The exponent under which `n / d` has 53 bits, or the least exponent. -/
def exponentFor (n d : Nat) : Int :=
  let low := max (-1074) ((n.log2 : Int) - d.log2 - 53)
  let (a, b) := scaled n d low
  if a < powerOfTwo 53 * b then low else low + 1

/-- The number nearest to `± n / d`. -/
def ofQuotient (negative : Bool) (n d : Nat) : Binary64 :=
  if n = 0 then zero negative
  else
    let e := exponentFor n d
    let (a, b) := scaled n d e
    pack negative (roundQuotient a b) e

/-- The number nearest to a rational number. -/
def ofRat (q : Rat) : Binary64 := ofQuotient (decide (q < 0)) q.num.natAbs q.den

/-- The number nearest to an integer. -/
def ofInt (n : Int) : Binary64 := ofQuotient (decide (n < 0)) n.natAbs 1

/-- The number nearest to `± m · 10^k`. A magnitude of at least `10^310` is infinite and one below
`10^-330` is zero, so the power of ten that is computed is never large. -/
def ofDecimal (negative : Bool) (m : Nat) (k : Int) : Binary64 :=
  if m = 0 then zero negative
  else
    let leading := k + (digits m).length
    if 310 < leading then .infinite negative
    else if leading < -330 then zero negative
    else if k < 0 then ofQuotient negative m (powerOfTen k.natAbs)
    else ofQuotient negative (m * powerOfTen k.natAbs) 1

/-! ### Value and order -/

def isFinite : Binary64 → Bool
  | finite .. => true
  | _ => false

/-- The magnitude `m · 2^e` as a quotient. -/
def magnitude (m : Nat) (e : Int) : Nat × Nat :=
  if e < 0 then (m, powerOfTwo e.natAbs) else (m * powerOfTwo e.natAbs, 1)

/-- The exact value of a finite number. -/
def toRat? : Binary64 → Option Rat
  | finite negative m e _ =>
    let (n, d) := magnitude m e
    let q : Rat := (n : Rat) / (d : Rat)
    some (if negative then -q else q)
  | _ => none

/-- Whether `q` is greater than the number. NaN is not comparable. -/
def isBelow (x : Binary64) (q : Rat) : Bool :=
  match x with
  | nan => false
  | infinite negative => negative
  | finite .. => x.toRat?.any (· < q)

/-- Whether `q` is less than the number. NaN is not comparable. -/
def isAbove (x : Binary64) (q : Rat) : Bool :=
  match x with
  | nan => false
  | infinite negative => !negative
  | finite .. => x.toRat?.any (q < ·)

end Binary64

end DeferredSave.Number
