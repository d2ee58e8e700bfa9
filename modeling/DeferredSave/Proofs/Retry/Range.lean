import DeferredSave.Proofs.Number.Digits
import DeferredSave.Proofs.Retry.Run

/-! How long delays that double stay in range.

A power of two is the first number of its exponent, so it is in range as long as there is such an
exponent. With delays that double, a call can be tried again 1024 times. -/

namespace DeferredSave

namespace Number

namespace Binary64

/-- A power of two as a quotient of multiples of another, of which it is the `2 ^ k`-fold. -/
theorem scaled_power (n k : Nat) :
    ∃ b, 0 < b ∧ scaled (powerOfTwo n) 1 ((n : Int) - k) = (powerOfTwo k * b, b) := by
  by_cases hlt : (n : Int) - k < 0
  · refine ⟨1, Nat.one_pos, ?_⟩
    have hk : n + ((n : Int) - k).natAbs = k := by omega
    rw [scaled, if_pos hlt, ← powerOfTwo_add, hk, Nat.mul_one]
  · refine ⟨powerOfTwo (n - k), powerOfTwo_pos _, ?_⟩
    have hn : k + (n - k) = n := by omega
    have hk : ((n : Int) - k).natAbs = n - k := by omega
    rw [scaled, if_neg hlt, ← powerOfTwo_add, hn, hk, Nat.one_mul]

theorem exponentFor_power (n : Nat) : exponentFor (powerOfTwo n) 1 = (n : Int) - 52 := by
  obtain ⟨b, -, hb⟩ := scaled_power n 53
  have hlog : (powerOfTwo n).log2 = n := Nat.log2_two_pow
  have hlow : max (-1074) (((powerOfTwo n).log2 : Int) - (1 : Nat).log2 - 53)
      = (n : Int) - (53 : Nat) := by
    rw [hlog, show Nat.log2 1 = 0 from rfl]
    omega
  simp only [exponentFor, hlow, hb]
  rw [if_neg (Nat.lt_irrefl _)]
  omega

theorem ofRat_power (n : Nat) :
    ofRat (Rat.zpow 2 n) = pack false (powerOfTwo 52) ((n : Int) - 52) := by
  have hpow : Rat.zpow 2 n = (powerOfTwo n : Rat) := by simp [Rat.zpow, powerOfTwo]
  have hsign : decide ((powerOfTwo n : Rat) < 0) = false :=
    decide_eq_false (Rat.not_lt.2 Rat.natCast_nonneg)
  obtain ⟨b, hpos, hb⟩ := scaled_power n 52
  have hround : roundQuotient (powerOfTwo 52 * b) b = powerOfTwo 52 := by
    simp [roundQuotient, hpos]
  rw [hpow, ofRat, Rat.num_natCast, Rat.den_natCast, Int.natAbs_natCast, hsign, ofQuotient,
    if_neg (Nat.ne_of_gt (powerOfTwo_pos n))]
  simp only [exponentFor_power]
  rw [show (n : Int) - 52 = n - (52 : Nat) from rfl, hb]
  simp only [hround]

theorem isFinite_ofRat_power_iff (n : Nat) :
    (ofRat (Rat.zpow 2 n)).isFinite = true ↔ n ≤ 1023 := by
  rw [ofRat_power]
  constructor
  · intro h
    -- the greatest exponent of a mantissa of 53 bits is 971
    have hout {m : Nat} {e : Int} (he : 971 < e) : ¬ Canonical m e := fun hc =>
      absurd hc.2.2.1 (Int.not_le.2 he)
    refine Nat.le_of_not_lt fun hlt => ?_
    rw [pack, dif_neg (hout (by omega)), dif_neg (hout (by omega))] at h
    cases h
  · intro hn
    rw [pack, dif_pos ⟨by decide, by omega, by omega, .inl (by decide)⟩]
    rfl

end Binary64

end Number

/-- Delays that double are in range after each of the first 1024 attempts, and not after the
next. -/
theorem RetryPolicy.inRange_iff_of_doubling {p : RetryPolicy} (h : p.growth = 2) (count : Nat) :
    p.InRange count ↔ count ≤ 1024 := by
  have hattempt (n : Nat) : p.outOfRange? n = none ↔ n ≤ 1023 := by
    simp [outOfRange?, h, Number.Binary64.isFinite_ofRat_power_iff]
  simp only [InRange, hattempt]
  constructor
  · intro hall
    refine Nat.le_of_not_lt fun hlt => ?_
    have := hall 1024 hlt
    omega
  · intro hcount n hn
    omega

end DeferredSave
