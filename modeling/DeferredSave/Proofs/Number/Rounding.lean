import DeferredSave.Number.Binary64
import DeferredSave.Proofs.Number.Digits
import Mathlib.Algebra.Order.Field.Power
import Mathlib.Algebra.Order.Ring.Rat
import Mathlib.Tactic.FieldSimp
import Mathlib.Tactic.Linarith
import Mathlib.Tactic.NormNum
import Mathlib.Tactic.Positivity
import Mathlib.Tactic.Ring

/-! Rounding to the nearest double.

The exponent of a quotient is told by its value, so equal quotients are rounded alike. A quotient is
rounded to a double as soon as it is closer to it than half the distance to its neighbours, of which
the lower one is at half the distance if the mantissa is a power of two. -/

namespace DeferredSave.Number

@[simp] theorem cast_powerOfTwo (n : Nat) : (powerOfTwo n : ℚ) = 2 ^ n := by
  simp [powerOfTwo]

@[simp] theorem cast_powerOfTen (n : Nat) : (powerOfTen n : ℚ) = 10 ^ n := by
  simp [powerOfTen]

namespace Binary64

/-! ### Quotients -/

theorem scaled_snd_pos (n : Nat) {d : Nat} (hd : 0 < d) (e : Int) : 0 < (scaled n d e).2 := by
  unfold scaled
  split
  · exact hd
  · exact Nat.mul_pos hd (powerOfTwo_pos _)

theorem scaled_mul (n d c : Nat) (e : Int) :
    scaled (n * c) (d * c) e = ((scaled n d e).1 * c, (scaled n d e).2 * c) := by
  unfold scaled
  split <;> simp only [Nat.mul_right_comm]

/-- What is scaled is the quotient in units of `2 ^ e`. -/
theorem scaled_div (n d : Nat) (e : Int) :
    ((scaled n d e).1 : ℚ) / (scaled n d e).2 = n / d / 2 ^ e := by
  obtain ⟨k, rfl | rfl⟩ := e.eq_nat_or_neg
  · rw [scaled, if_neg (by omega)]
    simp [div_div]
  · by_cases hk : k = 0
    · subst hk
      simp [scaled, powerOfTwo]
    · rw [scaled, if_pos (by omega)]
      simp [div_eq_mul_inv, mul_right_comm]

theorem roundQuotient_mul {n d c : Nat} (hc : 0 < c) :
    roundQuotient (n * c) (d * c) = roundQuotient n d := by
  have hlt (a b : Nat) : a * c < b * c ↔ a < b := Nat.mul_lt_mul_right hc
  simp only [roundQuotient, Nat.mul_div_mul_right n d hc, Nat.mul_mod_mul_right, ← Nat.mul_assoc,
    hlt]

/-- A quotient closer to a number than a half is rounded to it. -/
theorem roundQuotient_of_near {a b k : Nat} (hb : 0 < b) (h : |(a : ℚ) / b - k| < 1 / 2) :
    roundQuotient a b = k := by
  have hb' : (0 : ℚ) < b := by exact_mod_cast hb
  obtain ⟨hlow, hhigh⟩ := abs_lt.1 h
  have hbelow : 2 * (k * b) < 2 * a + b := by
    have : (k - 1 / 2) * b < (a : ℚ) := (lt_div_iff₀ hb').1 (by linarith)
    have : (2 * (k * b) : ℚ) < 2 * a + b := by linarith
    exact_mod_cast this
  have habove : 2 * a < 2 * (k * b) + b := by
    have : (a : ℚ) < (k + 1 / 2) * b := (div_lt_iff₀ hb').1 (by linarith)
    have : (2 * a : ℚ) < 2 * (k * b) + b := by linarith
    exact_mod_cast this
  have hdiv := Nat.div_add_mod' a b
  have hmod := Nat.mod_lt a hb
  have hle : a / b ≤ k := by
    refine Nat.le_of_not_lt fun hlt => ?_
    have := Nat.mul_le_mul_right b (Nat.succ_le_of_lt hlt)
    rw [Nat.succ_mul] at this
    omega
  have hge : k ≤ a / b + 1 := by
    refine Nat.le_of_not_lt fun hlt => ?_
    have := Nat.mul_le_mul_right b (Nat.succ_le_of_lt hlt)
    rw [Nat.succ_mul, Nat.succ_mul] at this
    omega
  -- the quotient is cut off to `k`, or to the number before it
  rcases Nat.lt_or_eq_of_le hle with hlt | heq
  · obtain rfl : k = a / b + 1 := by omega
    rw [Nat.add_one_mul (a / b) b] at hbelow habove
    simp only [roundQuotient]
    rw [if_neg (by omega), if_pos (by omega)]
  · subst heq
    simp only [roundQuotient]
    rw [if_pos (by omega)]

/-- In units of `2 ^ e`, what is closer to `k` of them than half a unit is rounded to `k`. -/
theorem roundQuotient_scaled {n d k : Nat} (hd : 0 < d) {e : Int}
    (h : |(n : ℚ) / d - k * 2 ^ e| < 2 ^ e / 2) :
    roundQuotient (scaled n d e).1 (scaled n d e).2 = k := by
  have hpos : (0 : ℚ) < 2 ^ e := by positivity
  refine roundQuotient_of_near (scaled_snd_pos n hd e) ?_
  rw [scaled_div, show (n : ℚ) / d / 2 ^ e - k = (n / d - k * 2 ^ e) / 2 ^ e by field_simp, abs_div,
    abs_of_pos hpos, div_lt_iff₀ hpos]
  linarith

/-! ### Exponents -/

/-- The exponent under which a positive number has 53 bits, or the least exponent if it has fewer
under it. -/
structure HasExponent (q : ℚ) (e : Int) : Prop where
  least : -1074 ≤ e
  above : q < 2 ^ (53 + e)
  below : e = -1074 ∨ 2 ^ (52 + e) ≤ q

theorem HasExponent.unique {q : ℚ} {e f : Int} (he : HasExponent q e) (hf : HasExponent q f) :
    e = f := by
  have hle {e f : Int} (he : HasExponent q e) (hf : HasExponent q f) : e ≤ f := by
    rcases he.below with hleast | hbelow
    · exact hleast ▸ hf.least
    · have := (zpow_lt_zpow_iff_right₀ (one_lt_two (α := ℚ))).1 (hbelow.trans_lt hf.above)
      omega
  exact Int.le_antisymm (hle he hf) (hle hf he)

theorem log2_bounds {n : Nat} (hn : 0 < n) :
    (2 : ℚ) ^ n.log2 ≤ n ∧ (n : ℚ) < 2 ^ (n.log2 + 1) := by
  refine ⟨?_, ?_⟩
  · exact_mod_cast Nat.log2_self_le (Nat.ne_of_gt hn)
  · exact_mod_cast Nat.lt_log2_self

/-- The counts of bits tell a quotient up to a factor of four. -/
theorem quotient_bounds {n d : Nat} (hn : 0 < n) (hd : 0 < d) :
    (2 : ℚ) ^ ((n.log2 : Int) - d.log2 - 1) < n / d ∧
      (n : ℚ) / d < 2 ^ ((n.log2 : Int) - d.log2 + 1) := by
  have hd' : (0 : ℚ) < d := by exact_mod_cast hd
  obtain ⟨hn₁, hn₂⟩ := log2_bounds hn
  obtain ⟨hd₁, hd₂⟩ := log2_bounds hd
  constructor
  · rw [lt_div_iff₀ hd']
    calc (2 : ℚ) ^ ((n.log2 : Int) - d.log2 - 1) * d
        < 2 ^ ((n.log2 : Int) - d.log2 - 1) * 2 ^ (d.log2 + 1) := by gcongr
      _ = 2 ^ n.log2 := by
        rw [← zpow_natCast, ← zpow_natCast, ← zpow_add₀ two_ne_zero]
        congr 1
        push_cast
        ring
      _ ≤ n := hn₁
  · rw [div_lt_iff₀ hd']
    calc (n : ℚ) < 2 ^ (n.log2 + 1) := hn₂
      _ = 2 ^ ((n.log2 : Int) - d.log2 + 1) * 2 ^ d.log2 := by
        rw [← zpow_natCast, ← zpow_natCast, ← zpow_add₀ two_ne_zero]
        congr 1
        push_cast
        ring
      _ ≤ 2 ^ ((n.log2 : Int) - d.log2 + 1) * d := by gcongr

theorem hasExponent_exponentFor {n d : Nat} (hn : 0 < n) (hd : 0 < d) :
    HasExponent (n / d) (exponentFor n d) := by
  obtain ⟨hlow, hhigh⟩ := quotient_bounds hn hd
  have hmono {i j : Int} (h : i ≤ j) : (2 : ℚ) ^ i ≤ 2 ^ j :=
    zpow_le_zpow_right₀ one_le_two h
  generalize hlog : (n.log2 : Int) - d.log2 = t at hlow hhigh
  have hlt (e : Int) : (scaled n d e).1 < powerOfTwo 53 * (scaled n d e).2
      ↔ (n : ℚ) / d < 2 ^ (53 + e) := by
    have hpos : (0 : ℚ) < (scaled n d e).2 := by exact_mod_cast scaled_snd_pos n hd e
    have hcast : (scaled n d e).1 < powerOfTwo 53 * (scaled n d e).2
        ↔ ((scaled n d e).1 : ℚ) < 2 ^ 53 * (scaled n d e).2 := by
      rw [← cast_powerOfTwo, ← Nat.cast_mul, Nat.cast_lt]
    rw [hcast, ← div_lt_iff₀ hpos, scaled_div, div_lt_iff₀ (by positivity),
      zpow_add₀ two_ne_zero]
    norm_num
  simp only [exponentFor, hlog, hlt]
  split
  · next h =>
    refine ⟨le_max_left _ _, h, ?_⟩
    rcases le_total (t - 53) (-1074) with hle | hle
    · exact .inl (max_eq_left hle)
    · rw [max_eq_right hle]
      exact .inr ((hmono (by omega)).trans hlow.le)
  · next h =>
    refine ⟨by omega, hhigh.trans_le (hmono (by omega)), .inr ?_⟩
    rw [show 52 + (max (-1074) (t - 53) + 1) = 53 + max (-1074) (t - 53) by ring]
    exact not_lt.1 h

/-! ### Doubles -/

theorem ofQuotient_mul (negative : Bool) {n d c : Nat} (hd : 0 < d) (hc : 0 < c) :
    ofQuotient negative (n * c) (d * c) = ofQuotient negative n d := by
  by_cases hn : n = 0
  · simp [ofQuotient, hn]
  have hn' := Nat.pos_of_ne_zero hn
  have hc' : (c : ℚ) ≠ 0 := by exact_mod_cast Nat.ne_of_gt hc
  have hexponent : exponentFor (n * c) (d * c) = exponentFor n d := by
    have hmul := hasExponent_exponentFor (Nat.mul_pos hn' hc) (Nat.mul_pos hd hc)
    rw [Nat.cast_mul, Nat.cast_mul, mul_div_mul_right _ _ hc'] at hmul
    exact hmul.unique (hasExponent_exponentFor hn' hd)
  have hne : n * c ≠ 0 := Nat.mul_ne_zero hn (Nat.ne_of_gt hc)
  simp only [ofQuotient, if_neg hn, if_neg hne, hexponent, scaled_mul, roundQuotient_mul hc]

/-- Closer to the double `m · 2 ^ e` than half the distance to its neighbours. -/
structure Near (m : Nat) (e : Int) (q : ℚ) : Prop where
  close : |q - m * 2 ^ e| < 2 ^ e / 2
  /-- Below a power of two the doubles are twice as close to each other. -/
  closer : m = powerOfTwo 52 → m * 2 ^ e - q < 2 ^ e / 4

/-- What is near to a double has its exponent, except for what is just below a power of two. -/
theorem Near.exponent {m : Nat} {e f : Int} {q : ℚ} (hnear : Near m e q) (h : Canonical m e)
    (hf : HasExponent q f) : f = e ∨ m = powerOfTwo 52 ∧ f = e - 1 ∧ q < 2 ^ (52 + e) := by
  have hpos : (0 : ℚ) < 2 ^ e := by positivity
  obtain ⟨hlow, hhigh⟩ := abs_lt.1 hnear.close
  have hm : (m : ℚ) + 1 ≤ 2 ^ 53 := by rw [← cast_powerOfTwo]; exact_mod_cast h.1
  have habove : q < 2 ^ (53 + e) := by
    rw [zpow_add₀ two_ne_zero]
    calc q < (m + 1 / 2) * 2 ^ e := by linarith
      _ < 2 ^ (53 : Int) * 2 ^ e := by
        gcongr
        exact_mod_cast (by linarith : (m : ℚ) + 1 / 2 < 2 ^ 53)
  by_cases hbelow : e = -1074 ∨ 2 ^ (52 + e) ≤ q
  · exact .inl (hf.unique ⟨h.2.1, habove, hbelow⟩)
  · obtain ⟨hleast, hlt⟩ := not_or.1 hbelow
    have hlt := not_le.1 hlt
    have hge := h.2.2.2.resolve_right hleast
    have hle : m ≤ powerOfTwo 52 := by
      rw [zpow_add₀ two_ne_zero] at hlt
      have hscaled : ((m : ℚ) - 1 / 2) * 2 ^ e < 2 ^ 52 * 2 ^ e := lt_trans (by linarith) hlt
      have hhalf := lt_of_mul_lt_mul_right hscaled hpos.le
      have hcast : (m : ℚ) < powerOfTwo 52 + 1 := by rw [cast_powerOfTwo]; linarith
      exact Nat.lt_succ_iff.1 (by exact_mod_cast hcast)
    have hm : m = powerOfTwo 52 := Nat.le_antisymm hle hge
    refine .inr ⟨hm, hf.unique ⟨by have := h.2.1; omega, ?_, .inr ?_⟩, hlt⟩
    · rwa [show 53 + (e - 1) = 52 + e by ring]
    · rw [show 52 + (e - 1) = 51 + e by ring, zpow_add₀ two_ne_zero]
      rw [hm, cast_powerOfTwo] at hlow
      calc (2 : ℚ) ^ (51 : Int) * 2 ^ e ≤ (2 ^ 52 - 1 / 2) * 2 ^ e := by gcongr; norm_num
        _ ≤ q := by linarith

/-- A mantissa that has grown by a bit is halved. -/
theorem pack_doubled {e : Int} (h : Canonical (powerOfTwo 52) (e + 1)) (negative : Bool) :
    pack negative (powerOfTwo 53) e = .finite negative (powerOfTwo 52) (e + 1) h := by
  have hhalf : powerOfTwo 53 / 2 = powerOfTwo 52 := by decide +kernel
  have hout : ¬ Canonical (powerOfTwo 53) e := fun hc => Nat.lt_irrefl _ hc.1
  rw [pack, dif_neg hout]
  simp only [hhalf, dif_pos h]

theorem ofQuotient_of_near {m : Nat} {e : Int} (h : Canonical m e) {n d : Nat} (hn : 0 < n)
    (hd : 0 < d) (hnear : Near m e (n / d)) (negative : Bool) :
    ofQuotient negative n d = .finite negative m e h := by
  simp only [ofQuotient, if_neg (Nat.ne_of_gt hn)]
  rcases hnear.exponent h (hasExponent_exponentFor hn hd) with he | ⟨rfl, he, hlt⟩
  · rw [he, roundQuotient_scaled hd hnear.close, pack, dif_pos h]
  · -- the mantissa is rounded up to the next power of two
    obtain ⟨f, rfl⟩ : ∃ f, e = f + 1 := ⟨e - 1, by ring⟩
    have he : exponentFor n d = f := by rw [he]; ring
    have hcloser := hnear.closer rfl
    have hpos : (0 : ℚ) < 2 ^ f := by positivity
    have hmantissa : |(n : ℚ) / d - powerOfTwo 53 * 2 ^ f| < 2 ^ f / 2 := by
      rw [zpow_add₀ two_ne_zero, zpow_add_one₀ two_ne_zero] at hlt
      rw [zpow_add_one₀ two_ne_zero, cast_powerOfTwo] at hcloser
      rw [cast_powerOfTwo, abs_lt]
      norm_num at hlt hcloser ⊢
      exact ⟨by linarith, by linarith⟩
    rw [he, roundQuotient_scaled hd hmantissa, pack_doubled]

/-! ### Signs -/

/-- The number with another sign; NaN has none. -/
def withSign (negative : Bool) : Binary64 → Binary64
  | nan => nan
  | infinite _ => .infinite negative
  | finite _ m e h => .finite negative m e h

theorem pack_withSign (negative : Bool) (m : Nat) (e : Int) :
    pack negative m e = (pack false m e).withSign negative := by
  unfold pack
  split
  · rfl
  · split <;> rfl

theorem ofQuotient_withSign (negative : Bool) (n d : Nat) :
    ofQuotient negative n d = (ofQuotient false n d).withSign negative := by
  unfold ofQuotient
  split
  · rfl
  · exact pack_withSign _ _ _

theorem ofDecimal_withSign (negative : Bool) (m : Nat) (k : Int) :
    ofDecimal negative m k = (ofDecimal false m k).withSign negative := by
  simp only [ofDecimal]
  split
  · rfl
  split
  · rfl
  split
  · rfl
  split <;> exact ofQuotient_withSign _ _ _

/-! ### Decimals -/

theorem length_digits_mul_ten {m : Nat} (hm : 0 < m) :
    (digits (m * 10)).length = (digits m).length + 1 := by
  rw [digits_of_le (by omega), Nat.mul_div_cancel m (by decide), List.length_append,
    List.length_singleton]

/-- A zero at the end of the significand may go into the power of ten. -/
theorem ofDecimal_mul_ten (negative : Bool) (m : Nat) (k : Int) :
    ofDecimal negative (m * 10) k = ofDecimal negative m (k + 1) := by
  rcases Nat.eq_zero_or_pos m with rfl | hm
  · simp [ofDecimal]
  have hleading : k + ((digits (m * 10)).length : Nat) = k + 1 + ((digits m).length : Nat) := by
    rw [length_digits_mul_ten hm]
    push_cast
    ring
  have hquotient : (if k < 0 then ofQuotient negative (m * 10) (powerOfTen k.natAbs)
        else ofQuotient negative (m * 10 * powerOfTen k.natAbs) 1)
      = if k + 1 < 0 then ofQuotient negative m (powerOfTen (k + 1).natAbs)
        else ofQuotient negative (m * powerOfTen (k + 1).natAbs) 1 := by
    rcases lt_trichotomy (k + 1) 0 with hk | hk | hk
    · rw [if_pos (by omega), if_pos hk, show k.natAbs = (k + 1).natAbs + 1 by omega,
        powerOfTen_succ, ofQuotient_mul _ (powerOfTen_pos _) (by decide)]
    · obtain rfl : k = -1 := by omega
      have hmul : ofQuotient negative (m * 10) (1 * 10) = ofQuotient negative m 1 :=
        ofQuotient_mul negative Nat.one_pos (by decide)
      simpa [powerOfTen] using hmul
    · rw [if_neg (by omega), if_neg (by omega), show (k + 1).natAbs = k.natAbs + 1 by omega,
        powerOfTen_succ, Nat.mul_assoc, Nat.mul_comm 10]
  simp only [ofDecimal, if_neg (Nat.ne_of_gt hm), if_neg (show m * 10 ≠ 0 by omega), hleading,
    hquotient]

theorem ofDecimal_mul_powerOfTen (negative : Bool) (m j : Nat) (k : Int) :
    ofDecimal negative (m * powerOfTen j) k = ofDecimal negative m (k + j) := by
  induction j generalizing k with
  | zero => simp [powerOfTen]
  | succ j ih =>
    rw [powerOfTen_succ, ← Nat.mul_assoc, ofDecimal_mul_ten, ih]
    congr 1
    push_cast
    ring

/-- The place of the leading digit bounds a decimal on both sides. -/
theorem decimal_bounds {s : Nat} (hs : 0 < s) (k : Int) :
    (10 : ℚ) ^ (k + ((digits s).length : Nat) - 1) ≤ s * 10 ^ k ∧
      (s : ℚ) * 10 ^ k < 10 ^ (k + ((digits s).length : Nat)) := by
  obtain ⟨j, hj⟩ : ∃ j, (digits s).length = j + 1 :=
    Nat.exists_eq_add_one.2 (List.length_pos_iff.2 (digits_ne_nil s))
  have hlow : (10 : ℚ) ^ j ≤ s := by exact_mod_cast powerOfTen_le hs hj
  have hhigh : (s : ℚ) < 10 ^ (j + 1) := by exact_mod_cast hj ▸ lt_powerOfTen_length s
  have hten : (10 : ℚ) ≠ 0 := by norm_num
  rw [hj]
  constructor
  · calc (10 : ℚ) ^ (k + (j + 1 : Nat) - 1) = 10 ^ j * 10 ^ k := by
          rw [← zpow_natCast, ← zpow_add₀ hten]
          congr 1
          push_cast
          ring
      _ ≤ s * 10 ^ k := by gcongr
  · calc (s : ℚ) * 10 ^ k < 10 ^ (j + 1) * 10 ^ k := by gcongr
      _ = 10 ^ (k + (j + 1 : Nat)) := by
          rw [← zpow_natCast, ← zpow_add₀ hten]
          congr 1
          ring

/-- What is near to a positive double is in the range of the doubles. -/
theorem Near.in_range {m : Nat} {e : Int} {q : ℚ} (hnear : Near m e q) (h : Canonical m e)
    (hm : 0 < m) : 10 ^ (-330 : Int) < q ∧ q < 10 ^ (310 : Int) := by
  have hpos : (0 : ℚ) < 2 ^ e := by positivity
  obtain ⟨hlow, hhigh⟩ := abs_lt.1 hnear.close
  have hm₁ : (1 : ℚ) ≤ m := by exact_mod_cast hm
  have hm₂ : (m : ℚ) + 1 ≤ 2 ^ 53 := by rw [← cast_powerOfTwo]; exact_mod_cast h.1
  constructor
  · have hmagnitude : (2 * powerOfTwo 1074 : ℚ) < powerOfTen 330 := by
      exact_mod_cast show 2 * powerOfTwo 1074 < powerOfTen 330 by decide +kernel
    calc (10 : ℚ) ^ (-330 : Int) = (powerOfTen 330 : ℚ)⁻¹ := by
          rw [cast_powerOfTen, zpow_neg, zpow_ofNat]
      _ < (2 * powerOfTwo 1074 : ℚ)⁻¹ := inv_strictAnti₀
          (mul_pos two_pos (Nat.cast_pos.2 (powerOfTwo_pos _))) hmagnitude
      _ = 1 / 2 * 2 ^ (-1074 : Int) := by
          rw [cast_powerOfTwo, mul_inv, zpow_neg, zpow_ofNat, one_div]
      _ ≤ 1 / 2 * 2 ^ e := by gcongr; exacts [one_le_two, h.2.1]
      _ ≤ (m - 1 / 2) * 2 ^ e := by gcongr; linarith
      _ < q := by linarith
  · have hmagnitude : (powerOfTwo 53 * powerOfTwo 971 : ℚ) < powerOfTen 310 := by
      exact_mod_cast show powerOfTwo 53 * powerOfTwo 971 < powerOfTen 310 by decide +kernel
    calc q < (m + 1 / 2) * 2 ^ e := by linarith
      _ ≤ 2 ^ 53 * 2 ^ e := by gcongr; linarith
      _ ≤ 2 ^ 53 * 2 ^ (971 : Int) := by gcongr; exacts [one_le_two, h.2.2.1]
      _ < 10 ^ (310 : Int) := by
          simpa only [cast_powerOfTwo, cast_powerOfTen, zpow_ofNat] using hmagnitude

/-- A decimal whose value is near to a double is read as it. The decimals that are cut off without
a look at their value are far from all doubles. -/
theorem ofDecimal_of_near {m : Nat} {e : Int} (h : Canonical m e) (hm : 0 < m) {s : Nat}
    (hs : 0 < s) {k : Int} (hnear : Near m e (s * 10 ^ k)) (negative : Bool) :
    ofDecimal negative s k = .finite negative m e h := by
  have hten : (1 : ℚ) < 10 := by norm_num
  obtain ⟨hlow, hhigh⟩ := decimal_bounds hs k
  obtain ⟨hleast, hgreatest⟩ := hnear.in_range h hm
  have h₁ := (zpow_lt_zpow_iff_right₀ hten).1 (hlow.trans_lt hgreatest)
  have h₂ := (zpow_lt_zpow_iff_right₀ hten).1 (hleast.trans hhigh)
  simp only [ofDecimal]
  rw [if_neg (Nat.ne_of_gt hs), if_neg (by omega), if_neg (by omega)]
  split
  · next hk =>
    refine ofQuotient_of_near h hs (powerOfTen_pos _) ?_ negative
    obtain ⟨j, rfl⟩ : ∃ j : Nat, k = -j := ⟨k.natAbs, by omega⟩
    simpa [div_eq_mul_inv] using hnear
  · next hk =>
    refine ofQuotient_of_near h (Nat.mul_pos hs (powerOfTen_pos _)) Nat.one_pos ?_ negative
    obtain ⟨j, rfl⟩ : ∃ j : Nat, k = j := ⟨k.natAbs, by omega⟩
    simpa using hnear

end Binary64

end DeferredSave.Number
