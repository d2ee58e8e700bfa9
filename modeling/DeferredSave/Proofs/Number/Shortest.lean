import DeferredSave.Number.Shortest
import DeferredSave.Proofs.Number.Rounding

/-! The shortest decimal of a double is read back as it.

Among the decimals of seventeen digits the one that is nearest to a double is near enough, so the
search for a decimal that reads back ends there at the latest. -/

namespace DeferredSave.Number

/-! ### The grid of decimals -/

/-- What is compared to tell whether a quotient reaches a power of ten. -/
theorem zpow_le_of_reached {n d : Nat} {p : Int}
    (h : if p < 0 then d ≤ n * powerOfTen p.natAbs else d * powerOfTen p.natAbs ≤ n) :
    (10 : ℚ) ^ p * d ≤ n := by
  split at h
  · obtain ⟨c, rfl⟩ : ∃ c : Nat, p = -c := ⟨p.natAbs, by omega⟩
    rw [Int.natAbs_neg, Int.natAbs_natCast] at h
    have h : (d : ℚ) ≤ n * 10 ^ c := by rw [← cast_powerOfTen]; exact_mod_cast h
    rwa [zpow_neg, zpow_natCast, inv_mul_le_iff₀ (by positivity), mul_comm]
  · obtain ⟨c, rfl⟩ : ∃ c : Nat, p = c := ⟨p.natAbs, by omega⟩
    rw [Int.natAbs_natCast] at h
    rw [zpow_natCast, mul_comm, ← cast_powerOfTen]
    exact_mod_cast h

/-- The counts of digits tell the place of the leading digit, up to a comparison. -/
theorem zpow_decimalExponent_le {n d : Nat} (hn : 0 < n) (hd : 0 < d) :
    (10 : ℚ) ^ decimalExponent n d ≤ n / d := by
  have hd' : (0 : ℚ) < d := by exact_mod_cast hd
  obtain ⟨hlow, -⟩ := Binary64.decimal_bounds hn 0
  obtain ⟨-, hhigh⟩ := Binary64.decimal_bounds hd 0
  rw [le_div_iff₀ hd', decimalExponent]
  generalize ((digits n).length : Int) = i at hlow ⊢
  generalize ((digits d).length : Int) = j at hhigh ⊢
  by_cases h : if i - j < 0 then d ≤ n * powerOfTen (i - j).natAbs
      else d * powerOfTen (i - j).natAbs ≤ n
  · rw [if_pos h]
    exact zpow_le_of_reached h
  · rw [if_neg h]
    calc (10 : ℚ) ^ (i - j - 1) * d ≤ 10 ^ (i - j - 1) * 10 ^ j := by
          gcongr
          simpa using hhigh.le
      _ = 10 ^ (0 + i - 1) := by
          rw [← zpow_add₀ (by norm_num)]
          congr 1
          ring
      _ ≤ n := by simpa using hlow

/-- What a quotient leaves when it is cut off. -/
theorem div_eq_div_add_mod {a b : Nat} (hb : 0 < b) :
    (a : ℚ) / b = (a / b : Nat) + (a % b : Nat) / b := by
  have hb' : (b : ℚ) ≠ 0 := by exact_mod_cast Nat.ne_of_gt hb
  have hdiv : (a : ℚ) = (a / b : Nat) * b + (a % b : Nat) := by
    exact_mod_cast (Nat.div_add_mod' a b).symm
  rw [div_eq_iff hb', add_mul, div_mul_cancel₀ _ hb']
  exact hdiv

/-- One of the two neighbours on the grid is at most half a step away. -/
theorem neighbour_within_half {a b : Nat} (hb : 0 < b) :
    |(a : ℚ) / b - (a / b : Nat)| ≤ 1 / 2 ∨ |(a : ℚ) / b - (a / b + 1 : Nat)| ≤ 1 / 2 := by
  have hb' : (0 : ℚ) < b := by exact_mod_cast hb
  have hle : (0 : ℚ) ≤ (a % b : Nat) / b := by positivity
  have hlt : ((a % b : Nat) : ℚ) / b < 1 := by
    rw [div_lt_one hb']
    exact_mod_cast Nat.mod_lt a hb
  rw [div_eq_div_add_mod hb, Nat.cast_add_one]
  generalize ((a % b : Nat) : ℚ) / b = part at hle hlt
  rcases le_total part (1 / 2) with h | h
  · exact .inl (abs_le.2 ⟨by linarith, by linarith⟩)
  · exact .inr (abs_le.2 ⟨by linarith, by linarith⟩)

theorem nearestAccepted_accepts {accepts : Decimal → Bool} {n d : Nat} {k : Int} {x : Decimal}
    (h : nearestAccepted accepts n d k = some x) : accepts x = true := by
  rw [nearestAccepted] at h
  generalize (if k < 0 then (n * powerOfTen k.natAbs, d) else (n, d * powerOfTen k.natAbs)) = ab
    at h
  obtain ⟨a, b⟩ := ab
  simp only at h
  split at h
  · next hlow hhigh =>
    obtain rfl := Option.some.inj h
    split
    · exact hlow
    · exact hhigh
  · next hlow _ => exact Option.some.inj h ▸ hlow
  · next _ hhigh => exact Option.some.inj h ▸ hhigh
  · cases h

/-- A grid has a decimal that is taken if everything at most half a step away is taken. -/
theorem isSome_nearestAccepted {accepts : Decimal → Bool} {n d : Nat} (hd : 0 < d) {k : Int}
    (h : ∀ s : Nat, |(n : ℚ) / d - s * 10 ^ k| ≤ 10 ^ k / 2 → accepts ⟨s, k⟩ = true) :
    (nearestAccepted accepts n d k).isSome = true := by
  have hpos : (0 : ℚ) < 10 ^ k := by positivity
  obtain ⟨a, b, hab, hb, hquotient⟩ : ∃ a b : Nat,
      (if k < 0 then (n * powerOfTen k.natAbs, d) else (n, d * powerOfTen k.natAbs)) = (a, b) ∧
        0 < b ∧ (n : ℚ) / d = a / b * 10 ^ k := by
    split
    · obtain ⟨j, rfl⟩ : ∃ j : Nat, k = -j := ⟨k.natAbs, by omega⟩
      refine ⟨_, _, rfl, hd, ?_⟩
      simp
      field_simp
    · obtain ⟨j, rfl⟩ : ∃ j : Nat, k = j := ⟨k.natAbs, by omega⟩
      refine ⟨_, _, rfl, Nat.mul_pos hd (powerOfTen_pos _), ?_⟩
      simp
      field_simp
  have htaken {s : Nat} (hs : |(a : ℚ) / b - s| ≤ 1 / 2) : accepts ⟨s, k⟩ = true := by
    refine h s ?_
    rw [hquotient, ← sub_mul, abs_mul, abs_of_pos hpos]
    calc |(a : ℚ) / b - s| * 10 ^ k ≤ 1 / 2 * 10 ^ k := by gcongr
      _ = 10 ^ k / 2 := by ring
  simp only [nearestAccepted, hab]
  rcases neighbour_within_half (a := a) hb with hlow | hhigh
  · rw [htaken hlow]
    cases accepts ⟨a / b + 1, k⟩ <;> rfl
  · rw [htaken hhigh]
    cases accepts ⟨a / b, k⟩ <;> rfl

theorem shortestFrom_accepts {accepts : Decimal → Bool} {n d : Nat} {p : Int} {more count : Nat}
    {x : Decimal} (h : shortestFrom accepts n d p more count = some x) : accepts x = true := by
  induction more generalizing count with
  | zero => cases h
  | succ more ih =>
    rcases Option.or_eq_some_iff.1 h with h | ⟨-, h⟩
    · exact nearestAccepted_accepts h
    · exact ih h

/-- The search finds a decimal as soon as one of the grids has one. -/
theorem isSome_shortestFrom {accepts : Decimal → Bool} {n d : Nat} {p : Int} {more count j : Nat}
    (hj : j < more)
    (h : (nearestAccepted accepts n d (p - (count + j : Nat) + 1)).isSome = true) :
    (shortestFrom accepts n d p more count).isSome = true := by
  induction more generalizing count j with
  | zero => omega
  | succ more ih =>
    rw [shortestFrom, Option.isSome_or, Bool.or_eq_true]
    cases j with
    | zero => exact .inl h
    | succ j => exact .inr (ih (j := j) (by omega) (by rwa [Nat.succ_add_eq_add_succ]))

namespace Binary64

/-! ### Reading back -/

theorem magnitude_snd_pos (m : Nat) (e : Int) : 0 < (magnitude m e).2 := by
  unfold magnitude
  split
  · exact powerOfTwo_pos _
  · exact Nat.one_pos

theorem magnitude_fst_pos {m : Nat} (hm : 0 < m) (e : Int) : 0 < (magnitude m e).1 := by
  unfold magnitude
  split
  · exact hm
  · exact Nat.mul_pos hm (powerOfTwo_pos _)

theorem magnitude_div (m : Nat) (e : Int) :
    ((magnitude m e).1 : ℚ) / (magnitude m e).2 = m * 2 ^ e := by
  unfold magnitude
  split
  · obtain ⟨j, rfl⟩ : ∃ j : Nat, e = -j := ⟨e.natAbs, by omega⟩
    simp [div_eq_mul_inv]
  · obtain ⟨j, rfl⟩ : ∃ j : Nat, e = j := ⟨e.natAbs, by omega⟩
    simp

/-- The step of the grid of seventeen digits. -/
theorem grid_of_seventeen {m : Nat} (hm : 0 < m) (e : Int) :
    (10 : ℚ) ^ (decimalExponent (magnitude m e).1 (magnitude m e).2 - (1 + 16 : Nat) + 1) * 10 ^ 16
      ≤ m * 2 ^ e := by
  have hle := zpow_decimalExponent_le (magnitude_fst_pos hm e) (magnitude_snd_pos m e)
  rw [magnitude_div] at hle
  refine le_trans (le_of_eq ?_) hle
  rw [← zpow_natCast, ← zpow_add₀ (by norm_num)]
  congr 1
  push_cast
  ring

/-- A decimal at most half a step away on a grid of seventeen digits is near. -/
theorem near_of_grid {m : Nat} {e : Int} (h : Canonical m e) (hm : 0 < m) {k : Int}
    (hk : (10 : ℚ) ^ k * 10 ^ 16 ≤ m * 2 ^ e) {s : Nat}
    (hs : |(m : ℚ) * 2 ^ e - s * 10 ^ k| ≤ 10 ^ k / 2) : 0 < s ∧ Near m e (s * 10 ^ k) := by
  have hpos : (0 : ℚ) < 2 ^ e := by positivity
  have hgrid : (0 : ℚ) < 10 ^ k := by positivity
  have hm' : (0 : ℚ) < m := by exact_mod_cast hm
  have hlt : (m : ℚ) < 2 ^ 53 := by rw [← cast_powerOfTwo]; exact_mod_cast h.1
  have hvalue : (m : ℚ) * 2 ^ e < 2 ^ 53 * 2 ^ e := by gcongr
  refine ⟨Nat.pos_of_ne_zero ?_, ?_, ?_⟩
  · rintro rfl
    rw [Nat.cast_zero, zero_mul, sub_zero, abs_of_pos (by positivity)] at hs
    linarith
  · rw [abs_sub_comm]
    norm_num at hk hvalue
    linarith
  · rintro rfl
    rw [cast_powerOfTwo] at hk hs ⊢
    norm_num at hk hs ⊢
    linarith [(abs_le.1 hs).2]

theorem ofDecimal_reduce (negative : Bool) (x : Decimal) :
    ofDecimal negative x.reduce.significand x.reduce.exponent
      = ofDecimal negative x.significand x.exponent := by
  fun_induction Decimal.reduce x with
  | case1 m k h ih =>
    rw [ih, ← ofDecimal_mul_ten, Nat.div_mul_cancel (Nat.dvd_of_mod_eq_zero h.2)]
  | case2 m k h => rfl

/-- The shortest decimal of a double is read as it. -/
theorem ofDecimal_shortest {m : Nat} {e : Int} (h : Canonical m e) (negative : Bool) :
    ofDecimal negative (shortest m e h).significand (shortest m e h).exponent
      = .finite negative m e h := by
  by_cases hm : m = 0
  · subst hm
    obtain rfl : e = -1074 := h.2.2.2.resolve_left (by decide +kernel)
    rfl
  have hm' := Nat.pos_of_ne_zero hm
  simp only [shortest, if_neg hm]
  -- whatever the search finds reads back, so it has to find something
  generalize hsearch : shortestFrom (fun x =>
    decide (ofDecimal false x.significand x.exponent = .finite false m e h))
    (magnitude m e).1 (magnitude m e).2 (decimalExponent (magnitude m e).1 (magnitude m e).2) 17 1
    = found
  have hsome : found.isSome = true := by
    have hgrid := grid_of_seventeen hm' e
    rw [← hsearch]
    refine isSome_shortestFrom (j := 16) (by decide)
      (isSome_nearestAccepted (magnitude_snd_pos m e) fun s hs => ?_)
    rw [magnitude_div] at hs
    obtain ⟨hpos, hnear⟩ := near_of_grid h hm' hgrid hs
    exact decide_eq_true (ofDecimal_of_near h hm' hpos hnear false)
  obtain ⟨x, rfl⟩ := Option.isSome_iff_exists.1 hsome
  have hx := of_decide_eq_true (shortestFrom_accepts hsearch)
  rw [Option.getD_some, ofDecimal_reduce, ofDecimal_withSign, hx]
  rfl

end Binary64

end DeferredSave.Number
