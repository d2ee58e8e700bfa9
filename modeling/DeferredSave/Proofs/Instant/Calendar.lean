import DeferredSave.Proofs.Instant.ReadBack

/-! The readings of the clock are valid stamps.

Every count of days is a day of the calendar. An era of 400 years is cut into centuries, spans of
four years and single years; a year that begins in March has its leap day last, so that day is the
only one past the 365th. -/

namespace DeferredSave

namespace Instant

/-- A day of an era by its century, span of four years and year, where the days of a year count from
zero. Only the last year of a span has a day 365, and the last span of a century has none unless the
century is the last of the era. -/
structure DayOfEra (dayOfEra century span year day : Int) : Prop where
  sum : dayOfEra = 36524 * century + 1461 * span + 365 * year + day
  century_le : 0 ≤ century ∧ century ≤ 3
  span_le : 0 ≤ span ∧ span ≤ 24
  year_le : 0 ≤ year ∧ year ≤ 3
  day_le : 0 ≤ day ∧ day ≤ 365
  leap : day = 365 → year = 3 ∧ (span = 24 → century = 3)

theorem exists_dayOfEra {n : Int} (h₀ : 0 ≤ n) (h₁ : n < 146097) :
    ∃ century span year day, DayOfEra n century span year day := by
  by_cases hlast : n = 146096
  · exact ⟨3, 24, 3, 365, by constructor <;> omega⟩
  · by_cases hleap : n % 36524 % 1461 = 1460
    · exact ⟨n / 36524, n % 36524 / 1461, 3, 365, by constructor <;> omega⟩
    · exact ⟨n / 36524, n % 36524 / 1461, n % 36524 % 1461 / 365, n % 36524 % 1461 % 365,
        by constructor <;> omega⟩

namespace DayOfEra

variable {n century span year day : Int}

theorem yearOfEra (h : DayOfEra n century span year day) :
    (n - n / 1460 + n / 36524 - n / 146096) / 365 = 100 * century + 4 * span + year := by
  obtain ⟨hsum, hcentury, hspan, hyear, hday, hleap⟩ := h
  by_cases hlast : n = 146096
  · omega
  · have hc : n / 36524 = century := by omega
    have he : n / 146096 = 0 := by omega
    -- a span has 1461 days, so the quotient can be one ahead, but not on the first day of a year
    have hs : (n / 1460 = 25 * century + span ∧ day < 365) ∨
        (n / 1460 = 25 * century + span + 1 ∧ 1 ≤ day) := by omega
    omega

theorem dayOfYear (h : DayOfEra n century span year day) :
    n - (365 * (100 * century + 4 * span + year) + (100 * century + 4 * span + year) / 4
      - (100 * century + 4 * span + year) / 100) = day := by
  obtain ⟨hsum, hcentury, hspan, hyear, -, -⟩ := h
  have hfours : (100 * century + 4 * span + year) / 4 = 25 * century + span := by omega
  have hhundreds : (100 * century + 4 * span + year) / 100 = century := by omega
  rw [hfours, hhundreds]
  omega

/-- The year that the last February of a March year belongs to is a leap year if that February has
29 days. -/
theorem isLeap_of_last (h : DayOfEra n century span year 365) (era : Int) :
    isLeap (100 * century + 4 * span + year + era * 400 + 1) = true := by
  obtain ⟨hsum, hcentury, hspan, hyear, hday, hleap⟩ := h
  simp only [isLeap, Bool.and_eq_true, Bool.or_eq_true, beq_iff_eq, bne_iff_ne]
  omega

end DayOfEra

/-- Every count of days is a day of the calendar. -/
theorem Day.ofNumber_mem (n : Int) :
    1 ≤ (Day.ofNumber n).month ∧ (Day.ofNumber n).month ≤ 12 ∧ 1 ≤ (Day.ofNumber n).day ∧
      (Day.ofNumber n).day ≤ daysInMonth (Day.ofNumber n).year (Day.ofNumber n).month := by
  obtain ⟨century, span, year, day, h⟩ := exists_dayOfEra (n := (n + 719468) % 146097)
    (by omega) (by omega)
  have hyear := h.yearOfEra
  have hday := h.dayOfYear
  have hbound := h.day_le
  have hleap : day = 365 →
      isLeap (100 * century + 4 * span + year + (n + 719468) / 146097 * 400 + 1) = true := by
    rintro rfl
    exact h.isLeap_of_last _
  simp only [Day.ofNumber, hyear, hday]
  clear hyear hday
  generalize 100 * century + 4 * span + year + (n + 719468) / 146097 * 400 = y at hleap
  by_cases hlast : (5 * day + 2) / 153 = 11
  · -- the last month of a March year is a February
    by_cases hend : day = 365
    · simp [hlast, daysInMonth, hleap hend]
      omega
    · simp [hlast, daysInMonth]
      split <;> omega
  · have hmonth : (5 * day + 2) / 153 ∈ [0, 1, 2, 3, 4, 5, 6, 7, 8, 9, 10] := by
      simp only [List.mem_cons, List.not_mem_nil, or_false]
      omega
    generalize hm : (5 * day + 2) / 153 = m at hmonth
    simp only [List.mem_cons, List.not_mem_nil, or_false] at hmonth
    rcases hmonth with rfl | rfl | rfl | rfl | rfl | rfl | rfl | rfl | rfl | rfl | rfl <;>
      · simp [daysInMonth]
        omega

end Instant

namespace Stamp

open Number Instant

theorem valid_of_ofMicros? {t : Int} {s : Stamp} (h : ofMicros? t = some s) : s.Valid := by
  unfold ofMicros? at h
  obtain ⟨hm₁, hm₂, hd₁, hd₂⟩ := Day.ofNumber_mem (t / microsPerDay)
  have hrest : (t % microsPerDay).toNat < 86400000000 := by
    simp only [microsPerDay, microsPerSecond]
    omega
  generalize (t % microsPerDay).toNat = rest at h hrest
  generalize Day.ofNumber (t / microsPerDay) = d at h hm₁ hm₂ hd₁ hd₂
  simp only at h
  split at h
  · next hyear =>
    obtain rfl := Option.some.inj h
    have hcast : (d.year.toNat : Int) = d.year := Int.toNat_of_nonneg (by omega)
    constructor
    · simp only; omega
    · exact ⟨hm₁, hm₂⟩
    · simp only [hcast]
      exact ⟨hd₁, hd₂⟩
    all_goals simp only
    · omega
    · omega
    · omega
    · omega
    · simp
  · cases h

theorem valid_epoch : epoch.Valid := by decide

/-- What the clock shows is a valid stamp at any time. -/
theorem valid_atClock (clock : Rat) : (atClock clock).Valid := by
  unfold atClock
  cases h : ofMicros? (roundHalfEven ((1704067200 + clock) * 1000000)) with
  | none => exact valid_epoch
  | some s => exact valid_of_ofMicros? h

end Stamp

end DeferredSave
