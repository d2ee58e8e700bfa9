import DeferredSave.Proofs.Advice.LeadingInt
import DeferredSave.Proofs.Number.Digits

/-!
# Durations are read back

The text of a duration is a list of counts of units with blanks between them. Read as such a list it
gives the duration again, down to the minute if it is a minute or longer and down to the second
otherwise. So two durations look the same only if they cannot be told apart in whole minutes
(`duration_comes_back_iff`). A duration with more than `Number.digitLimit` digits of days has no
text, but none that is read from a value is so long (`durationText_of_not_tooLong`).
-/

namespace DeferredSave

/-! ## Units and counts -/

inductive TimeUnit where
  | day | hour | minute | second
deriving DecidableEq, Repr

namespace TimeUnit

def symbol : TimeUnit → Char
  | day => 'd'
  | hour => 'h'
  | minute => 'm'
  | second => 's'

def seconds : TimeUnit → ℕ
  | day => 86400
  | hour => 3600
  | minute => 60
  | second => 1

/-- The unit with a symbol. -/
def ofSymbol? (c : Char) : Option TimeUnit :=
  [day, hour, minute, second].find? (·.symbol = c)

theorem ofSymbol?_symbol (u : TimeUnit) : ofSymbol? u.symbol = some u := by
  cases u <;> decide

end TimeUnit

/-- So many of a unit. -/
structure UnitCount where
  amount : ℕ
  unit : TimeUnit
deriving DecidableEq, Repr

namespace UnitCount

def seconds (c : UnitCount) : ℕ := c.amount * c.unit.seconds

/-- The time that all counts amount to. -/
def total (counts : List UnitCount) : ℕ := (counts.map seconds).sum

/-- Reads a number in decimal digits and the symbol of a unit right behind it. -/
def read? (cs : List Char) : Option UnitCount :=
  match cs.takeWhile Number.isAsciiDigit, cs.dropWhile Number.isAsciiDigit with
  | d :: ds, [symbol] => (TimeUnit.ofSymbol? symbol).map (⟨Number.natOfChars (d :: ds), ·⟩)
  | _, _ => none

/-- Reads counts with one blank between each and the next. -/
def readAll? (text : String) : Option (List UnitCount) :=
  (text.toList.splitOn ' ').mapM read?

/-! ### Writing -/

def text (c : UnitCount) : String := Number.natText c.amount ++ String.singleton c.unit.symbol

theorem toList_text (c : UnitCount) :
    c.text.toList = Number.digitChars c.amount ++ [c.unit.symbol] := by
  simp [text, Number.natText, Number.digitChars]

theorem read?_text (c : UnitCount) : read? c.text.toList = some c := by
  have hsymbol : ∀ x ∈ [c.unit.symbol].head?, Number.isAsciiDigit x = false := by
    rintro x ⟨⟩
    cases c.unit <;> decide
  have hamount : ∀ x ∈ Number.digitChars c.amount, Number.isAsciiDigit x = true :=
    fun _ => Number.isAsciiDigit_of_mem
  obtain ⟨hdigits, hrest⟩ := Number.span_digits hamount hsymbol
  obtain ⟨d, ds, hcons⟩ := List.exists_cons_of_ne_nil (Number.digitChars_ne_nil c.amount)
  rw [read?, toList_text, hdigits, hrest, hcons]
  simp only [← hcons, Number.natOfChars_digitChars, TimeUnit.ofSymbol?_symbol, Option.map_some]

theorem blank_not_mem_text (c : UnitCount) : ' ' ∉ c.text.toList := by
  rw [toList_text, List.mem_append, List.mem_singleton]
  rintro (hdigit | hsymbol)
  · exact absurd (Number.isAsciiDigit_of_mem hdigit) (by decide)
  · revert hsymbol
    cases c.unit <;> decide

theorem mapM_read?_text (counts : List UnitCount) :
    (counts.map fun c => c.text.toList).mapM read? = some counts := by
  induction counts with
  | nil => rfl
  | cons c counts ih => simp [List.mapM_cons, read?_text, ih]

/-- Counts that are written one after the other are read back. -/
theorem readAll?_intercalate {counts : List UnitCount} (hne : counts ≠ []) :
    readAll? (" ".intercalate (counts.map text)) = some counts := by
  have hclear : ∀ piece ∈ counts.map fun c => c.text.toList, ' ' ∉ piece := by
    intro piece hpiece
    obtain ⟨c, -, rfl⟩ := List.mem_map.1 hpiece
    exact c.blank_not_mem_text
  have hpieces : (" ".intercalate (counts.map text)).toList =
      [' '].intercalate (counts.map fun c => c.text.toList) := by
    rw [String.toList_intercalate, List.map_map]
    rfl
  rw [readAll?, hpieces, List.splitOn_intercalate _ hclear (by simpa using hne), mapM_read?_text]

/-! ## The counts of a duration -/

/-- The count of a unit, unless it is zero. -/
def unlessZero (amount : ℕ) (unit : TimeUnit) : List UnitCount :=
  if 0 < amount then [⟨amount, unit⟩] else []

/-- The days, hours and minutes of a duration. -/
def wholes (n : ℕ) : List UnitCount :=
  unlessZero (n / 86400) .day ++ unlessZero (n % 86400 / 3600) .hour ++
    unlessZero (n % 86400 % 3600 / 60) .minute

/-- The counts in which a duration is written. -/
def ofDuration (n : ℕ) : List UnitCount := if n < 60 then [⟨n, .second⟩] else wholes n

theorem mem_unlessZero {amount : ℕ} {unit : TimeUnit} {c : UnitCount} :
    c ∈ unlessZero amount unit ↔ 0 < amount ∧ c = ⟨amount, unit⟩ := by
  unfold unlessZero
  split <;> simp_all

theorem unit_of_mem {amount : ℕ} {unit : TimeUnit} {c : UnitCount}
    (h : c ∈ unlessZero amount unit) : c.unit = unit := by
  rw [(mem_unlessZero.1 h).2]

theorem total_append (a b : List UnitCount) : total (a ++ b) = total a + total b := by
  simp [total]

theorem total_unlessZero (amount : ℕ) (unit : TimeUnit) :
    total (unlessZero amount unit) = amount * unit.seconds := by
  unfold unlessZero total
  split
  · simp [seconds]
  · rename_i hzero
    simp [Nat.eq_zero_of_not_pos hzero]

theorem total_wholes (n : ℕ) : total (wholes n) = n - n % 60 := by
  simp only [wholes, total_append, total_unlessZero, TimeUnit.seconds]
  omega

theorem wholes_eq_nil_iff {n : ℕ} : wholes n = [] ↔ n < 60 := by
  constructor
  · intro hnil
    have htotal := total_wholes n
    have hzero : total [] = 0 := rfl
    rw [hnil] at htotal
    omega
  · intro hshort
    have hdays : n / 86400 = 0 := by omega
    have hhours : n % 86400 / 3600 = 0 := by omega
    have hminutes : n % 86400 % 3600 / 60 = 0 := by omega
    rw [wholes, hdays, hhours, hminutes]
    rfl

theorem ofDuration_ne_nil (n : ℕ) : ofDuration n ≠ [] := by
  unfold ofDuration
  split
  · exact List.cons_ne_nil _ _
  · exact mt wholes_eq_nil_iff.1 ‹_›

/-- The counts amount to the duration without what it has beyond the last whole minute. -/
theorem total_ofDuration (n : ℕ) :
    total (ofDuration n) = if n < 60 then n else n - n % 60 := by
  unfold ofDuration
  split
  · simp [total, seconds, TimeUnit.seconds]
  · exact total_wholes n

/-- Durations with the same whole minutes have the same counts. -/
theorem wholes_congr {m n : ℕ} (h : m / 60 = n / 60) : wholes m = wholes n := by
  have hdays : m / 86400 = n / 86400 := by omega
  have hhours : m % 86400 / 3600 = n % 86400 / 3600 := by omega
  have hminutes : m % 86400 % 3600 / 60 = n % 86400 % 3600 / 60 := by omega
  rw [wholes, wholes, hdays, hhours, hminutes]

/-- Two durations have the same counts exactly if they cannot be told apart in whole minutes. -/
theorem ofDuration_eq_iff {m n : ℕ} :
    ofDuration m = ofDuration n ↔ m = n ∨ (60 ≤ m ∧ 60 ≤ n ∧ m / 60 = n / 60) := by
  constructor
  · intro hcounts
    have htotals := congrArg total hcounts
    rw [total_ofDuration, total_ofDuration] at htotals
    split at htotals <;> split at htotals <;> omega
  · rintro (rfl | ⟨hm, hn, hminutes⟩)
    · rfl
    · rw [ofDuration, ofDuration, if_neg (Nat.not_lt.2 hm), if_neg (Nat.not_lt.2 hn),
        wholes_congr hminutes]

end UnitCount

/-- What the counts in the text of a duration are. -/
structure SpellsOut (n : ℕ) (counts : List UnitCount) : Prop where
  total : UnitCount.total counts = if n < 60 then n else n - n % 60
  /-- Every unit is smaller than those before it. -/
  ordered : counts.Pairwise fun a b => b.unit.seconds < a.unit.seconds
  positive : ∀ c ∈ counts, c.unit ≠ .second → 0 < c.amount
  hours : ∀ c ∈ counts, c.unit = .hour → c.amount < 24
  minutes : ∀ c ∈ counts, c.unit = .minute → c.amount < 60
  /-- Seconds stand alone, and only in less than a minute. -/
  seconds : ∀ c ∈ counts, c.unit = .second → counts = [c] ∧ n < 60

namespace UnitCount

theorem mem_wholes {n : ℕ} {c : UnitCount} (h : c ∈ wholes n) :
    0 < c.amount ∧ (c.unit = .day ∨ (c.unit = .hour ∧ c.amount < 24) ∨
      (c.unit = .minute ∧ c.amount < 60)) := by
  have hhours : n % 86400 / 3600 < 24 := by omega
  have hminutes : n % 86400 % 3600 / 60 < 60 := by omega
  simp only [wholes, List.mem_append, mem_unlessZero] at h
  obtain (⟨hpos, rfl⟩ | ⟨hpos, rfl⟩) | ⟨hpos, rfl⟩ := h
  · exact ⟨hpos, .inl rfl⟩
  · exact ⟨hpos, .inr (.inl ⟨rfl, hhours⟩)⟩
  · exact ⟨hpos, .inr (.inr ⟨rfl, hminutes⟩)⟩

theorem wholes_ordered (n : ℕ) :
    (wholes n).Pairwise fun a b => b.unit.seconds < a.unit.seconds := by
  have hone (amount : ℕ) (unit : TimeUnit) :
      (unlessZero amount unit).Pairwise fun a b => b.unit.seconds < a.unit.seconds := by
    unfold unlessZero
    split <;> simp
  refine List.pairwise_append.2 ⟨List.pairwise_append.2 ⟨hone .., hone .., ?_⟩, hone .., ?_⟩
  · intro a ha b hb
    rw [unit_of_mem ha, unit_of_mem hb]
    decide
  · intro a ha b hb
    rw [unit_of_mem hb]
    rcases List.mem_append.1 ha with ha | ha <;> rw [unit_of_mem ha] <;> decide

end UnitCount

theorem spellsOut_ofDuration (n : ℕ) : SpellsOut n (UnitCount.ofDuration n) := by
  have htotal := UnitCount.total_ofDuration n
  unfold UnitCount.ofDuration at htotal ⊢
  by_cases hshort : n < 60
  · rw [if_pos hshort] at htotal ⊢
    constructor
    case total => exact htotal
    case ordered => exact List.pairwise_singleton _ _
    case seconds =>
      intro c hc _
      rw [List.mem_singleton.1 hc]
      exact ⟨rfl, hshort⟩
    all_goals
      intro c hc hunit
      rw [List.mem_singleton.1 hc] at hunit
      simp at hunit
  · rw [if_neg hshort] at htotal ⊢
    constructor
    case total => exact htotal
    case ordered => exact UnitCount.wholes_ordered n
    case positive => exact fun c hc _ => (UnitCount.mem_wholes hc).1
    case hours =>
      intro c hc hunit
      simpa [hunit] using (UnitCount.mem_wholes hc).2
    case minutes =>
      intro c hc hunit
      simpa [hunit] using (UnitCount.mem_wholes hc).2
    case seconds =>
      intro c hc hunit
      simpa [hunit] using (UnitCount.mem_wholes hc).2

/-! ## Writing a duration -/

/-- The shortest duration whose days have too many digits to be written. -/
def durationLimit : ℕ := 86400 * Number.powerOfTen Number.digitLimit

theorem durationPart_eq (amount : ℕ) (unit : TimeUnit) :
    durationPart amount (String.singleton unit.symbol) =
      if amount < Number.powerOfTen Number.digitLimit then
        .ok ((UnitCount.unlessZero amount unit).map UnitCount.text)
      else .error .written := by
  unfold durationPart UnitCount.unlessZero
  by_cases hpos : 0 < amount
  · rw [if_pos (Int.natCast_pos.2 hpos), if_pos hpos, Number.writtenInt_natCast]
    split <;> rfl
  · have hshort : amount < Number.powerOfTen Number.digitLimit :=
      Nat.eq_zero_of_not_pos hpos ▸ Number.powerOfTen_pos _
    rw [if_neg (mt Int.natCast_pos.1 hpos), if_neg hpos, if_pos hshort]
    rfl

theorem lt_durationLimit_iff {n : ℕ} :
    n < durationLimit ↔ n / 86400 < Number.powerOfTen Number.digitLimit := by
  rw [durationLimit, Nat.div_lt_iff_lt_mul (by decide), Nat.mul_comm]

/-- The text of a duration is that of its counts. Only the days can be too many to be written. -/
theorem durationText_eq (n : ℕ) :
    durationText n =
      if n < durationLimit then
        .ok (" ".intercalate ((UnitCount.ofDuration n).map UnitCount.text))
      else .error .written := by
  have hshort {amount : ℕ} (h : amount < 100) : amount < Number.powerOfTen Number.digitLimit :=
    Nat.lt_of_lt_of_le h (Number.powerOfTen_mono (m := 2) (by decide))
  have hdays : durationPart ((n : ℤ) / 86400) "d" = _ := durationPart_eq (n / 86400) .day
  have hhours : durationPart ((n : ℤ) % 86400 / 3600) "h" = _ :=
    durationPart_eq (n % 86400 / 3600) .hour
  have hminutes : durationPart ((n : ℤ) % 86400 % 3600 / 60) "m" = _ :=
    durationPart_eq (n % 86400 % 3600 / 60) .minute
  rw [if_pos (hshort (by omega))] at hhours hminutes
  rw [durationText, hdays, hhours, hminutes]
  by_cases hfits : n < durationLimit
  · rw [if_pos hfits, if_pos (lt_durationLimit_iff.1 hfits)]
    simp only [bind, Except.bind, pure, Except.pure]
    rw [← List.map_append, ← List.map_append, ← UnitCount.wholes]
    by_cases hseconds : n < 60
    · -- there is nothing but seconds
      rw [UnitCount.wholes_eq_nil_iff.2 hseconds, UnitCount.ofDuration, if_pos hseconds,
        Number.writtenInt_natCast, if_pos (hshort (by omega)), List.map_singleton,
        String.intercalate_singleton]
      rfl
    · have hparts : ((UnitCount.wholes n).map UnitCount.text).isEmpty = false := by
        simpa using mt UnitCount.wholes_eq_nil_iff.1 hseconds
      rw [hparts, UnitCount.ofDuration, if_neg hseconds]
      rfl
  · rw [if_neg hfits, if_neg (mt lt_durationLimit_iff.2 hfits)]
    rfl

theorem durationText_eq_ok_iff {n : ℕ} {text : String} :
    durationText n = .ok text ↔
      n < durationLimit ∧ " ".intercalate ((UnitCount.ofDuration n).map UnitCount.text) = text := by
  rw [durationText_eq]
  by_cases hfits : n < durationLimit <;> simp [hfits]

theorem durationText_eq_error_iff {n : ℕ} :
    durationText n = .error .written ↔ durationLimit ≤ n := by
  rw [durationText_eq, ← Nat.not_lt]
  by_cases hfits : n < durationLimit <;> simp [hfits]

/-! ## Reading a duration -/

theorem readAll?_of_ok {n : ℕ} {text : String} (h : durationText n = .ok text) :
    UnitCount.readAll? text = some (UnitCount.ofDuration n) := by
  obtain ⟨-, rfl⟩ := durationText_eq_ok_iff.1 h
  exact UnitCount.readAll?_intercalate (UnitCount.ofDuration_ne_nil n)

/-- A duration has a text exactly if its days have no more digits than are ever written, and is
refused otherwise. The text is read as a list of counts that amounts to the duration, without what
it has beyond the last whole minute if there is one. Days come before hours and these before
minutes, none of them is given as zero, and hours and minutes are never given so often as to make
one of the unit before; seconds stand alone and only for less than a minute. So two durations share
a text exactly if they are equal or have the same whole minutes, and are not refused. -/
theorem duration_comes_back_iff (n : ℕ) :
    ((∃ text counts, durationText n = .ok text ∧ UnitCount.readAll? text = some counts ∧
        SpellsOut n counts) ↔ n < durationLimit) ∧
      (durationText n = .error .written ↔ durationLimit ≤ n) ∧
      ∀ m : ℕ, (∃ text, durationText m = .ok text ∧ durationText n = .ok text) ↔
        n < durationLimit ∧ (m = n ∨ (60 ≤ m ∧ 60 ≤ n ∧ m / 60 = n / 60)) := by
  refine ⟨⟨?_, ?_⟩, durationText_eq_error_iff, fun m => ⟨?_, ?_⟩⟩
  · rintro ⟨text, -, htext, -, -⟩
    exact (durationText_eq_ok_iff.1 htext).1
  · intro hfits
    have htext := durationText_eq_ok_iff.2 ⟨hfits, rfl⟩
    exact ⟨_, _, htext, readAll?_of_ok htext, spellsOut_ofDuration n⟩
  · rintro ⟨text, hm, hn⟩
    -- the same counts are read for both durations
    have hcounts := (readAll?_of_ok hm).symm.trans (readAll?_of_ok hn)
    exact ⟨(durationText_eq_ok_iff.1 hn).1, UnitCount.ofDuration_eq_iff.1 (Option.some.inj hcounts)⟩
  · rintro ⟨hn, hsame⟩
    -- the limit is a whole number of minutes, so both are below it
    have hm : m < durationLimit := by
      unfold durationLimit at hn ⊢
      omega
    have hcounts := UnitCount.ofDuration_eq_iff.2 hsame
    exact ⟨_, durationText_eq_ok_iff.2 ⟨hm, congrArg _ (congrArg _ hcounts)⟩,
      durationText_eq_ok_iff.2 ⟨hn, rfl⟩⟩

/-- The days of this duration are a one with as many zeros as there may be digits, and there is no
text that could be read. -/
theorem endless_days_have_no_text :
    let n : ℕ := 86400 * Number.powerOfTen Number.digitLimit
    durationText n = .error .written ∧
      ¬ ∃ text counts, durationText n = .ok text ∧ UnitCount.readAll? text = some counts ∧
        SpellsOut n counts := by
  intro n
  have hrefused : durationText n = .error .written :=
    durationText_eq_error_iff.2 (Nat.le_refl durationLimit)
  refine ⟨hrefused, ?_⟩
  rintro ⟨text, -, htext, -, -⟩
  cases hrefused.symm.trans htext

/-! ## Durations of values -/

theorem Leading.natAbs_number_lt (p : Leading) (h : ∀ c ∈ p.digits, Text.isDigit c = true) :
    p.number.natAbs < Number.powerOfTen p.digits.length := by
  have hworth : ∀ d ∈ (p.digits.map Text.digitWorth).reverse, d < 10 := by
    intro d hd
    obtain ⟨c, hc, rfl⟩ := List.mem_map.1 (List.mem_reverse.1 hd)
    exact Text.digitValue?_lt (Text.digitValue?_eq_some (h c hc))
  have hlt := Nat.ofDigits_lt_base_pow_length (by decide) hworth
  rw [List.length_reverse, List.length_map] at hlt
  have habs : p.number.natAbs = Nat.ofDigits 10 (p.digits.map Text.digitWorth).reverse := by
    unfold number
    cases p.sign <;> simp [Sign.signed]
  rw [habs]
  exact hlt

/-- A duration that is read from a value is never too long to be written. -/
theorem durationText_of_not_tooLong {value : String} {n : ℤ} (hread : ¬ TooLong value)
    (h : frontNumber? value = some n) (hn : 0 ≤ n) : ∃ text, durationText n = .ok text := by
  obtain ⟨p, hp, rfl⟩ := frontNumber?_eq_some_iff.1 h
  have hlength : p.digits.length ≤ Number.digitLimit :=
    Nat.not_lt.1 fun hlong => hread (tooLong_iff.2 ⟨p, hp, hlong⟩)
  have hfits : p.number.natAbs < durationLimit :=
    calc p.number.natAbs < Number.powerOfTen p.digits.length := p.natAbs_number_lt hp.digit
      _ ≤ Number.powerOfTen Number.digitLimit := Number.powerOfTen_mono hlength
      _ ≤ durationLimit := Nat.le_mul_of_pos_left _ (by decide)
  rw [← Int.natAbs_of_nonneg hn]
  exact ⟨_, durationText_eq_ok_iff.2 ⟨hfits, rfl⟩⟩

end DeferredSave
