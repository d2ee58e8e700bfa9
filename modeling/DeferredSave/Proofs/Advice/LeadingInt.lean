import DeferredSave.Advice.Warning
import Mathlib.Data.List.Induction
import Mathlib.Data.List.TakeWhile
import Mathlib.Data.Nat.Digits.Defs

/-!
# The integer at the front of a value

Which integer stands at the front of a value is told by a grammar (`Leading.Cuts`): blanks, a sign
if any, and at least one decimal digit of any script, with no further digit behind the last one.
Reading finds just the integer that the grammar gives, and a threshold warns exactly when that
integer lies outside its bounds (`leading_integer_is_read`).
-/

namespace DeferredSave

/-! ## What reading finds -/

/-- Whether a value begins with a minus, and what stands behind its blanks and its sign. -/
def front (value : String) : Bool × List Char :=
  match value.toList.dropWhile Text.isBlank with
  | '-' :: cs => (true, cs)
  | '+' :: cs => (false, cs)
  | cs => (false, cs)

/-- The digits of the number at the front of a value. -/
def frontDigits (value : String) : List Nat := leadingDigits (front value).2

/-- The number at the front of a value, however long it is. -/
def frontNumber? (value : String) : Option Int :=
  match frontDigits value with
  | [] => none
  | ds => some (if (front value).1 then -(Number.ofDigits ds : Int) else Number.ofDigits ds)

/-- The number at the front of a value is too long to be read. -/
def TooLong (value : String) : Prop := Number.digitLimit < (frontDigits value).length

instance (value : String) : Decidable (TooLong value) := inferInstanceAs (Decidable (_ < _))

/-- How the number of a value is missed. -/
def overlong (value : String) : Number.TooManyDigits := .read (frontDigits value).length

theorem leadingInt?_eq (value : String) :
    leadingInt? value =
      match frontDigits value with
      | [] => .ok none
      | ds => (Number.intOfDigits (front value).1 ds).map some := rfl

theorem leadingInt?_of_tooLong {value : String} (h : TooLong value) :
    leadingInt? value = .error (overlong value) := by
  unfold TooLong at h
  rw [leadingInt?_eq, overlong]
  cases hds : frontDigits value with
  | nil => simp [hds] at h
  | cons d ds =>
    rw [hds] at h
    simp only [Number.intOfDigits, if_pos h]
    rfl

theorem leadingInt?_of_not_tooLong {value : String} (h : ¬ TooLong value) :
    leadingInt? value = .ok (frontNumber? value) := by
  unfold TooLong at h
  rw [leadingInt?_eq, frontNumber?]
  cases hds : frontDigits value with
  | nil => rfl
  | cons d ds =>
    rw [hds] at h
    simp only [Number.intOfDigits, if_neg h]
    rfl

/-- A value without a number is not too long. -/
theorem not_tooLong_of_frontNumber? {value : String} (h : frontNumber? value = none) :
    ¬ TooLong value := by
  unfold frontNumber? at h
  unfold TooLong
  cases hds : frontDigits value with
  | nil => exact Nat.not_lt_zero _
  | cons d ds => simp [hds] at h

/-! ## Characters -/

namespace Text

/-- What a decimal digit counts. -/
def digitWorth (c : Char) : ℕ := (digitValue? c).getD 0

theorem digitValue?_eq_some {c : Char} (h : isDigit c = true) :
    digitValue? c = some (digitWorth c) := by
  obtain ⟨d, hd⟩ := Option.isSome_iff_exists.1 h
  simp [digitWorth, hd]

/-- Digits begin behind the blanks and signs of ASCII and keep clear of the other blanks. -/
theorem digitZeros_clear : ∀ z ∈ digitZeros,
    z = 0x30 ∨ (0x660 ≤ z ∧ z + 9 < 0x1680) ∨ (0x1680 < z ∧ z + 9 < 0x2000) ∨ 0x3000 < z := by
  decide

theorem digit_bounds {c : Char} (h : isDigit c = true) :
    (0x30 ≤ c.toNat ∧ c.toNat ≤ 0x39) ∨ (0x660 ≤ c.toNat ∧ c.toNat < 0x1680) ∨
      (0x1680 < c.toNat ∧ c.toNat < 0x2000) ∨ 0x3000 < c.toNat := by
  rw [isDigit, digitValue?, Option.isSome_map, List.find?_isSome] at h
  obtain ⟨z, hz, hrange⟩ := h
  simp only [Bool.and_eq_true, decide_eq_true_eq] at hrange
  have hclear := digitZeros_clear z hz
  omega

theorem not_isBlank_of_isDigit {c : Char} (h : isDigit c = true) : isBlank c = false := by
  have hbounds := digit_bounds h
  simp only [isBlank, isWhiteSpace, Bool.or_eq_false_iff, Bool.and_eq_false_iff,
    beq_eq_false_iff_ne, decide_eq_false_iff_not]
  omega

theorem ne_sign_of_isDigit {c : Char} (h : isDigit c = true) : c ≠ '-' ∧ c ≠ '+' := by
  have hbounds := digit_bounds h
  constructor <;> rintro rfl <;> revert hbounds <;> decide

end Text

theorem Number.ofDigits_eq (ds : List ℕ) : Number.ofDigits ds = Nat.ofDigits 10 ds.reverse := by
  induction ds using List.reverseRecOn with
  | nil => rfl
  | append_singleton ds d ih =>
    rw [Number.ofDigits_append_singleton, ih, List.reverse_append, List.reverse_singleton,
      List.singleton_append, Nat.ofDigits_cons, Nat.add_comm]

/-! ## The grammar -/

/-- A sign as it may stand in front of digits. -/
inductive Sign where
  | absent | plus | minus
deriving DecidableEq, Repr

def Sign.chars : Sign → List Char
  | absent => []
  | plus => ['+']
  | minus => ['-']

/-- The integer of a sign and a magnitude. -/
def Sign.signed : Sign → ℕ → ℤ
  | minus, n => -n
  | _, n => n

/-- A value in pieces: the integer at its front, what stands before it and what comes after it. -/
structure Leading where
  blanks : List Char
  sign : Sign
  digits : List Char
  rest : List Char
deriving DecidableEq, Repr

namespace Leading

/-- The integer that the sign and the digits denote. A digit counts tenfold for every digit behind
it. -/
def number (p : Leading) : ℤ :=
  p.sign.signed (Nat.ofDigits 10 (p.digits.map Text.digitWorth).reverse)

/-- The pieces make up a value. -/
structure Cuts (p : Leading) (value : String) : Prop where
  whole : value.toList = p.blanks ++ p.sign.chars ++ p.digits ++ p.rest
  blank : ∀ c ∈ p.blanks, Text.isBlank c = true
  digit : ∀ c ∈ p.digits, Text.isDigit c = true
  nonempty : p.digits ≠ []
  /-- No further digit follows. -/
  maximal : ∀ c ∈ p.rest.head?, Text.isDigit c = false

end Leading

/-- The integer stands at the front of the value. -/
def HasLeading (value : String) (n : ℤ) : Prop := ∃ p : Leading, p.Cuts value ∧ p.number = n

/-! ## Reading by the grammar -/

theorem leadingDigits_eq (cs : List Char) :
    leadingDigits cs = (cs.takeWhile Text.isDigit).map Text.digitWorth := by
  induction cs with
  | nil => rfl
  | cons c cs ih =>
    by_cases hc : Text.isDigit c = true
    · rw [leadingDigits, Text.digitValue?_eq_some hc, List.takeWhile_cons_of_pos hc, List.map_cons]
      exact congrArg _ ih
    · have hnone : Text.digitValue? c = none := by simpa [Text.isDigit] using hc
      rw [leadingDigits, hnone, List.takeWhile_cons_of_neg hc, List.map_nil]

namespace Leading

variable {p : Leading} {value : String}

theorem Cuts.takeWhile (h : p.Cuts value) :
    (p.digits ++ p.rest).takeWhile Text.isDigit = p.digits := by
  rw [List.takeWhile_append_of_pos h.digit]
  cases hrest : p.rest with
  | nil => simp
  | cons c cs => simp [h.maximal c (by simp [hrest])]

/-- Behind the blanks stand the sign and the digits, neither of which begins with a blank. -/
theorem Cuts.front (h : p.Cuts value) :
    front value = (decide (p.sign = .minus), p.digits ++ p.rest) := by
  obtain ⟨c, cs, hdigits⟩ := List.exists_cons_of_ne_nil h.nonempty
  have hdigit : Text.isDigit c = true := h.digit c (by simp [hdigits])
  have hblank := Text.not_isBlank_of_isDigit hdigit
  have hsign := Text.ne_sign_of_isDigit hdigit
  have hdrop : value.toList.dropWhile Text.isBlank = p.sign.chars ++ (p.digits ++ p.rest) := by
    rw [h.whole, List.append_assoc, List.append_assoc, List.dropWhile_append_of_pos h.blank]
    cases p.sign with
    | absent => simp [Sign.chars, hdigits, hblank]
    | plus => rfl
    | minus => rfl
  rw [DeferredSave.front, hdrop]
  cases p.sign with
  | absent => simp [Sign.chars, hdigits, hsign]
  | plus => simp [Sign.chars]
  | minus => simp [Sign.chars]

theorem Cuts.frontDigits (h : p.Cuts value) :
    frontDigits value = p.digits.map Text.digitWorth := by
  rw [DeferredSave.frontDigits, h.front, leadingDigits_eq, h.takeWhile]

theorem Cuts.frontNumber (h : p.Cuts value) : frontNumber? value = some p.number := by
  have hne : p.digits.map Text.digitWorth ≠ [] := by simpa using h.nonempty
  rw [frontNumber?, h.frontDigits, h.front, number, ← Number.ofDigits_eq]
  cases hds : p.digits.map Text.digitWorth with
  | nil => exact absurd hds hne
  | cons d ds => cases p.sign <;> simp [Sign.signed]

/-- A value whose front is read has pieces. -/
theorem exists_cuts (h : frontDigits value ≠ []) : ∃ p : Leading, p.Cuts value := by
  have hblank : ∀ c ∈ value.toList.takeWhile Text.isBlank, Text.isBlank c = true :=
    fun _ hc => List.mem_takeWhile_imp hc
  -- the sign is the one that reading finds
  obtain ⟨sign, hsign⟩ : ∃ sign : Sign,
      value.toList.dropWhile Text.isBlank = sign.chars ++ (front value).2 := by
    unfold front
    split
    · exact ⟨.minus, by assumption⟩
    · exact ⟨.plus, by assumption⟩
    · exact ⟨.absent, rfl⟩
  refine ⟨⟨value.toList.takeWhile Text.isBlank, sign,
    (front value).2.takeWhile Text.isDigit, (front value).2.dropWhile Text.isDigit⟩, ?_⟩
  constructor
  case whole =>
    rw [List.append_assoc, List.takeWhile_append_dropWhile, List.append_assoc, ← hsign,
      List.takeWhile_append_dropWhile]
  case blank => exact hblank
  case digit => exact fun _ hc => List.mem_takeWhile_imp hc
  case nonempty =>
    intro hnil
    rw [frontDigits, leadingDigits_eq] at h
    exact h (congrArg _ hnil)
  case maximal =>
    intro c hc
    have hnot := List.head?_dropWhile_not Text.isDigit (front value).2
    rw [Option.mem_def.1 hc] at hnot
    simpa using hnot

/-- A value has no more digits than characters. -/
theorem Cuts.length_le (h : p.Cuts value) : p.digits.length ≤ value.toList.length := by
  rw [h.whole]
  simp only [List.length_append]
  omega

end Leading

theorem frontNumber?_eq_some_iff {value : String} {n : ℤ} :
    frontNumber? value = some n ↔ HasLeading value n := by
  constructor
  · intro h
    have hne : frontDigits value ≠ [] := by
      intro hnil
      simp [frontNumber?, hnil] at h
    obtain ⟨p, hp⟩ := Leading.exists_cuts hne
    exact ⟨p, hp, Option.some.inj (hp.frontNumber.symm.trans h)⟩
  · rintro ⟨p, hp, rfl⟩
    exact hp.frontNumber

theorem tooLong_iff {value : String} :
    TooLong value ↔ ∃ p : Leading, p.Cuts value ∧ Number.digitLimit < p.digits.length := by
  constructor
  · intro h
    have hne : frontDigits value ≠ [] := by
      intro hnil
      simp [TooLong, hnil] at h
    obtain ⟨p, hp⟩ := Leading.exists_cuts hne
    rw [TooLong, hp.frontDigits, List.length_map] at h
    exact ⟨p, hp, h⟩
  · rintro ⟨p, hp, h⟩
    rwa [TooLong, hp.frontDigits, List.length_map]

/-! ## Thresholds -/

namespace Threshold

/-- The bounds that are set are finite. -/
structure IsFinite (t : Threshold) : Prop where
  above : ∀ x ∈ t.above, x.isFinite = true
  below : ∀ x ∈ t.below, x.isFinite = true

/-- An integer is greater than the upper bound or less than the lower one, as far as they are set.
It is compared with the exact values of the bounds. -/
def LeavesOut (t : Threshold) (n : ℤ) : Prop :=
  (∃ x q, t.above = some x ∧ x.toRat? = some q ∧ q < n) ∨
    ∃ x q, t.below = some x ∧ x.toRat? = some q ∧ n < q

end Threshold

namespace Number.Binary64

theorem isBelow_iff {x : Binary64} (h : x.isFinite = true) (n : ℤ) :
    x.isBelow n = true ↔ ∃ q, x.toRat? = some q ∧ q < n := by
  cases x with
  | nan => cases h
  | infinite negative => cases h
  | finite negative m e canonical => simp [isBelow, Option.any_eq_true]

theorem isAbove_iff {x : Binary64} (h : x.isFinite = true) (n : ℤ) :
    x.isAbove n = true ↔ ∃ q, x.toRat? = some q ∧ n < q := by
  cases x with
  | nan => cases h
  | infinite negative => cases h
  | finite negative m e canonical => simp [isAbove, Option.any_eq_true]

end Number.Binary64

theorem Threshold.IsFinite.isCrossedBy_iff {t : Threshold} (h : t.IsFinite) (n : ℤ) :
    t.isCrossedBy n = true ↔ t.LeavesOut n := by
  rw [isCrossedBy, LeavesOut, Bool.or_eq_true, Option.any_eq_true, Option.any_eq_true]
  refine or_congr ?_ ?_
  · constructor
    · rintro ⟨x, hx, hbelow⟩
      obtain ⟨q, hq, hlt⟩ := (Number.Binary64.isBelow_iff (h.above x hx) n).1 hbelow
      exact ⟨x, q, hx, hq, hlt⟩
    · rintro ⟨x, q, hx, hq, hlt⟩
      exact ⟨x, hx, (Number.Binary64.isBelow_iff (h.above x hx) n).2 ⟨q, hq, hlt⟩⟩
  · constructor
    · rintro ⟨x, hx, habove⟩
      obtain ⟨q, hq, hlt⟩ := (Number.Binary64.isAbove_iff (h.below x hx) n).1 habove
      exact ⟨x, q, hx, hq, hlt⟩
    · rintro ⟨x, q, hx, hq, hlt⟩
      exact ⟨x, hx, (Number.Binary64.isAbove_iff (h.below x hx) n).2 ⟨q, hq, hlt⟩⟩

/-- The key has a threshold, and the integer at the front of the value is outside its bounds. -/
def MetaTable.Warns (metas : MetaTable) (key value message : String) : Prop :=
  ∃ t n, (metas.lookup key).bind (·.threshold) = some t ∧ HasLeading value n ∧ t.LeavesOut n ∧
    message = t.message

theorem MetaTable.warning_of_not_tooLong {metas : MetaTable} {key value : String}
    (hshort : ¬ TooLong value)
    (hfinite : ∀ t ∈ (metas.lookup key).bind (·.threshold), t.IsFinite) :
    ∃ warned : Option String, metas.warning key value none = .ok warned ∧
      ∀ message, warned = some message ↔ metas.Warns key value message := by
  unfold MetaTable.warning MetaTable.Warns
  cases hmeta : (metas.lookup key).bind (·.threshold) with
  | none => exact ⟨none, rfl, by simp⟩
  | some t =>
    have hread : (leadingInt? value).map (fun number? =>
          if number?.any t.isCrossedBy then some t.message else none) =
        .ok (if (frontNumber? value).any t.isCrossedBy then some t.message else none) := by
      rw [leadingInt?_of_not_tooLong hshort]
      rfl
    refine ⟨_, hread, fun message => ?_⟩
    have hcrossed : (frontNumber? value).any t.isCrossedBy = true ↔
        ∃ n, HasLeading value n ∧ t.LeavesOut n := by
      rw [Option.any_eq_true]
      simp only [frontNumber?_eq_some_iff, (hfinite t hmeta).isCrossedBy_iff]
    by_cases hany : (frontNumber? value).any t.isCrossedBy = true
    · obtain ⟨n, hn, hout⟩ := hcrossed.1 hany
      rw [if_pos hany, Option.some.injEq]
      constructor
      · rintro rfl
        exact ⟨t, n, rfl, hn, hout, rfl⟩
      · rintro ⟨t', -, ht', -, -, rfl⟩
        rw [Option.some.inj ht']
    · rw [if_neg hany]
      refine iff_of_false nofun ?_
      rintro ⟨t', n, ht', hn, hout, -⟩
      obtain rfl := Option.some.inj ht'
      exact hany (hcrossed.2 ⟨n, hn, hout⟩)

/-- A value whose leading digits are not too many is read as the grammar says: to the integer at its
front, or to none if there is no such integer. A key whose bounds are finite has the message of its
threshold beside it exactly when there is an integer and it is outside the bounds, and no warning
otherwise. -/
theorem leading_integer_is_read (value : String)
    (hshort : ∀ p : Leading, p.Cuts value → p.digits.length ≤ Number.digitLimit) :
    (∀ n, leadingInt? value = .ok (some n) ↔ HasLeading value n) ∧
      (leadingInt? value = .ok none ↔ ∀ n, ¬ HasLeading value n) ∧
      ∀ (metas : MetaTable) (key : String),
        (∀ t ∈ (metas.lookup key).bind (·.threshold), t.IsFinite) →
        (∀ message, metas.warning key value none = .ok (some message) ↔
            metas.Warns key value message) ∧
          (metas.warning key value none = .ok none ↔
            ∀ message, ¬ metas.Warns key value message) := by
  have hread : ¬ TooLong value := by
    rw [tooLong_iff]
    rintro ⟨p, hp, hlong⟩
    exact absurd (hshort p hp) (Nat.not_le.2 hlong)
  rw [leadingInt?_of_not_tooLong hread]
  refine ⟨fun n => ?_, ?_, fun metas key hfinite => ?_⟩
  · rw [← frontNumber?_eq_some_iff, Except.ok.injEq]
  · rw [Except.ok.injEq, Option.eq_none_iff_forall_ne_some]
    exact forall_congr' fun n => not_congr frontNumber?_eq_some_iff
  · obtain ⟨warned, hwarned, hmessage⟩ := MetaTable.warning_of_not_tooLong hread hfinite
    rw [hwarned]
    refine ⟨fun message => ?_, ?_⟩
    · rw [Except.ok.injEq, hmessage]
    · rw [Except.ok.injEq, Option.eq_none_iff_forall_ne_some]
      exact forall_congr' fun message => not_congr (hmessage message)

/-- Arabic and ASCII digits make one number, here below a bound that is no integer. -/
theorem mixed_digits_are_read :
    let value := "\u001C\u2003-٠٣4s 7"
    let bound := Number.Binary64.ofRat (-67 / 2)
    let known : SettingMeta :=
      { key := "level", label := "Level", description := "", inputType := .number, presets := none,
        min := none, max := none, step := none, unit := none, multiline := none,
        placeholder := none, threshold := some ⟨none, some bound, "low"⟩ }
    let metas : MetaTable := [("level", known)]
    (∀ p : Leading, p.Cuts value → p.digits.length ≤ Number.digitLimit) ∧
      (∀ t ∈ (metas.lookup "level").bind (·.threshold), t.IsFinite) ∧
      leadingInt? value = .ok (some (-34)) ∧
      metas.warning "level" value none = .ok (some "low") := by
  intro value bound known metas
  have hshort : ∀ p : Leading, p.Cuts value → p.digits.length ≤ Number.digitLimit :=
    fun p hp => hp.length_le.trans (by decide)
  have hbound : bound.isFinite = true ∧ bound.toRat? = some (-67 / 2) := by decide +kernel
  have hthreshold :
      (metas.lookup "level").bind (·.threshold) = some ⟨none, some bound, "low"⟩ := rfl
  have hfinite : ∀ t ∈ (metas.lookup "level").bind (·.threshold), t.IsFinite := by
    simp only [hthreshold, Option.mem_some, forall_eq']
    exact ⟨by simp, by simpa using hbound.1⟩
  let p : Leading := ⟨['\u001C', '\u2003'], .minus, ['٠', '٣', '4'], ['s', ' ', '7']⟩
  have hcuts : p.Cuts value := by
    constructor
    case whole => decide
    case blank => exact List.all_eq_true.1 (by decide)
    case digit => exact List.all_eq_true.1 (by decide)
    case nonempty => exact List.cons_ne_nil _ _
    case maximal =>
      rintro c ⟨⟩
      decide
  have hnumber : HasLeading value (-34) := ⟨p, hcuts, by decide⟩
  obtain ⟨hread, -, hwarning⟩ := leading_integer_is_read value hshort
  have hout : Threshold.LeavesOut ⟨none, some bound, "low"⟩ (-34) :=
    .inr ⟨bound, -67 / 2, rfl, hbound.2, by norm_num⟩
  have hwarns : metas.Warns "level" value "low" := ⟨_, -34, hthreshold, hnumber, hout, rfl⟩
  exact ⟨hshort, hfinite, (hread _).2 hnumber, ((hwarning metas "level" hfinite).1 _).2 hwarns⟩

end DeferredSave
