import DeferredSave.Instant.Stamp
import DeferredSave.Proofs.Number.Digits

/-! Stamps come back from their ISO form.

The form writes every part in a fixed number of digits, and the reader counts them, so a stamp whose
parts are those of a clock comes back with its microseconds and its offset. -/

namespace DeferredSave

namespace Stamp

open Number Instant

theorem digits?_paddedText {width n : Nat} (hw : 0 < width) (h : n < powerOfTen width)
    (rest : List Char) : digits? width ((paddedText width n).toList ++ rest) = some (n, rest) := by
  obtain ⟨hlength, hdigits, hvalue⟩ := toList_paddedText hw h
  have htake : ((paddedText width n).toList ++ rest).take width = (paddedText width n).toList := by
    rw [List.take_append_of_le_length (by omega), List.take_of_length_le (by omega)]
  have hdrop : ((paddedText width n).toList ++ rest).drop width = rest := by
    rw [List.drop_append_of_le_length (by omega), List.drop_of_length_le (by omega),
      List.nil_append]
  have hall : (paddedText width n).toList.all isAsciiDigit = true := List.all_eq_true.2 hdigits
  simp [digits?, htake, hdrop, hlength, hall, hvalue]

/-- A reading of a clock with a calendar, in the years that the form has room for. -/
structure Valid (s : Stamp) : Prop where
  year : 1 ≤ s.year ∧ s.year ≤ 9999
  month : 1 ≤ s.month ∧ s.month ≤ 12
  day : 1 ≤ s.day ∧ s.day ≤ daysInMonth s.year s.month
  hour : s.hour < 24
  minute : s.minute < 60
  second : s.second < 60
  micro : s.micro < 1000000
  offset : ∀ minutes ∈ s.offset, minutes.natAbs < 1440

instance (s : Stamp) : Decidable s.Valid :=
  decidable_of_iff
    ((1 ≤ s.year ∧ s.year ≤ 9999) ∧ (1 ≤ s.month ∧ s.month ≤ 12) ∧
      (1 ≤ s.day ∧ s.day ≤ daysInMonth s.year s.month) ∧ s.hour < 24 ∧ s.minute < 60 ∧
      s.second < 60 ∧ s.micro < 1000000 ∧ ∀ minutes ∈ s.offset, minutes.natAbs < 1440)
    ⟨fun ⟨h₁, h₂, h₃, h₄, h₅, h₆, h₇, h₈⟩ => ⟨h₁, h₂, h₃, h₄, h₅, h₆, h₇, h₈⟩,
      fun ⟨h₁, h₂, h₃, h₄, h₅, h₆, h₇, h₈⟩ => ⟨h₁, h₂, h₃, h₄, h₅, h₆, h₇, h₈⟩⟩

/-! ### Parts of the form -/

/-- The microseconds with their point; none are written as nothing. -/
def microChars (micro : Nat) : List Char :=
  if micro = 0 then [] else '.' :: (paddedText 6 micro).toList

def offsetChars (offset : Option Int) : List Char := ((offset.map offsetText).getD "").toList

theorem toList_text (s : Stamp) :
    s.text.toList = (paddedText 4 s.year).toList ++ '-' :: ((paddedText 2 s.month).toList ++
      '-' :: ((paddedText 2 s.day).toList ++ 'T' :: ((paddedText 2 s.hour).toList ++
      ':' :: ((paddedText 2 s.minute).toList ++ ':' :: ((paddedText 2 s.second).toList ++
      (microChars s.micro ++ offsetChars s.offset)))))) := by
  have hmicro : (if s.micro = 0 then "" else "." ++ paddedText 6 s.micro).toList
      = microChars s.micro := by
    unfold microChars
    split <;> simp
  simp [text, hmicro, offsetChars]

/-- The parts of an offset that is not zero. -/
theorem offsetText_of_ne_zero {minutes : Int} (h : minutes ≠ 0) :
    (offsetText minutes).toList = (if minutes < 0 then '-' else '+') ::
      ((paddedText 2 (minutes.natAbs / 60)).toList ++
        ':' :: (paddedText 2 (minutes.natAbs % 60)).toList) := by
  unfold offsetText
  rw [if_neg h]
  split <;> simp

theorem offset?_offsetChars {offset : Option Int} (h : ∀ minutes ∈ offset, minutes.natAbs < 1440) :
    offset? (offsetChars offset) = some offset := by
  cases offset with
  | none => rfl
  | some minutes =>
    by_cases hzero : minutes = 0
    · subst hzero
      rfl
    · -- a sign, and two digits each for the hours and the minutes
      have hbound := h minutes rfl
      have hhours : minutes.natAbs / 60 < powerOfTen 2 := show _ < 100 by omega
      have hminutes : minutes.natAbs % 60 < powerOfTen 2 := show _ < 100 by omega
      have hlast := digits?_paddedText (by decide : 0 < 2) hminutes []
      rw [List.append_nil] at hlast
      have hparts : minutes.natAbs / 60 < 24 ∧ minutes.natAbs % 60 < 60 := by omega
      simp only [offsetChars, Option.map_some, Option.getD_some, offsetText_of_ne_zero hzero]
      rw [offset?.eq_4 _ _ (by split <;> simp) (by split <;> simp)]
      rw [digits?_paddedText (by decide) hhours]
      simp only [oneOf?, List.mem_singleton, if_true, Option.getD_some, hlast, Option.bind_eq_bind,
        Option.bind_some, hparts]
      have hsize : minutes = minutes.natAbs ∨ minutes = -minutes.natAbs := Int.natAbs_eq minutes
      generalize minutes.natAbs = size at *
      by_cases hneg : minutes < 0
      · simp [hneg]
        omega
      · simp [hneg]
        omega

theorem micro?_microChars {micro : Nat} (h : micro < 1000000) {rest : List Char}
    (hrest : ∀ c ∈ rest.head?, c ∈ ['Z', '-', '+']) :
    micro? (microChars micro ++ rest) = some (micro, rest) := by
  have hnot (c : Char) (hc : c ∈ ['Z', '-', '+']) :
      isAsciiDigit c = false ∧ c ∉ ['.', ','] := by
    simp only [List.mem_cons, List.not_mem_nil, or_false] at hc
    rcases hc with rfl | rfl | rfl <;> decide
  by_cases hzero : micro = 0
  · subst hzero
    rw [microChars, if_pos rfl, List.nil_append, micro?]
    cases rest with
    | nil => rfl
    | cons c cs => simp only [oneOf?, if_neg (hnot c (hrest c rfl)).2]
  · obtain ⟨hlength, hdigits, hvalue⟩ := toList_paddedText (by decide : 0 < 6) h
    obtain ⟨htake, hdrop⟩ := span_digits hdigits fun c hc => (hnot c (hrest c hc)).1
    have hne : (paddedText 6 micro).toList ≠ [] := by
      intro he
      simp [he] at hlength
    have hsix : (paddedText 6 micro).toList.take 6 = (paddedText 6 micro).toList :=
      List.take_of_length_le (by omega)
    have hpoint : oneOf? ['.', ','] ('.' :: ((paddedText 6 micro).toList ++ rest))
        = some ((paddedText 6 micro).toList ++ rest) := rfl
    rw [microChars, if_neg hzero, List.cons_append, micro?, hpoint]
    simp [htake, hdrop, hne, hsix, hvalue, hlength, powerOfTen]

theorem head?_offsetChars (offset : Option Int) :
    ∀ c ∈ (offsetChars offset).head?, c ∈ ['Z', '-', '+'] := by
  cases offset with
  | none => simp [offsetChars]
  | some minutes =>
    by_cases hzero : minutes = 0
    · subst hzero
      simp [offsetChars, offsetText]
    · simp only [offsetChars, Option.map_some, Option.getD_some, offsetText_of_ne_zero hzero]
      split <;> simp

/-- A valid stamp comes back from its text. -/
theorem ofText?_text {s : Stamp} (h : s.Valid) : ofText? s.text = some s := by
  obtain ⟨⟨hy₁, hy₂⟩, ⟨hm₁, hm₂⟩, ⟨hd₁, hd₂⟩, hh, hmin, hs, hmicro, hoffset⟩ := h
  -- every part fits into its digits
  have hdays : daysInMonth s.year s.month ≤ 31 := by
    unfold daysInMonth
    split <;> split <;> omega
  have htime : time? s.year s.month s.day
      ((paddedText 2 s.hour).toList ++ ':' :: ((paddedText 2 s.minute).toList ++
        ':' :: ((paddedText 2 s.second).toList ++
          (microChars s.micro ++ offsetChars s.offset)))) = some s := by
    simp only [time?, digits?_paddedText (by decide : 0 < 2) (show s.hour < 100 by omega),
      digits?_paddedText (by decide : 0 < 2) (show s.minute < 100 by omega),
      digits?_paddedText (by decide : 0 < 2) (show s.second < 100 by omega),
      oneOf?, List.mem_singleton, if_true, Option.bind_eq_bind, Option.bind_some,
      micro?_microChars hmicro (head?_offsetChars _), offset?_offsetChars hoffset, hh, hmin, hs,
      decide_true, Bool.and_self]
  have hiso : iso? s.text.toList = some s := by
    rw [toList_text, iso?]
    simp only [digits?_paddedText (by decide : 0 < 4) (show s.year < 10000 by omega),
      digits?_paddedText (by decide : 0 < 2) (show s.month < 100 by omega),
      digits?_paddedText (by decide : 0 < 2) (show s.day < 100 by omega),
      oneOf?, List.mem_cons, true_or, if_true, Option.bind_eq_bind, Option.bind_some, hy₁, hm₁, hm₂,
      hd₁, hd₂, decide_true, Bool.and_self, htime, reduceCtorEq, if_false]
  simp [ofText?, hiso]

end Stamp

end DeferredSave
