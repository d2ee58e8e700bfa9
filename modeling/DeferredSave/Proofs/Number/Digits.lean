import DeferredSave.Number.Whole

/-! Powers, digits, and the numbers that digits denote.

A positive number has no zero in front, so the count of its digits tells its magnitude. Digits in a
text are read back, with as many zeros in front of them as there may be. -/

namespace DeferredSave.Number

/-! ### Powers -/

theorem powerOfTwo_add (m n : Nat) : powerOfTwo (m + n) = powerOfTwo m * powerOfTwo n :=
  Nat.pow_add 2 m n

theorem powerOfTwo_pos (n : Nat) : 0 < powerOfTwo n := Nat.two_pow_pos n

theorem powerOfTen_succ (n : Nat) : powerOfTen (n + 1) = powerOfTen n * 10 := rfl

theorem powerOfTen_pos (n : Nat) : 0 < powerOfTen n := Nat.pow_pos (by decide)

theorem powerOfTen_mono {m n : Nat} (h : m ≤ n) : powerOfTen m ≤ powerOfTen n :=
  Nat.pow_le_pow_right (by decide) h

/-! ### Digits of a number -/

theorem digitsOnto_append (n : Nat) (rest : List Nat) : digitsOnto n rest = digits n ++ rest := by
  have go (n : Nat) (rest more : List Nat) :
      digitsOnto n (rest ++ more) = digitsOnto n rest ++ more := by
    fun_induction digitsOnto n rest with
    | case1 n rest h => rw [digitsOnto, if_pos h, List.cons_append]
    | case2 n rest h ih => rw [digitsOnto, if_neg h, ← List.cons_append, ih]
  simpa [digits] using go n [] rest

theorem digits_of_lt {n : Nat} (h : n < 10) : digits n = [n] := by
  rw [digits, digitsOnto, if_pos h]

theorem digits_of_le {n : Nat} (h : 10 ≤ n) : digits n = digits (n / 10) ++ [n % 10] := by
  rw [digits, digitsOnto, if_neg (Nat.not_lt.2 h), digitsOnto_append]

theorem lt_powerOfTen_length (n : Nat) : n < powerOfTen (digits n).length := by
  induction n using Nat.strongRecOn with
  | ind n ih =>
    by_cases h : n < 10
    · simpa [digits_of_lt h, powerOfTen] using h
    · have := ih (n / 10) (by omega)
      rw [digits_of_le (by omega), List.length_append, List.length_singleton, powerOfTen_succ]
      omega

/-- The leading digit of a positive number is not zero. -/
theorem powerOfTen_le {n k : Nat} (hn : 0 < n) (h : (digits n).length = k + 1) :
    powerOfTen k ≤ n := by
  induction k generalizing n with
  | zero => exact hn
  | succ k ih =>
    by_cases hlt : n < 10
    · simp [digits_of_lt hlt] at h
    · rw [digits_of_le (by omega), List.length_append, List.length_singleton] at h
      have := ih (n := n / 10) (by omega) (by omega)
      rw [powerOfTen_succ]
      omega

theorem head?_digits_ne_zero {n : Nat} (hn : 0 < n) : (digits n).head? ≠ some 0 := by
  induction n using Nat.strongRecOn with
  | ind n ih =>
    by_cases h : n < 10
    · simp [digits_of_lt h]
      omega
    · rw [digits_of_le (by omega), List.head?_append, Option.or_of_isSome (by simp [digits_ne_nil])]
      exact ih (n / 10) (by omega) (by omega)

theorem length_digits_le {n width : Nat} (hw : 0 < width) (h : n < powerOfTen width) :
    (digits n).length ≤ width := by
  rcases Nat.eq_zero_or_pos n with rfl | hn
  · rwa [digits_of_lt (by decide)]
  · refine Nat.le_of_not_lt fun hlt => ?_
    have hle := powerOfTen_le hn (k := (digits n).length - 1) (by omega)
    have hmono : powerOfTen width ≤ powerOfTen ((digits n).length - 1) :=
      powerOfTen_mono (by omega)
    omega

theorem length_digits_le_iff {n width : Nat} (hw : 0 < width) :
    (digits n).length ≤ width ↔ n < powerOfTen width := by
  refine ⟨fun h => ?_, length_digits_le hw⟩
  calc n < powerOfTen (digits n).length := lt_powerOfTen_length n
    _ ≤ powerOfTen width := powerOfTen_mono h

theorem writable_iff {n : Int} : Writable n ↔ n.natAbs < powerOfTen digitLimit :=
  length_digits_le_iff (by decide)

/-! ### Writing -/

theorem intText_natCast (n : Nat) : intText n = natText n := by
  simp [intText]

/-- A natural number is written exactly if it is less than ten to the limit. -/
theorem writtenInt_natCast (n : Nat) :
    writtenInt n = if n < powerOfTen digitLimit then .ok (natText n) else .error .written := by
  rw [writtenInt, intText_natCast]
  simp only [writable_iff, Int.natAbs_natCast]

/-! ### Digits in a text -/

theorem asciiDigit?_digitChar {d : Nat} (h : d < 10) : asciiDigit? (digitChar d) = some d := by
  have all : ∀ d < 10, asciiDigit? (digitChar d) = some d := by decide
  exact all d h

theorem isAsciiDigit_digitChar {d : Nat} (h : d < 10) : isAsciiDigit (digitChar d) = true := by
  simp [isAsciiDigit, asciiDigit?_digitChar h]

theorem filterMap_digitChar {ds : List Nat} (h : ∀ d ∈ ds, d < 10) :
    (ds.map digitChar).filterMap asciiDigit? = ds := by
  induction ds with
  | nil => rfl
  | cons d ds ih =>
    rw [List.map_cons, List.filterMap_cons_some (asciiDigit?_digitChar (h d (by simp))),
      ih fun d hd => h d (by simp [hd])]

/-- The digits of a number as they stand in a text. -/
def digitChars (n : Nat) : List Char := (digits n).map digitChar

theorem isAsciiDigit_of_mem {n : Nat} {c : Char} (hc : c ∈ digitChars n) :
    isAsciiDigit c = true := by
  obtain ⟨d, hd, rfl⟩ := List.mem_map.1 hc
  exact isAsciiDigit_digitChar (digits_lt hd)

theorem isAsciiDigit_of_mem_zeros {k : Nat} {c : Char} (hc : c ∈ List.replicate k '0') :
    isAsciiDigit c = true := by
  rw [(List.mem_replicate.1 hc).2]
  decide

theorem filterMap_digitChars (n : Nat) : (digitChars n).filterMap asciiDigit? = digits n :=
  filterMap_digitChar fun _ hd => digits_lt hd

theorem digitChars_ne_nil (n : Nat) : digitChars n ≠ [] := by
  simp [digitChars, digits_ne_nil]

theorem head?_digitChars_ne_zero {n : Nat} (hn : n ≠ 0) : (digitChars n).head? ≠ some '0' := by
  intro hhead
  rw [digitChars, List.head?_map] at hhead
  obtain ⟨d, hd, hzero⟩ := Option.map_eq_some_iff.1 hhead
  have hdigit := asciiDigit?_digitChar (digits_lt (List.mem_of_mem_head? hd))
  rw [hzero, show asciiDigit? '0' = some 0 by decide] at hdigit
  exact head?_digits_ne_zero (Nat.pos_of_ne_zero hn) (Option.some.inj hdigit ▸ hd)

theorem natOfChars_digitChars (n : Nat) : natOfChars (digitChars n) = n := by
  rw [natOfChars, filterMap_digitChars, ofDigits_digits]

theorem natOfChars_zeros_append (k : Nat) (cs : List Char) :
    natOfChars (List.replicate k '0' ++ cs) = natOfChars cs := by
  induction k with
  | zero => rfl
  | succ k ih => rw [List.replicate_succ, List.cons_append, ← ih]; rfl

/-- A zero at the end multiplies by ten. -/
theorem natOfChars_append_zeros (cs : List Char) (k : Nat) :
    natOfChars (cs ++ List.replicate k '0') = natOfChars cs * powerOfTen k := by
  have hzero : asciiDigit? '0' = some 0 := by decide
  induction k with
  | zero => simp [powerOfTen]
  | succ k ih =>
    rw [natOfChars, List.replicate_succ', ← List.append_assoc, List.filterMap_append,
      List.filterMap_cons_some hzero, List.filterMap_nil, ofDigits_append_singleton, ← natOfChars,
      ih, powerOfTen_succ, Nat.add_zero, Nat.mul_comm 10, Nat.mul_assoc]

/-- A number is written with zeros in front of its digits. -/
theorem toList_paddedText_eq (width n : Nat) : ∃ k, (paddedText width n).toList
    = List.replicate k '0' ++ digitChars n :=
  ⟨_, by rw [paddedText, String.toList_ofList, digitChars]⟩

theorem isAsciiDigit_of_mem_paddedText {width n : Nat} {c : Char}
    (hc : c ∈ (paddedText width n).toList) : isAsciiDigit c = true := by
  obtain ⟨k, hk⟩ := toList_paddedText_eq width n
  rcases List.mem_append.1 (hk ▸ hc) with hc | hc
  · exact isAsciiDigit_of_mem_zeros hc
  · exact isAsciiDigit_of_mem hc

theorem natOfChars_paddedText (width n : Nat) : natOfChars (paddedText width n).toList = n := by
  obtain ⟨k, hk⟩ := toList_paddedText_eq width n
  rw [hk, natOfChars_zeros_append, natOfChars_digitChars]

/-- A number that fits is written in exactly as many digits as there is room for. -/
theorem toList_paddedText {width n : Nat} (hw : 0 < width) (h : n < powerOfTen width) :
    (paddedText width n).toList.length = width ∧
      (∀ c ∈ (paddedText width n).toList, isAsciiDigit c = true) ∧
      natOfChars (paddedText width n).toList = n := by
  have hlength := length_digits_le hw h
  refine ⟨?_, fun c hc => isAsciiDigit_of_mem_paddedText hc, natOfChars_paddedText width n⟩
  simp [paddedText]
  omega

/-- Digits are told from what follows them by its first character. -/
theorem span_digits {ds rest : List Char} (hds : ∀ c ∈ ds, isAsciiDigit c = true)
    (hrest : ∀ c ∈ rest.head?, isAsciiDigit c = false) :
    (ds ++ rest).takeWhile isAsciiDigit = ds ∧ (ds ++ rest).dropWhile isAsciiDigit = rest := by
  rw [List.takeWhile_append_of_pos hds, List.dropWhile_append_of_pos hds]
  cases rest with
  | nil => simp
  | cons c cs => simp [hrest c rfl]

end DeferredSave.Number
