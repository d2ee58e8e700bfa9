import DeferredSave.Proofs.Json.ReadBack
import DeferredSave.Proofs.Number.Shortest

/-! Words and numbers come back from their text.

The text of a number has a whole part, and a fraction and a power of ten if it is a decimal. The
reader takes these parts one after the other, and a decimal is read as the double whose shortest
text it is. -/

namespace DeferredSave.Json

open DeferredSave.Json.Parser DeferredSave.Number DeferredSave.Number.Binary64

/-! ### Parts of a number -/

/-- The parts in which an unsigned number is written. -/
structure Parts where
  whole : List Char
  decimals? : Option (List Char) := none
  power? : Option Int := none

namespace Parts

def decimalChars (p : Parts) : List Char :=
  match p.decimals? with
  | none => []
  | some ds => '.' :: ds

def powerChars (p : Parts) : List Char :=
  match p.power? with
  | none => []
  | some e => (exponentText e).toList

def chars (p : Parts) : List Char := p.whole ++ (p.decimalChars ++ p.powerChars)

/-- The double that is written, if there is a fraction or a power of ten. -/
def double (p : Parts) (negative : Bool) : Binary64 :=
  .ofDecimal negative (natOfChars (p.whole ++ p.decimals?.getD []))
    (p.power?.getD 0 - (p.decimals?.getD []).length)

/-- The parts that the grammar allows: a whole part of more than one digit does not begin with a
zero, and a fraction is not empty. -/
structure Valid (p : Parts) : Prop where
  digits : ∀ c ∈ p.whole, isAsciiDigit c = true
  nonempty : p.whole ≠ []
  leading : p.whole = ['0'] ∨ p.whole.head? ≠ some '0'
  decimals : ∀ ds ∈ p.decimals?, ds ≠ [] ∧ ∀ c ∈ ds, isAsciiDigit c = true

end Parts

theorem isAsciiDigit_of_stops {rest : List Char} (h : Stops rest) :
    ∀ c ∈ rest.head?, isAsciiDigit c = false ∧ c ≠ '.' ∧ c ≠ 'e' ∧ c ≠ 'E' := by
  intro c hc
  have := h c hc
  simp only [List.mem_cons, List.not_mem_nil, or_false] at this
  rcases this with rfl | rfl | rfl <;> decide

theorem toList_exponentText (e : Int) : (exponentText e).toList
    = 'e' :: (if e < 0 then '-' else '+') :: (paddedText 2 e.natAbs).toList := by
  unfold exponentText
  split <;> simp

/-- The fraction is taken if there is one. -/
theorem fraction_read {p : Parts} (h : p.Valid) {tail : List Char}
    (htail : ∀ c ∈ tail.head?, isAsciiDigit c = false ∧ c ≠ '.') :
    fraction (p.decimalChars ++ tail) = (p.decimals?, tail) := by
  unfold Parts.decimalChars
  cases hd : p.decimals? with
  | none =>
    cases tail with
    | nil => rfl
    | cons c cs =>
      have hpoint := (htail c rfl).2
      simp [fraction, hpoint]
  | some ds =>
    obtain ⟨hne, hdigits⟩ := h.decimals ds hd
    obtain ⟨hspan, hrest⟩ := span_digits hdigits fun c hc => (htail c hc).1
    simp only [List.cons_append, fraction, hspan, hrest, if_neg hne]

/-- The power of ten is taken if there is one. -/
theorem exponent_read (p : Parts) {rest : List Char} (h : Stops rest) :
    exponent (p.powerChars ++ rest) = (p.power?, rest) := by
  unfold Parts.powerChars
  cases hp : p.power? with
  | none =>
    cases rest with
    | nil => rfl
    | cons c cs =>
      obtain ⟨-, -, he, hE⟩ := isAsciiDigit_of_stops h c rfl
      simp [exponent, he, hE]
  | some e =>
    have hdigits : ∀ c ∈ (paddedText 2 e.natAbs).toList, isAsciiDigit c = true :=
      fun c hc => isAsciiDigit_of_mem_paddedText hc
    obtain ⟨hspan, hrest⟩ := span_digits hdigits fun c hc => (isAsciiDigit_of_stops h c hc).1
    have hne : (paddedText 2 e.natAbs).toList ≠ [] := by
      simp [paddedText, digits_ne_nil]
    simp only [toList_exponentText]
    by_cases hsign : e < 0
    · simp [if_pos hsign, exponent, hspan, hrest, hne, natOfChars_paddedText, abs_of_neg hsign]
    · simp [if_neg hsign, exponent, hspan, hrest, hne, natOfChars_paddedText, not_lt.1 hsign]

theorem head?_powerChars (p : Parts) {rest : List Char} (h : Stops rest) :
    ∀ c ∈ (p.powerChars ++ rest).head?, isAsciiDigit c = false ∧ c ≠ '.' := by
  unfold Parts.powerChars
  cases p.power? with
  | none =>
    intro c hc
    obtain ⟨hdigit, hpoint, -⟩ := isAsciiDigit_of_stops h c hc
    exact ⟨hdigit, hpoint⟩
  | some e =>
    simp only [toList_exponentText]
    rintro c ⟨rfl⟩
    decide

theorem head?_decimalChars (p : Parts) {tail : List Char}
    (h : ∀ c ∈ tail.head?, isAsciiDigit c = false ∧ c ≠ '.') :
    ∀ c ∈ (p.decimalChars ++ tail).head?, isAsciiDigit c = false := by
  unfold Parts.decimalChars
  cases p.decimals? with
  | none => exact fun c hc => (h c hc).1
  | some ds =>
    rintro c ⟨rfl⟩
    decide

/-- A zero in front is the whole part. -/
theorem Parts.Valid.whole_of_zero {p : Parts} (h : p.Valid) {tail after : List Char}
    (heq : p.whole ++ tail = '0' :: after) : p.whole = ['0'] ∧ after = tail := by
  rcases h.leading with hzero | hne
  · rw [hzero] at heq
    exact ⟨hzero, (List.cons.inj heq).2.symm⟩
  · cases hwhole : p.whole with
    | nil => exact absurd hwhole h.nonempty
    | cons c cs =>
      rw [hwhole] at heq hne
      exact absurd (congrArg some (List.cons.inj heq).1) hne

/-- A number is read part by part. -/
theorem unsigned_read {p : Parts} (h : p.Valid) (negative : Bool) {rest : List Char}
    (hrest : Stops rest) :
    unsigned negative (p.chars ++ rest) =
      match p.decimals?, p.power? with
      | none, none =>
        match intOfDigits negative (p.whole.filterMap asciiDigit?) with
        | .ok n => .ok (.int n, rest)
        | .error e => .error (.tooManyDigits e)
      | _, _ => .ok (.float (p.double negative), rest) := by
  have hpower := head?_powerChars p hrest
  obtain ⟨hspan, hafter⟩ := span_digits h.digits (head?_decimalChars p hpower)
  have hfraction := fraction_read h hpower
  have hchars : p.chars ++ rest = p.whole ++ (p.decimalChars ++ (p.powerChars ++ rest)) := by
    simp [Parts.chars]
  rw [hchars]
  generalize p.decimalChars ++ (p.powerChars ++ rest) = tail at *
  unfold unsigned
  split
  next whole after hread =>
  obtain ⟨rfl, rfl⟩ : whole = p.whole ∧ after = tail := by
    split at hread
    · next heq =>
      obtain ⟨hzero, rfl⟩ := h.whole_of_zero heq
      obtain ⟨rfl, rfl⟩ := Prod.mk.inj hread
      exact ⟨hzero.symm, rfl⟩
    · obtain ⟨rfl, rfl⟩ := Prod.mk.inj hread
      exact ⟨hspan, hafter⟩
  simp only [if_neg h.nonempty, hfraction, exponent_read p hrest]
  rfl

/-! ### Parts of an integer -/

theorem valid_digitChars (n : Nat) : Parts.Valid { whole := digitChars n } where
  digits := fun c hc => isAsciiDigit_of_mem hc
  nonempty := digitChars_ne_nil n
  leading := by
    by_cases hn : n = 0
    · subst hn
      exact .inl (by decide +kernel)
    · exact .inr (head?_digitChars_ne_zero hn)
  decimals := by simp

/-! ### Parts of a decimal -/

/-- The parts of a text in which a decimal is written. -/
structure Parts.Write (p : Parts) (cs : List Char) (x : Decimal) : Prop where
  valid : p.Valid
  chars : p.chars = cs
  decimal : p.decimals? ≠ none ∨ p.power? ≠ none
  double : ∀ negative, p.double negative = .ofDecimal negative x.significand x.exponent

variable {s : Nat} {k : Int}

/-- One digit before the point, and a power of ten. -/
theorem exponential_write (hs : s ≠ 0) {e : Int} (he : e = k + (digitChars s).length - 1) :
    ∃ p : Parts, p.Write
      (match digitChars s with
        | [] => ""
        | [d] => String.ofList [d] ++ exponentText e
        | d :: rest => String.ofList (d :: '.' :: rest) ++ exponentText e).toList ⟨s, k⟩ := by
  have hdigits : ∀ c ∈ digitChars s, isAsciiDigit c = true := fun c hc => isAsciiDigit_of_mem hc
  have hhead := head?_digitChars_ne_zero hs
  have hvalue := natOfChars_digitChars s
  cases hchars : digitChars s with
  | nil => exact absurd hchars (digitChars_ne_nil s)
  | cons d rest =>
    rw [hchars] at hdigits hhead hvalue he
    have hd : ∀ c ∈ [d], isAsciiDigit c = true := fun c hc => hdigits c (by simp_all)
    cases rest with
    | nil =>
      refine ⟨{ whole := [d], power? := some e }, ⟨hd, by simp, .inr hhead, by simp⟩, ?_, by simp,
        fun negative => ?_⟩
      · simp [Parts.chars, Parts.decimalChars, Parts.powerChars]
      · simp only [Parts.double, Option.getD_none, Option.getD_some, List.append_nil, hvalue]
        congr 1
        simp at he ⊢
        exact he
    | cons c rest =>
      refine ⟨{ whole := [d], decimals? := some (c :: rest), power? := some e },
        ⟨hd, by simp, .inr hhead, ?_⟩, ?_, by simp, fun negative => ?_⟩
      · rintro _ ⟨rfl⟩
        exact ⟨by simp, fun c' hc' => hdigits c' (List.mem_cons_of_mem _ hc')⟩
      · simp [Parts.chars, Parts.decimalChars, Parts.powerChars]
      · simp only [Parts.double, Option.getD_some, List.singleton_append, hvalue]
        congr 1
        simp at he ⊢
        omega

/-- Nothing but zeros before the point and after it up to the first digit. -/
theorem fraction_write (zeros : Nat) (hk : k = -(zeros + (digitChars s).length : Nat)) :
    ∃ p : Parts, p.Write ('0' :: '.' :: (List.replicate zeros '0' ++ digitChars s)) ⟨s, k⟩ := by
  refine ⟨{ whole := ['0'], decimals? := some (List.replicate zeros '0' ++ digitChars s) },
    ⟨List.forall_mem_singleton.2 (by decide), by simp, .inl rfl, ?_⟩, ?_, by simp,
      fun negative => ?_⟩
  · rintro _ ⟨rfl⟩
    refine ⟨by simp [digitChars_ne_nil], fun c hc => ?_⟩
    rcases List.mem_append.1 hc with hc | hc
    · exact isAsciiDigit_of_mem_zeros hc
    · exact isAsciiDigit_of_mem hc
  · simp [Parts.chars, Parts.decimalChars, Parts.powerChars]
  · have hvalue : natOfChars (['0'] ++ (List.replicate zeros '0' ++ digitChars s)) = s := by
      rw [← List.append_assoc, List.singleton_append, ← List.replicate_succ,
        natOfChars_zeros_append, natOfChars_digitChars]
    simp only [Parts.double, Option.getD_some, Option.getD_none, hvalue]
    congr 1
    simp
    omega

/-- A point between the digits. -/
theorem positional_write (hs : s ≠ 0) {places : Nat} (hpos : 0 < places)
    (hplaces : places < (digitChars s).length) (hk : k = -((digitChars s).length - places : Nat)) :
    ∃ p : Parts, p.Write ((digitChars s).take places ++ '.' :: (digitChars s).drop places)
      ⟨s, k⟩ := by
  have hdigits : ∀ c ∈ digitChars s, isAsciiDigit c = true := fun c hc => isAsciiDigit_of_mem hc
  refine ⟨{ whole := (digitChars s).take places, decimals? := some ((digitChars s).drop places) },
    ⟨fun c hc => hdigits c (List.mem_of_mem_take hc), ?_, .inr ?_, ?_⟩, ?_, by simp,
      fun negative => ?_⟩
  · simp [digitChars_ne_nil]
    omega
  · rw [List.head?_take, if_neg (by omega)]
    exact head?_digitChars_ne_zero hs
  · rintro _ ⟨rfl⟩
    refine ⟨by simp; omega, fun c hc => hdigits c (List.mem_of_mem_drop hc)⟩
  · simp [Parts.chars, Parts.decimalChars, Parts.powerChars]
  · simp only [Parts.double, Option.getD_some, Option.getD_none, List.take_append_drop,
      natOfChars_digitChars]
    congr 1
    simp
    omega

/-- A whole number, with a zero after the point. -/
theorem whole_write (h : s ≠ 0 ∨ k = 0) (hk : 0 ≤ k) :
    ∃ p : Parts, p.Write (digitChars s ++ List.replicate k.natAbs '0' ++ ['.', '0']) ⟨s, k⟩ := by
  refine ⟨{ whole := digitChars s ++ List.replicate k.natAbs '0', decimals? := some ['0'] },
    ⟨fun c hc => ?_, by simp [digitChars_ne_nil], ?_, ?_⟩, ?_, by simp, fun negative => ?_⟩
  · rcases List.mem_append.1 hc with hc | hc
    · exact isAsciiDigit_of_mem hc
    · exact isAsciiDigit_of_mem_zeros hc
  · by_cases hs : s = 0
    · obtain rfl : k = 0 := h.resolve_left (not_not.2 hs)
      subst hs
      exact .inl (by decide +kernel)
    · right
      rw [List.head?_append, Option.or_of_isSome (by simp [digitChars_ne_nil])]
      exact head?_digitChars_ne_zero hs
  · rintro _ ⟨rfl⟩
    exact ⟨by simp, List.forall_mem_singleton.2 (by decide)⟩
  · simp [Parts.chars, Parts.decimalChars, Parts.powerChars]
  · have hvalue : natOfChars (digitChars s ++ List.replicate k.natAbs '0' ++ ['0'])
        = s * powerOfTen (k.natAbs + 1) := by
      rw [List.append_assoc, ← List.replicate_succ', natOfChars_append_zeros,
        natOfChars_digitChars]
    simp only [Parts.double, Option.getD_some, Option.getD_none, hvalue,
      ofDecimal_mul_powerOfTen]
    congr 1
    simp
    omega

/-- Each form of a decimal has the decimal's value. Zero has only one of the forms. -/
theorem layout_write (h : s ≠ 0 ∨ k = 0) :
    ∃ p : Parts, p.Write (layout.write ⟨s, k⟩).toList ⟨s, k⟩ := by
  have hlength : 0 < (digitChars s).length := List.length_pos_iff.2 (digitChars_ne_nil s)
  unfold Layout.write
  rw [show (digits s).map digitChar = digitChars s from rfl]
  simp only
  split
  · next hout =>
    refine exponential_write (fun hs => ?_) rfl
    obtain rfl : k = 0 := h.resolve_left (not_not.2 hs)
    subst hs
    revert hout
    decide +kernel
  next hin =>
  split
  · next hneg =>
    rw [String.toList_ofList]
    exact fraction_write _ (by omega)
  next hnonneg =>
  split
  · next hk =>
    rw [String.toList_ofList]
    exact positional_write (fun hs => by omega) (by omega) (by omega) (by omega)
  · next hk =>
    rw [String.toList_ofList]
    exact whole_write h (by omega)

/-! ### Words and numbers -/

theorem shortest_ne_zero_or {m : Nat} {e : Int} (h : Canonical m e) :
    (shortest m e h).significand ≠ 0 ∨ (shortest m e h).exponent = 0 := by
  by_cases hm : m = 0
  · exact .inr (by simp [shortest, hm])
  · refine .inl fun hzero => hm ?_
    have hback := ofDecimal_shortest h false
    rw [hzero, ofDecimal, if_pos rfl, zero] at hback
    injection hback with _ hm
    exact hm.symm

/-- The parts in which a finite double is written. -/
theorem exists_parts {m : Nat} {e : Int} (h : Canonical m e) :
    ∃ p : Parts, p.Write (layout.write (shortest m e h)).toList (shortest m e h) :=
  layout_write (shortest_ne_zero_or h)

theorem Parts.Valid.exists_cons {p : Parts} (h : p.Valid) :
    ∃ c tail, p.chars = c :: tail ∧ isAsciiDigit c = true := by
  cases hw : p.whole with
  | nil => exact absurd hw h.nonempty
  | cons c cs =>
    exact ⟨c, cs ++ (p.decimalChars ++ p.powerChars), by simp [Parts.chars, hw],
      h.digits c (by simp [hw])⟩

/-- A digit begins no word, so that an unsigned number follows, or one behind a minus. -/
theorem scalar_unsigned {c : Char} (hc : isAsciiDigit c = true) (negative : Bool)
    (tail : List Char) :
    scalar ((if negative then "-" else "").toList ++ c :: tail)
      = unsigned negative (c :: tail) := by
  have hne {d : Char} (hd : isAsciiDigit d = false) : c ≠ d := by
    rintro rfl
    rw [hc] at hd
    cases hd
  have hn := hne (d := 'n') (by decide)
  have ht := hne (d := 't') (by decide)
  have hf := hne (d := 'f') (by decide)
  have hN := hne (d := 'N') (by decide)
  have hI := hne (d := 'I') (by decide)
  have hminus := hne (d := '-') (by decide)
  cases negative <;> simp [scalar, word?, number, *]

theorem toList_print_int (n : Int) : (print (.int n)).toList
    = (if decide (n < 0) then "-" else "").toList ++ digitChars n.natAbs := by
  simp only [print, intText, natText, decide_eq_true_eq]
  split <;> simp [digitChars]

theorem readsBack_int {n : Int} (h : isWritable (.int n) = true) : ReadsBack (.int n) := by
  intro rest hrest
  have hlimit : Writable n := by simpa [isWritable] using h
  have hvalid := valid_digitChars n.natAbs
  have hchars : digitChars n.natAbs = Parts.chars { whole := digitChars n.natAbs } := by
    simp [Parts.chars, Parts.decimalChars, Parts.powerChars]
  obtain ⟨c, tail, hcons, hc⟩ := hvalid.exists_cons
  rw [toList_print_int, List.append_assoc, hchars, hcons, List.cons_append, scalar_unsigned hc,
    ← List.cons_append, ← hcons, unsigned_read hvalid _ hrest]
  simp only [filterMap_digitChars, intOfDigits, if_neg (Nat.not_lt.2 hlimit), ofDigits_digits,
    decide_eq_true_eq]
  congr 3
  split <;> omega

theorem readsBack_finite (negative : Bool) {m : Nat} {e : Int} (h : Canonical m e) :
    ReadsBack (.float (.finite negative m e h)) := by
  intro rest hrest
  obtain ⟨p, hvalid, hchars, hdecimal, hdouble⟩ := exists_parts h
  have htext : (print (.float (.finite negative m e h))).toList ++ rest
      = (if negative then "-" else "").toList ++ (p.chars ++ rest) := by
    rw [hchars, print, textWith, String.toList_append, List.append_assoc]
  obtain ⟨c, tail, hcons, hc⟩ := hvalid.exists_cons
  rw [htext, hcons, List.cons_append, scalar_unsigned hc, ← List.cons_append, ← hcons,
    unsigned_read hvalid _ hrest]
  split
  · next hd hp => exact absurd hdecimal (by simp [hd, hp])
  · rw [hdouble, ofDecimal_shortest]

/-- A document that is a word or a number. -/
def IsScalar : Json → Prop
  | null | bool _ | int _ | float _ => True
  | _ => False

theorem readsBack_of_isScalar {j : Json} (h : IsScalar j) (hwritable : isWritable j = true) :
    ReadsBack j := by
  match j, h with
  | null, _ => exact readsBack_null
  | bool b, _ => cases b <;> intro rest _ <;> simp [scalar, print, word?]
  | int n, _ => exact readsBack_int hwritable
  | float .nan, _ => intro rest _; simp [scalar, print, textWith, word?]
  | float (.infinite negative), _ =>
    cases negative <;> intro rest _ <;> simp [scalar, print, textWith, word?, number]
  | float (.finite negative m e h), _ => exact readsBack_finite negative h

theorem visible_of_digits {cs : List Char} (h : ∀ c ∈ cs, isAsciiDigit c = true) : Visible cs := by
  intro c hc
  have hdigit := h c hc
  simp only [isAsciiDigit, asciiDigit?] at hdigit
  split at hdigit
  · next hrange =>
    have hlow : '0'.toNat ≤ c.toNat := hrange.1
    have hhigh : c.toNat ≤ '9'.toNat := hrange.2
    exact ⟨Nat.le_trans (by decide) hlow, Nat.lt_of_le_of_lt hhigh (by decide)⟩
  · cases hdigit

theorem Parts.Valid.visible {p : Parts} (h : p.Valid) : Visible p.chars := by
  refine visible_append.2 ⟨visible_of_digits h.digits, visible_append.2 ⟨?_, ?_⟩⟩
  · unfold Parts.decimalChars
    split
    · simp [Visible]
    · next ds hds =>
      exact visible_cons.2 ⟨by decide, visible_of_digits (h.decimals ds hds).2⟩
  · unfold Parts.powerChars
    split
    · simp [Visible]
    · next e _ =>
      rw [toList_exponentText]
      refine visible_cons.2 ⟨by decide, visible_cons.2
        ⟨?_, visible_of_digits fun c hc => isAsciiDigit_of_mem_paddedText hc⟩⟩
      split <;> decide

/-- A document in which no object has a repeated key. -/
def IsDocument (j : Json) : Prop := BuiltFrom IsScalar j

theorem areWritable_iff {xs : List Json} :
    areWritable xs = true ↔ ∀ x ∈ xs, isWritable x = true := by
  induction xs with
  | nil => simp [areWritable]
  | cons x xs ih => simp [areWritable, ih]

theorem haveWritable_iff {es : List (String × Json)} :
    haveWritable es = true ↔ ∀ e ∈ es, isWritable e.2 = true := by
  induction es with
  | nil => simp [haveWritable]
  | cons e es ih => simp only [haveWritable, Bool.and_eq_true, ih, List.forall_mem_cons]

/-- What can be written is built from words and numbers that can be written. -/
theorem IsDocument.builtFrom {j : Json} (h : j.IsDocument) (hwritable : isWritable j = true) :
    BuiltFrom (fun j => IsScalar j ∧ isWritable j = true) j := by
  unfold IsDocument at h
  induction h with
  | leaf h => exact .leaf ⟨h, hwritable⟩
  | text s => exact .text s
  | array _ ih => exact .array fun x hx => ih x hx (areWritable_iff.1 hwritable x hx)
  | object nodup _ ih => exact .object nodup fun e he => ih e he (haveWritable_iff.1 hwritable e he)

/-- A document comes back from its text. -/
theorem IsDocument.parse_print {j : Json} (h : j.IsDocument) (hwritable : isWritable j = true) :
    parse (print j) = .ok j :=
  Json.parse_print (fun _ hj => readsBack_of_isScalar hj.1 hj.2) (h.builtFrom hwritable)

end DeferredSave.Json
