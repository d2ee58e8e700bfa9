/-! Whole numbers and their texts.

Digits are written most significant first. An integer of more than `digitLimit` digits is not
converted in either direction: it is not read, where leading zeros count as digits, and it is not
written (`writtenInt`). -/

namespace DeferredSave.Number

/-! ### Powers -/

def powerOfTwo (n : Nat) : Nat := Nat.pow 2 n

def powerOfTen (n : Nat) : Nat := Nat.pow 10 n

/-! ### Writing -/

/-- The decimal digits of `n` in front of `rest`. -/
def digitsOnto (n : Nat) (rest : List Nat) : List Nat :=
  if n < 10 then n :: rest else digitsOnto (n / 10) (n % 10 :: rest)
termination_by n

/-- The decimal digits of `n`; zero has one digit. -/
def digits (n : Nat) : List Nat := digitsOnto n []

/-- The ASCII character of a digit. -/
def digitChar (d : Nat) : Char := Char.ofNat ('0'.toNat + d)

/-- A natural number in decimal. -/
def natText (n : Nat) : String := String.ofList ((digits n).map digitChar)

/-- An integer in decimal, with a sign when it is negative. -/
def intText (n : Int) : String :=
  if n < 0 then "-" ++ natText n.natAbs else natText n.natAbs

/-- A natural number in decimal, filled up with zeros to `width` digits. -/
def paddedText (width n : Nat) : String :=
  let cs := (digits n).map digitChar
  String.ofList (List.replicate (width - cs.length) '0' ++ cs)

/-! ### The limit -/

/-- The most digits that a number may have in a text. -/
def digitLimit : Nat := 4300

/-- There are more digits than `digitLimit`. -/
inductive TooManyDigits where
  /-- So many in a text that is read. -/
  | read (count : Nat)
  /-- In a number that is to be written. -/
  | written
deriving DecidableEq, Repr

def TooManyDigits.message (e : TooManyDigits) : String :=
  let count :=
    match e with
    | read count => ": value has " ++ natText count ++ " digits"
    | written => ""
  "Exceeds the limit (" ++ natText digitLimit ++ " digits) for integer string conversion" ++ count
    ++ "; use sys.set_int_max_str_digits() to increase the limit"

/-- An integer is short enough to be written. -/
def Writable (n : Int) : Prop := (digits n.natAbs).length ≤ digitLimit

instance (n : Int) : Decidable (Writable n) := inferInstanceAs (Decidable (_ ≤ _))

/-- An integer in decimal, unless it has too many digits. -/
def writtenInt (n : Int) : Except TooManyDigits String :=
  if Writable n then .ok (intText n) else .error .written

/-! ### Reading -/

/-- The number that a list of digits denotes. -/
def ofDigits (ds : List Nat) : Nat := ds.foldl (fun n d => 10 * n + d) 0

/-- The value of an ASCII digit. -/
def asciiDigit? (c : Char) : Option Nat :=
  if '0' ≤ c ∧ c ≤ '9' then some (c.toNat - '0'.toNat) else none

/-- Whether a character is an ASCII digit. -/
def isAsciiDigit (c : Char) : Bool := (asciiDigit? c).isSome

/-- The number written by the ASCII digits among `cs`. -/
def natOfChars (cs : List Char) : Nat := ofDigits (cs.filterMap asciiDigit?)

/-- The integer with the given sign and digits, unless there are too many of them. -/
def intOfDigits (negative : Bool) (ds : List Nat) : Except TooManyDigits Int :=
  if digitLimit < ds.length then .error (.read ds.length)
  else .ok (if negative then -(ofDigits ds : Int) else ofDigits ds)

/-- Reads an integer text: a sign if any, then ASCII digits and nothing else. -/
def intOfText? (s : String) : Option (Except TooManyDigits Int) :=
  let (negative, cs) :=
    match s.toList with
    | '-' :: cs => (true, cs)
    | '+' :: cs => (false, cs)
    | cs => (false, cs)
  if cs ≠ [] && cs.all isAsciiDigit then
    some (intOfDigits negative (cs.filterMap asciiDigit?))
  else none

/-! ### Laws -/

theorem ofDigits_append_singleton (ds : List Nat) (d : Nat) :
    ofDigits (ds ++ [d]) = 10 * ofDigits ds + d := by
  simp [ofDigits]

theorem ofDigits_digitsOnto (n : Nat) (rest : List Nat) :
    ofDigits (digitsOnto n rest) = rest.foldl (fun n d => 10 * n + d) n := by
  fun_induction digitsOnto n rest with
  | case1 n rest _ => simp [ofDigits]
  | case2 n rest _ ih =>
    rw [ih, List.foldl_cons]
    congr 1
    omega

@[simp] theorem ofDigits_digits (n : Nat) : ofDigits (digits n) = n := by
  simp [digits, ofDigits_digitsOnto]

theorem digitsOnto_ne_nil (n : Nat) (rest : List Nat) : digitsOnto n rest ≠ [] := by
  fun_induction digitsOnto n rest with
  | case1 => simp
  | case2 _ _ _ ih => exact ih

theorem digits_ne_nil (n : Nat) : digits n ≠ [] := digitsOnto_ne_nil n []

theorem digitsOnto_lt {n : Nat} {rest : List Nat} (h : ∀ d ∈ rest, d < 10) :
    ∀ d ∈ digitsOnto n rest, d < 10 := by
  fun_induction digitsOnto n rest with
  | case1 n rest hn =>
    intro d hd
    rcases List.mem_cons.1 hd with rfl | hd
    · exact hn
    · exact h d hd
  | case2 n rest hn ih =>
    refine ih fun d hd => ?_
    rcases List.mem_cons.1 hd with rfl | hd
    · omega
    · exact h d hd

theorem digits_lt {n d : Nat} (h : d ∈ digits n) : d < 10 :=
  digitsOnto_lt (by simp) d h

end DeferredSave.Number
