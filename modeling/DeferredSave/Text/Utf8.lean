/-! Text as bytes in UTF-8.

A sequence of bytes falls into characters and broken parts. A broken part is as long as it can be
while it is still the beginning of a character, and at least one byte; where a text has to be shown
all the same, one replacement character stands for it. -/

namespace DeferredSave.Text.Utf8

/-- What the first byte of a character says: the bits that it holds, how many bytes follow, and the
range of the first of them. -/
structure Lead where
  bits : Nat
  owed : Nat
  low : Nat := 0x80
  high : Nat := 0xBF

/-- Reads a first byte. With `halves`, half of a surrogate pair may be written like a character. -/
def lead? (halves : Bool) (b : Nat) : Option Lead :=
  if b ≤ 0x7F then some { bits := b, owed := 0 }
  else if 0xC2 ≤ b ∧ b ≤ 0xDF then some { bits := b % 0x20, owed := 1 }
  else if b = 0xE0 then some { bits := 0, owed := 2, low := 0xA0 }
  else if b = 0xED && !halves then some { bits := 0xD, owed := 2, high := 0x9F }
  else if 0xE1 ≤ b ∧ b ≤ 0xEF then some { bits := b % 0x10, owed := 2 }
  else if b = 0xF0 then some { bits := 0, owed := 3, low := 0x90 }
  else if 0xF1 ≤ b ∧ b ≤ 0xF3 then some { bits := b % 0x8, owed := 3 }
  else if b = 0xF4 then some { bits := 4, owed := 3, high := 0x8F }
  else none

/-- The character that stands for what has no character. -/
def replacement : Char := '\uFFFD'

/-- The character with a code; half of a surrogate pair has none. -/
def charOf (code : Nat) : Char :=
  if 0xD800 ≤ code ∧ code ≤ 0xDFFF then replacement else Char.ofNat code

/-- Reads the bytes that a first byte still owes, as far as they are there. -/
def tail (low high : Nat) : (owed code : Nat) → List UInt8 → Option Char × List UInt8
  | 0, code, bs => (some (charOf code), bs)
  | _ + 1, _, [] => (none, [])
  | owed + 1, code, b :: bs =>
    if low ≤ b.toNat ∧ b.toNat ≤ high then tail 0x80 0xBF owed (code * 0x40 + b.toNat % 0x40) bs
    else (none, b :: bs)

theorem length_tail_le (low high owed code : Nat) (bs : List UInt8) :
    (tail low high owed code bs).2.length ≤ bs.length := by
  induction owed generalizing low high code bs with
  | zero => simp [tail]
  | succ owed ih =>
    cases bs with
    | nil => simp [tail]
    | cons b bs =>
      simp only [tail]
      split
      · exact Nat.le_succ_of_le (ih ..)
      · simp

/-- Reads one character or broken part after its first byte. -/
def afterFirst (halves : Bool) (b : UInt8) (bs : List UInt8) : Option Char × List UInt8 :=
  match lead? halves b.toNat with
  | some l => tail l.low l.high l.owed l.bits bs
  | none => (none, bs)

theorem length_afterFirst_le (halves : Bool) (b : UInt8) (bs : List UInt8) :
    (afterFirst halves b bs).2.length ≤ bs.length := by
  unfold afterFirst
  split
  · exact length_tail_le ..
  · exact Nat.le_refl _

/-- The characters of a sequence of bytes, with `none` for every broken part. -/
def parts (halves : Bool) : List UInt8 → List (Option Char)
  | [] => []
  | b :: bs =>
    (afterFirst halves b bs).1 :: parts halves (afterFirst halves b bs).2
termination_by bs => bs.length
decreasing_by exact Nat.lt_succ_of_le (length_afterFirst_le halves b bs)

/-- Decodes bytes that have no broken part. -/
def decode? (bs : List UInt8) (halves : Bool := false) : Option (List Char) :=
  (parts halves bs).mapM id

/-- Decodes bytes, with a replacement for every broken part. -/
def decodeLossy (bs : List UInt8) : List Char :=
  (parts false bs).map (·.getD replacement)

/-- The bytes of a text. -/
def encode (cs : List Char) : List UInt8 := cs.flatMap String.utf8EncodeChar

example : decodeLossy [0x6F, 0xFF, 0xE2, 0x82, 0x6B] = ['o', '\uFFFD', '\uFFFD', 'k'] := by
  decide +kernel

end DeferredSave.Text.Utf8
