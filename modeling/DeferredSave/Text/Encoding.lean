import DeferredSave.Text.Utf8

/-! The encodings in which a document may arrive.

They are told apart by a byte order mark, or by where the zero bytes are among the first four:
the first character of a document is always an ASCII one. -/

namespace DeferredSave.Text

inductive Encoding where
  | utf8
  | utf16 (bigEndian : Bool)
  | utf32 (bigEndian : Bool)
deriving DecidableEq, Repr

namespace Encoding

/-! ### Telling them apart -/

/-- Looks for a byte order mark: the encoding and the bytes after the mark. -/
def marked? : List UInt8 → Option (Encoding × List UInt8)
  | 0xFF :: 0xFE :: 0 :: 0 :: bs => some (utf32 false, bs)
  | 0 :: 0 :: 0xFE :: 0xFF :: bs => some (utf32 true, bs)
  | 0xFF :: 0xFE :: bs => some (utf16 false, bs)
  | 0xFE :: 0xFF :: bs => some (utf16 true, bs)
  | 0xEF :: 0xBB :: 0xBF :: bs => some (utf8, bs)
  | _ => none

/-- The encoding of bytes without a mark. -/
def guess : List UInt8 → Encoding
  | a :: b :: c :: d :: _ =>
    if a = 0 then (if b = 0 then utf32 true else utf16 true)
    else if b = 0 then (if c = 0 && d = 0 then utf32 false else utf16 false)
    else utf8
  | [a, b] => if a = 0 then utf16 true else if b = 0 then utf16 false else utf8
  | _ => utf8

/-! ### Decoding -/

/-- Joins bytes in pairs to code units; a single byte at the end belongs to none. -/
def pairs? (bigEndian : Bool) : List UInt8 → Option (List Nat)
  | [] => some []
  | [_] => none
  | a :: b :: bs =>
    (pairs? bigEndian bs).map
      ((if bigEndian then a.toNat * 0x100 + b.toNat else b.toNat * 0x100 + a.toNat) :: ·)

/-- The characters of code units of sixteen bits. -/
def joinUnits : List Nat → List Char
  | [] => []
  | [n] => [Utf8.charOf n]
  | n :: m :: ns =>
    if 0xD800 ≤ n ∧ n ≤ 0xDBFF ∧ 0xDC00 ≤ m ∧ m ≤ 0xDFFF then
      Char.ofNat (0x10000 + (n - 0xD800) * 0x400 + (m - 0xDC00)) :: joinUnits ns
    else Utf8.charOf n :: joinUnits (m :: ns)

/-- The characters of code units of thirty-two bits, given in halves. -/
def joinHalves? (bigEndian : Bool) : List Nat → Option (List Char)
  | [] => some []
  | [_] => none
  | n :: m :: ns =>
    let code := if bigEndian then n * 0x10000 + m else m * 0x10000 + n
    if code ≤ 0x10FFFF then (joinHalves? bigEndian ns).map (Utf8.charOf code :: ·) else none

/-- Decodes bytes, where half of a surrogate pair alone is replaced. -/
def decode? : Encoding → List UInt8 → Option (List Char)
  | utf8, bs => Utf8.decode? bs true
  | utf16 bigEndian, bs => (pairs? bigEndian bs).map joinUnits
  | utf32 bigEndian, bs => (pairs? bigEndian bs).bind (joinHalves? bigEndian)

end Encoding

/-- Decodes the bytes of a document. -/
def decodeDocument? (bs : List UInt8) : Option (List Char) :=
  match Encoding.marked? bs with
  | some (e, rest) => e.decode? rest
  | none => (Encoding.guess bs).decode? bs

end DeferredSave.Text
