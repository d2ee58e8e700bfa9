import DeferredSave.Number.Binary64
import DeferredSave.Text.Blank

/-! Numbers in settings files and in the environment, where they may be written as text. -/

namespace DeferredSave.Number

/-! ### Decimals -/

/-- A decimal as it was written: digits before and after the point, and the power of ten. -/
structure Written where
  negative : Bool
  whole : List Char
  fraction : List Char
  exponent : Int

namespace Written

/-- The number that was written, rounded to the nearest double. -/
def toBinary64 (w : Written) : Binary64 :=
  .ofDecimal w.negative (natOfChars (w.whole ++ w.fraction)) (w.exponent - w.fraction.length)

end Written

/-- Splits a sign off: whether it was a minus, and the rest. -/
def splitSign : List Char → Bool × List Char
  | '-' :: cs => (true, cs)
  | '+' :: cs => (false, cs)
  | cs => (false, cs)

/-- Reads an exponent part, which may be missing: `e` or `E`, a sign if any, and digits. -/
def exponent? : List Char → Option Int
  | [] => some 0
  | c :: cs =>
    if c = 'e' || c = 'E' then
      let (negative, ds) := splitSign cs
      if ds ≠ [] && ds.all isAsciiDigit then
        some (if negative then -(natOfChars ds : Int) else natOfChars ds)
      else none
    else none

/-- Reads an unsigned decimal: digits on at least one side of an optional point, then an exponent
if any. -/
def unsigned? (negative : Bool) (cs : List Char) : Option Written :=
  let whole := cs.takeWhile isAsciiDigit
  let (fraction, rest) :=
    match cs.dropWhile isAsciiDigit with
    | '.' :: after => (after.takeWhile isAsciiDigit, after.dropWhile isAsciiDigit)
    | after => ([], after)
  if whole = [] && fraction = [] then none
  else (exponent? rest).map fun e => ⟨negative, whole, fraction, e⟩

/-- Reads a double: a decimal, or one of the words for an infinity or for NaN in any case. -/
def plainDouble? (cs : List Char) : Option Binary64 :=
  let (negative, body) := splitSign cs
  let word := String.ofList (body.map Char.toLower)
  if word = "inf" || word = "infinity" then some (.infinite negative)
  else if word = "nan" then some .nan
  else (unsigned? negative body).map Written.toBinary64

/-- The text without its underscores, where each of them stands between two other characters. -/
def withoutUnderscores? (cs : List Char) : Option (List Char) :=
  let pieces := Text.cut '_' cs
  if pieces.length ≥ 2 && pieces.all (· ≠ []) then some pieces.flatten else none

/-- Reads a double with white space around it, or with underscores inside it. -/
def double? (s : String) : Option Binary64 :=
  (plainDouble? (Text.trim Text.isWhiteSpace s.toList)).or
    ((withoutUnderscores? s.toList).bind plainDouble?)

/-! ### Integers -/

/-- Digits of an integer: single underscores may stand between them, and a point followed by
nothing but zeros after them. -/
def integerDigits? (cs : List Char) : Option (List Char) :=
  let body :=
    match cs.span (· ≠ '.') with
    | (whole, '.' :: zeros) => if zeros.all (· = '0') then whole else cs
    | _ => cs
  let ds := (withoutUnderscores? body).getD body
  if ds ≠ [] && ds.all isAsciiDigit then some ds else none

/-- Reads an integer with white space around it. After a minus no zero may lead. -/
def integer? (s : String) : Option Int :=
  match Text.trim Text.isWhiteSpace s.toList with
  | '-' :: cs =>
    (integerDigits? cs).bind fun ds =>
      if ds.head? = some '0' && ds.length ≠ 1 then none else some (-(natOfChars ds : Int))
  | '+' :: cs => (integerDigits? cs).map fun ds => (natOfChars ds : Int)
  | cs => (integerDigits? cs).map fun ds => (natOfChars ds : Int)

end DeferredSave.Number
