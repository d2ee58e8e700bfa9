import DeferredSave.Json.Basic
import DeferredSave.Text.Encoding

/-! Reading JSON documents.

The readers work on the rest of the text and return what they leave of it. A document nests no
deeper than it is long, so the length of the text bounds the recursion. -/

namespace DeferredSave

/-- Why a text is no document. -/
inductive Json.ParseError where
  /-- It does not follow the grammar. -/
  | malformed
  /-- It does up to an integer that is too long to be converted. -/
  | tooManyDigits (e : Number.TooManyDigits)
deriving DecidableEq, Repr

namespace Json.Parser

open Number

/-- What a reader returns: a value and the rest of the text. -/
abbrev Result (α : Type) := Except ParseError (α × List Char)

/-- The characters that may stand between tokens. -/
def isSpace (c : Char) : Bool := c = ' ' || c = '\t' || c = '\n' || c = '\r'

def skipSpace (cs : List Char) : List Char := cs.dropWhile isSpace

/-- Reads a fixed word. -/
def word? : (w cs : List Char) → Option (List Char)
  | [], cs => some cs
  | _ :: _, [] => none
  | w :: ws, c :: cs => if c = w then word? ws cs else none

/-! ### Strings -/

/-- The value of a hexadecimal digit. -/
def hexValue? (c : Char) : Option Nat :=
  if '0' ≤ c ∧ c ≤ '9' then some (c.toNat - '0'.toNat)
  else if 'a' ≤ c ∧ c ≤ 'f' then some (c.toNat - 'a'.toNat + 10)
  else if 'A' ≤ c ∧ c ≤ 'F' then some (c.toNat - 'A'.toNat + 10)
  else none

/-- Reads the four hexadecimal digits of a code unit. -/
def unit? : List Char → Option (Nat × List Char)
  | a :: b :: c :: d :: rest => do
    let a ← hexValue? a
    let b ← hexValue? b
    let c ← hexValue? c
    let d ← hexValue? d
    some (((a * 16 + b) * 16 + c) * 16 + d, rest)
  | _ => none

def isHighUnit (n : Nat) : Bool := decide (0xD800 ≤ n) && decide (n < 0xDC00)

def isLowUnit (n : Nat) : Bool := decide (0xDC00 ≤ n) && decide (n < 0xE000)

/-- The character of a code unit that stands alone. Half of a pair alone is no character and is
replaced. -/
def ofUnit (n : Nat) : Char :=
  if isHighUnit n || isLowUnit n then '\uFFFD' else Char.ofNat n

/-- The character of a pair of code units. -/
def ofPair (high low : Nat) : Char :=
  Char.ofNat (0x10000 + (high - 0xD800) * 0x400 + (low - 0xDC00))

/-- Reads what follows `\u`: one code unit, or both of a pair. -/
def unicodeEscape? (cs : List Char) : Option (Char × List Char) := do
  let (n, rest) ← unit? cs
  if isHighUnit n then
    match rest with
    | '\\' :: 'u' :: more =>
      match unit? more with
      | some (m, after) => if isLowUnit m then some (ofPair n m, after) else some (ofUnit n, rest)
      | none => some (ofUnit n, rest)
    | _ => some (ofUnit n, rest)
  else some (ofUnit n, rest)

/-- The character of a one-letter escape. -/
def shortEscape? : Char → Option Char
  | '"' => some '"'
  | '\\' => some '\\'
  | '/' => some '/'
  | 'b' => some '\x08'
  | 'f' => some '\x0C'
  | 'n' => some '\n'
  | 'r' => some '\r'
  | 't' => some '\t'
  | _ => none

/-- Reads one character of a string, written as itself or as an escape. A control character must
be escaped. -/
def stringChar? : List Char → Option (Char × List Char)
  | '\\' :: 'u' :: cs => unicodeEscape? cs
  | '\\' :: c :: cs => (shortEscape? c).map (·, cs)
  | c :: cs => if c.toNat < 0x20 || c = '\\' then none else some (c, cs)
  | [] => none

/-- Reads the rest of a string after its opening quote, in front of `read` reversed. -/
def stringTail (read : List Char) : (fuel : Nat) → List Char → Result String
  | 0, _ => .error .malformed
  | fuel + 1, cs =>
    match cs with
    | '"' :: rest => .ok (String.ofList read.reverse, rest)
    | _ =>
      match stringChar? cs with
      | some (c, rest) => stringTail (c :: read) fuel rest
      | none => .error .malformed

/-! ### Numbers -/

/-- Reads the fraction part of a number, if a point with a digit after it follows. -/
def fraction (cs : List Char) : Option (List Char) × List Char :=
  match cs with
  | '.' :: rest =>
    let ds := rest.takeWhile isAsciiDigit
    if ds = [] then (none, cs) else (some ds, rest.dropWhile isAsciiDigit)
  | _ => (none, cs)

/-- Reads the exponent part of a number, if one follows. -/
def exponent (cs : List Char) : Option Int × List Char :=
  match cs with
  | c :: rest =>
    if c = 'e' || c = 'E' then
      let (negative, after) :=
        match rest with
        | '-' :: after => (true, after)
        | '+' :: after => (false, after)
        | _ => (false, rest)
      let ds := after.takeWhile isAsciiDigit
      if ds = [] then (none, cs)
      else
        (some (if negative then -(natOfChars ds : Int) else natOfChars ds),
          after.dropWhile isAsciiDigit)
    else (none, cs)
  | [] => (none, cs)

/-- Reads an unsigned number. Its whole part is a zero alone or has no zero in front. -/
def unsigned (negative : Bool) (cs : List Char) : Result Json :=
  let (whole, rest) :=
    match cs with
    | '0' :: rest => (['0'], rest)
    | _ => (cs.takeWhile isAsciiDigit, cs.dropWhile isAsciiDigit)
  if whole = [] then .error .malformed
  else
    match fraction rest with
    | (decimals, rest) =>
      match exponent rest with
      | (power, rest) =>
        match decimals, power with
        | none, none =>
          match intOfDigits negative (whole.filterMap asciiDigit?) with
          | .ok n => .ok (.int n, rest)
          | .error e => .error (.tooManyDigits e)
        | _, _ =>
          let ds := decimals.getD []
          .ok (.float (.ofDecimal negative (natOfChars (whole ++ ds))
            (power.getD 0 - ds.length)), rest)

/-- Reads a number, or the word for a value that is not finite. -/
def number (cs : List Char) : Result Json :=
  match cs with
  | '-' :: rest =>
    match word? "Infinity".toList rest with
    | some after => .ok (.float (.infinite true), after)
    | none => unsigned true rest
  | _ => unsigned false cs

/-! ### Documents -/

/-- Reads the words and numbers. -/
def scalar (cs : List Char) : Result Json :=
  match word? "null".toList cs with
  | some rest => .ok (.null, rest)
  | none =>
    match word? "true".toList cs with
    | some rest => .ok (.bool true, rest)
    | none =>
      match word? "false".toList cs with
      | some rest => .ok (.bool false, rest)
      | none =>
        match word? "NaN".toList cs with
        | some rest => .ok (.float .nan, rest)
        | none =>
          match word? "Infinity".toList cs with
          | some rest => .ok (.float (.infinite false), rest)
          | none => number cs

mutual

/-- Reads a document; `fuel` bounds the calls still to come. -/
def value : (fuel : Nat) → List Char → Result Json
  | 0, _ => .error .malformed
  | fuel + 1, cs =>
    match cs with
    | '"' :: rest =>
      match stringTail [] (rest.length + 1) rest with
      | .ok (s, rest) => .ok (.text s, rest)
      | .error e => .error e
    | '[' :: rest =>
      match skipSpace rest with
      | ']' :: after => .ok (.array [], after)
      | rest =>
        match items fuel rest with
        | .ok (xs, rest) => .ok (.array xs, rest)
        | .error e => .error e
    | '{' :: rest =>
      match skipSpace rest with
      | '}' :: after => .ok (.object [], after)
      | rest =>
        match entries fuel rest with
        | .ok (es, rest) => .ok (.object (Entries.ofList es), rest)
        | .error e => .error e
    | _ => scalar cs

/-- Reads the items of an array up to its closing bracket. -/
def items : (fuel : Nat) → List Char → Result (List Json)
  | 0, _ => .error .malformed
  | fuel + 1, cs =>
    match value fuel cs with
    | .error e => .error e
    | .ok (x, rest) =>
      match skipSpace rest with
      | ']' :: after => .ok ([x], after)
      | ',' :: after =>
        match items fuel (skipSpace after) with
        | .ok (xs, rest) => .ok (x :: xs, rest)
        | .error e => .error e
      | _ => .error .malformed

/-- Reads the entries of an object up to its closing brace. -/
def entries : (fuel : Nat) → List Char → Result (List (String × Json))
  | 0, _ => .error .malformed
  | fuel + 1, cs =>
    match cs with
    | '"' :: rest =>
      match stringTail [] (rest.length + 1) rest with
      | .error e => .error e
      | .ok (key, rest) =>
        match skipSpace rest with
        | ':' :: after =>
          match value fuel (skipSpace after) with
          | .error e => .error e
          | .ok (x, rest) =>
            match skipSpace rest with
            | '}' :: after => .ok ([(key, x)], after)
            | ',' :: after =>
              match entries fuel (skipSpace after) with
              | .ok (es, rest) => .ok ((key, x) :: es, rest)
              | .error e => .error e
            | _ => .error .malformed
        | _ => .error .malformed
    | _ => .error .malformed

end

end Json.Parser

/-- Reads a text as one document with nothing but space around it. -/
def Json.parse (s : String) : Except Json.ParseError Json :=
  let cs := s.toList
  match Json.Parser.value (2 * cs.length + 1) (Json.Parser.skipSpace cs) with
  | .error e => .error e
  | .ok (x, rest) =>
    if Json.Parser.skipSpace rest = [] then .ok x else .error .malformed

/-! ### Documents in bytes -/

/-- Why bytes are no document. -/
inductive Json.ByteError where
  /-- They are no text. -/
  | notText
  /-- They are a text that is no document. -/
  | notJson (e : ParseError)
deriving DecidableEq, Repr

/-- Reads a document from bytes. -/
def Json.ofBytes (bs : List UInt8) : Except ByteError Json :=
  match Text.decodeDocument? bs with
  | none => .error .notText
  | some cs => (Json.parse (String.ofList cs)).mapError .notJson

end DeferredSave
