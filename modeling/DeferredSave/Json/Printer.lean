import DeferredSave.Json.Basic

/-! Writing JSON documents on one line.

A comma or a colon is followed by a space, and every character outside the printable ASCII range is
escaped, so the text has no line break and consists of ASCII characters alone. -/

namespace DeferredSave.Json

/-- The digit of a value below sixteen. -/
def hexChar (n : Nat) : Char :=
  if n < 10 then Char.ofNat ('0'.toNat + n) else Char.ofNat ('a'.toNat + (n - 10))

/-- The escape of a code unit. -/
def escapeUnit (n : Nat) : List Char :=
  ['\\', 'u', hexChar (n / 4096 % 16), hexChar (n / 256 % 16), hexChar (n / 16 % 16),
    hexChar (n % 16)]

/-- A character inside a string. A character beyond U+FFFF is written as a pair of code units. -/
def escapeChar (c : Char) : List Char :=
  if c = '"' then ['\\', '"']
  else if c = '\\' then ['\\', '\\']
  else if c = '\n' then ['\\', 'n']
  else if c = '\r' then ['\\', 'r']
  else if c = '\t' then ['\\', 't']
  else if c = '\x08' then ['\\', 'b']
  else if c = '\x0C' then ['\\', 'f']
  else if 0x20 ≤ c.toNat ∧ c.toNat < 0x7F then [c]
  else if c.toNat < 0x10000 then escapeUnit c.toNat
  else
    escapeUnit (0xD800 + (c.toNat - 0x10000) / 0x400)
      ++ escapeUnit (0xDC00 + (c.toNat - 0x10000) % 0x400)

/-- A string in quotes. -/
def quote (s : String) : String :=
  String.ofList ('"' :: (s.toList.flatMap escapeChar ++ ['"']))

mutual

/-- A document on one line. -/
def print : Json → String
  | null => "null"
  | bool b => if b then "true" else "false"
  | int n => Number.intText n
  | float x => x.textWith "NaN" "Infinity"
  | text s => quote s
  | array [] => "[]"
  | array (x :: xs) => "[" ++ print x ++ printItems xs ++ "]"
  | object [] => "\x7b\x7d"
  | object ((k, v) :: es) =>
    "\x7b" ++ quote k ++ ": " ++ print v ++ printEntries es ++ "\x7d"

/-- The items after the first, each behind a comma. -/
def printItems : List Json → String
  | [] => ""
  | x :: xs => ", " ++ print x ++ printItems xs

/-- The entries after the first, each behind a comma. -/
def printEntries : List (String × Json) → String
  | [] => ""
  | (k, v) :: es => ", " ++ quote k ++ ": " ++ print v ++ printEntries es

end

/-! ### What can be written -/

mutual

/-- Whether no integer of a document has more digits than are ever written. -/
def isWritable : Json → Bool
  | int n => decide (Number.Writable n)
  | array xs => areWritable xs
  | object es => haveWritable es
  | _ => true

def areWritable : List Json → Bool
  | [] => true
  | x :: xs => isWritable x && areWritable xs

/-- The same for the values of entries. -/
def haveWritable : List (String × Json) → Bool
  | [] => true
  | (_, v) :: es => isWritable v && haveWritable es

end

end DeferredSave.Json
