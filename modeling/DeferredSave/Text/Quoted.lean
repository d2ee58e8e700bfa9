import DeferredSave.Json.Printer
import DeferredSave.Text.Printable

/-! Texts and documents in quotes, for messages.

A text stands in single quotes, or in double quotes if it holds single ones and no double ones.
Characters that have no visible form are escaped by their code. -/

namespace DeferredSave.Text

/-- A code point in `width` hexadecimal digits. -/
def hexText : (width n : Nat) → List Char
  | 0, _ => []
  | width + 1, n => hexText width (n / 16) ++ [Json.hexChar (n % 16)]

/-- The escape of a character by its code. -/
def escapeCode (c : Char) : List Char :=
  let n := c.toNat
  if n < 0x100 then '\\' :: 'x' :: hexText 2 n
  else if n < 0x10000 then '\\' :: 'u' :: hexText 4 n
  else '\\' :: 'U' :: hexText 8 n

/-- A character between the given quotes. -/
def quoteChar (mark c : Char) : List Char :=
  if c = mark ∨ c = '\\' then ['\\', c]
  else if c = '\n' then ['\\', 'n']
  else if c = '\r' then ['\\', 'r']
  else if c = '\t' then ['\\', 't']
  else if isPrintable c then [c]
  else escapeCode c

/-- The quotes for a text. -/
def quoteMark (cs : List Char) : Char :=
  if cs.contains '\'' && !cs.contains '"' then '"' else '\''

/-- A text in quotes. -/
def quote (s : String) : String :=
  let cs := s.toList
  let mark := quoteMark cs
  String.ofList (mark :: (cs.flatMap (quoteChar mark) ++ [mark]))

/-- Texts in quotes between brackets. -/
def quoteList (ss : List String) : String :=
  "[" ++ ", ".intercalate (ss.map quote) ++ "]"

mutual

/-- A document inside another, for a message. -/
def quoteJson : Json → String
  | .null => "None"
  | .bool b => if b then "True" else "False"
  | .int n => Number.intText n
  | .float x => x.text
  | .text s => quote s
  | .array xs => "[" ++ ", ".intercalate (quoteItems xs) ++ "]"
  | .object es => "\x7b" ++ ", ".intercalate (quoteEntries es) ++ "\x7d"

def quoteItems : List Json → List String
  | [] => []
  | x :: xs => quoteJson x :: quoteItems xs

def quoteEntries : List (String × Json) → List String
  | [] => []
  | (k, v) :: es => (quote k ++ ": " ++ quoteJson v) :: quoteEntries es

end

/-- A document as a message: a text stands for itself. -/
def messageOf : Json → String
  | .text s => s
  | j => quoteJson j

end DeferredSave.Text
