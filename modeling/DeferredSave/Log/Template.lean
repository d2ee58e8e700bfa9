import DeferredSave.Json.Printer
import DeferredSave.Number.Scientific
import DeferredSave.Text.Quoted
import DeferredSave.Text.Utf8

/-! Messages with places for arguments.

A template is a text with directives in it: a percent sign, a name between parentheses, flags, a
width, a precision and a conversion, of which only the first and the last have to be there. The
arguments are taken in order, or by name from an object. -/

namespace DeferredSave.Log

/-! ### Templates -/

/-- A width or a precision. -/
inductive Amount where
  | absent
  | number (n : Nat)
  /-- The next argument says it. -/
  | argument
deriving DecidableEq, Repr

structure Directive where
  key? : Option String := none
  flags : List Char := []
  width : Amount := .absent
  precision : Amount := .absent
  /-- The conversion; at the end of the template it may be missing. -/
  conversion? : Option Char
  /-- Where in the template the conversion stands. -/
  place : Nat
deriving DecidableEq, Repr

/-- Why a message cannot be made. -/
inductive TemplateError where
  /-- The arguments do not fit: there are too few or too many, or one has the wrong type. -/
  | badArguments
  /-- The template ends inside a directive. -/
  | incomplete
  /-- It ends inside the name of an argument. -/
  | incompleteKey
  | unsupported (c : Char) (place : Nat)
  | missingKey (key : String)
  | outOfRange
  | notANumber
  /-- There is an integer with more digits than are ever written. -/
  | tooManyDigits
deriving DecidableEq, Repr

/-- The text of an error; one about the arguments has none. -/
def TemplateError.message : TemplateError → String
  | badArguments | outOfRange => ""
  | incomplete => "incomplete format"
  | incompleteKey => "incomplete format key"
  | unsupported c place =>
    "unsupported format character '"
      ++ String.singleton (if 31 ≤ c.toNat ∧ c.toNat < 126 then c else '?')
      ++ "' (0x" ++ String.ofList (Nat.toDigits 16 c.toNat) ++ ") at index "
      ++ Number.natText place
  | missingKey key => key
  | notANumber => "cannot convert float NaN to integer"
  | tooManyDigits => Number.TooManyDigits.written.message

inductive Piece where
  | literal (c : Char)
  | directive (d : Directive)
  /-- The name of an argument that the template does not end. -/
  | openKey
deriving DecidableEq, Repr

/-- Reads the name of an argument up to the parenthesis that closes it; parentheses inside a name
come in pairs. -/
def readKey (depth : Nat) (read : List Char) : List Char → Option (String × List Char)
  | [] => none
  | ')' :: cs =>
    if depth = 0 then some (String.ofList read.reverse, cs)
    else readKey (depth - 1) (')' :: read) cs
  | '(' :: cs => readKey (depth + 1) ('(' :: read) cs
  | c :: cs => readKey depth (c :: read) cs

def isFlag (c : Char) : Bool := ['-', '+', ' ', '#', '0'].contains c

/-- Reads a width or a precision. -/
def readAmount : List Char → Amount × List Char
  | '*' :: cs => (.argument, cs)
  | cs =>
    match cs.takeWhile Number.isAsciiDigit with
    | [] => (.absent, cs)
    | ds => (.number (Number.natOfChars ds), cs.dropWhile Number.isAsciiDigit)

/-- Reads the precision, if a point announces one; nothing after the point is zero. -/
def readPrecision : List Char → Amount × List Char
  | '.' :: cs =>
    match readAmount cs with
    | (.absent, cs) => (.number 0, cs)
    | r => r
  | cs => (.absent, cs)

/-- Skips the mark of a size, which means nothing. -/
def skipSize : List Char → List Char
  | c :: cs => if c = 'h' || c = 'l' || c = 'L' then cs else c :: cs
  | [] => []

/-- Reads a directive after its name, in a template of `size` characters. -/
def readDirective (size : Nat) (key? : Option String) (cs : List Char) : Directive × List Char :=
  let flags := cs.takeWhile isFlag
  let (width, cs) := readAmount (cs.dropWhile isFlag)
  let (precision, cs) := readPrecision cs
  let cs := skipSize cs
  ({ key?, flags, width, precision, conversion? := cs.head?, place := size - cs.length }, cs.tail)

/-- The pieces of a template of `size` characters, where two percent signs stand for one; `fuel` is
at least the length of what is left. -/
def readPieces (size : Nat) : (fuel : Nat) → List Char → List Piece
  | 0, _ => []
  | _ + 1, [] => []
  | fuel + 1, '%' :: '%' :: cs => .literal '%' :: readPieces size fuel cs
  | fuel + 1, '%' :: '(' :: cs =>
    match readKey 0 [] cs with
    | some (key, cs) =>
      let (d, rest) := readDirective size (some key) cs
      .directive d :: readPieces size fuel rest
    | none => [.openKey]
  | fuel + 1, '%' :: cs =>
    let (d, rest) := readDirective size none cs
    .directive d :: readPieces size fuel rest
  | fuel + 1, c :: cs => .literal c :: readPieces size fuel cs

/-- The pieces of a template. -/
def pieces (template : String) : List Piece :=
  let cs := template.toList
  readPieces cs.length cs.length cs

/-! ### Arguments -/

/-- The arguments that are left. -/
inductive Arguments where
  | inOrder (left : List Json)
  /-- An object: its values are taken by name, or it is taken once as a whole. -/
  | byName (es : List (String × Json)) (taken : Bool)
deriving Repr

/-- A single object that is not empty gives its values by name. -/
def Arguments.of : List Json → Arguments
  | [.object (e :: es)] => .byName (e :: es) false
  | js => .inOrder js

namespace Arguments

/-- Whether the arguments have names. -/
def areNamed : Arguments → Bool
  | inOrder _ => false
  | byName .. => true

/-- The next argument. -/
def next : Arguments → Except TemplateError (Json × Arguments)
  | inOrder (j :: left) => .ok (j, inOrder left)
  | inOrder [] => .error .badArguments
  | byName es taken => if taken then .error .badArguments else .ok (.object es, byName es true)

/-- The argument of a name. -/
def named (key : String) : Arguments → Except TemplateError (Json × Arguments)
  | inOrder _ => .error .badArguments
  | byName es _ =>
    match es.lookup key with
    | some j => .ok (j, byName es true)
    | none => .error (.missingKey key)

/-- Whether arguments are left that nobody asked for. -/
def leftOver : Arguments → Bool
  | inOrder left => !left.isEmpty
  | byName .. => false

/-- The value of a width or a precision, which may not be beyond a limit. -/
def amount (a : Arguments) (limit : Nat) : Amount → Except TemplateError (Option Int × Arguments)
  | .absent => .ok (none, a)
  | .number n => .ok (some n, a)
  | .argument => do
    match ← a.next with
    | (.int n, a) => if limit < n.natAbs then .error .outOfRange else return (some n, a)
    | (.bool b, a) => return (some (if b then 1 else 0), a)
    | _ => .error .badArguments

end Arguments

/-! ### Writing an argument -/

/-- A number, with what stands in front of its digits. -/
structure NumberText where
  sign : String
  mark : String := ""
  digits : String

/-- An integer; the fraction of a number that has one is cut off. -/
def truncated : Json → Except TemplateError Int
  | .int n => .ok n
  | .bool b => .ok (if b then 1 else 0)
  | .float .nan => .error .notANumber
  | .float x =>
    match x.toRat? with
    | some q => .ok (if q < 0 then -(-q).floor else q.floor)
    | none => .error .outOfRange
  | _ => .error .badArguments

/-- A document with its integers written out in decimal, unless one of them is too long. -/
def written (j : Json) (text : Json → String) : Except TemplateError String :=
  if j.isWritable then .ok (text j) else .error .tooManyDigits

/-- An integer that is short enough to be written out in decimal. -/
def decimal (n : Int) : Except TemplateError Int :=
  if (Json.int n).isWritable then .ok n else .error .tooManyDigits

def whole : Json → Except TemplateError Int
  | .int n => .ok n
  | .bool b => .ok (if b then 1 else 0)
  | _ => .error .badArguments

/-- A double; an integer beyond the range has none. -/
def double : Json → Except TemplateError Number.Binary64
  | .int n =>
    let x := Number.Binary64.ofInt n
    if x.isFinite then .ok x else .error .outOfRange
  | .bool b => .ok (.ofInt (if b then 1 else 0))
  | .float x => .ok x
  | _ => .error .badArguments

/-- The sign of a number. -/
def signText (flags : List Char) (negative : Bool) : String :=
  if negative then "-"
  else if flags.contains '+' then "+"
  else if flags.contains ' ' then " "
  else ""

/-- An integer in a base, with at least as many digits as the precision says. -/
def integerText (flags : List Char) (precision : Option Int) (base : Nat) (mark : String)
    (n : Int) : NumberText :=
  let ds := Nat.toDigits base n.natAbs
  let zeros := List.replicate ((precision.getD 0).toNat - ds.length) '0'
  { sign := signText flags (decide (n < 0)), mark := if flags.contains '#' then mark else ""
    digits := String.ofList (zeros ++ ds) }

/-- A double in one of the forms `e`, `f` and `g`. -/
def doubleText (flags : List Char) (precision : Option Int) (form : Char)
    (x : Number.Binary64) : NumberText :=
  let places := (precision.getD 6).toNat
  let full := flags.contains '#'
  let write (n d : Nat) : String :=
    match form with
    | 'e' => Number.Binary64.exponentialMagnitude places full n d
    | 'f' =>
      let s := Number.fixedMagnitude places ((n : Rat) / (d : Rat))
      if full && places = 0 then s ++ "." else s
    | _ => Number.Binary64.generalMagnitude (max 1 places) full n d
  let (negative, digits) := x.signed write
  { sign := signText flags negative, digits }

/-- Fills a text up to a width. -/
def padText (left : Bool) (width : Nat) (s : String) : String :=
  let fill := String.ofList (List.replicate (width - s.length) ' ')
  if left then s ++ fill else fill ++ s

/-- Fills a number up to a width: with blanks before or after it, or with zeros after the sign. -/
def padNumber (left zeros : Bool) (width : Nat) (t : NumberText) : String :=
  let front := t.sign ++ t.mark
  if zeros && !left then
    let fill := List.replicate (width - front.length - t.digits.length) '0'
    front ++ String.ofList fill ++ t.digits
  else padText left width (front ++ t.digits)

/-- The character that an argument is. -/
def character : Json → Except TemplateError Char
  | .text s =>
    match s.toList with
    | [c] => .ok c
    | _ => .error .badArguments
  | j => do
    let n ← whole j
    if 0 ≤ n ∧ n < 0x110000 then return Text.Utf8.charOf n.toNat else .error .outOfRange

/-- A text with ASCII characters alone. -/
def asciiText (s : String) : String :=
  String.ofList (s.toList.flatMap fun c => if c.toNat < 0x80 then [c] else Text.escapeCode c)

def upperCase (t : NumberText) : NumberText :=
  { t with mark := t.mark.toUpper, digits := t.digits.toUpper }

/-- Writes an argument by a conversion, as a directive says. -/
def write (d : Directive) (conversion : Char) (width precision : Option Int) (j : Json) :
    Except TemplateError String := do
  let left := d.flags.contains '-' || width.any (· < 0)
  let width := (width.getD 0).natAbs
  let precision := precision.map (max 0)
  let text (s : String) : String :=
    padText left width (match precision with
      | some n => String.ofList (s.toList.take n.toNat)
      | none => s)
  let number (t : NumberText) : String := padNumber left (d.flags.contains '0') width t
  match conversion with
  | 's' => return text (← written j Text.messageOf)
  | 'r' => return text (← written j Text.quoteJson)
  | 'a' => return text (asciiText (← written j Text.quoteJson))
  | 'c' => return padText left width (String.singleton (← character j))
  | 'd' | 'i' | 'u' =>
    return number (integerText d.flags precision 10 "" (← decimal (← truncated j)))
  | 'o' => return number (integerText d.flags precision 8 "0o" (← whole j))
  | 'x' => return number (integerText d.flags precision 16 "0x" (← whole j))
  | 'X' => return number (upperCase (integerText d.flags precision 16 "0x" (← whole j)))
  | 'e' | 'f' | 'g' => return number (doubleText d.flags precision conversion (← double j))
  | 'E' | 'F' | 'G' =>
    return number (upperCase (doubleText d.flags precision conversion.toLower (← double j)))
  | c => .error (.unsupported c d.place)

/-! ### Filling a template -/

/-- The greatest width. -/
def widthLimit : Nat := 9223372036854775807

/-- The greatest precision. -/
def precisionLimit : Nat := 2147483647

/-- Writes one piece. -/
def fillPiece (a : Arguments) : Piece → Except TemplateError (String × Arguments)
  | .literal c => .ok (String.singleton c, a)
  | .openKey => if a.areNamed then .error .incompleteKey else .error .badArguments
  | .directive d => do
    let chosen? ←
      match d.key? with
      | some key => (a.named key).map some
      | none => pure none
    let a := (chosen?.map (·.2)).getD a
    let (width, a) ← a.amount widthLimit d.width
    let (precision, a) ← a.amount precisionLimit d.precision
    match d.conversion? with
    | none => .error .incomplete
    | some conversion =>
      let (j, a) ←
        match chosen? with
        | some (j, _) => pure (j, a)
        | none => a.next
      return (← write d conversion width precision j, a)

/-- Writes pieces in order. -/
def fillPieces : Arguments → List Piece → Except TemplateError String
  | a, [] => if a.leftOver then .error .badArguments else .ok ""
  | a, p :: ps => do
    let (s, a) ← fillPiece a p
    return s ++ (← fillPieces a ps)

/-- Fills the arguments into a template. Without arguments the template stands for itself. -/
def fill (template : String) (args : List Json) : Except TemplateError String :=
  if args.isEmpty then .ok template else fillPieces (.of args) (pieces template)

example : (fill "%s has %5.1f%%" [.text "x", .int 7]).toOption = some "x has   7.0%" := by
  decide +kernel

end DeferredSave.Log
