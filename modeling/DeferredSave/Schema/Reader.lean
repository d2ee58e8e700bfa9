import DeferredSave.Schema.Issue
import DeferredSave.Instant.Stamp

/-! Readers: checks that turn a part of a document into a value. -/

namespace DeferredSave

/-- A check of one part of a document. -/
abbrev Reader (α : Type) := Json → Checked α

/-- The two names of a field: the one on the wire, under which issues are reported, and the plain
one, which counts when the first is absent. -/
structure FieldName where
  wire : String
  plain : String

/-- The name of a field of one word. -/
def FieldName.one (name : String) : FieldName := ⟨name, name⟩

namespace Reader

variable {α : Type}

/-! ### Values -/

def text : Reader String
  | .text s => .ok s
  | _ => .fault .notText

def nonEmptyText : Reader String
  | .text s => if s = "" then .fault .textTooShort else .ok s
  | _ => .fault .notText

/-- A value that may be null. -/
def nullable (r : Reader α) : Reader (Option α)
  | .null => .ok none
  | j => (r j).map some

/-- The words for true and for false, in any case. -/
def boolWord? (s : String) : Option Bool :=
  let word := s.map Char.toLower
  if word ∈ ["1", "on", "t", "true", "y", "yes"] then some true
  else if word ∈ ["0", "off", "f", "false", "n", "no"] then some false
  else none

def boolText (s : String) : Checked Bool :=
  match boolWord? s with
  | some b => .ok b
  | none => .fault .badBool

/-- An integer as a truth value. One that does not fit into a word is no truth value at all. -/
def boolOfInt (n : Int) : Checked Bool :=
  if n = 0 then .ok false
  else if n = 1 then .ok true
  else if n.natAbs < Number.powerOfTwo 63 then .fault .badBool
  else .fault .notBool

/-- A truth value, or a text or a whole number that stands for one. -/
def bool : Reader Bool
  | .bool b => .ok b
  | .text s => boolText s
  | .int n => boolOfInt n
  | .float x =>
    match x.toRat? with
    | some q => if q.den = 1 then boolOfInt q.num else .fault .notBool
    | none => .fault .notBool
  | _ => .fault .notBool

def doubleText (s : String) : Checked Number.Binary64 :=
  match Number.double? s with
  | some x => .ok x
  | none => .fault .badFloat

/-- A number, a truth value as one or zero, or a text that holds a number. An integer beyond the
range is no number. -/
def double : Reader Number.Binary64
  | .float x => .ok x
  | .int n =>
    let x := Number.Binary64.ofInt n
    if x.isFinite then .ok x else .fault .notFloat
  | .bool b => .ok (.ofInt (if b then 1 else 0))
  | .text s => doubleText s
  | _ => .fault .notFloat

/-- A stamp as a text, or as a count of seconds. -/
def stamp : Reader Stamp
  | .text s =>
    match Stamp.ofText? s with
    | some t => .ok t
    | none => .fault .badStamp
  | .int n =>
    match Stamp.ofCount? n with
    | some t => .ok t
    | none => .fault .badStamp
  | .float x =>
    match x.toRat?.bind Stamp.ofCount? with
    | some t => .ok t
    | none => .fault .badStamp
  | _ => .fault .notStamp

/-- One of a list of words. -/
def word (words : List (String × α)) : Reader α
  | .text s =>
    match words.lookup s with
    | some a => .ok a
    | none => .fault .notListed
  | _ => .fault .notListed

/-! ### Collections -/

/-- Checks each item of an array at its place. -/
def items (r : Reader α) (js : List Json) : Checked (List α) :=
  .all (js.zipIdx.map fun (j, i) => (r j).below (.item i))

def list (r : Reader α) : Reader (List α)
  | .array js => items r js
  | _ => .fault .notList

def tuple (r : Reader α) : Reader (List α)
  | .array js => items r js
  | _ => .fault .notTuple

/-- An object as a table from names to values. -/
def table (r : Reader α) : Reader (List (String × α))
  | .object es => .all (es.map fun (k, j) => ((r j).map (k, ·)).below (.field k))
  | _ => .fault .notTable

/-! ### Models -/

/-- The entries of an object that is to hold a model. -/
def model (r : List (String × Json) → Checked α) : Reader α
  | .object es => r es
  | _ => .fault .notModel

/-- The value of a field under either name; the wire name counts if both are there. -/
def fieldValue? (name : FieldName) (es : List (String × Json)) : Option Json :=
  (es.lookup name.wire).or (es.lookup name.plain)

/-- A field that must be there. -/
def required (name : FieldName) (r : Reader α) (es : List (String × Json)) : Checked α :=
  (match fieldValue? name es with
    | some j => r j
    | none => .fault .missing).below (.field name.wire)

/-- A field with a value for when it is absent. -/
def optional (name : FieldName) (default : α) (r : Reader α) (es : List (String × Json)) :
    Checked α :=
  match fieldValue? name es with
  | some j => (r j).below (.field name.wire)
  | none => .ok default

end Reader

end DeferredSave
