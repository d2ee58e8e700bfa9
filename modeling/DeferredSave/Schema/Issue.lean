import DeferredSave.Json.Basic

/-! What is wrong with a document, and where.

Checking a document does not stop at the first fault: it gathers the issues of all fields, in the
order in which the fields are declared and the items of a list stand. -/

namespace DeferredSave

/-- One step from a document into one of its parts. -/
inductive PlaceStep where
  | field (name : String)
  | item (index : Nat)
deriving DecidableEq, Repr

/-- The way from the whole document to a part. -/
abbrev Place := List PlaceStep

/-- What is wrong with a part. -/
inductive Fault where
  | missing
  | notText | textTooShort
  | notModel | notModelOrObject | notTable | notList | notTuple
  | notListed
  | notBool | badBool
  | notFloat | badFloat | badInt
  | notGreater | tooSmall | tooLarge
  | refused
  | notStamp | badStamp
  | notJson
deriving DecidableEq, Repr

/-- The code under which a fault is reported. -/
def Fault.code : Fault → String
  | missing => "missing"
  | notText => "string_type"
  | textTooShort => "string_too_short"
  | notModel => "model_type"
  | notModelOrObject => "model_attributes_type"
  | notTable => "dict_type"
  | notList => "list_type"
  | notTuple => "tuple_type"
  | notListed => "literal_error"
  | notBool => "bool_type"
  | badBool => "bool_parsing"
  | notFloat => "float_type"
  | badFloat => "float_parsing"
  | badInt => "int_parsing"
  | notGreater => "greater_than"
  | tooSmall => "greater_than_equal"
  | tooLarge => "less_than_equal"
  | refused => "value_error"
  | notStamp => "datetime_type"
  | badStamp => "datetime_parsing"
  | notJson => "json_invalid"

structure Issue where
  place : Place
  fault : Fault
deriving DecidableEq, Repr

/-- The outcome of a check: the value, or what is wrong. -/
inductive Checked (α : Type) where
  | ok (value : α)
  | bad (issues : List Issue)
deriving Repr

namespace Checked

variable {α β : Type}

/-- The outcome with one issue at the part that was checked. -/
def fault (f : Fault) : Checked α := bad [⟨[], f⟩]

def map (f : α → β) : Checked α → Checked β
  | ok a => ok (f a)
  | bad issues => bad issues

/-- Applies a checked function to a checked value; the issues of both are kept. -/
def ap (f : Checked (α → β)) (x : Checked α) : Checked β :=
  match f, x with
  | ok f, ok a => ok (f a)
  | ok _, bad issues => bad issues
  | bad issues, ok _ => bad issues
  | bad issues, bad more => bad (issues ++ more)

instance : Functor Checked := ⟨map, map ∘ Function.const _⟩
instance : Applicative Checked where
  pure := ok
  seq f x := ap f (x ())

/-- The outcome as that of a part, one step below. -/
def below (step : PlaceStep) : Checked α → Checked α
  | ok a => ok a
  | bad issues => bad (issues.map fun i => { i with place := step :: i.place })

/-- Checks all items of a list. -/
def all : List (Checked α) → Checked (List α)
  | [] => ok []
  | x :: xs => ap (map List.cons x) (all xs)

def toExcept : Checked α → Except (List Issue) α
  | ok a => .ok a
  | bad issues => .error issues

end Checked

end DeferredSave
