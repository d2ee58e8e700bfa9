import DeferredSave.Number.Shortest
import DeferredSave.Entries

/-! JSON documents.

An object is a list of entries in the order of the document; `Json.object` is only ever built from
entries with different keys by the reader, where a repeated key keeps its first place and its last
value. -/

namespace DeferredSave

/-- A JSON document. Integers are kept apart from decimals, and the words for NaN and the
infinities are decimals. -/
inductive Json where
  | null
  | bool (b : Bool)
  | int (n : Int)
  | float (x : Number.Binary64)
  | text (s : String)
  | array (items : List Json)
  | object (entries : List (String × Json))
deriving Inhabited, Repr

namespace Json

/-- The value of a key of an object. -/
def get? (key : String) : Json → Option Json
  | object entries => entries.lookup key
  | _ => none

end Json

end DeferredSave
