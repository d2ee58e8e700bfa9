import DeferredSave.Schema.Reader
import DeferredSave.Json.Printer

/-! Settings and their form on the wire. -/

namespace DeferredSave

/-- A stored setting. Its value is a text whatever it means. -/
structure Setting where
  key : String
  value : String
  description : Option String
  updatedAt : Stamp
  updatedBy : Option String
deriving DecidableEq, Repr

/-- Settings grouped by category, in order. -/
abbrev Categories := List (String × List Setting)

/-- Settings with the given values, all updated at `now` by nobody. -/
def Categories.ofValues (now : Stamp) (values : List (String × List (String × String))) :
    Categories :=
  values.map fun (category, entries) =>
    (category, entries.map fun (key, value) => ⟨key, value, none, now, none⟩)

/-- A value to be stored under a key. -/
structure Update where
  key : String
  value : String
deriving DecidableEq, Repr

/-! ### Fields -/

namespace FieldName

def updatedAt : FieldName := ⟨"updatedAt", "updated_at"⟩

def updatedBy : FieldName := ⟨"updatedBy", "updated_by"⟩

end FieldName

/-! ### Writing -/

/-- A text, or null. -/
def Json.ofText? : Option String → Json
  | some s => .text s
  | none => .null

def Setting.toJson (s : Setting) : Json :=
  .object [
    ("key", .text s.key), ("value", .text s.value), ("description", .ofText? s.description),
    ("updatedAt", .text s.updatedAt.text), ("updatedBy", .ofText? s.updatedBy)]

def Update.toJson (u : Update) : Json :=
  .object [("key", .text u.key), ("value", .text u.value)]

/-- The answer to a request for the catalog. -/
def Categories.toJson (c : Categories) : Json :=
  .object [("settings", .object (c.map fun (name, ss) => (name, .array (ss.map Setting.toJson))))]

/-- The body of a request to store a batch. -/
def Update.requestJson (us : List Update) : Json :=
  .object [("settings", .array (us.map Update.toJson))]

/-- The answer to a request to store a batch. -/
def Setting.updatedJson (ss : List Setting) : Json :=
  .object [("updated", .array (ss.map Setting.toJson))]

/-! ### Reading -/

open Reader

def Setting.reader : Reader Setting :=
  model fun es =>
    Setting.mk <$> required (.one "key") text es <*> required (.one "value") text es
      <*> optional (.one "description") none (nullable text) es
      <*> required .updatedAt stamp es <*> optional .updatedBy none (nullable text) es

def Update.reader : Reader Update :=
  model fun es =>
    Update.mk <$> required (.one "key") nonEmptyText es <*> required (.one "value") text es

def Categories.reader : Reader Categories :=
  model fun es => required (.one "settings") (table (list Setting.reader)) es

def Update.requestReader : Reader (List Update) :=
  model fun es => required (.one "settings") (list Update.reader) es

def Setting.updatedReader : Reader (List Setting) :=
  model fun es => required (.one "updated") (list Setting.reader) es

end DeferredSave
