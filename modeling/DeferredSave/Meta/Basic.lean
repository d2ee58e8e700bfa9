import DeferredSave.Setting
import DeferredSave.Json.Parser

/-! What is known about a setting apart from its value: its label, the control it is edited with,
suggested values, and the bounds outside of which a warning is shown. -/

namespace DeferredSave

/-- The control with which a setting is edited. -/
inductive InputType where
  | number | duration | percentage | select | text | boolean | secret | tokenSymbolList | tokenList
deriving DecidableEq, Repr

/-- The controls under their names. -/
def InputType.names : List (String × InputType) := [
  ("number", number), ("duration", duration), ("percentage", percentage), ("select", select),
  ("text", text), ("boolean", boolean), ("secret", secret),
  ("tokenSymbolList", tokenSymbolList), ("tokenList", tokenList)]

def InputType.name : InputType → String
  | number => "number"
  | duration => "duration"
  | percentage => "percentage"
  | select => "select"
  | text => "text"
  | boolean => "boolean"
  | secret => "secret"
  | tokenSymbolList => "tokenSymbolList"
  | tokenList => "tokenList"

theorem InputType.lookup_name (t : InputType) : names.lookup t.name = some t := by
  cases t <;> decide +kernel

/-- A suggested value. -/
structure Preset where
  label : String
  value : String
deriving DecidableEq, Repr

/-- The bounds outside of which a warning is shown. -/
structure Threshold where
  above : Option Number.Binary64
  below : Option Number.Binary64
  message : String
deriving DecidableEq, Repr

/-- The description of a setting. -/
structure SettingMeta where
  key : String
  label : String
  description : String
  inputType : InputType
  presets : Option (List Preset)
  min : Option Number.Binary64
  max : Option Number.Binary64
  step : Option Number.Binary64
  unit : Option String
  multiline : Option Bool
  placeholder : Option String
  threshold : Option Threshold
deriving DecidableEq, Repr

/-- The descriptions by key, in order. -/
abbrev MetaTable := List (String × SettingMeta)

/-! ### Reading -/

open Reader

def Preset.reader : Reader Preset :=
  model fun es =>
    Preset.mk <$> required (.one "label") text es <*> required (.one "value") text es

def Threshold.reader : Reader Threshold :=
  model fun es =>
    Threshold.mk <$> optional (.one "above") none (nullable double) es
      <*> optional (.one "below") none (nullable double) es
      <*> required (.one "message") text es

def SettingMeta.ofEntries (es : List (String × Json)) : Checked SettingMeta :=
  SettingMeta.mk <$> required (.one "key") text es <*> required (.one "label") text es
    <*> optional (.one "description") "" text es
    <*> required ⟨"inputType", "input_type"⟩ (word InputType.names) es
    <*> optional (.one "presets") none (nullable (tuple Preset.reader)) es
    <*> optional (.one "min") none (nullable double) es
    <*> optional (.one "max") none (nullable double) es
    <*> optional (.one "step") none (nullable double) es
    <*> optional (.one "unit") none (nullable text) es
    <*> optional (.one "multiline") none (nullable bool) es
    <*> optional (.one "placeholder") none (nullable text) es
    <*> optional ⟨"warningThreshold", "warning_threshold"⟩ none (nullable Threshold.reader) es

def SettingMeta.reader : Reader SettingMeta := model SettingMeta.ofEntries

/-- Why a document holds no table of descriptions. -/
inductive MetaError where
  /-- The text is not a document. -/
  | notJson (e : Json.ParseError)
  /-- The document in the file is not an object. -/
  | notObject
  /-- An entry is not an object. -/
  | entryNotObject (key : String)
  /-- An entry is an object but no description. -/
  | badEntry (key : String) (issues : List Issue)
  /-- There is no file. -/
  | noFile

namespace MetaTable

/-- Reads one entry. The key of the entry is the key of the description unless the entry names
another. -/
def readEntry (key : String) : Json → Except MetaError SettingMeta
  | .object es =>
    match SettingMeta.ofEntries (es.foldl (fun joined (k, v) => Entries.put k v joined)
        [("key", .text key)]) with
    | .ok m => .ok m
    | .bad issues => .error (.badEntry key issues)
  | _ => .error (.entryNotObject key)

/-- Reads the entries of a table up to the first that is wrong. A repeated key keeps its first
place and its last entry. -/
def ofEntries (entries : List (String × Json)) : Except MetaError MetaTable :=
  (Entries.ofList entries).mapM fun (key, j) => do return (key, ← readEntry key j)

/-- Reads a table from the text of a file. -/
def ofText (s : String) : Except MetaError MetaTable :=
  match Json.parse s with
  | .error e => .error (.notJson e)
  | .ok (.object es) => ofEntries es
  | .ok _ => .error .notObject

end MetaTable

end DeferredSave
