import DeferredSave.Engine.Basic

/-! What the panel shows: the rows of the catalog as their user sees them, and the indicator. -/

namespace DeferredSave.Panel

/-- The indicator and the keys of the edits that are not saved yet. -/
structure SaveState where
  indicator : Indicator
  pendingKeys : List String
deriving DecidableEq, Repr

/-- A row: what is known about a setting, and its values. -/
structure SettingView where
  setting : Setting
  known? : Option SettingMeta
  effective : String
  /-- A duration in words. -/
  display? : Option String
  dirty : Bool
  warning? : Option String
deriving DecidableEq, Repr

/-- The rows by category, and the indicator. -/
structure View where
  categories : List (String × List SettingView)
  saveState : SaveState
deriving DecidableEq, Repr

/-! ### Building -/

variable {ω : Type}

def SaveState.of (g : Engine ω) : SaveState := ⟨g.board.indicator, g.edits.keys⟩

/-- The text in which the value of a duration is shown; only a number that is not negative has
one. -/
def displayText? (known? : Option SettingMeta) (value : String) :
    Except Number.TooManyDigits (Option String) :=
  match known? with
  | some known =>
    if known.inputType = .duration then do
      match (← leadingInt? value).filter (0 ≤ ·) with
      | some seconds => return some (← durationText seconds)
      | none => return none
    else .ok none
  | none => .ok none

/-- The row of a setting. -/
def SettingView.of (g : Engine ω) (s : Setting) : Except Number.TooManyDigits SettingView := do
  let known? := g.metas.lookup s.key
  let effective := g.effective s.key
  let display? ← displayText? known? effective
  let warning? ← g.warning s.key none
  return { setting := s, known?, effective, display?, dirty := g.dirty s.key, warning? }

/-- The whole view. A value with too many digits to be read cannot be shown. -/
def View.of (g : Engine ω) : Except Number.TooManyDigits View := do
  let categories ← g.catalog.categories.mapM fun (name, rows) =>
    return (name, ← rows.mapM (SettingView.of g))
  return { categories, saveState := .of g }

/-! ### Writing -/

def SaveState.toJson (s : SaveState) : Json :=
  .object [
    ("status", .text s.indicator.status.name), ("label", .ofText? s.indicator.label),
    ("error", .ofText? s.indicator.error), ("pendingKeys", .array (s.pendingKeys.map .text))]

def presetJson (p : Preset) : Json :=
  .object [("label", .text p.label), ("value", .text p.value)]

/-- The suggested values; an empty list of them counts as none. -/
def presetsJson (known? : Option SettingMeta) : Json :=
  match known?.bind (·.presets) with
  | none | some [] => .null
  | some presets => .array (presets.map presetJson)

/-- A row. What is not known about a setting is taken from the setting itself, or is null. -/
def SettingView.toJson (v : SettingView) : Json :=
  let s := v.setting
  .object [
    ("key", .text s.key),
    ("label", .text ((v.known?.map (·.label)).getD s.key)),
    ("description", .ofText? ((v.known?.map (·.description)).or s.description)),
    ("inputType", .ofText? (v.known?.map (·.inputType.name))),
    ("presets", presetsJson v.known?),
    ("unit", .ofText? (v.known?.bind (·.unit))),
    ("value", .text s.value), ("effectiveValue", .text v.effective),
    ("displayValue", .ofText? v.display?), ("dirty", .bool v.dirty),
    ("warning", .ofText? v.warning?), ("updatedAt", .text s.updatedAt.text),
    ("updatedBy", .ofText? s.updatedBy)]

def View.toJson (v : View) : Json :=
  .object [
    ("categories", .object (v.categories.map fun (name, rows) =>
      (name, .array (rows.map SettingView.toJson)))),
    ("autosave", v.saveState.toJson)]

end DeferredSave.Panel
