import DeferredSave.Setting

/-! What a client of the panel sends. -/

namespace DeferredSave.Panel

open Reader

/-- A new value for one setting. -/
structure EditRequest where
  value : String
deriving DecidableEq, Repr

/-- The keys whose edits are to be dropped; without keys all of them. -/
structure DiscardRequest where
  keys : Option (List String)
deriving DecidableEq, Repr

def EditRequest.ofEntries (es : List (String × Json)) : Checked EditRequest :=
  EditRequest.mk <$> required (.one "value") text es

def DiscardRequest.ofEntries (es : List (String × Json)) : Checked DiscardRequest :=
  DiscardRequest.mk <$> optional (.one "keys") none (nullable (list text)) es

def EditRequest.reader : Reader EditRequest := model EditRequest.ofEntries

def DiscardRequest.reader : Reader DiscardRequest := model DiscardRequest.ofEntries

def EditRequest.toJson (r : EditRequest) : Json := .object [("value", .text r.value)]

def DiscardRequest.toJson (r : DiscardRequest) : Json :=
  .object [("keys", match r.keys with
    | some keys => .array (keys.map .text)
    | none => .null)]

end DeferredSave.Panel
