import DeferredSave.Catalog
import DeferredSave.Failure

/-! A store that keeps the settings in memory.

Every key has one row and one category: the last that the seed lists for it, in the place of the
first. An update is all or nothing. -/

namespace DeferredSave

/-- A stored row with its category. -/
structure Row where
  category : String
  setting : Setting
deriving DecidableEq, Repr

structure MemoryStore where
  rows : List (String × Row)
  /-- Who is named as the author of an update. -/
  actor : Option String := some "local-admin"
deriving DecidableEq, Repr

namespace MemoryStore

/-- A store with the settings of a seed. -/
def ofCategories (seed : Categories) (actor : Option String := some "local-admin") :
    MemoryStore :=
  { rows := Entries.ofList (seed.flatMap fun (category, settings) =>
      settings.map fun s => (s.key, ⟨category, s⟩))
    actor }

/-- A store with the given values, all updated at `now`. -/
def ofValues (seed : List (String × List (String × String))) (now : Stamp)
    (actor : Option String := some "local-admin") : MemoryStore :=
  ofCategories (.ofValues now seed) actor

/-- Whether one key comes before another: by code points. -/
def keyLE (a b : Setting) : Bool := !decide (b.key < a.key)

/-- The settings by category, each category sorted by key. A category stands where its first row
does. -/
def fetch (m : MemoryStore) : Categories :=
  let categories := (m.rows.map (·.2.category)).eraseDups
  categories.map fun category =>
    (category,
      ((m.rows.filter (·.2.category = category)).map (·.2.setting)).mergeSort keyLE)

/-- The first key of a batch that the store does not know. -/
def unknownKey? (m : MemoryStore) (batch : Batch) : Option String :=
  batch.keys.find? fun key => !Entries.contains key m.rows

/-- Stores one value: the store and the new row. A key that is not there changes nothing. -/
def updateOne (m : MemoryStore) (now : Stamp) (key value : String) :
    MemoryStore × Option Setting :=
  match m.rows.lookup key with
  | none => (m, none)
  | some row =>
    let setting := { row.setting with value, updatedAt := now, updatedBy := m.actor }
    ({ m with rows := Entries.put key { row with setting } m.rows }, some setting)

/-- Stores values one after the other. -/
def updateAll (m : MemoryStore) (now : Stamp) : List (String × String) → MemoryStore × List Setting
  | [] => (m, [])
  | (key, value) :: entries =>
    let (m, setting?) := m.updateOne now key value
    let (m, settings) := m.updateAll now entries
    (m, setting?.toList ++ settings)

/-- Stores a batch at the time `now` and returns the new rows. An empty batch and one with an
unknown key are refused, and nothing is stored. -/
def update (m : MemoryStore) (now : Stamp) (batch : Batch) :
    MemoryStore × Except Failure (List Setting) :=
  if batch.isEmpty then (m, .error (.save "No settings provided" (some 400) none))
  else
    match m.unknownKey? batch with
    | some key => (m, .error (.unknownSetting key))
    | none =>
      let (m, settings) := m.updateAll now batch.entries
      (m, .ok settings)

/-! ### The demonstration -/

/-- The values of the demonstration, by category. -/
def demoValues : List (String × List (String × String)) := [
  ("auth", [
    ("auth_email_enabled", "true"),
    ("auth_email_require_verification", "false"),
    ("auth_solana_challenge_expiry", "300")]),
  ("features", [
    ("feature_wallet_signing", "true"),
    ("wallet_recovery_mode", "share_c_only")]),
  ("privacy", [
    ("deposit_privacy_enabled", "false"),
    ("privacy_period_secs", "1209600"),
    ("treasury_wallet_address", "")]),
  ("withdrawal", [
    ("withdrawal_poll_interval_secs", "300"),
    ("withdrawal_batch_size", "10"),
    ("withdrawal_timeout_secs", "120"),
    ("withdrawal_percentage", "50"),
    ("partial_withdrawal_min_lamports", "1000000000")]),
  ("rate_limit", [("rate_limit_auth", "10")])]

end MemoryStore

end DeferredSave
