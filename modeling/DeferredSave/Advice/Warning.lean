import DeferredSave.Advice.LeadingInt
import DeferredSave.Meta.Basic

/-! Warnings beside a value. They advise and never stop an edit or a save.

A rule looks at the values of several settings; a threshold looks at the leading integer of one.
The message of a rule comes before that of a threshold. -/

namespace DeferredSave

/-! ### Thresholds -/

/-- Whether an integer lies strictly outside the bounds that are set. -/
def Threshold.isCrossedBy (t : Threshold) (n : Int) : Bool :=
  t.above.any (·.isBelow n) || t.below.any (·.isAbove n)

/-- The warning for the value of a key: the one given from outside, or the threshold's message if
the leading integer crosses it. -/
def MetaTable.warning (metas : MetaTable) (key value : String) (external : Option String) :
    Except Number.TooManyDigits (Option String) :=
  match external with
  | some message => .ok (some message)
  | none =>
    match (metas.lookup key).bind (·.threshold) with
    | none => .ok none
    | some t =>
      (leadingInt? value).map fun number? =>
        if number?.any t.isCrossedBy then some t.message else none

/-! ### Rules across settings -/

/-- A condition on the value of one setting. -/
inductive Condition where
  | equal (key value : String)
  | differs (key value : String)
deriving DecidableEq, Repr

def Condition.holds (values : String → String) : Condition → Bool
  | equal key value => values key == value
  | differs key value => values key != value

/-- A warning on a key that applies when all conditions hold. -/
structure CrossRule where
  key : String
  message : String
  conditions : List Condition
deriving DecidableEq, Repr

def CrossRule.applies (values : String → String) (r : CrossRule) : Bool :=
  r.conditions.all (·.holds values)

/-- The messages of the rules that apply, by key in rule order; the first rule for a key counts. -/
def CrossRule.warnings (values : String → String) : List CrossRule → List (String × String)
  | [] => []
  | r :: rules =>
    let rest := warnings values rules
    if r.applies values then (r.key, r.message) :: Entries.erase r.key rest else rest

/-- The rules that hold for every installation: private deposits need a wallet without recovery,
and they need the embedded wallet. -/
def CrossRule.standard : List CrossRule := [
  { key := "wallet_recovery_mode"
    message := "Private deposits require No Recovery mode. "
      ++ "Deposits will fail with the current setting."
    conditions :=
      [.equal "deposit_privacy_enabled" "true", .differs "wallet_recovery_mode" "none"] },
  { key := "feature_wallet_signing"
    message := "Private deposits are enabled but require the embedded wallet."
    conditions :=
      [.equal "deposit_privacy_enabled" "true", .differs "feature_wallet_signing" "true"] }]

end DeferredSave
