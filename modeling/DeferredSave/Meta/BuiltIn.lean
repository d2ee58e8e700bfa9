import DeferredSave.Meta.Basic

/-! The descriptions that come with the library. -/

namespace DeferredSave

/-- A description apart from its key; what is not given is absent. -/
structure Description where
  label : String
  description : String
  inputType : InputType
  presets : Option (List Preset) := none
  min : Option Number.Binary64 := none
  max : Option Number.Binary64 := none
  step : Option Number.Binary64 := none
  unit : Option String := none
  placeholder : Option String := none
  threshold : Option Threshold := none

/-- The entry of a key with a description. -/
def described (key : String) (d : Description) : String × SettingMeta :=
  (key, {
    key, label := d.label, description := d.description, inputType := d.inputType
    presets := d.presets, min := d.min, max := d.max, step := d.step, unit := d.unit
    multiline := none, placeholder := d.placeholder, threshold := d.threshold })

/-- The table that is used unless the configuration names another. -/
def MetaTable.builtIn : MetaTable := [
  described "auth_email_enabled" {
    label := "Enable Email Authentication"
    description := "Allow users to sign up and log in with email/password."
    inputType := .boolean },
  described "auth_email_require_verification" {
    label := "Require Email Verification"
    description := "Users must verify their email address before they can log in."
    inputType := .boolean },
  described "auth_solana_challenge_expiry" {
    label := "Challenge Expiry"
    description := "How long a wallet signature challenge is valid."
    inputType := .duration
    presets := some [⟨"1 minute", "60"⟩, ⟨"5 minutes", "300"⟩, ⟨"10 minutes", "600"⟩]
    min := some (.ofInt 60) },
  described "feature_wallet_signing" {
    label := "Enable Embedded Wallet"
    description := "Enable the embedded wallet for transaction signing."
    inputType := .boolean },
  described "wallet_recovery_mode" {
    label := "Recovery Mode"
    description := "Controls whether users can recover their embedded wallet seed. No Recovery "
      ++ "is required when Private Deposits are enabled."
    inputType := .select
    presets := some [
      ⟨"Share C Only (Recommended)", "share_c_only"⟩, ⟨"Full Seed Phrase", "full_seed"⟩,
      ⟨"No Recovery (Required for Private Deposits)", "none"⟩] },
  described "deposit_privacy_enabled" {
    label := "Enable Private Deposits"
    description := "Hold deposits for a privacy period before withdrawal."
    inputType := .boolean },
  described "privacy_period_secs" {
    label := "Privacy Period"
    description := "How long deposits are held before withdrawal to provide timing privacy."
    inputType := .duration
    presets := some [
      ⟨"Disabled", "0"⟩, ⟨"1 hour", "3600"⟩, ⟨"24 hours", "86400"⟩, ⟨"7 days", "604800"⟩,
      ⟨"14 days", "1209600"⟩, ⟨"30 days", "2592000"⟩]
    min := some (.ofInt 0)
    threshold := some {
      above := none, below := some (.ofInt 3600)
      message := "Very short privacy periods may not provide adequate timing protection." } },
  described "treasury_wallet_address" {
    label := "Treasury Wallet Address"
    description := "Solana wallet address where funds are sent."
    inputType := .text
    placeholder := some "e.g., 7xKXtg2CW87d97TXJSDpbD5jBkheTqA83TZRuJosgAsU" },
  described "withdrawal_poll_interval_secs" {
    label := "Worker Poll Interval"
    description := "How often the withdrawal worker checks for deposits ready to process."
    inputType := .duration
    presets := some [⟨"1 minute", "60"⟩, ⟨"5 minutes", "300"⟩, ⟨"1 hour", "3600"⟩]
    min := some (.ofInt 60)
    threshold := some {
      above := none, below := some (.ofInt 60)
      message := "Polling more than once per minute may cause excessive load." } },
  described "withdrawal_batch_size" {
    label := "Batch Size"
    description := "Maximum number of withdrawals to process in a single batch."
    inputType := .select
    presets := some [⟨"1 (Sequential)", "1"⟩, ⟨"10 (Recommended)", "10"⟩, ⟨"100 (Max)", "100"⟩]
    min := some (.ofInt 1)
    max := some (.ofInt 100) },
  described "withdrawal_timeout_secs" {
    label := "Transaction Timeout"
    description := "How long to wait for a withdrawal transaction to confirm."
    inputType := .duration
    min := some (.ofInt 30)
    threshold := some {
      above := none, below := some (.ofInt 30)
      message := "Very short timeouts may cause premature failure on slow networks." } },
  described "withdrawal_percentage" {
    label := "Withdrawal Percentage"
    description := "Percentage of ready funds to withdraw each cycle."
    inputType := .percentage
    presets := some [⟨"25%", "25"⟩, ⟨"50%", "50"⟩, ⟨"100% (All at once)", "100"⟩]
    min := some (.ofInt 1)
    max := some (.ofInt 100)
    step := some (.ofInt 5)
    threshold := some {
      above := some (.ofInt 75), below := none
      message := "High percentages may reduce timing privacy by processing most withdrawals "
        ++ "together." } },
  described "partial_withdrawal_min_lamports" {
    label := "Min Balance for Partial"
    description := "Minimum account balance (in lamports) before partial withdrawals are "
      ++ "considered."
    inputType := .select
    min := some (.ofInt 0)
    threshold := some {
      above := none, below := some (.ofInt 500000000)
      message := "Very small withdrawals may lose significant value to fees." } },
  described "rate_limit_auth" {
    label := "Auth Request Limit"
    description := "Maximum authentication attempts per IP per window."
    inputType := .select
    presets := some [⟨"5 (Strict)", "5"⟩, ⟨"10 (Recommended)", "10"⟩, ⟨"50 (Permissive)", "50"⟩]
    min := some (.ofInt 1)
    unit := some "requests"
    threshold := some {
      above := some (.ofInt 20), below := none
      message := "High auth limits may allow brute force attempts." } }]

end DeferredSave
