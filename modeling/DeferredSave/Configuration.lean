import DeferredSave.Log.Record
import DeferredSave.Schema.Reader
import DeferredSave.Store.Memory
import DeferredSave.Store.Remote
import DeferredSave.Text.Upper

/-! The configuration of the service, which is read from its environment. -/

namespace DeferredSave

/-- Where the settings are kept. -/
inductive Backend where
  | http | memory
deriving DecidableEq, Repr

def Backend.name : Backend → String
  | http => "http"
  | memory => "memory"

structure Configuration where
  appName : String := "Settings Autosave"
  appVersion : String := "0.1.0"
  debug : Bool := false
  logLevel : String := "INFO"
  logFormat : LogFormat := .dev
  backend : Backend := .http
  /-- The address of the service that keeps the settings. -/
  apiUrl : String := "http://localhost:8080"
  apiToken : Option String := none
  httpTimeout : Number.Binary64 := .ofInt 30
  httpRetries : Int := 3
  httpMaxConnections : Int := 10
  httpKeepAlive : Int := 5
  /-- The seconds of quiet before a save. -/
  quietPeriod : Number.Binary64 := .ofDecimal false 8 (-1)
  /-- The seconds for which a save is shown. -/
  shownFor : Number.Binary64 := .ofInt 2
  /-- The file with the descriptions of the settings. -/
  metaPath : Option String := none
  /-- The origins that may use the panel, between commas. -/
  corsOrigins : String := "http://localhost:3000"
deriving DecidableEq, Repr

namespace Configuration

/-! ### Reading -/

/-- The names and values of an environment. -/
abbrev Environment := List (String × String)

/-- The value under a name, which may be written in any case; the last one counts. -/
def value? (env : Environment) (name : String) : Option String :=
  (env.reverse.find? fun e => e.1.map Char.toLower = name).map (·.2)

/-- Reads the value under a name; without one the default counts. -/
def field {α : Type} (env : Environment) (name : String) (default : α)
    (read : String → Checked α) : Checked α :=
  match value? env name with
  | some s => (read s).below (.field name)
  | none => .ok default

/-- A number of seconds above zero. -/
def positive (s : String) : Checked Number.Binary64 :=
  match Number.double? s with
  | some x => if x.isAbove 0 then .ok x else .fault .notGreater
  | none => .fault .badFloat

def integer (s : String) : Checked Int :=
  match Number.integer? s with
  | some n => .ok n
  | none => .fault .badInt

/-- An integer between bounds. -/
def integerWithin (low high : Int) (s : String) : Checked Int :=
  match Number.integer? s with
  | some n =>
    if n < low then .fault .tooSmall else if high < n then .fault .tooLarge else .ok n
  | none => .fault .badInt

/-- The levels that may be configured. -/
def logLevels : List String := ["DEBUG", "INFO", "WARNING", "ERROR", "CRITICAL"]

/-- The name of a level, in any case. -/
def logLevelText (s : String) : Checked String :=
  let level := Text.upper s
  if level ∈ logLevels then .ok level else .fault .refused

def word {α : Type} (words : List (String × α)) (s : String) : Checked α :=
  Reader.word words (.text s)

/-- Reads the configuration from an environment. -/
def ofEnvironment (env : Environment) : Checked Configuration :=
  let d : Configuration := {}
  Configuration.mk
    <$> field env "app_name" d.appName .ok
    <*> field env "app_version" d.appVersion .ok
    <*> field env "debug" d.debug Reader.boolText
    <*> field env "log_level" d.logLevel logLevelText
    <*> field env "log_format" d.logFormat (word [("structured", .structured), ("dev", .dev)])
    <*> field env "settings_backend" d.backend (word [("http", .http), ("memory", .memory)])
    <*> field env "settings_api_url" d.apiUrl (fun s => .ok (RemoteStore.trimUrl s))
    <*> field env "settings_api_token" d.apiToken (fun s => .ok (some s))
    <*> field env "http_timeout" d.httpTimeout positive
    <*> field env "http_retry_attempts" d.httpRetries (integerWithin 0 10)
    <*> field env "http_max_connections" d.httpMaxConnections integer
    <*> field env "http_keepalive_connections" d.httpKeepAlive integer
    <*> field env "autosave_debounce_seconds" d.quietPeriod positive
    <*> field env "autosave_saved_reset_seconds" d.shownFor positive
    <*> field env "settings_meta_path" d.metaPath (fun s => .ok (some s))
    <*> field env "cors_origins" d.corsOrigins .ok

/-! ### What follows from it -/

/-- The origins that may use the panel. -/
def corsOriginList (c : Configuration) : List String :=
  ((Text.cut ',' c.corsOrigins.toList).map (Text.trim Text.isBlank)).filterMap fun origin =>
    if origin = [] then none else some (String.ofList origin)

/-- A store on the server; what is not given is taken from the configuration. -/
def remoteStore (c : Configuration) (url? token? : Option String)
    (timeout? : Option Number.Binary64) (policy? : Option RetryPolicy) : RemoteStore :=
  { baseUrl := RemoteStore.trimUrl ((url?.filter (· ≠ "")).getD c.apiUrl)
    token := token?.or c.apiToken
    timeout := (timeout?.filter (·.toRat? ≠ some 0)).getD c.httpTimeout
    policy := policy?.getD { maxRetries := c.httpRetries } }

/-- The store of a service. -/
inductive Store where
  | remote (s : RemoteStore)
  | memory (m : MemoryStore)
deriving DecidableEq, Repr

/-- Makes the store that is configured. The one in memory starts with the demo values. -/
def store (c : Configuration) (now : Stamp) : Store :=
  match c.backend with
  | .http => .remote (c.remoteStore none none none none)
  | .memory => .memory (.ofValues MemoryStore.demoValues now)

end Configuration

end DeferredSave
