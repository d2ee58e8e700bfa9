import DeferredSave.Log.Record
import DeferredSave.Text.Blank
import DeferredSave.Text.Upper

/-! The logging of the service: what is logged, and how it is written.

A record is written if its level is at least that of its logger. A logger without a level of its
own has that of the nearest logger above it, and the root is above them all. -/

namespace DeferredSave.Log

/-- The loggers that say too much: they have a level of their own. -/
def noisyLoggers : List String :=
  ["uvicorn", "uvicorn.error", "uvicorn.access", "httpx", "httpcore"]

structure Logging where
  /-- The level of the root. -/
  level : Level := Level.warning
  /-- The level of the noisy loggers; at zero they have none of their own. -/
  noisyLevel : Level := 0
  /-- How records are written; nothing is written before this was set up. -/
  format? : Option LogFormat := none
  /-- What was written. -/
  output : String := ""
deriving DecidableEq, Repr

/-- A level that there is not. -/
structure UnknownLevel where
  name : String
deriving DecidableEq, Repr

def UnknownLevel.message (e : UnknownLevel) : String :=
  "module 'logging' has no attribute '" ++ e.name ++ "'"

/-- The name of a logger of this service. -/
def serviceLogger (name : String) : String := "settings_autosave." ++ name

/-- The name of the logger that is meant by a name. -/
def loggerNamed (name : String) : String := if name = "" then "root" else name

/-- A logger and those above it except for the root, the nearest first: their names end at a
point. -/
def chain (name : String) : List String :=
  let segments := Text.cut '.' name.toList
  ((List.range segments.length).reverse.map fun n => segments.take (n + 1)).map fun ss =>
    String.ofList (['.'].intercalate ss)

namespace Logging

/-- The level of a logger. -/
def levelOf (l : Logging) (name : String) : Level :=
  if l.noisyLevel ≠ 0 && (chain name).any noisyLoggers.contains then l.noisyLevel else l.level

/-- Writes a record if its level allows it. One of no level is never written. -/
def write (l : Logging) (r : Record) : Logging :=
  if 0 < r.level && l.levelOf r.logger ≤ r.level then
    match l.format?.bind fun format => (r.line format).toOption with
    | some line => { l with output := l.output ++ line ++ "\n" }
    | none => l
  else l

/-- Logs a message. -/
def log (l : Logging) (now : Rat) (logger : String) (level : Level) (message : String) : Logging :=
  l.write { logger := loggerNamed logger, level, template := message, created := now }

/-- Sets the logging up anew: the level of the root, by its name in any case, and the form of the
lines. The noisy loggers are only heard in full when everything is. -/
def setUp (l : Logging) (now : Rat) (levelName formatName : String) :
    Except UnknownLevel Logging :=
  let name := Text.upper levelName
  match Level.names.lookup name with
  | none => .error ⟨name⟩
  | some level =>
    let format := if formatName = LogFormat.structured.name then .structured else .dev
    let noisyLevel := if level = Level.debug then Level.debug else Level.warning
    let l := { l with level, noisyLevel, format? := some format }
    .ok (l.log now (serviceLogger "logging") Level.info
      ("Logging configured: level=" ++ levelName ++ ", format=" ++ formatName))

/-- The lines that were written. -/
def lines (l : Logging) : List String := Text.lines l.output

end Logging

end DeferredSave.Log
