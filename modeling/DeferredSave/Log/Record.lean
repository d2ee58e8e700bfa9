import DeferredSave.Failure
import DeferredSave.Instant.Calendar
import DeferredSave.Json.Printer
import DeferredSave.Log.Level
import DeferredSave.Log.Template

/-! Log records and the lines in which they are written.

A line is a document on its own, or a text for those who develop. -/

namespace DeferredSave

/-- The form of the log lines. -/
inductive LogFormat where
  | structured | dev
deriving DecidableEq, Repr

def LogFormat.name : LogFormat → String
  | structured => "structured"
  | dev => "dev"

/-! ### Failures in records -/

/-- The place where a kind of failure is at home, which stands before its name in a report. -/
def FailureKind.home : FailureKind → String
  | fetch | save | settings | unknownSetting => "settings_autosave.services.settings_store."
  | circuitOpen => "settings_autosave.core.retry."
  | engineClosed => "settings_autosave.services.autosave."
  | transition => "settings_autosave.services.autosave_status."
  | kind => if kind.isA http then "httpx." else ""

/-- The report of a failure: its kind, and its message if it has one. -/
def Failure.report (f : Failure) : String :=
  let kind := f.kind.home ++ f.kind.name
  if f.message = "" then kind else kind ++ ": " ++ f.message

namespace Log

/-! ### Records -/

structure Record where
  logger : String
  level : Level
  template : String
  args : List Json := []
  /-- What else is said, under names of its own. -/
  extras : List (String × Json) := []
  failure? : Option Failure := none
  /-- Seconds since 1970. -/
  created : Rat
deriving Repr

/-- The names that a record needs for itself. -/
def reservedNames : List String := [
  "name", "msg", "args", "levelname", "levelno", "pathname", "filename", "module", "exc_info",
  "exc_text", "stack_info", "lineno", "funcName", "created", "msecs", "relativeCreated", "thread",
  "threadName", "processName", "process", "message", "asctime"]

/-- Whether what is said under a name is written. -/
def isShown (name : String) : Bool :=
  !reservedNames.contains name && name.toList.head? != some '_'

/-- A time in seconds, with the given text between the day and the time of day. -/
def timeText (between : String) (created : Rat) : String :=
  let t := created.floor
  let day := Instant.Day.ofNumber (t / 86400)
  let seconds := (t % 86400).toNat
  let two := Number.paddedText 2
  Number.intText day.year ++ "-" ++ two day.month ++ "-" ++ two day.day ++ between
    ++ two (seconds / 3600) ++ ":" ++ two (seconds / 60 % 60) ++ ":" ++ two (seconds % 60)

namespace Record

/-- What the record says under one of the names that it needs for itself: the last extra with that
name. -/
def overriding? (r : Record) (name : String) : Option Json :=
  (r.extras.reverse.find? (·.1 = name)).map (·.2)

/-- The message: the template, or the text of what stands in its place, with the arguments put
in. -/
def message (r : Record) : Except TemplateError String := do
  let template ← ((r.overriding? "msg").map (written · Text.messageOf)).getD (.ok r.template)
  fill template r.args

/-- What stands for the level. -/
def levelEntry (r : Record) : Json := (r.overriding? "levelname").getD (.text r.level.text)

/-- What stands for the logger. -/
def loggerEntry (r : Record) : Json := (r.overriding? "name").getD (.text r.logger)

/-- The entries of a record as a document. An extra with the name of an earlier entry takes its
place. -/
def entries (r : Record) : Except TemplateError (List (String × Json)) :=
  r.message.map fun message =>
    let base : List (String × Json) := [
      ("timestamp", .text (timeText "T" r.created)), ("level", r.levelEntry),
      ("logger", r.loggerEntry), ("message", .text message)]
    let shown := r.extras.filter fun e => isShown e.1
    let failure := (r.failure?.map fun f => ("exception", Json.text f.report)).toList
    (shown ++ failure).foldl (fun es (name, value) => Entries.put name value es) base

/-- A record as a document on one line. -/
def structuredLine (r : Record) : Except TemplateError String :=
  r.entries.bind fun es => written (.object es) Json.print

/-- A text filled up with blanks on its right. -/
def padded (width : Nat) (s : String) : String :=
  s ++ String.ofList (List.replicate (width - s.length) ' ')

/-- A record for those who develop. -/
def devLine (r : Record) : Except TemplateError String := do
  let message ← r.message
  let level ← written r.levelEntry Text.messageOf
  let logger ← written r.loggerEntry Text.messageOf
  return timeText " " r.created ++ " | " ++ padded 8 level ++ " | " ++ logger ++ " | " ++ message

def line (format : LogFormat) (r : Record) : Except TemplateError String :=
  match format with
  | .structured => r.structuredLine
  | .dev => r.devLine

end Record

end Log

end DeferredSave
