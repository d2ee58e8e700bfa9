import DeferredSave.Number.Whole

/-! The levels of log records. -/

namespace DeferredSave.Log

/-- A level: the higher it is, the more a record matters. -/
abbrev Level := Int

namespace Level

def debug : Level := 10

def info : Level := 20

def warning : Level := 30

def error : Level := 40

def critical : Level := 50

/-- The levels under all their names. -/
def names : List (String × Level) := [
  ("NOTSET", 0), ("DEBUG", debug), ("INFO", info), ("WARNING", warning), ("WARN", warning),
  ("ERROR", error), ("CRITICAL", critical), ("FATAL", critical)]

/-- The name under which a level is written. -/
def text (l : Level) : String :=
  match names.find? (·.2 = l) with
  | some (name, _) => name
  | none => "Level " ++ Number.intText l

end Level

end DeferredSave.Log
