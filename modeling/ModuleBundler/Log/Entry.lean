import ModuleBundler.Json.Basic

/-! What the parts of the bundler report about their work: a level, the part that
speaks, a message and, for builds, named fields. -/
namespace ModuleBundler.Log

/-- Severity; greater numbers are graver. -/
structure Level where
  number : Int
  deriving DecidableEq

namespace Level

def unset : Level := ⟨0⟩
def debug : Level := ⟨10⟩
def info : Level := ⟨20⟩
def warning : Level := ⟨30⟩
def error : Level := ⟨40⟩
def critical : Level := ⟨50⟩

def names : List (Level × String) :=
  [(unset, "NOTSET"), (debug, "DEBUG"), (info, "INFO"), (warning, "WARNING"), (error, "ERROR"),
    (critical, "CRITICAL")]

/-- The six round levels have names; any other is shown by its number. -/
def name (l : Level) : String :=
  match names.find? fun e => e.1 = l with
  | some (_, name) => name
  | none => s!"Level {l.number}"

def ofName? (name : String) : Option Level :=
  (names.find? fun e => e.2 == name).map Prod.fst

end Level

/-- One report. -/
structure Entry where
  level : Level
  /-- The part of the bundler that reports. -/
  part : String
  message : String
  fields : Option (List (String × Json))

/-- Reports in the order in which they were made. -/
abbrev Journal := List Entry

/-- A report without fields. -/
def plain (level : Level) (part message : String) : Entry := ⟨level, part, message, none⟩

end ModuleBundler.Log
