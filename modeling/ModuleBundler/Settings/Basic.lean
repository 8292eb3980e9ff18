import ModuleBundler.Decimal.Nearest
import ModuleBundler.Digest.Algorithm
import ModuleBundler.Log.Entry
import ModuleBundler.Settings.Value

/-! Settings of the bundler. Every setting has a constraint and a default that
meets it. Values are taken over one by one: one that violates its constraint is
reported and leaves the default in place, and so is a name that is not known. -/
namespace ModuleBundler

open Decimal Settings

structure Settings where
  /-- Endings of the files that are followed. -/
  sourceExtensions : List String
  minify : Bool
  fingerprintAlgorithm : Digest.Algorithm
  /-- Attempts to read one file. -/
  readMaxRetries : Int
  maxFileSizeKb : Int
  /-- Seconds for one build; zero sets no limit. -/
  resolveTimeout : Number
  /-- Patterns of files that are not watched. -/
  watchIgnorePatterns : List String

namespace Settings

def default : Settings where
  sourceExtensions := [".js"]
  minify := true
  fingerprintAlgorithm := .sha256
  readMaxRetries := 3
  maxFileSizeKb := 10240
  resolveTimeout := .whole 0
  watchIgnorePatterns := []

instance : Inhabited Settings := ⟨default⟩

/-- The settings by name. -/
inductive Field where
  | sourceExtensions
  | minify
  | fingerprintAlgorithm
  | readMaxRetries
  | maxFileSizeKb
  | resolveTimeout
  | watchIgnorePatterns
  deriving DecidableEq

namespace Field

/-- All settings in their fixed order. -/
def all : List Field :=
  [sourceExtensions, minify, fingerprintAlgorithm, readMaxRetries, maxFileSizeKb, resolveTimeout,
    watchIgnorePatterns]

def name : Field → String
  | sourceExtensions => "source_extensions"
  | minify => "minify"
  | fingerprintAlgorithm => "fingerprint_algorithm"
  | readMaxRetries => "read_max_retries"
  | maxFileSizeKb => "max_file_size_kb"
  | resolveTimeout => "resolve_timeout_seconds"
  | watchIgnorePatterns => "watch_ignore_patterns"

/-- Only texts name a setting. -/
def ofValue? : Value → Option Field
  | .text name => all.find? fun f => f.name == name
  | _ => none

end Field

/-- The texts of a list that holds nothing else. -/
def texts? : Value → Option (List String)
  | .list items => items.mapM fun
    | .text s => some s
    | _ => none
  | _ => none

/-- A dot and at least one more character. -/
def isExtension (text : String) : Bool := text.toList.head? == some '.' && text.length > 1

def positive? : Value → Option Int
  | .whole n => if 0 < n then some n else none
  | _ => none

/-- A number that is not negative; truth values are no numbers here. -/
def duration? : Value → Option Number
  | .whole n => if 0 ≤ n then some (.whole n) else none
  | .real x => if 0.0 ≤ x then some (.real x) else none
  | _ => none

def extensions? (v : Value) : Option (List String) := do
  let found ← texts? v
  guard (!found.isEmpty && found.all isExtension)
  return found

/-- The settings with one of them replaced, if the value meets the constraint of the field. -/
def set? (s : Settings) : Field → Value → Option Settings
  | .sourceExtensions, v => (extensions? v).map fun x => { s with sourceExtensions := x }
  | .minify, .bool b => some { s with minify := b }
  | .minify, _ => none
  | .fingerprintAlgorithm, .text name =>
    (Digest.Algorithm.ofName? name).map fun a => { s with fingerprintAlgorithm := a }
  | .fingerprintAlgorithm, _ => none
  | .readMaxRetries, v => (positive? v).map fun n => { s with readMaxRetries := n }
  | .maxFileSizeKb, v => (positive? v).map fun n => { s with maxFileSizeKb := n }
  | .resolveTimeout, v => (duration? v).map fun t => { s with resolveTimeout := t }
  | .watchIgnorePatterns, v => (texts? v).map fun x => { s with watchIgnorePatterns := x }

def ofNumber : Number → Value
  | .whole n => .whole n
  | .real x => .real x

def get (s : Settings) : Field → Value
  | .sourceExtensions => .list (s.sourceExtensions.map .text)
  | .minify => .bool s.minify
  | .fingerprintAlgorithm => .text s.fingerprintAlgorithm.name
  | .readMaxRetries => .whole s.readMaxRetries
  | .maxFileSizeKb => .whole s.maxFileSizeKb
  | .resolveTimeout => ofNumber s.resolveTimeout
  | .watchIgnorePatterns => .list (s.watchIgnorePatterns.map .text)

/-- All settings by name, in their fixed order. -/
def toEntries (s : Settings) : List (Value × Value) :=
  Field.all.map fun f => (.text f.name, s.get f)

/-- What is wrong with an entry of a settings document. -/
inductive Complaint where
  | unknown (name : Value)
  | invalid (field : Field) (value : Value)

def Complaint.message : Complaint → String
  | unknown name => s!"Unknown configuration parameter '{name.shown}', ignoring"
  | invalid field value =>
    s!"Invalid value for '{field.name}': {value.shown}, using default {(default.get field).shown}"

/-- The value that a complaint has to show. -/
def Complaint.subject : Complaint → Value
  | unknown name => name
  | invalid _ value => value

/-- Settings and the complaints made on the way to them. -/
structure Merged where
  settings : Settings
  complaints : List Complaint

/-- Takes over one entry or complains about it. -/
def Merged.take (m : Merged) (entry : Value × Value) : Merged :=
  match Field.ofValue? entry.1 with
  | none => { m with complaints := m.complaints ++ [.unknown entry.1] }
  | some field =>
    match m.settings.set? field entry.2 with
    | some settings => { m with settings := settings }
    | none => { m with complaints := m.complaints ++ [.invalid field entry.2] }

/-- The defaults with the valid entries of a document in place of them. -/
def merge (entries : List (Value × Value)) : Merged := entries.foldl Merged.take ⟨default, []⟩

/-- Why a document gives no settings. -/
inductive Refusal where
  | notMapping (value : Value)
  /-- A complaint would have to show a whole number of too many digits. -/
  | numberTooLong

def Refusal.message : Refusal → String
  | notMapping value => s!"Configuration must be a dictionary, got {value.kind}"
  | numberTooLong => "Exceeds the limit (4300 digits) for integer string conversion; " ++
    "use sys.set_int_max_str_digits() to increase the limit"

def part : String := "aerobundle.config"

/-- Reports complaints in order, up to one that cannot be shown. -/
def reports : List Complaint → Log.Journal × Bool
  | [] => ([], true)
  | c :: rest =>
    if c.subject.hasHuge then ([], false)
    else
      let (journal, all) := reports rest
      (Log.plain .warning part c.message :: journal, all)

/-- The settings of a document value, and what is reported about it. -/
def ofValue : Value → Except Refusal Settings × Log.Journal
  | .mapping entries =>
    let merged := merge entries
    let (journal, all) := reports merged.complaints
    (if all then .ok merged.settings else .error .numberTooLong, journal)
  | value => (.error (.notMapping value), [])

/-- Seconds for one build as a double; a whole number may be too large for one. -/
def timeoutSeconds? (s : Settings) : Option Float := s.resolveTimeout.toFloat?

end Settings
end ModuleBundler
