import ModuleBundler.Decimal.Layout
import ModuleBundler.Path.Parts
import ModuleBundler.Source.Host
import ModuleBundler.Text.Bytes

/-! Reading source text. An attempt looks at the size, then at the content, and
falls back to one character per byte where the content is not strict UTF-8. A
transient refusal is followed by a pause, doubled each time, and a further
attempt; a missing file, a folder and an oversized file end the reading at once. -/
namespace ModuleBundler.Source

open Decimal

inductive ReadError where
  | look (e : LookError)
  | tooLarge (path : String) (size : Nat) (limit : Int)
  /-- The pause due before the next attempt is too long for a double. -/
  | pauseTooLong

def ReadError.message : ReadError → String
  | look e => e.message
  | tooLarge path size limit => s!"{path} is {size} bytes, exceeds limit ({limit})"
  | pauseTooLong => "int too large to convert to float"

def ReadError.kind : ReadError → String
  | look e => e.kind
  | tooLarge .. => "SourceTooLargeError"
  | pauseTooLong => "OverflowError"

/-- Whether another attempt may fare better. -/
def ReadError.isTransient : ReadError → Bool
  | look (.system e) => e.number ≠ SystemError.absentNumber && e.number ≠ SystemError.folderNumber
  | _ => false

structure Reader where
  /-- Attempts for one file, at least one. -/
  attempts : Nat
  /-- Greatest size in bytes. -/
  sizeLimit : Int

namespace Reader

/-- A reader that makes at least one attempt, whatever it is asked for. -/
def withLimits (attempts sizeLimit : Int) : Reader := ⟨(max 1 attempts).toNat, sizeLimit⟩

def part : String := "aerobundle.reader"

/-- One attempt: size, then content, then, if need be, the content once more. -/
def readOnce (r : Reader) (path : String) : StateM Host (Except ReadError String) := do
  match ← Host.look (Path.Parts.ofString path).toString with
  | .error e => return .error (.look e)
  | .ok entry =>
    if r.sizeLimit < entry.size then
      return .error (.tooLarge path entry.size r.sizeLimit)
    match ← Host.openFile path with
    | .error e => return .error (.look e)
    | .ok content =>
      match Text.decodeUtf8? content with
      | some text => return .ok text
      | none =>
        Host.report (Log.plain .warning part
          s!"File {path} is not UTF-8, using latin-1 fallback encoding")
        match ← Host.openFile path with
        | .error e => return .error (.look e)
        | .ok content => return .ok (Text.decodeSingleByte content)

/-- Seconds to wait after the attempt of a number, the first being zero. -/
def delay? (attempt : Nat) : Option Float :=
  (floatOfInt? (Int.ofNat (Nat.pow 2 (min attempt 1024)))).map (0.1 * ·)

/-- Reports a failed attempt and waits for the next, if the wait can be told. -/
def backOff (path : String) (attempt : Nat) (e : ReadError) : StateM Host Bool := do
  match delay? attempt with
  | none => return false
  | some seconds =>
    Host.report (Log.plain .debug part
      (s!"Read attempt {attempt + 1} failed for {path}: {e.message}. Retrying in " ++
        s!"{wholeText (seconds * 1000.0)}ms..."))
    Host.pause seconds
    return true

end Reader

/-- A reading that has begun its attempt of a number and may make `left` more. -/
structure Reading where
  path : String
  attempt : Nat
  left : Nat

/-- What an attempt comes to; one that is to be made again has fewer left. -/
inductive Reading.Outcome (before : Reading) where
  | done (text : String)
  | failed (e : ReadError)
  | again (next : Reading) (fewer : next.left < before.left)

namespace Reading

/-- Begins an attempt, which is on record from then on. -/
def enter (reading : Reading) : StateM Host Reading := do
  Host.recordVisit (Path.Parts.ofString reading.path).toString
  return reading

def begin (r : Reader) (path : String) : StateM Host Reading := enter ⟨path, 0, r.attempts - 1⟩

/-- Makes the attempt begun. If another follows, that one has begun at the end. -/
def perform (r : Reader) (reading : Reading) : StateM Host (Outcome reading) := do
  match ← r.readOnce reading.path with
  | .ok text => return .done text
  | .error e =>
    if !e.isTransient then return .failed e
    if more : 0 < reading.left then
      if ← Reader.backOff reading.path reading.attempt e then
        let next : Reading := ⟨reading.path, reading.attempt + 1, reading.left - 1⟩
        let _ ← enter next
        return .again next (Nat.sub_one_lt_of_lt more)
      else return .failed .pauseTooLong
    else
      Host.report (Log.plain .warning Reader.part
        s!"Failed to read {reading.path} after {r.attempts} attempts: {e.message}")
      return .failed e

/-- Makes attempts until one decides. -/
def finish (r : Reader) (reading : Reading) : StateM Host (Except ReadError String) := do
  match ← perform r reading with
  | .done text => return .ok text
  | .failed e => return .error e
  | .again next _ => finish r next
  termination_by reading.left

end Reading

/-- The text of a file, after as many attempts as it takes. -/
def Reader.readText (r : Reader) (path : String) : StateM Host (Except ReadError String) := do
  Reading.finish r (← Reading.begin r path)

end ModuleBundler.Source
