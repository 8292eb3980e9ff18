import ModuleBundler.Calendar
import ModuleBundler.Decimal.Nearest
import ModuleBundler.Json.Printer
import ModuleBundler.Log.Entry
import ModuleBundler.Ordered.Table

/-! Log lines. A record becomes one JSON object on one line: what the record itself
says comes first, then its named fields, then the exception that it carries. A
field cannot take the place of what the record says. -/
namespace ModuleBundler.Log

open Calendar Decimal

structure Record where
  /-- Seconds since the start of 1970. -/
  created : Number
  level : Level
  logger : String
  thread : String
  message : String
  /-- Named values, if the record carries any. -/
  fields : Option (Table String Json)
  /-- The exception that it carries, written out, with its trace and its causes if it has any. -/
  exception : Option String

/-- Why a number of seconds names no time of the calendar. -/
inductive TimeError where
  | yearOutOfRange (year : Int)
  /-- The year has too many digits for the clock. -/
  | yearTooLarge
  /-- The seconds have too many digits for the clock. -/
  | secondsTooLarge

def TimeError.message : TimeError → String
  | yearOutOfRange year => s!"year {year} is out of range"
  | yearTooLarge => "[Errno 75] Value too large for defined data type"
  | secondsTooLarge => "timestamp out of range for platform time_t"

/-- Seconds in microseconds: the fraction is scaled as a double and then rounded. -/
def microseconds? : Number → Option Int
  | .whole n => some (1000000 * n)
  | .real x => do
    let whole ← truncated? x
    let fraction := x - (if x < 0.0 then x.ceil else x.floor)
    let rounded ← nearestWhole? (fraction * 1000000.0)
    return 1000000 * whole + rounded

/-- Seconds that the clock can hold: 64 bits with a sign. A double just above the greatest of them
counts as that one. -/
def isHeld (seconds : Number) (whole : Int) : Bool :=
  let limit : Int := Nat.pow 2 63
  match seconds with
  | .whole _ => -limit ≤ whole && whole < limit
  | .real _ => -limit ≤ whole && whole ≤ limit

/-- The clock counts years from 1900, in 32 bits with a sign. -/
def isClockYear (year : Int) : Bool :=
  let limit : Int := Nat.pow 2 31
  year - 1900 < limit && -limit ≤ year - 1900

/-- The year as 32 bits with a sign show it. -/
def shownYear (year : Int) : Int := Int.bmod year (Nat.pow 2 32)

/-- Date and time at the meridian, in any year of the clock. -/
def clockTime (seconds : Number) : Except TimeError (Date × TimeOfDay) :=
  match microseconds? seconds with
  | none => .error .secondsTooLarge
  | some n =>
    let (date, time) := ofMicroseconds n
    if !isHeld seconds (n / 1000000) then .error .secondsTooLarge
    else if !isClockYear date.year then .error .yearTooLarge
    else .ok (date, time)

/-- Date and time at the meridian. The calendar has the years from 1 to 9999. -/
def timeOf (seconds : Number) : Except TimeError (Date × TimeOfDay) := do
  let (date, time) ← clockTime seconds
  if 1 ≤ date.year ∧ date.year ≤ 9999 then return (date, time)
  else throw (.yearOutOfRange (shownYear date.year))

/-- Date and time with a `T` between them and a `Z` behind. -/
def timestamp (seconds : Number) : Except TimeError String := do
  let (date, time) ← timeOf seconds
  return s!"{date.text}T{time.text}Z"

/-- The names that fields cannot have. -/
def reserved : List String := ["timestamp", "level", "logger", "thread", "message", "exception"]

/-- The members of the line of a record. -/
def Record.members (r : Record) : Except TimeError (Table String Json) := do
  let own : Table String Json := .ofList [
    ("timestamp", .text (← timestamp r.created)), ("level", .text r.level.name),
    ("logger", .text r.logger), ("thread", .text r.thread), ("message", .text r.message)]
  let given := ((r.fields.map (·.entries)).getD []).filter fun f => !reserved.contains f.1
  let raised := r.exception.toList.map fun trace => ("exception", Json.text trace)
  return own.insertAll (given ++ raised)

/-- The line of a record. -/
def Record.line (r : Record) : Except TimeError String := do
  return (Json.object (← r.members).entries).render

/-- A number without its fraction, towards the past. -/
def wholeSeconds : Number → Number
  | .whole n => .whole n
  | .real x => .real x.floor

/-- The line of a record for readers at a console, with the time in whole seconds. There is none if
the year takes more than 32 bits. -/
def Record.plainLine? (r : Record) : Option String :=
  match clockTime (wholeSeconds r.created) with
  | .ok (date, time) =>
    if shownYear date.year = date.year then
      let day := date.textWith "-"
      some s!"{day} {time.text} - {r.logger} - {r.level.name} - {r.message}"
    else none
  | .error _ => none

end ModuleBundler.Log
