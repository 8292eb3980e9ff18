import ModuleBundler.Calendar
import ModuleBundler.Decimal.Layout
import ModuleBundler.Json.Basic
import ModuleBundler.Text.Quoted

/-! Values of a settings document, and the text by which a message shows them. A
text stands for itself at the top and is quoted inside another value. A document
may refer back to a value that is still open; such a reference is shown by the
brackets of what it refers to. -/
namespace ModuleBundler.Settings

open Calendar

/-- Minutes east of the meridian that a time was written for, if it was written for one. -/
structure Moment where
  date : Date
  time : TimeOfDay
  offset : Option Int
  deriving DecidableEq

/-- The three kinds of value that hold others. -/
inductive Container where
  | list
  | mapping
  | set
  deriving DecidableEq

inductive Value where
  | null
  | bool (value : Bool)
  | whole (value : Int)
  | real (value : Float)
  | text (value : String)
  | bytes (value : List UInt8)
  | date (value : Date)
  | moment (value : Moment)
  | list (items : List Value)
  | pair (first second : Value)
  | set (members : List Value)
  | mapping (entries : List (Value × Value))
  /-- A reference to a value that holds this one. -/
  | back (container : Container)
  deriving Inhabited

namespace Moment

/-- Whole hours and minutes with a sign. -/
def offsetText (minutes : Int) : String :=
  let sign := if minutes < 0 then "-" else "+"
  s!"{sign}{padded 2 (minutes.natAbs / 60)}:{padded 2 (minutes.natAbs % 60)}"

def text (m : Moment) : String :=
  s!"{m.date.text} {m.time.text}" ++ (m.offset.map offsetText).getD ""

/-- Microseconds since the start of 1970, at the meridian. -/
def instant (m : Moment) : Int :=
  (dayNumber m.date) * 86400000000 + m.time.microseconds - m.offset.getD 0 * 60000000

end Moment

/-- One byte of a byte text between two `quote`s. -/
def quoteByte (quote : Char) (b : UInt8) : List Char :=
  let c := Char.ofNat b.toNat
  if c = quote ∨ c = '\\' then ['\\', c]
  else if c = '\n' then ['\\', 'n']
  else if c = '\r' then ['\\', 'r']
  else if c = '\t' then ['\\', 't']
  else if 0x20 ≤ b.toNat ∧ b.toNat < 0x7F then [c]
  else '\\' :: 'x' :: Text.hexDigits 2 b.toNat

def quotedBytes (bytes : List UInt8) : String :=
  let quote := Text.quoteFor (bytes.map fun b => Char.ofNat b.toNat)
  String.ofList ('b' :: quote :: bytes.flatMap (quoteByte quote) ++ [quote])

def quotedDate (d : Date) : String := s!"datetime.date({d.year}, {d.month}, {d.day})"

/-- An offset as days and seconds, the seconds never negative. -/
def quotedOffset (minutes : Int) : String :=
  let days := minutes / 1440
  let seconds := minutes % 1440 * 60
  let parts := (if days = 0 then [] else [s!"days={days}"]) ++
    (if seconds = 0 then [] else [s!"seconds={seconds}"])
  let shown := if parts.isEmpty then "0" else ", ".intercalate parts
  s!"datetime.timedelta({shown})"

def quotedMoment (m : Moment) : String :=
  let tail :=
    if m.time.microsecond ≠ 0 then [m.time.second, m.time.microsecond]
    else if m.time.second ≠ 0 then [m.time.second]
    else []
  let numbers := [toString m.date.year] ++
    ([m.date.month, m.date.day, m.time.hour, m.time.minute] ++ tail).map toString
  let zone := match m.offset with
    | none => []
    | some 0 => ["tzinfo=datetime.timezone.utc"]
    | some minutes => [s!"tzinfo=datetime.timezone({quotedOffset minutes})"]
  let shown := ", ".intercalate (numbers ++ zone)
  s!"datetime.datetime({shown})"

namespace Value

mutual

/-- The text of a value inside another. -/
def quoted : Value → String
  | null => "None"
  | bool true => "True"
  | bool false => "False"
  | whole n => toString n
  | real x => Decimal.text .plain x
  | text s => Text.quoted s
  | bytes b => quotedBytes b
  | date d => quotedDate d
  | moment m => quotedMoment m
  | list items => "[" ++ ", ".intercalate (quotedAll items) ++ "]"
  | pair first second => "(" ++ quoted first ++ ", " ++ quoted second ++ ")"
  | set [] => "set()"
  | set members => "\x7b" ++ ", ".intercalate (quotedAll members) ++ "\x7d"
  | mapping entries => "\x7b" ++ ", ".intercalate (quotedEntries entries) ++ "\x7d"
  | back .list => "[...]"
  | back .mapping => "\x7b...\x7d"
  | back .set => "set(...)"

def quotedAll : List Value → List String
  | [] => []
  | v :: rest => quoted v :: quotedAll rest

def quotedEntries : List (Value × Value) → List String
  | [] => []
  | (k, v) :: rest => (quoted k ++ ": " ++ quoted v) :: quotedEntries rest

end

/-- The text of a value on its own. -/
def shown : Value → String
  | text s => s
  | date d => d.text
  | moment m => m.text
  | v => quoted v

mutual

/-- Whether a value holds a whole number with more digits than a message shows. -/
def hasHuge : Value → Bool
  | whole n => decide (Nat.pow 10 Decimal.digitLimit ≤ n.natAbs)
  | list items => anyHuge items
  | pair first second => hasHuge first || hasHuge second
  | set members => anyHuge members
  | mapping entries => anyHugeEntry entries
  | _ => false

def anyHuge : List Value → Bool
  | [] => false
  | v :: rest => hasHuge v || anyHuge rest

def anyHugeEntry : List (Value × Value) → Bool
  | [] => false
  | (k, v) :: rest => hasHuge k || hasHuge v || anyHugeEntry rest

end

/-- The kind of a value as messages name it. -/
def kind : Value → String
  | null => "NoneType"
  | bool _ => "bool"
  | whole _ => "int"
  | real _ => "float"
  | text _ => "str"
  | bytes _ => "bytes"
  | date _ => "datetime.date"
  | moment _ => "datetime.datetime"
  | list _ | back .list => "list"
  | pair .. => "tuple"
  | set _ | back .set => "set"
  | mapping _ | back .mapping => "dict"

mutual

def ofJson : Json → Value
  | .null => null
  | .bool b => bool b
  | .whole n => whole n
  | .real x => real x
  | .text s => text s
  | .array items => list (ofJsonItems items)
  | .object members => mapping (ofJsonMembers members)

def ofJsonItems : List Json → List Value
  | [] => []
  | item :: rest => ofJson item :: ofJsonItems rest

def ofJsonMembers : List (String × Json) → List (Value × Value)
  | [] => []
  | (name, value) :: rest => (text name, ofJson value) :: ofJsonMembers rest

end

end Value
end ModuleBundler.Settings
