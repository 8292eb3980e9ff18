import ModuleBundler.Yaml.Flaw

/-! Tags: what kind of value a node stands for. A plain scalar without a tag gets
one by its form, such as digits for a whole number. -/
namespace ModuleBundler.Yaml

inductive Tag where
  | null
  | bool
  | whole
  | real
  | binary
  | timestamp
  | ordered
  | pairs
  | set
  | text
  | sequence
  | mapping
  /-- A key whose value is merged into its mapping. -/
  | merge
  /-- A key whose value stands for its mapping where a scalar is needed. -/
  | value
  | other (name : String)
  deriving DecidableEq

namespace Tag

/-- The front of the names of the tags that every document has. -/
def commonFront : String := "tag:yaml.org,2002:"

def commonNames : List (String × Tag) :=
  [("null", null), ("bool", bool), ("int", whole), ("float", real), ("binary", binary),
    ("timestamp", timestamp), ("omap", ordered), ("pairs", pairs), ("set", set), ("str", text),
    ("seq", sequence), ("map", mapping), ("merge", merge), ("value", value)]

def ofName (name : String) : Tag :=
  match commonNames.find? fun e => commonFront ++ e.1 == name with
  | some (_, tag) => tag
  | none => other name

end Tag

namespace Form

def isOneOf (allowed : String) (c : Char) : Bool := allowed.toList.contains c

/-- At least one character, all of them allowed. -/
def allOf (allowed : String) (chars : List Char) : Bool :=
  !chars.isEmpty && chars.all (isOneOf allowed)

def isDigitOrSeparator (c : Char) : Bool := c.isDigit || c == '_'

/-- The text without a sign at its front. -/
def unsigned : List Char → List Char
  | c :: rest => if c = '+' ∨ c = '-' then rest else c :: rest
  | [] => []

/-- The parts between the occurrences of a character. -/
def splitOn (c : Char) : List Char → List (List Char)
  | [] => [[]]
  | d :: rest =>
    match splitOn c rest with
    | [] => [[d]]
    | first :: others => if d = c then [] :: first :: others else (d :: first) :: others

/-- A number below sixty, the first of two digits being at most five. -/
def isSixtieth : List Char → Bool
  | [a] => a.isDigit
  | [a, b] => '0' ≤ a && a ≤ '5' && b.isDigit
  | _ => false

/-- A numeral in digits and separators with places of sixty behind colons. -/
def isSexagesimal (leading : String) (chars : List Char) : Bool :=
  match splitOn ':' chars with
  | (c :: more) :: place :: places =>
    isOneOf leading c && more.all isDigitOrSeparator && (place :: places).all isSixtieth
  | _ => false

def isWhole (chars : List Char) : Bool :=
  let body := unsigned chars
  (match body with
    | '0' :: 'b' :: digits => allOf "01_" digits
    | '0' :: 'x' :: digits => allOf "0123456789abcdefABCDEF_" digits
    | '0' :: digits => digits.all (isOneOf "01234567_")
    | c :: more => isOneOf "123456789" c && more.all isDigitOrSeparator
    | [] => false) || isSexagesimal "123456789" body

/-- Nothing, or an exponent with a sign. -/
def isExponent : List Char → Bool
  | [] => true
  | e :: sign :: digits =>
    isOneOf "eE" e && isOneOf "+-" sign && !digits.isEmpty && digits.all Char.isDigit
  | _ => false

/-- The parts before and after the first point. -/
def atPoint? (chars : List Char) : Option (List Char × List Char) :=
  match chars.dropWhile (· != '.') with
  | _ :: after => some (chars.takeWhile (· != '.'), after)
  | [] => none

def startsDigit (chars : List Char) : Bool := (chars.head?.map Char.isDigit).getD false

def isReal (chars : List Char) : Bool :=
  let body := unsigned chars
  let isSigned := body.length < chars.length
  match atPoint? body with
  | none => false
  | some (before, after) =>
    let exponent := after.dropWhile isDigitOrSeparator
    (startsDigit before && before.all isDigitOrSeparator && isExponent exponent) ||
      (before.isEmpty && !isSigned && startsDigit after && isExponent exponent) ||
      (isSexagesimal "0123456789" before && exponent.isEmpty) ||
      (before.isEmpty && ["inf", "Inf", "INF"].contains (String.ofList after)) ||
      (before.isEmpty && !isSigned && ["nan", "NaN", "NAN"].contains (String.ofList after))

def truths : List String := ["yes", "Yes", "YES", "true", "True", "TRUE", "on", "On", "ON"]

def falsehoods : List String := ["no", "No", "NO", "false", "False", "FALSE", "off", "Off", "OFF"]

def nulls : List String := ["", "~", "null", "Null", "NULL"]

/-- The numerals of a timestamp as they are written. -/
structure Timestamp where
  year : List Char
  month : List Char
  day : List Char
  /-- Hour, minute, second and the digits of a fraction. -/
  time : Option (List Char × List Char × List Char × List Char)
  /-- Sign, hours and minutes of an offset; no sign at the meridian. -/
  zone : Option (Option Char × List Char × List Char)

/-- Between `least` and `most` digits at the front; more are left for what follows. -/
def digitsAt? (least most : Nat) (chars : List Char) : Option (List Char × List Char) :=
  let digits := (chars.take most).takeWhile Char.isDigit
  if digits.length < least then none else some (digits, chars.drop digits.length)

def charAt? (c : Char) : List Char → Option (List Char)
  | d :: rest => if d = c then some rest else none
  | [] => none

def isBlank (c : Char) : Bool := c == ' ' || c == '\t'

/-- The offset at the end of a timestamp. -/
def zone? (chars : List Char) : Option (Option (Option Char × List Char × List Char)) :=
  if chars.isEmpty then some none
  else
    match chars.dropWhile isBlank with
    | [] => none
    | ['Z'] => some (some (none, [], []))
    | sign :: rest => do
      guard (isOneOf "+-" sign)
      let (hours, rest) ← digitsAt? 1 2 rest
      if rest.isEmpty then return some (some sign, hours, [])
      let rest ← charAt? ':' rest
      let (minutes, rest) ← digitsAt? 2 2 rest
      guard rest.isEmpty
      return some (some sign, hours, minutes)

/-- The rest after the letter or the blanks between date and time. -/
def timeAt? : List Char → Option (List Char)
  | c :: rest =>
    if c = 'T' ∨ c = 't' then some rest
    else if isBlank c then some (rest.dropWhile isBlank)
    else none
  | [] => none

def timestamp? (chars : List Char) : Option Timestamp := do
  let (year, rest) ← digitsAt? 4 4 chars
  let rest ← charAt? '-' rest
  let (month, rest) ← digitsAt? 1 2 rest
  let rest ← charAt? '-' rest
  let (day, rest) ← digitsAt? 1 2 rest
  if rest.isEmpty then return ⟨year, month, day, none, none⟩
  let rest ← timeAt? rest
  let (hour, rest) ← digitsAt? 1 2 rest
  let rest ← charAt? ':' rest
  let (minute, rest) ← digitsAt? 2 2 rest
  let rest ← charAt? ':' rest
  let (second, rest) ← digitsAt? 2 2 rest
  let (fraction, rest) := match rest with
    | '.' :: rest => (rest.takeWhile Char.isDigit, rest.dropWhile Char.isDigit)
    | _ => ([], rest)
  let zone ← zone? rest
  return ⟨year, month, day, some (hour, minute, second, fraction), zone⟩

/-- A date alone needs two digits for month and day. -/
def isTimestamp (chars : List Char) : Bool :=
  match timestamp? chars with
  | some t => t.time.isSome || (t.month.length == 2 && t.day.length == 2)
  | none => false

/-- A form may be followed by one line feed at the end of the text. -/
def body (chars : List Char) : List Char :=
  if chars.getLast? = some '\n' then chars.dropLast else chars

end Form

namespace Tag

/-- The tag of a plain scalar by its form. -/
def ofPlain (scalar : String) : Tag :=
  let chars := Form.body scalar.toList
  let shown := String.ofList chars
  if scalar = "\n" then text
  else if Form.truths.contains shown || Form.falsehoods.contains shown then bool
  else if Form.isReal chars then real
  else if Form.isWhole chars then whole
  else if shown = "<<" then merge
  else if Form.nulls.contains shown then null
  else if Form.isTimestamp chars then timestamp
  else if shown = "=" then value
  else if shown = "!" ∨ shown = "&" ∨ shown = "*" then other (commonFront ++ "yaml")
  else text

end Tag
end ModuleBundler.Yaml
