import ModuleBundler.Decimal.Nearest
import ModuleBundler.Json.Reader
import ModuleBundler.Settings.Value
import ModuleBundler.Text.Digit
import ModuleBundler.Text.Lower
import ModuleBundler.Yaml.Tag

/-! Values of scalars. An explicit tag may claim any text, so that each reader
says what it makes of a text that lacks the form. -/
namespace ModuleBundler.Yaml.Scalar

open Decimal Settings Calendar

def withoutSeparators (text : List Char) : List Char := text.filter (· != '_')

def truth (text : String) : Except ScalarError Bool :=
  let shown := String.ofList (Text.lower text.toList)
  if ["yes", "true", "on"].contains shown then .ok true
  else if ["no", "false", "off"].contains shown then .ok false
  else .error (.notTruth shown)

/-- The text after a sign, and whether that is a minus. -/
def signAt : List Char → Bool × List Char
  | '-' :: rest => (true, rest)
  | '+' :: rest => (false, rest)
  | chars => (false, chars)

/-- The letter that may follow a leading zero in a base. -/
def baseLetter? (base : Nat) : Option Char :=
  if base = 2 then some 'b' else if base = 8 then some 'o' else if base = 16 then some 'x' else none

/-- The digits of a numeral without the mark of its base. -/
def withoutMark (base : Nat) (chars : List Char) : List Char :=
  match chars with
  | '0' :: letter :: rest => if some letter.toLower = baseLetter? base then rest else chars
  | _ => chars

/-- A numeral in a base, in digits of any script: blanks around it, a sign and the mark of the base
are allowed. -/
def numeral (base : Nat) (text : List Char) : Except ScalarError Int :=
  let (negative, body) := signAt (Text.basicNumeral text)
  let digits := withoutMark base body
  let found := digits.filterMap fun c => (Json.Reader.hexValue? c).filter (· < base)
  if base = 10 ∧ digitLimit < (digits.takeWhile Char.isDigit).length then
    .error (.tooManyDigits (digits.takeWhile Char.isDigit).length)
  else if digits.isEmpty ∨ found.length < digits.length then
    .error (.notWhole base (String.ofList text))
  else
    let size : Nat := found.foldl (fun n d => base * n + d) 0
    .ok (if negative then -size else size)

/-- Places of sixty, the last one first. -/
def sexagesimal (places : List Int) : Int := places.foldr (fun place sum => place + 60 * sum) 0

def whole (text : String) : Except ScalarError Int := do
  let chars := withoutSeparators text.toList
  if chars.isEmpty then throw .emptyNumber
  let (negative, body) := signAt chars
  let size ← match body with
    | [] => throw .emptyNumber
    | ['0'] => pure 0
    | '0' :: 'b' :: digits => numeral 2 digits
    | '0' :: 'x' :: digits => numeral 16 digits
    | '0' :: _ => numeral 8 body
    | _ =>
      if body.contains ':' then do
        let places ← (Form.splitOn ':' body).mapM (numeral 10)
        pure (sexagesimal places.reverse)
      else numeral 10 body
  return if negative then -size else size

/-- The digits of a numeral with an optional fraction and exponent, if it is one. -/
def decimal? (chars : List Char) : Option Digits := do
  let (leading, rest) := Json.Reader.digits chars
  let (places, rest) := match rest with
    | '.' :: rest => Json.Reader.digits rest
    | _ => ([], rest)
  guard !(leading.isEmpty && places.isEmpty)
  let (shift, rest) ← Json.Reader.exponent rest
  guard rest.isEmpty
  return ⟨Json.Reader.digitsValue (leading ++ places), shift.getD 0 - places.length⟩

/-- A double: a numeral or the name of a value that is none, with blanks around it. -/
def double (text : List Char) : Except ScalarError Float :=
  let (negative, body) := signAt (Text.basicNumeral text)
  let size? :=
    if ["inf", "infinity"].contains (String.ofList body) then some (1.0 / 0.0)
    else if body = "nan".toList then some (0.0 / 0.0)
    else (decimal? body).map Digits.toFloat
  match size? with
  | some size => .ok (if negative then -size else size)
  | none => .error (.notReal (String.ofList text))

/-- The sum of places, the last one first, each worth sixty times the one before. -/
def weighted (weight : Nat) (sum : Float) : List Float → Except ScalarError Float
  | [] => .ok sum
  | place :: places =>
    match floatOfInt? weight with
    | some w => weighted (60 * weight) (sum + place * w) places
    | none => .error .weightTooLarge

/-- The sign and the rest of a text that claims to be a double. -/
def realBody (text : String) : Bool × List Char :=
  signAt (Text.lower (withoutSeparators text.toList))

/-- Whether a text names the value that is no number. -/
def isNoNumber (text : String) : Bool := (realBody text).2 == ".nan".toList

def real (text : String) : Except ScalarError Float := do
  if (withoutSeparators text.toList).isEmpty then throw .emptyNumber
  let (negative, body) := realBody text
  let size ←
    if body = ".inf".toList then pure (1.0 / 0.0)
    else if isNoNumber text then pure (0.0 / 0.0)
    else if body.contains ':' then do
      let places ← (Form.splitOn ':' body).mapM double
      weighted 1 0.0 places.reverse
    else double body
  return if negative then -size else size

/-- Six-bit value of a character of the base-64 alphabet. -/
def sextet? (c : Char) : Option Nat :=
  if 'A' ≤ c ∧ c ≤ 'Z' then some (c.toNat - 'A'.toNat)
  else if 'a' ≤ c ∧ c ≤ 'z' then some (c.toNat - 'a'.toNat + 26)
  else if '0' ≤ c ∧ c ≤ '9' then some (c.toNat - '0'.toNat + 52)
  else if c = '+' then some 62
  else if c = '/' then some 63
  else none

/-- Bytes of a base-64 text from within a group of four characters, of which `taken` have passed
and left a value; padding that completes the group ends the text, and other characters are
passed over. -/
def bytesFrom (taken left pads : Nat) : List Char → Option (List UInt8)
  | [] => if taken = 0 then some [] else none
  | c :: rest =>
    if c = '=' then
      if 2 ≤ taken ∧ 4 ≤ taken + pads + 1 then some []
      else bytesFrom taken left (if 2 ≤ taken then pads + 1 else pads) rest
    else
      match sextet? c with
      | none => bytesFrom taken left pads rest
      | some v =>
        match taken with
        | 0 => bytesFrom 1 v 0 rest
        | 1 => (bytesFrom 2 (v % 16) 0 rest).map (UInt8.ofNat (left * 4 + v / 16) :: ·)
        | 2 => (bytesFrom 3 (v % 4) 0 rest).map (UInt8.ofNat (left * 16 + v / 4) :: ·)
        | _ => (bytesFrom 0 0 0 rest).map (UInt8.ofNat (left * 64 + v) :: ·)

def binary (text : String) : Except Failure (List UInt8) :=
  if text.toList.any fun c => 0x80 ≤ c.toNat then .error (.flaw .malformedBinary)
  else
    match bytesFrom 0 0 0 text.toList with
    | some bytes => .ok bytes
    | none => .error (.flaw .malformedBinary)

/-- A date whose month and day exist. -/
def checkedDate (year month day : Nat) : Except ScalarError Date :=
  if year = 0 then .error (.outOfRange .year year)
  else if month = 0 ∨ 12 < month then .error (.outOfRange .month month)
  else if day = 0 ∨ daysInMonth year month < day then .error (.outOfRange .day day)
  else .ok ⟨year, month, day⟩

def checkedTime (hour minute second microsecond : Nat) : Except ScalarError TimeOfDay :=
  if 24 ≤ hour then .error (.outOfRange .hour hour)
  else if 60 ≤ minute then .error (.outOfRange .minute minute)
  else if 60 ≤ second then .error (.outOfRange .second second)
  else .ok ⟨hour, minute, second, microsecond⟩

/-- The first six digits of a fraction, in millionths. -/
def millionths (digits : List Char) : Nat :=
  Json.Reader.digitsValue ((digits ++ List.replicate 6 '0').take 6)

/-- Minutes of an offset, less than a day. -/
def checkedOffset (sign : Option Char) (hours minutes : List Char) : Except ScalarError Int :=
  let size : Int := Json.Reader.digitsValue hours * 60 + Json.Reader.digitsValue minutes
  let offset := if sign = some '-' then -size else size
  if 1440 ≤ size then .error (.offsetTooLarge (quotedOffset offset)) else .ok offset

def timestamp (text : String) : Except ScalarError Value := do
  let number := Json.Reader.digitsValue
  match Form.timestamp? (Form.body text.toList) with
  | none => throw .notTimestamp
  | some t =>
    match t.time with
    | none => return .date (← checkedDate (number t.year) (number t.month) (number t.day))
    | some (hour, minute, second, fraction) =>
      let offset ← t.zone.mapM fun (sign, hours, minutes) => checkedOffset sign hours minutes
      let date ← checkedDate (number t.year) (number t.month) (number t.day)
      let time ← checkedTime (number hour) (number minute) (number second) (millionths fraction)
      return .moment ⟨date, time, offset⟩

def scalar {α : Type} (answer : Except ScalarError α) : Except Failure α :=
  answer.mapError .scalar

/-- The value of a text under a tag; no value if the tag is not one of scalars. -/
def read? (tag : Tag) (text : String) : Option (Except Failure Value) :=
  match tag with
  | .null => some (.ok .null)
  | .bool => some (scalar (.bool <$> truth text))
  | .whole => some (scalar (.whole <$> whole text))
  | .real => some (scalar (.real <$> real text))
  | .binary => some (.bytes <$> binary text)
  | .timestamp => some (scalar (timestamp text))
  | .text => some (.ok (.text text))
  | _ => none

end ModuleBundler.Yaml.Scalar
