import ModuleBundler.Decimal.Nearest
import ModuleBundler.Json.Basic

/-! Reading JSON. A number without a point and an exponent is whole, whatever its
size; any other becomes the nearest double. Escaped surrogates count only in
pairs. Each step reads from the front of the text and answers what is left. -/
namespace ModuleBundler.Json

/-- Reads from the front of a text and leaves the rest; fails on any other text. -/
abbrev Reader (α : Type) := List Char → Option (α × List Char)

namespace Reader

def isSpace (c : Char) : Bool := c == ' ' || c == '\n' || c == '\r' || c == '\t'

def skipSpace (chars : List Char) : List Char := chars.dropWhile isSpace

/-- The rest after a given character and the blanks before it. -/
def symbol (c : Char) (chars : List Char) : Option (List Char) :=
  match skipSpace chars with
  | [] => none
  | head :: rest => if head = c then some rest else none

def hexValue? (c : Char) : Option Nat :=
  if '0' ≤ c ∧ c ≤ '9' then some (c.toNat - '0'.toNat)
  else if 'a' ≤ c ∧ c ≤ 'f' then some (c.toNat - 'a'.toNat + 10)
  else if 'A' ≤ c ∧ c ≤ 'F' then some (c.toNat - 'A'.toNat + 10)
  else none

/-- A 16-bit unit of four hexadecimal digits. -/
def unit : Reader Nat
  | a :: b :: c :: d :: rest => do
    let digits ← [a, b, c, d].mapM hexValue?
    some (digits.foldl (fun n digit => 16 * n + digit) 0, rest)
  | _ => none

/-- The character after a backslash and `u`; a leading surrogate takes its partner along. -/
def escapedUnit : Reader Char := fun chars => do
  let (high, rest) ← unit chars
  if 0xD800 ≤ high ∧ high < 0xDC00 then
    match rest with
    | '\\' :: 'u' :: rest => do
      let (low, rest) ← unit rest
      if 0xDC00 ≤ low ∧ low < 0xE000 then
        some (Char.ofNat (0x10000 + (high - 0xD800) * 0x400 + (low - 0xDC00)), rest)
      else none
    | _ => none
  else if 0xDC00 ≤ high ∧ high < 0xE000 then none
  else some (Char.ofNat high, rest)

def escaped : Reader Char
  | 'u' :: rest => escapedUnit rest
  | 'n' :: rest => some ('\n', rest)
  | 'r' :: rest => some ('\r', rest)
  | 't' :: rest => some ('\t', rest)
  | 'f' :: rest => some ('\x0c', rest)
  | 'b' :: rest => some ('\x08', rest)
  | c :: rest => if c = '"' ∨ c = '\\' ∨ c = '/' then some (c, rest) else none
  | [] => none

theorem length_unit {chars rest : List Char} {n : Nat} (h : unit chars = some (n, rest)) :
    rest.length < chars.length := by
  unfold unit at h
  split at h
  · obtain ⟨_, _, found⟩ := Option.bind_eq_some_iff.1 h
    simp only [Option.some.injEq, Prod.mk.injEq] at found
    simp only [found.2, List.length_cons]
    omega
  · contradiction

theorem length_escapedUnit {chars rest : List Char} {c : Char}
    (h : escapedUnit chars = some (c, rest)) : rest.length < chars.length := by
  obtain ⟨⟨high, after⟩, first, h⟩ := Option.bind_eq_some_iff.1 h
  have shorter := length_unit first
  dsimp only at h
  split at h
  · split at h
    · obtain ⟨⟨low, last⟩, second, h⟩ := Option.bind_eq_some_iff.1 h
      have shorterStill := length_unit second
      dsimp only at h
      split at h
      · simp only [Option.some.injEq, Prod.mk.injEq] at h
        simp only [List.length_cons] at shorter
        rw [← h.2]
        omega
      · contradiction
    · contradiction
  · split at h
    · contradiction
    · simp only [Option.some.injEq, Prod.mk.injEq] at h
      rw [← h.2]
      exact shorter

/-- What follows an escape is shorter than the text at its backslash. -/
theorem length_escaped {chars rest : List Char} {c : Char} (h : escaped chars = some (c, rest)) :
    rest.length < chars.length := by
  unfold escaped at h
  split at h
  case h_1 =>
    have shorter := length_escapedUnit h
    simp only [List.length_cons]
    omega
  case h_8 => contradiction
  all_goals
    simp_all only [Option.some.injEq, Prod.mk.injEq, List.length_cons,
      Option.ite_none_right_eq_some]
    omega

/-- The characters of a string after its opening quote, last first, up to the closing one. -/
def stringTail (done : List Char) : Reader (List Char)
  | [] => none
  | '\\' :: rest =>
    match h : escaped rest with
    | some (c, after) =>
      have := length_escaped h
      stringTail (c :: done) after
    | none => none
  | c :: rest =>
    if c = '"' then some (done, rest)
    else if c.toNat < 0x20 then none
    else stringTail (c :: done) rest
termination_by chars => chars.length
decreasing_by all_goals simp_all <;> omega

def string : Reader String := fun chars => do
  let rest ← symbol '"' chars
  let (reversed, rest) ← stringTail [] rest
  some (String.ofList reversed.reverse, rest)

def digits (chars : List Char) : List Char × List Char :=
  (chars.takeWhile Char.isDigit, chars.dropWhile Char.isDigit)

def digitsValue (digits : List Char) : Nat :=
  digits.foldl (fun n c => 10 * n + (c.toNat - '0'.toNat)) 0

def fraction : Reader (List Char)
  | '.' :: rest =>
    match digits rest with
    | ([], _) => none
    | (found, rest) => some (found, rest)
  | chars => some ([], chars)

/-- An exponent; none is written as no digits at all. -/
def exponent : Reader (Option Int)
  | e :: rest =>
    if e = 'e' ∨ e = 'E' then
      let (negative, rest) := match rest with
        | '-' :: rest => (true, rest)
        | '+' :: rest => (false, rest)
        | _ => (false, rest)
      match digits rest with
      | ([], _) => none
      | (found, rest) =>
        let size : Int := digitsValue found
        some (some (if negative then -size else size), rest)
    else some (none, e :: rest)
  | [] => some (none, [])

def number : Reader Json := fun chars => do
  let (negative, chars) := match chars with
    | '-' :: rest => (true, rest)
    | _ => (false, chars)
  let (leading, chars) := digits chars
  guard (!leading.isEmpty && (leading.length == 1 || leading.head? != some '0'))
  let (places, chars) ← fraction chars
  let (shift, chars) ← exponent chars
  if places.isEmpty && shift.isNone then
    let size : Int := digitsValue leading
    some (.whole (if negative then -size else size), chars)
  else
    let size := Decimal.Digits.toFloat
      ⟨digitsValue (leading ++ places), shift.getD 0 - places.length⟩
    some (.real (if negative then -size else size), chars)

def word (expected : String) (value : Json) (chars : List Char) : Option (Json × List Char) :=
  if expected.toList.isPrefixOf chars then some (value, chars.drop expected.length) else none

mutual

/-- One value; `fuel` bounds how deep and how long it may be. -/
def value : Nat → Reader Json
  | 0, _ => none
  | fuel + 1, chars =>
    match skipSpace chars with
    | '{' :: rest =>
      match symbol '}' rest with
      | some rest => some (.object [], rest)
      | none => do
        let (members, rest) ← members fuel rest
        some (.object members, rest)
    | '[' :: rest =>
      match symbol ']' rest with
      | some rest => some (.array [], rest)
      | none => do
        let (items, rest) ← items fuel rest
        some (.array items, rest)
    | '"' :: rest => do
      let (s, rest) ← string ('"' :: rest)
      some (.text s, rest)
    | 'n' :: rest => word "null" .null ('n' :: rest)
    | 't' :: rest => word "true" (.bool true) ('t' :: rest)
    | 'f' :: rest => word "false" (.bool false) ('f' :: rest)
    | rest => number rest

/-- Values separated by commas, up to the closing bracket. -/
def items : Nat → Reader (List Json)
  | 0, _ => none
  | fuel + 1, chars => do
    let (first, rest) ← value fuel chars
    match symbol ',' rest with
    | some rest => do
      let (others, rest) ← items fuel rest
      some (first :: others, rest)
    | none => do
      let rest ← symbol ']' rest
      some ([first], rest)

/-- Named values separated by commas, up to the closing brace. -/
def members : Nat → Reader (List (String × Json))
  | 0, _ => none
  | fuel + 1, chars => do
    let (name, rest) ← string chars
    let rest ← symbol ':' rest
    let (first, rest) ← value fuel rest
    match symbol ',' rest with
    | some rest => do
      let (others, rest) ← members fuel rest
      some ((name, first) :: others, rest)
    | none => do
      let rest ← symbol '}' rest
      some ([(name, first)], rest)

end

end Reader

/-- The value that a text holds, if it holds exactly one. -/
def parse? (source : String) : Option Json := do
  let chars := source.toList
  let (value, rest) ← Reader.value (chars.length + 1) chars
  if (Reader.skipSpace rest).isEmpty then some value else none

end ModuleBundler.Json
