import ModuleBundler.Decimal.Layout
import ModuleBundler.Json.Basic
import ModuleBundler.Text.Quoted

/-! JSON on one line of printable ASCII. A comma or colon is followed by one
space; every character outside the printable ASCII range is escaped, one beyond
the basic plane as a surrogate pair, so that no line break can occur. -/
namespace ModuleBundler.Json

/-- Four hexadecimal digits of a 16-bit unit. -/
def escapeUnit (unit : Nat) : List Char := '\\' :: 'u' :: Text.hexDigits 4 unit

/-- The 16-bit units of a character. -/
def units (c : Char) : List Nat :=
  if c.toNat < 0x10000 then [c.toNat]
  else
    let offset := c.toNat - 0x10000
    [0xD800 + offset / 0x400, 0xDC00 + offset % 0x400]

def escapeChar (c : Char) : List Char :=
  if c = '"' then ['\\', '"']
  else if c = '\\' then ['\\', '\\']
  else if c = '\n' then ['\\', 'n']
  else if c = '\r' then ['\\', 'r']
  else if c = '\t' then ['\\', 't']
  else if c = '\x0c' then ['\\', 'f']
  else if c = '\x08' then ['\\', 'b']
  else if 0x20 ≤ c.toNat ∧ c.toNat ≤ 0x7E then [c]
  else (units c).flatMap escapeUnit

def quote (text : String) : List Char := '"' :: text.toList.flatMap escapeChar ++ ['"']

mutual

def renderChars : Json → List Char
  | .null => ['n', 'u', 'l', 'l']
  | .bool true => ['t', 'r', 'u', 'e']
  | .bool false => ['f', 'a', 'l', 's', 'e']
  | .whole n => (toString n).toList
  | .real x => (Decimal.text .json x).toList
  | .text s => quote s
  | .array items => '[' :: renderItems items ++ [']']
  | .object members => '{' :: renderMembers members ++ ['}']

def renderItems : List Json → List Char
  | [] => []
  | [item] => renderChars item
  | item :: rest => renderChars item ++ ',' :: ' ' :: renderItems rest

def renderMembers : List (String × Json) → List Char
  | [] => []
  | [(name, value)] => quote name ++ ':' :: ' ' :: renderChars value
  | (name, value) :: rest =>
    quote name ++ ':' :: ' ' :: renderChars value ++ ',' :: ' ' :: renderMembers rest

end

def render (value : Json) : String := String.ofList (renderChars value)

end ModuleBundler.Json
