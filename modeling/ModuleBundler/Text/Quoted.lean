import ModuleBundler.Text.Printable

/-! Quoted form of a text as messages show it. The apostrophe is the quote,
unless the text holds one and no double quote. A backslash stands before the
quote in use, itself and the letter of a line feed, carriage return or tab; other
characters that do not print are written by their number in two, four or eight
lower-case hexadecimal digits. -/
namespace ModuleBundler.Text

/-- The low `width` hexadecimal digits of a number, in lower case. -/
def hexDigits (width n : Nat) : List Char :=
  (List.range width).reverse.map fun place => (n / Nat.pow 16 place % 16).digitChar

/-- The quote that a text is written between. -/
def quoteFor (text : List Char) : Char :=
  if '\'' ∈ text ∧ '"' ∉ text then '"' else '\''

/-- One character between two `quote`s. -/
def quoteChar (quote c : Char) : List Char :=
  if c = quote ∨ c = '\\' then ['\\', c]
  else if c = '\n' then ['\\', 'n']
  else if c = '\r' then ['\\', 'r']
  else if c = '\t' then ['\\', 't']
  else if isPrintable c then [c]
  else if c.toNat < 0x100 then '\\' :: 'x' :: hexDigits 2 c.toNat
  else if c.toNat < 0x10000 then '\\' :: 'u' :: hexDigits 4 c.toNat
  else '\\' :: 'U' :: hexDigits 8 c.toNat

/-- The quoted form, quotes included. -/
def quoted (text : String) : String :=
  let chars := text.toList
  let quote := quoteFor chars
  String.ofList (quote :: chars.flatMap (quoteChar quote) ++ [quote])

end ModuleBundler.Text
