/-! Blank characters: the separators of Unicode, the line and page controls and
the four information separators. A zero-width space is not blank. -/
namespace ModuleBundler.Text

/-- Blank code points above the plain space. -/
def wideBlanks : List Nat :=
  [0x85, 0xA0, 0x1680, 0x2000, 0x2001, 0x2002, 0x2003, 0x2004, 0x2005, 0x2006, 0x2007, 0x2008,
    0x2009, 0x200A, 0x2028, 0x2029, 0x202F, 0x205F, 0x3000]

def isBlank (c : Char) : Bool :=
  let code := c.toNat
  if code < 0x80 then (9 ≤ code && code ≤ 13) || (28 ≤ code && code ≤ 32)
  else wideBlanks.contains code

/-- Text without the characters of a kind at its two ends. -/
def trimBy (kind : Char → Bool) (text : List Char) : List Char :=
  ((text.dropWhile kind).reverse.dropWhile kind).reverse

/-- Text without the blanks at its two ends. -/
def trim (text : List Char) : List Char := trimBy isBlank text

end ModuleBundler.Text
