/-! Characters of a document by their role, and the line breaks between them. -/
namespace ModuleBundler.Yaml

def isPrintable (c : Char) : Bool :=
  let n := c.toNat
  n == 0x09 || n == 0x0A || n == 0x0D || (0x20 ≤ n && n ≤ 0x7E) || n == 0x85 ||
    (0xA0 ≤ n && n ≠ 0xFFFE && n ≠ 0xFFFF)

def isBreak (c : Char) : Bool :=
  c == '\n' || c == '\r' || c == '\u0085' || c == '\u2028' || c == '\u2029'

/-- A space or a tab. -/
def isIndent (c : Char) : Bool := c == ' ' || c == '\t'

def isSpacing (c : Char) : Bool := isIndent c || isBreak c

/-- Letters, digits, hyphen and underscore, as in anchors and handles. -/
def isNameChar (c : Char) : Bool := c.isAlphanum || c == '-' || c == '_'

/-- The mark that a text may begin with, which takes no column. -/
def byteOrderMark : Char := '\uFEFF'

/-- The text ends here or goes on with one of the given characters. -/
def atEndOr (p : Char → Bool) : List Char → Bool
  | [] => true
  | c :: _ => p c

def atSpacing (chars : List Char) : Bool := atEndOr isSpacing chars

/-- The text ends here or goes on with a space or a line break. -/
def atGap (chars : List Char) : Bool := atEndOr (fun c => c == ' ' || isBreak c) chars

/-- The line break at the front and the rest; the two oldest breaks become a line feed. -/
def lineBreak : List Char → Option (Char × List Char)
  | '\r' :: '\n' :: rest => some ('\n', rest)
  | [] => none
  | c :: rest =>
    if c = '\n' ∨ c = '\r' ∨ c = '\u0085' then some ('\n', rest)
    else if isBreak c then some (c, rest)
    else none

/-- Whether three given characters and then spacing stand at the front. -/
def atMark (c : Char) : List Char → Bool
  | a :: b :: d :: rest => a == c && b == c && d == c && atSpacing rest
  | _ => false

/-- Whether a line that begins here starts or ends a document. -/
def atDocumentMark (chars : List Char) : Bool := atMark '-' chars || atMark '.' chars

/-- Whether so little text is left that more of it could tell whether a document mark stands
here. -/
def endsInMark (chars : List Char) : Bool :=
  match chars with
  | [] | [_] | [_, _] => true
  | [a, b, c] => (a == '-' || a == '.') && a == b && b == c
  | _ => false

/-- The rest after the spaces at the front. -/
def skipSpaces (chars : List Char) : List Char := chars.dropWhile (· == ' ')

/-- The rest after a comment, if one begins here. -/
def skipComment (chars : List Char) : List Char :=
  match chars with
  | '#' :: _ => chars.dropWhile fun c => !isBreak c
  | _ => chars

/-- The next line, if no more than spaces and a comment are left of this one. -/
def restOfLine? (chars : List Char) : Option (List Char) :=
  match skipComment (skipSpaces chars) with
  | [] => some []
  | rest => (lineBreak rest).map Prod.snd

/-- Breaks between two lines of text: a single line feed counts as a space, and a line feed before
further breaks not at all. -/
def foldBreaks (first : Char) (more : List Char) : List Char :=
  if first ≠ '\n' then first :: more
  else if more.isEmpty then [' ']
  else more

end ModuleBundler.Yaml
