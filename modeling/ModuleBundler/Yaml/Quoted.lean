import ModuleBundler.Json.Reader
import ModuleBundler.Yaml.Character
import ModuleBundler.Yaml.Flaw

/-! Quoted scalars. Blanks around a line break are dropped and breaks are folded.
Between apostrophes only a doubled apostrophe is special; between double quotes a
backslash escapes a character, gives one by its number, or joins two lines. Where
`whole` is false the text is known in part only, and what its end would decide is
not decided. -/
namespace ModuleBundler.Yaml.Quoted

/-- Line breaks and the blanks around them, up to the next text. -/
def breaks (whole lineStart : Bool) (more : List Char) (chars : List Char) :
    Except Failure (List Char × List Char) :=
  if lineStart && !whole && endsInMark chars then .error (.flaw .textEnds)
  else if lineStart && atDocumentMark chars then .error (.flaw .markInsideQuotes)
  else
    match chars with
    | '\r' :: '\n' :: rest => breaks whole true (more ++ ['\n']) rest
    | [] => .ok (more, [])
    | c :: rest =>
      if isIndent c then breaks whole false more rest
      else
        match lineBreak [c] with
        | some (b, _) => breaks whole true (more ++ [b]) rest
        | none => .ok (more, c :: rest)

/-- What a letter after a backslash stands for. -/
def escapes : List (Char × Char) :=
  [('0', '\x00'), ('a', '\x07'), ('b', '\x08'), ('t', '\t'), ('\t', '\t'), ('n', '\n'),
    ('v', '\x0b'), ('f', '\x0c'), ('r', '\r'), ('e', '\x1b'), (' ', ' '), ('"', '"'),
    ('\\', '\\'), ('/', '/'), ('N', '\u0085'), ('_', '\u00a0'), ('L', '\u2028'), ('P', '\u2029')]

/-- How many hexadecimal digits follow a letter that announces a number. -/
def numberWidth? (c : Char) : Option Nat :=
  if c = 'x' then some 2 else if c = 'u' then some 4 else if c = 'U' then some 8 else none

/-- A character by its number. A surrogate is no character and becomes the replacement one. -/
def ofNumber (code : Nat) : Except Failure Char :=
  if 0x110000 ≤ code then .error (.scalar (.noSuchCharacter code))
  else if 0xD800 ≤ code ∧ code < 0xE000 then .ok '\ufffd'
  else .ok (Char.ofNat code)

def numbered (width : Nat) (chars : List Char) : Except Failure (Char × List Char) :=
  let given := chars.take width
  let digits := given.filterMap Json.Reader.hexValue?
  if digits.length < given.length then .error (.flaw .malformedEscape)
  else if given.length < width then .error (.flaw .textEnds)
  else do
    let c ← ofNumber (digits.foldl (fun n d => 16 * n + d) 0)
    return (c, chars.drop width)

/-- What an escape stands for, after its backslash, and the rest. -/
def escape (whole : Bool) (chars : List Char) : Except Failure (List Char × List Char) :=
  match chars with
  | [] => .error (.flaw .textEnds)
  | c :: rest =>
    match escapes.lookup c with
    | some meant => .ok ([meant], rest)
    | none =>
      match numberWidth? c with
      | some width => do
        let (meant, rest) ← numbered width rest
        return ([meant], rest)
      | none =>
        match lineBreak chars with
        | some (_, rest) => breaks whole true [] rest
        | none => .error (.flaw .malformedEscape)

/-- Characters that mean themselves between both kinds of quote. -/
def isOrdinary (c : Char) : Bool := !isSpacing c && c != '\'' && c != '"' && c != '\\'

/-- The text up to the closing quote, in front of it what is `done`, last first, and the rest after
it. -/
def tail (whole : Bool) (quote : Char) :
    Nat → List Char → List Char → Except Failure (List Char × List Char)
  | 0, _, _ => .error (.flaw .textEnds)
  | _, _, [] => .error (.flaw .textEnds)
  | fuel + 1, done, c :: rest =>
    if isSpacing c then
      let blanks := (c :: rest).takeWhile isIndent
      let rest := (c :: rest).dropWhile isIndent
      match lineBreak rest with
      | some (first, rest) => do
        let (more, rest) ← breaks whole true [] rest
        tail whole quote fuel ((foldBreaks first more).reverse ++ done) rest
      | none => tail whole quote fuel (blanks.reverse ++ done) rest
    else if c = quote then
      match quote, rest with
      | '\'', '\'' :: rest => tail whole quote fuel ('\'' :: done) rest
      | _, _ => .ok (done.reverse, rest)
    else if c = '\\' ∧ quote = '"' then do
      let (meant, rest) ← escape whole rest
      tail whole quote fuel (meant.reverse ++ done) rest
    else
      let word := rest.takeWhile isOrdinary
      tail whole quote fuel (word.reverse ++ c :: done) (rest.dropWhile isOrdinary)

/-- The quoted scalar after its opening quote, and the rest after the closing one. -/
def scan (whole : Bool) (quote : Char) (chars : List Char) :
    Except Failure (List Char × List Char) :=
  tail whole quote (chars.length + 1) [] chars

end ModuleBundler.Yaml.Quoted
