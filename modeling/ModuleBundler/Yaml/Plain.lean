import ModuleBundler.Yaml.Character

/-! Plain scalars: text without quotes. It goes on over spaces and line breaks as
long as the next line is indented enough, and ends before a comment, a colon that
opens a value, and, between brackets, before a bracket, a comma or a question mark. -/
namespace ModuleBundler.Yaml.Plain

/-- Characters that structure text between brackets. -/
def isBracketOrComma (c : Char) : Bool :=
  c == ',' || c == '[' || c == ']' || c == '{' || c == '}'

/-- Whether a colon before `rest` opens a value. -/
def opensValue (bracketed : Bool) (rest : List Char) : Bool :=
  atEndOr (fun c => isSpacing c || (bracketed && isBracketOrComma c)) rest

/-- The longest run of text without spaces at the front, and the rest. -/
def run (bracketed : Bool) : List Char → List Char × List Char
  | [] => ([], [])
  | c :: rest =>
    if isSpacing c || (c == ':' && opensValue bracketed rest) ||
        (bracketed && (isBracketOrComma c || c == '?')) then ([], c :: rest)
    else
      let (more, left) := run bracketed rest
      (c :: more, left)

/-- What stands between two runs: the text that it counts as, the rest, and the column of the rest
if a line break was passed. -/
structure Gap where
  text : List Char
  rest : List Char
  column : Option Nat

/-- Further line breaks and the spaces before the next text; nothing if a document mark is met. -/
def breaks (column : Nat) (more : List Char) (chars : List Char) :
    Option (List Char) × List Char × Nat :=
  if column = 0 && atDocumentMark chars then (none, chars, column)
  else
    match chars with
    | ' ' :: rest => breaks (column + 1) more rest
    | '\r' :: '\n' :: rest => breaks 0 (more ++ ['\n']) rest
    | [] => (some more, [], column)
    | c :: rest =>
      match lineBreak [c] with
      | some (b, _) => breaks 0 (more ++ [b]) rest
      | none => (some more, c :: rest, column)

def gap (chars : List Char) : Gap :=
  let rest := skipSpaces chars
  match lineBreak rest with
  | none => ⟨chars.takeWhile (· == ' '), rest, none⟩
  | some (first, rest) =>
    let (more, rest, column) := breaks 0 [] rest
    ⟨(more.map (foldBreaks first)).getD [], rest, some column⟩

/-- A plain scalar and the rest after the gap behind it. -/
structure Scan where
  /-- The text, last character first. -/
  reversed : List Char
  rest : List Char
  /-- Whether the rest begins on a later line than the text ends. -/
  passedBreak : Bool
  /-- Whether the rest begins too far left to go on with the text. -/
  tooFarLeft : Bool

/-- Whether a run begins here; a comment is none. -/
def startsRun (bracketed : Bool) (chars : List Char) : Bool :=
  chars.head? != some '#' && !(run bracketed chars).1.isEmpty

/-- Runs and the gaps between them, continued on lines indented by `indent` or more. -/
def scanFrom (bracketed : Bool) (indent : Nat) : Nat → Scan → Scan
  | 0, found => found
  | fuel + 1, found =>
    let (text, rest) := run bracketed found.rest
    let g := gap rest
    let tooFarLeft := !bracketed && g.column.any (· < indent)
    let ended : Scan := ⟨text.reverse ++ found.reversed, g.rest, g.column.isSome, tooFarLeft⟩
    if g.text.isEmpty || tooFarLeft || !startsRun bracketed g.rest then ended
    else
      scanFrom bracketed indent fuel { ended with reversed := g.text.reverse ++ ended.reversed }

/-- Whether the scan of a text looked beyond its end. If anything is left, that is so at a colon,
whose role depends on what follows it, and at the start of a line near the end, where a document
mark might stand. -/
def Scan.reachesEnd (s : Scan) (chars : List Char) : Bool :=
  match s.rest with
  | [] => true
  | [c] => (c == ':' && !s.tooFarLeft) || startsNear 1
  | [_, _] => startsNear 2
  | [_, _, _] => startsNear 3
  | _ => false
where
  startsNear (left : Nat) : Bool :=
    (List.range' left (4 - left)).any fun count =>
      match chars.drop (chars.length - (count + 1)) with
      | b :: rest => rest.length == count && isBreak b && endsInMark rest
      | [] => false

/-- The text in order. -/
def Scan.text (s : Scan) : String := String.ofList s.reversed.reverse

/-- The plain scalar at the front of a text. -/
def scan (bracketed : Bool) (indent : Nat) (chars : List Char) : Scan :=
  scanFrom bracketed indent (chars.length + 1) ⟨[], chars, false, false⟩

end ModuleBundler.Yaml.Plain
