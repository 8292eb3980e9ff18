/-! File name patterns. An asterisk stands for any text, a question mark for any
character, and brackets for one of the characters that they list, or one that they
do not list if they begin with an exclamation mark. Slashes and line breaks are
characters like any other; a bracket that is not closed stands for itself. -/
namespace ModuleBundler.Watch

/-- What a part of a pattern stands for. -/
inductive Glob.Piece where
  | anyText
  | anyChar
  | char (c : Char)
  /-- A character in one of the ranges, or, if `outside`, in none of them. -/
  | range (outside : Bool) (ranges : List (Char × Char))
  deriving DecidableEq, Repr

/-- A pattern is a list of pieces. -/
abbrev Glob := List Glob.Piece

namespace Glob

/-- The content of brackets and the rest after them. A closing bracket at the start of the content
is part of it. -/
def bracketed? (chars : List Char) : Option (List Char × List Char) :=
  let (start, rest) := match chars with
    | '!' :: ']' :: rest => (['!', ']'], rest)
    | '!' :: rest => (['!'], rest)
    | ']' :: rest => ([']'], rest)
    | rest => ([], rest)
  match rest.dropWhile (· ≠ ']') with
  | [] => none
  | _ :: after => some (start ++ rest.takeWhile (· ≠ ']'), after)

/-- The content of brackets cut at the hyphens that make ranges: each has at least `least`
characters before it, and two after the one before. A hyphen at the end makes none. -/
def chunks : Nat → Nat → List Char → List (List Char)
  | 0, _, content => [content]
  | fuel + 1, least, content =>
    let rest := content.drop least
    match rest.dropWhile (· ≠ '-') with
    | [] => [content]
    | ['-'] => [content]
    | _ :: after =>
      (content.take least ++ rest.takeWhile (· ≠ '-')) :: chunks fuel 2 after

/-- Takes out ranges whose ends are in the wrong order, the last one first; what stands on their
two sides is joined. -/
def dropReversed : List (List Char) → List (List Char)
  | [] => []
  | chunk :: rest =>
    match dropReversed rest with
    | [] => [chunk]
    | next :: more =>
      if next.headD ' ' < chunk.getLastD ' ' then (chunk.dropLast ++ next.tail) :: more
      else chunk :: next :: more

/-- The ranges that chunks stand for; the hyphen after an empty one is a character. -/
def rangesOf : List (List Char) → List (Char × Char)
  | [] => []
  | [chunk] => chunk.map fun c => (c, c)
  | [] :: next :: more => ('-', '-') :: rangesOf (next :: more)
  | (c :: chunk) :: next :: more =>
    ((c :: chunk).dropLast.map fun d => (d, d)) ++
      ((c :: chunk).getLastD c, next.headD c) :: rangesOf (next.tail :: more)
  termination_by found => found.length

/-- The piece that brackets around some content stand for. -/
def ofContent (content : List Char) : Piece :=
  let least := if content.head? = some '!' then 2 else 1
  match dropReversed (chunks content.length least content) with
  | ('!' :: chunk) :: more => .range true (rangesOf (chunk :: more))
  | found => .range false (rangesOf found)

/-- Pieces at the front of a text; `fuel` bounds their number. -/
def piecesOf : Nat → List Char → Glob
  | 0, _ => []
  | _, [] => []
  | fuel + 1, c :: rest =>
    if c = '*' then .anyText :: piecesOf fuel rest
    else if c = '?' then .anyChar :: piecesOf fuel rest
    else if c = '[' then
      match bracketed? rest with
      | some (content, after) => ofContent content :: piecesOf fuel after
      | none => .char c :: piecesOf fuel rest
    else .char c :: piecesOf fuel rest

def ofString (pattern : String) : Glob := piecesOf pattern.length pattern.toList

/-- Whether a piece for one character accepts a character. -/
def Piece.accepts (c : Char) : Piece → Bool
  | anyText => false
  | anyChar => true
  | char d => c == d
  | range outside ranges => (ranges.any fun r => r.1 ≤ c && c ≤ r.2) != outside

/-- For each end of a text, the empty one last, whether it or a shorter one is accepted. -/
def orShorter : List Bool → List Bool
  | [] => []
  | b :: rest =>
    match orShorter rest with
    | [] => [b]
    | c :: more => (b || c) :: c :: more

/-- For each end of a text, the empty one last, whether the pieces stand for all of it. -/
def acceptedEnds (text : List Char) : Glob → List Bool
  | [] => List.replicate text.length false ++ [true]
  | .anyText :: rest => orShorter (acceptedEnds text rest)
  | piece :: rest =>
    List.zipWith (fun c b => piece.accepts c && b) text (acceptedEnds text rest).tail ++ [false]

/-- Whether a pattern stands for the whole of a text. -/
def accepts (pattern : Glob) (text : String) : Bool :=
  (acceptedEnds text.toList pattern).headD false

end Glob
end ModuleBundler.Watch
