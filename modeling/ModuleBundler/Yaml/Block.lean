import ModuleBundler.Yaml.Character
import ModuleBundler.Yaml.Flaw

/-! Block scalars: lines indented below a header. A literal scalar keeps its line
breaks, a folded one joins lines that do not begin with a blank. The header may
give the indentation and say what becomes of the breaks at the end. -/
namespace ModuleBundler.Yaml.Block

/-- What becomes of the line breaks at the end. -/
inductive Chomping where
  | clip
  | keep
  | strip
  deriving DecidableEq

structure Header where
  chomping : Chomping
  /-- Indentation beyond that of the surrounding block, if it is given. -/
  indent : Option Nat

def chomping? (c : Char) : Option Chomping :=
  if c = '+' then some .keep else if c = '-' then some .strip else none

/-- The sign and digit after the mark of a block scalar, in either order, and the next line. -/
def header (chars : List Char) : Except Flaw (Header × List Char) :=
  let (sign, rest) := signAt chars
  let (digit, rest) := digitAt rest
  let (sign, rest) := if sign.isSome then (sign, rest) else signAt rest
  let found : Header := ⟨sign.getD .clip, digit⟩
  if digit == some 0 || !atGap rest then .error .malformedBlockHeader
  else
    match restOfLine? rest with
    | some next => .ok (found, next)
    | none => .error .malformedBlockHeader
where
  signAt : List Char → Option Chomping × List Char
    | [] => (none, [])
    | c :: rest =>
      match chomping? c with
      | some sign => (some sign, rest)
      | none => (none, c :: rest)
  digitAt : List Char → Option Nat × List Char
    | [] => (none, [])
    | c :: rest =>
      if c.isDigit then (some (c.toNat - '0'.toNat), rest) else (none, c :: rest)

/-- Line breaks before a line of text, and where that line stands. -/
structure Margin where
  breaks : List Char
  column : Nat
  rest : List Char

/-- Spaces and breaks up to the first text, and the widest indentation among them. -/
def widest (column width : Nat) (breaks : List Char) : List Char → Margin × Nat
  | ' ' :: rest => widest (column + 1) (max width (column + 1)) breaks rest
  | '\r' :: '\n' :: rest => widest 0 width (breaks ++ ['\n']) rest
  | [] => (⟨breaks, column, []⟩, width)
  | c :: rest =>
    match lineBreak [c] with
    | some (b, _) => widest 0 width (breaks ++ [b]) rest
    | none => (⟨breaks, column, c :: rest⟩, width)

/-- Breaks, each with up to `indent` spaces before it, and the spaces of the next line. -/
def margin (indent column : Nat) (breaks : List Char) : List Char → Margin
  | '\r' :: '\n' :: rest => margin indent 0 (breaks ++ ['\n']) rest
  | [] => ⟨breaks, column, []⟩
  | c :: rest =>
    if c = ' ' ∧ column < indent then margin indent (column + 1) breaks rest
    else
      match lineBreak [c] with
      | some (b, _) => margin indent 0 (breaks ++ [b]) rest
      | none => ⟨breaks, column, c :: rest⟩

def startsBlank (chars : List Char) : Bool := (chars.head?.map isIndent).getD false

/-- Lines of text, behind what is `done`, last first: the text without its last break, that break,
and where the lines end. -/
def lines (folded : Bool) (indent : Nat) :
    Nat → List Char → Margin → List Char × List Char × Margin
  | 0, done, m => (done.reverse, [], m)
  | fuel + 1, done, m =>
    let line := m.rest.takeWhile fun c => !isBreak c
    let rest := m.rest.dropWhile fun c => !isBreak c
    let (ending, rest) := match lineBreak rest with
      | some (b, rest) => ([b], rest)
      | none => ([], rest)
    let next := margin indent 0 [] rest
    let done := line.reverse ++ done
    if next.column ≠ indent ∨ next.rest = [] then (done.reverse, ending, next)
    else
      let joined := folded && ending == ['\n'] && !startsBlank line && !startsBlank next.rest
      let between := if joined then (if next.breaks.isEmpty then [' '] else []) else ending
      lines folded indent fuel (next.breaks.reverse ++ between.reverse ++ done) next

/-- The block scalar after its mark, in a block indented by `outer` at least, and the rest. -/
def scan (folded : Bool) (outer : Nat) (chars : List Char) :
    Except Flaw (List Char × List Char) := do
  let (h, rest) ← header chars
  let (indent, first) := match h.indent with
    | some width => (outer + width - 1, margin (outer + width - 1) 0 [] rest)
    | none =>
      let (first, width) := widest 0 0 [] rest
      (max outer width, first)
  let (text, ending, last) :=
    if first.column ≠ indent ∨ first.rest = [] then ([], [], first)
    else lines folded indent (first.rest.length + 1) first.breaks.reverse first
  let kept := match h.chomping with
    | .strip => []
    | .clip => ending
    | .keep => ending ++ last.breaks
  return (text ++ kept, last.rest)

end ModuleBundler.Yaml.Block
