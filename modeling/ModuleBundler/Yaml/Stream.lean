import ModuleBundler.Yaml.Input
import ModuleBundler.Yaml.Token

/-! The tokens of a text. Indentation opens and closes block collections. Whether a
scalar is a key shows only at the colon behind it: where a key may begin is
remembered, and the tokens that open it are put in there when the colon comes, if
that is on the same line and near enough. A token counts only once this is settled:
where reading fails, those that still wait for it are lost. -/
namespace ModuleBundler.Yaml

/-- A place in the text and what is left of it. -/
structure Position where
  rest : List Char
  index : Nat
  line : Nat
  column : Nat

namespace Position

/-- The place one character on. -/
def next (p : Position) : Position :=
  match p.rest with
  | [] => p
  | '\r' :: '\n' :: rest =>
    { p with rest := '\n' :: rest, index := p.index + 1, column := p.column + 1 }
  | c :: rest =>
    if isBreak c then ⟨rest, p.index + 1, p.line + 1, 0⟩
    else if c = byteOrderMark then ⟨rest, p.index + 1, p.line, p.column⟩
    else ⟨rest, p.index + 1, p.line, p.column + 1⟩

def skip : Nat → Position → Position
  | 0, p => p
  | count + 1, p => skip count p.next

/-- The place after the characters at the front that have a property. -/
def pass (p : Char → Bool) (place : Position) : Position :=
  place.skip (place.rest.takeWhile p).length

/-- The place after a comment, if one begins here. -/
def passComment (p : Position) : Position :=
  if p.rest.head? = some '#' then p.pass fun c => !isBreak c else p

/-- The place after the line break here. -/
def passBreak (p : Position) : Position :=
  match p.rest with
  | '\r' :: '\n' :: _ => p.skip 2
  | _ => p.skip 1

end Position

/-- Where a key may have begun. -/
structure Candidate where
  /-- How many tokens stand before it. -/
  tokenCount : Nat
  /-- Nothing but a key can begin here. -/
  isRequired : Bool
  index : Nat
  line : Nat
  column : Nat

/-- Characters that a key may take before its colon. -/
def keyLimit : Nat := 1024

/-- A reading of a text under way. -/
structure Lexer where
  position : Position
  /-- Why the text does not go on where the rest ends, unless it is whole. -/
  obstacle : Option Failure
  /-- Tokens so far, last first. -/
  tokens : List Token
  tokenCount : Nat
  /-- How many brackets are open. -/
  depth : Nat
  /-- Columns of the open blocks, innermost first. -/
  indents : List Nat
  /-- Whether a key may begin here. -/
  keyAllowed : Bool
  /-- Candidates by the number of brackets open around them. -/
  candidates : List (Nat × Candidate)

namespace Lexer

/-- A step that changes the reading or fails. -/
abbrev Step := Lexer → Except Failure Lexer

def ofInput (input : Input) : Lexer :=
  ⟨⟨input.chars, 0, 0, 0⟩, input.obstacle, [], 0, 0, [], true, []⟩

def rest (l : Lexer) : List Char := l.position.rest

def isWhole (l : Lexer) : Bool := l.obstacle.isNone

/-- A reader of what stands at the front of a text. If the text is not whole, the reader says so of
what its end would decide. -/
abbrev Reader (α : Type) := Bool → List Char → Except Failure (α × List Char)

/-- Reads from the shortest front of a text that decides what is read, among those of a size and its
doubles, and tells how many characters that takes. -/
def readFront {α : Type} (read : Reader α) (obstacle : Option Failure) (chars : List Char)
    (size : Nat) : Except Failure (α × Nat) :=
  let front := chars.take size
  if complete : front.length < size ∨ size = 0 then
    match read obstacle.isNone front, obstacle with
    | .ok (found, c :: rest), _ => .ok (found, front.length - (c :: rest).length)
    | .ok (found, []), none => .ok (found, front.length)
    | .ok (_, []), some cause => .error cause
    | .error (.flaw .textEnds), some cause => .error cause
    | .error cause, _ => .error cause
  else
    have : size ≤ chars.length := by simp [front] at complete; omega
    match read false front with
    | .ok (_, []) | .error (.flaw .textEnds) => readFront read obstacle chars (2 * size)
    | .ok (found, rest) => .ok (found, front.length - rest.length)
    | .error cause => .error cause
  termination_by chars.length + 1 - size

/-- The size of the first front from which something is read. -/
def frontSize : Nat := 64

/-- Reads what stands behind the next `width` characters, and the number of all these. -/
def read {α : Type} (width : Nat) (reader : Reader α) (l : Lexer) : Except Failure (α × Nat) := do
  let (found, count) ← readFront reader l.obstacle (l.rest.drop width) frontSize
  return (found, width + count)

/-- Fails if the text is not whole, where its end had to be looked beyond. -/
def needsMore (needed : Bool) (l : Lexer) : Except Failure Unit :=
  match l.obstacle with
  | some cause => if needed then .error cause else .ok ()
  | none => .ok ()

def push (t : Token) (l : Lexer) : Lexer :=
  { l with tokens := t :: l.tokens, tokenCount := l.tokenCount + 1 }

/-- Puts a token where `before` tokens stand in front of it. -/
def insert (before : Nat) (t : Token) (l : Lexer) : Lexer :=
  let behind := l.tokenCount - before
  { l with
    tokens := l.tokens.take behind ++ t :: l.tokens.drop behind
    tokenCount := l.tokenCount + 1 }

def skip (count : Nat) (l : Lexer) : Lexer := { l with position := l.position.skip count }

def allowKey (allowed : Bool) (l : Lexer) : Lexer := { l with keyAllowed := allowed }

/-- Whether a column lies to the right of the innermost open block. -/
def isDeeper (l : Lexer) (column : Nat) : Bool :=
  match l.indents with
  | [] => true
  | indent :: _ => indent < column

/-- The least column of text inside the innermost open block. -/
def contentColumn (l : Lexer) : Nat :=
  match l.indents with
  | [] => 0
  | indent :: _ => indent + 1

/-- Closes the blocks that lie to the right of a column, outside brackets. -/
def unwind (column : Nat) (l : Lexer) : Lexer :=
  if l.depth ≠ 0 then l
  else
    let closed := (l.indents.takeWhile (column < ·)).length
    { l with
      indents := l.indents.drop closed
      tokens := List.replicate closed .blockEnd ++ l.tokens
      tokenCount := l.tokenCount + closed }

/-- Closes all blocks, outside brackets. -/
def unwindAll (l : Lexer) : Lexer :=
  if l.depth ≠ 0 then l
  else
    { l with
      indents := []
      tokens := List.replicate l.indents.length .blockEnd ++ l.tokens
      tokenCount := l.tokenCount + l.indents.length }

/-- Drops the candidates that can no longer be keys; a required one has missed its colon. -/
def dropStale : Step := fun l =>
  let isStale (c : Candidate) : Bool :=
    c.line != l.position.line || keyLimit < l.position.index - c.index
  if l.candidates.any fun e => isStale e.2 && e.2.isRequired then .error (.flaw .colonMissing)
  else .ok { l with candidates := l.candidates.filter fun e => !isStale e.2 }

/-- Drops the candidate at the present depth. -/
def dropCandidate : Step := fun l =>
  match l.candidates.lookup l.depth with
  | none => .ok l
  | some c =>
    if c.isRequired then .error (.flaw .colonMissing)
    else .ok { l with candidates := l.candidates.filter fun e => e.1 != l.depth }

/-- Remembers that a key may begin here. -/
def saveCandidate : Step := fun l => do
  if !l.keyAllowed then return l
  let l ← l.dropCandidate
  let isRequired := l.depth == 0 && l.indents.head? == some l.position.column
  let c : Candidate :=
    ⟨l.tokenCount, isRequired, l.position.index, l.position.line, l.position.column⟩
  return { l with candidates := (l.depth, c) :: l.candidates }

/-- A line break was passed: outside brackets a key may begin on the new line. -/
def onNewLine (l : Lexer) : Lexer := if l.depth = 0 then l.allowKey true else l

/-- Passes spaces, comments and line breaks. -/
def skipToToken : Nat → Lexer → Lexer
  | 0, l => l
  | fuel + 1, l =>
    let l := { l with position := (l.position.pass (· == ' ')).passComment }
    match lineBreak l.rest with
    | some _ => skipToToken fuel { l with position := l.position.passBreak }.onNewLine
    | none => l

/-- Passes the mark at the very start of a text. -/
def skipOrderMark (l : Lexer) : Lexer :=
  if l.position.index = 0 ∧ l.rest.head? = some byteOrderMark then l.skip 1 else l

def documentMark (t : Token) : Step := fun l => do
  let l ← l.unwindAll.dropCandidate
  return ((l.allowKey false).skip 3).push t

def directive : Step := fun l => do
  let l ← l.unwindAll.dropCandidate
  let (d, count) ← l.read 1 Token.directiveLine
  return ((l.allowKey false).skip count).push (.directive d)

def openBracket (t : Token) : Step := fun l => do
  let l ← l.saveCandidate
  return (({ l with depth := l.depth + 1 }.allowKey true).skip 1).push t

def closeBracket (t : Token) : Step := fun l => do
  let l ← l.dropCandidate
  return (({ l with depth := l.depth - 1 }.allowKey false).skip 1).push t

def comma : Step := fun l => do
  let l ← l.dropCandidate
  return ((l.allowKey true).skip 1).push .comma

/-- Opens a block at the present column, if that is to the right of the innermost one. -/
def openBlock (t : Token) (l : Lexer) : Lexer :=
  let column := l.position.column
  if l.isDeeper column then { l with indents := column :: l.indents }.push t else l

/-- What stands at the start of a block line: outside brackets only where a key may begin. -/
def blockIndicator (opening : Token) (refusal : Flaw) : Step := fun l =>
  if l.depth ≠ 0 then .ok l
  else if l.keyAllowed then .ok (l.openBlock opening)
  else .error (.flaw refusal)

def item : Step := fun l => do
  let l ← l.blockIndicator .blockSequenceStart .entryNotAllowed
  let l ← (l.allowKey true).dropCandidate
  return (l.skip 1).push .item

def explicitKey : Step := fun l => do
  let l ← l.blockIndicator .blockMappingStart .keyNotAllowed
  let l ← (l.allowKey (l.depth == 0)).dropCandidate
  return (l.skip 1).push .key

/-- Makes a candidate the key it may be, in a block of its own if that is not open yet. -/
def confirm (c : Candidate) (l : Lexer) : Lexer :=
  let l := { l with candidates := l.candidates.filter fun e => e.1 != l.depth }
  let l := l.insert c.tokenCount .key
  let l := if l.depth = 0 ∧ l.isDeeper c.column then
      { l with indents := c.column :: l.indents }.insert c.tokenCount .blockMappingStart
    else l
  l.allowKey false

def value : Step := fun l => do
  let l ← match l.candidates.lookup l.depth with
    | some c => pure (l.confirm c)
    | none => do
      let l ← l.blockIndicator .blockMappingStart .valueNotAllowed
      (l.allowKey (l.depth == 0)).dropCandidate
  return (l.skip 1).push .value

/-- A token that may begin a key, read from the text after its first `width` characters. -/
def opening {α : Type} (reader : Reader α) (token : α → Token) : Step := fun l => do
  let l ← l.saveCandidate
  let (found, count) ← l.read 1 reader
  return ((l.allowKey false).skip count).push (token found)

/-- A reader that looks no further than one character beyond what it reads. -/
def simple {α : Type} (read : List Char → Except Flaw (α × List Char)) : Reader α :=
  fun _ chars => Token.flawed (read chars)

def quoted (quote : Char) : Step :=
  opening (fun whole => Quoted.scan whole quote) fun text => .scalar (String.ofList text) false

def block (folded : Bool) : Step := fun l => do
  let l ← (l.allowKey true).dropCandidate
  let (text, count) ← l.read 1 (simple (Block.scan folded (max 1 l.contentColumn)))
  return (l.skip count).push (.scalar (String.ofList text) false)

/-- A plain scalar; the reader of one never fails but at the end of a text that is not whole. -/
def plainReader (bracketed : Bool) (indent : Nat) : Reader Plain.Scan := fun whole chars =>
  let found := Plain.scan bracketed indent chars
  if !whole && found.reachesEnd chars then .error (.flaw .textEnds) else .ok (found, found.rest)

def plain : Step := fun l => do
  let l ← l.saveCandidate
  let (found, count) ← l.read 0 (plainReader (l.depth ≠ 0) l.contentColumn)
  return ((l.allowKey found.passedBreak).skip count).push (.scalar found.text true)

/-- Characters that begin something other than a plain scalar. -/
def indicators : List Char :=
  ['-', '?', ':', ',', '[', ']', '{', '}', '#', '&', '*', '!', '|', '>', '\'', '"', '%', '@',
    '\x60']

/-- Whether a plain scalar begins with `c` before `rest`. -/
def startsPlain (bracketed : Bool) (c : Char) (rest : List Char) : Bool :=
  (!isSpacing c && !indicators.contains c) ||
    (!atSpacing rest && (c == '-' || (!bracketed && (c == '?' || c == ':'))))

/-- The token that begins with `c` before `rest`. -/
def token (c : Char) (rest : List Char) : Step := fun l =>
  let bracketed := l.depth ≠ 0
  let atStart := l.position.column = 0
  if c = '%' ∧ atStart then directive l
  else if c = '-' ∧ atStart ∧ atMark '-' l.rest then documentMark .documentStart l
  else if c = '.' ∧ atStart ∧ atMark '.' l.rest then documentMark .documentEnd l
  else if c = '[' then openBracket .sequenceStart l
  else if c = '{' then openBracket .mappingStart l
  else if c = ']' then closeBracket .sequenceEnd l
  else if c = '}' then closeBracket .mappingEnd l
  else if c = ',' then comma l
  else if c = '-' ∧ atSpacing rest then item l
  else if c = '?' ∧ (bracketed ∨ atSpacing rest) then explicitKey l
  else if c = ':' ∧ (bracketed ∨ atSpacing rest) then value l
  else if c = '*' then opening (simple Token.anchorName) .alias l
  else if c = '&' then opening (simple Token.anchorName) .anchor l
  else if c = '!' then opening (simple Token.tagText) .tag l
  else if c = '|' ∧ ¬bracketed then block false l
  else if c = '>' ∧ ¬bracketed then block true l
  else if c = '\'' ∨ c = '"' then quoted c l
  else if startsPlain bracketed c rest then plain l
  else .error (.flaw (.strayCharacter c))

/-- Whether more text is needed to tell which token begins with `c`, at the front of the rest. -/
def isUndecided (l : Lexer) (c : Char) : Bool :=
  let beginsAlone := ['[', '{', ']', '}', ',', '*', '&', '!', '\'', '"']
  let bracketed := l.depth ≠ 0
  if (c = '-' ∨ c = '.') ∧ l.position.column = 0 then endsInMark l.rest
  else if l.rest ≠ [c] ∨ beginsAlone.contains c then false
  else if c = '%' then l.position.column ≠ 0
  else if c = '?' ∨ c = ':' ∨ c = '|' ∨ c = '>' then !bracketed == (c = '?' ∨ c = ':')
  else indicators.contains c || isSpacing c

/-- Reads the token that begins with `c` before `rest`. In a text that is not whole, none is read
that ends with it. -/
def readToken (c : Char) (rest : List Char) : Step := fun l => do
  l.needsMore (l.isUndecided c)
  let next ← token c rest l
  next.needsMore next.rest.isEmpty
  next.dropStale

/-- The next token and those that belong to it, or nothing at the end of the text; `fuel` bounds how
many line breaks stand before it. -/
def advance (fuel : Nat) (l : Lexer) : Except Failure (Option Lexer) := do
  let l := skipToToken fuel l.skipOrderMark
  l.needsMore l.rest.isEmpty
  let l ← l.dropStale
  let l := l.unwind l.position.column
  match l.rest with
  | [] => return none
  | c :: rest => return some (← readToken c rest l)

/-- How many tokens are settled: those before the first place where a key may have begun. -/
def settledCount (l : Lexer) : Nat :=
  l.candidates.foldl (fun least e => min least e.2.tokenCount) l.tokenCount

/-- Ends the reading with a failure, which takes the place of the tokens that are not settled. -/
def breakOff (cause : Failure) (l : Lexer) : Lexer :=
  let settled := l.settledCount
  let kept : Lexer :=
    { l with tokens := l.tokens.drop (l.tokenCount - settled), tokenCount := settled }
  kept.push (.broken cause)

/-- The end of the text closes all blocks and leaves no required key behind. -/
def finish (fuel : Nat) (l : Lexer) : Lexer :=
  match dropStale (skipToToken fuel l.skipOrderMark) >>= (·.unwindAll.dropCandidate) with
  | .ok l => l.push .streamEnd
  | .error cause => l.breakOff cause

/-- Takes tokens to the end of the text or to the first failure; `fuel` exceeds the number of
characters left. -/
def run : Nat → Lexer → Lexer
  | 0, l => l.breakOff (.flaw .tooDeep)
  | fuel + 1, l =>
    match l.advance (fuel + 1) with
    | .error cause => l.breakOff cause
    | .ok none => l.finish (fuel + 1)
    | .ok (some next) => run fuel next

end Lexer

/-- The tokens of a text, up to its end or to what cannot be read. -/
def tokens (input : Input) : List Token :=
  (Lexer.run (input.chars.length + 1) (.ofInput input)).tokens.reverse

end ModuleBundler.Yaml
