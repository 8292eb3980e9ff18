import ModuleBundler.Yaml.Block
import ModuleBundler.Yaml.Plain
import ModuleBundler.Yaml.Quoted

/-! Tokens of a document, and the readers of those that are neither plain nor
quoted nor block scalars. -/
namespace ModuleBundler.Yaml

/-- What a line that begins with a percent sign says. -/
inductive Directive where
  | version (major : Nat)
  | handle (name shorthand : String)
  | other

/-- A tag as it is written: a handle that stands for the front of its name, unless it is written
in full, and the rest. -/
structure TagText where
  handle : Option String
  suffix : String

inductive Token where
  | streamEnd
  | directive (d : Directive)
  | documentStart
  | documentEnd
  | blockSequenceStart
  | blockMappingStart
  | blockEnd
  | sequenceStart
  | sequenceEnd
  | mappingStart
  | mappingEnd
  /-- The hyphen before an item of a block sequence. -/
  | item
  /-- The comma between items of a bracketed collection. -/
  | comma
  | key
  | value
  | alias (name : String)
  | anchor (name : String)
  | tag (text : TagText)
  | scalar (text : String) (plain : Bool)
  /-- The text could not be read any further. -/
  | broken (cause : Failure)

namespace Token

/-- Why nothing that fits stands here: the text ends, or goes on in another way. -/
def refusalAt (chars : List Char) (otherwise : Flaw) : Flaw :=
  if chars.isEmpty then .textEnds else otherwise

/-- A name and the rest; it has at least one character. -/
def nameAt? (chars : List Char) : Option (String × List Char) :=
  match chars.takeWhile isNameChar with
  | [] => none
  | name => some (String.ofList name, chars.dropWhile isNameChar)

/-- What may follow an anchor or alias. -/
def endsName (c : Char) : Bool :=
  isSpacing c || ['?', ':', ',', ']', '}', '%', '@', '\x60'].contains c

/-- The name of an anchor or alias, after its mark. -/
def anchorName (chars : List Char) : Except Flaw (String × List Char) :=
  match nameAt? chars with
  | some (name, rest) =>
    if atEndOr endsName rest then .ok (name, rest) else .error .malformedName
  | none => .error (refusalAt chars .malformedName)

def isUriChar (c : Char) : Bool :=
  c.isAlphanum || "-;/?:@&=+$,_.!~*'()[]".toList.contains c

/-- Bytes written as a percent sign and two hexadecimal digits each. -/
def escapedBytes : List Char → Except Flaw (List UInt8 × List Char)
  | '%' :: a :: b :: rest => do
    match Json.Reader.hexValue? a, Json.Reader.hexValue? b with
    | some high, some low =>
      let (more, rest) ← escapedBytes rest
      return (UInt8.ofNat (16 * high + low) :: more, rest)
    | _, _ => .error .malformedTag
  | '%' :: rest =>
    .error (if rest.all fun c => (Json.Reader.hexValue? c).isSome then .textEnds else .malformedTag)
  | chars => .ok ([], chars)

/-- The characters of a tag; escaped ones are given by their bytes. -/
def uriChars : Nat → List Char → Except Flaw (List Char × List Char)
  | 0, chars => .ok ([], chars)
  | fuel + 1, chars =>
    match chars with
    | '%' :: _ => do
      let (bytes, rest) ← escapedBytes chars
      match String.fromUTF8? ⟨bytes.toArray⟩ with
      | some text =>
        let (more, rest) ← uriChars fuel rest
        return (text.toList ++ more, rest)
      | none => .error (refusalAt rest .malformedTag)
    | c :: rest =>
      if isUriChar c then do
        let (more, rest) ← uriChars fuel rest
        return (c :: more, rest)
      else .ok ([], chars)
    | [] => .ok ([], [])

/-- A stretch of tag characters; it has at least one. -/
def uri (chars : List Char) : Except Flaw (String × List Char) := do
  let (found, rest) ← uriChars chars.length chars
  if rest.length = chars.length then .error (refusalAt chars .malformedTag)
  else .ok (String.ofList found, rest)

/-- An exclamation mark on its own, or a name between two. -/
def handleAt (chars : List Char) : Except Flaw (String × List Char) :=
  match chars with
  | '!' :: ' ' :: rest => .ok ("!", ' ' :: rest)
  | '!' :: rest =>
    let name := rest.takeWhile isNameChar
    match rest.dropWhile isNameChar with
    | '!' :: rest => .ok (String.ofList ('!' :: name ++ ['!']), rest)
    | other => .error (refusalAt other .malformedTag)
  | other => .error (refusalAt other .malformedTag)

/-- A tag ends at a gap. -/
def atTagEnd (answer : TagText × List Char) : Except Flaw (TagText × List Char) :=
  if atGap answer.2 then .ok answer else .error .malformedTag

/-- A tag with a handle, after its exclamation mark. Whether the handle has a name shows at the end
of the word or at a second mark in it. -/
def handledTag (chars : List Char) : Except Flaw (TagText × List Char) :=
  let word := chars.takeWhile fun c => c != ' ' && !isBreak c
  let found := if word.contains '!' then do
      let (handle, rest) ← handleAt ('!' :: chars)
      let (suffix, rest) ← uri rest
      atTagEnd (⟨some handle, suffix⟩, rest)
    else do
      let (suffix, rest) ← uri chars
      atTagEnd (⟨some "!", suffix⟩, rest)
  match found with
  | .error cause =>
    .error (if word.contains '!' ∨ word.length < chars.length then cause else .textEnds)
  | answer => answer

/-- A tag after its exclamation mark: in full between angle brackets, none at all, or with a
handle. -/
def tagText (chars : List Char) : Except Flaw (TagText × List Char) :=
  match chars with
  | '<' :: rest => do
    match ← uri rest with
    | (suffix, '>' :: rest) => atTagEnd (⟨none, suffix⟩, rest)
    | (_, other) => .error (refusalAt other .malformedTag)
  | _ => if atSpacing chars then atTagEnd (⟨none, "!"⟩, chars) else handledTag chars

/-- The number of a version; one with too many digits is none. -/
def versionNumber (whole : Bool) (chars : List Char) : Except Failure (Nat × List Char) :=
  match Json.Reader.digits chars with
  | ([], _) => .error (.flaw (refusalAt chars .malformedDirective))
  | (digits, rest) =>
    if !whole && rest.isEmpty then .error (.flaw .textEnds)
    else if Decimal.digitLimit < digits.length then
      .error (.scalar (.tooManyDigits digits.length))
    else .ok (Json.Reader.digitsValue digits, rest)

def flawed {α : Type} (answer : Except Flaw α) : Except Failure α := answer.mapError .flaw

/-- A directive after its percent sign, and the next line. -/
def directiveLine (whole : Bool) (chars : List Char) : Except Failure (Directive × List Char) := do
  let malformed : Failure := .flaw .malformedDirective
  let refusal (rest : List Char) : Failure := .flaw (refusalAt rest .malformedDirective)
  let some (name, rest) := nameAt? chars | throw (refusal chars)
  if !atGap rest then throw malformed
  let (found, rest) ←
    if name = "YAML" then do
      let (major, rest) ← versionNumber whole (skipSpaces rest)
      let '.' :: rest := rest | throw (refusal rest)
      let (_, rest) ← versionNumber whole rest
      if !atGap rest then throw malformed
      pure (Directive.version major, rest)
    else if name = "TAG" then do
      let (handle, rest) ← flawed (handleAt (skipSpaces rest))
      if rest.head? != some ' ' then throw (refusal rest)
      let (shorthand, rest) ← flawed (uri (skipSpaces rest))
      if !atGap rest then throw malformed
      pure (.handle handle shorthand, rest)
    else pure (.other, rest.dropWhile fun c => !isBreak c)
  match restOfLine? rest with
  | some next => return (found, next)
  | none => throw malformed

end Token
end ModuleBundler.Yaml
