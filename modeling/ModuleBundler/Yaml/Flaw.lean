import ModuleBundler.Decimal.Shortest
import ModuleBundler.Text.Quoted

/-! What keeps a text from being a document. Most causes are flaws of the notation.
A scalar whose form promises a value that does not exist, such as the thirtieth of
February, is a cause of its own. -/
namespace ModuleBundler.Yaml

open Decimal

/-- Flaws of the notation. -/
inductive Flaw where
  | unprintable (c : Char)
  | strayCharacter (c : Char)
  | colonMissing
  | entryNotAllowed
  | keyNotAllowed
  | valueNotAllowed
  | malformedDirective
  | malformedName
  | malformedTag
  | malformedBlockHeader
  /-- The text ends where more of it is needed. -/
  | textEnds
  | markInsideQuotes
  | malformedEscape
  | nodeExpected
  | blockEndExpected
  | sequenceEndExpected
  | mappingEndExpected
  | documentStartExpected
  | repeatedDirective
  | otherVersion
  | unknownHandle (handle : String)
  | repeatedAnchor (name : String)
  | unknownAnchor (name : String)
  | secondDocument
  | unknownTag (tag : String)
  | scalarExpected
  | sequenceExpected
  | mappingExpected
  | singleEntryExpected
  | containerAsKey
  | malformedBinary
  | tooDeep

def Flaw.message : Flaw → String
  | unprintable c => s!"character {Text.quoted c.toString} is not allowed"
  | strayCharacter c => s!"character {Text.quoted c.toString} cannot start any token"
  | colonMissing => "could not find expected ':'"
  | entryNotAllowed => "sequence entries are not allowed here"
  | keyNotAllowed => "mapping keys are not allowed here"
  | valueNotAllowed => "mapping values are not allowed here"
  | malformedDirective => "malformed directive"
  | malformedName => "malformed anchor or alias"
  | malformedTag => "malformed tag"
  | malformedBlockHeader => "malformed header of a block scalar"
  | textEnds => "unexpected end of stream"
  | markInsideQuotes => "unexpected document separator in a quoted scalar"
  | malformedEscape => "unknown escape in a quoted scalar"
  | nodeExpected => "expected the node content"
  | blockEndExpected => "expected <block end>"
  | sequenceEndExpected => "expected ',' or ']'"
  | mappingEndExpected => "expected ',' or '\x7d'"
  | documentStartExpected => "expected '<document start>'"
  | repeatedDirective => "repeated directive"
  | otherVersion => "version 1.* is required"
  | unknownHandle handle => s!"undefined tag handle {Text.quoted handle}"
  | repeatedAnchor name => s!"duplicate anchor {Text.quoted name}"
  | unknownAnchor name => s!"undefined alias {Text.quoted name}"
  | secondDocument => "expected a single document"
  | unknownTag tag => s!"could not determine a constructor for the tag {Text.quoted tag}"
  | scalarExpected => "expected a scalar node"
  | sequenceExpected => "expected a sequence node"
  | mappingExpected => "expected a mapping node"
  | singleEntryExpected => "expected a single mapping item"
  | containerAsKey => "unhashable key"
  | malformedBinary => "failed to decode base64 data"
  | tooDeep => "nested too deeply"

/-- The units of a date or time, each with its range. -/
inductive ClockUnit where
  | year
  | month
  | day
  | hour
  | minute
  | second

/-- A scalar has a form without a value. -/
inductive ScalarError where
  | notWhole (base : Nat) (text : String)
  | tooManyDigits (count : Nat)
  | notReal (text : String)
  | weightTooLarge
  | notTruth (text : String)
  | emptyNumber
  | notTimestamp
  | outOfRange (unit : ClockUnit) (value : Nat)
  /-- An offset of a day or more; its text gives days and seconds. -/
  | offsetTooLarge (offset : String)
  | noSuchCharacter (code : Nat)
  /-- A mapping stands for a timestamp, which only a scalar can. -/
  | timestampOfMapping

def ScalarError.message : ScalarError → String
  | notWhole base text =>
    let shown := String.ofList ((Text.quoted text).toList.take 200)
    s!"invalid literal for int() with base {base}: {shown}"
  | tooManyDigits count =>
    s!"Exceeds the limit ({digitLimit} digits) for integer string conversion: value has {count} " ++
      "digits; use sys.set_int_max_str_digits() to increase the limit"
  | notReal text => s!"could not convert string to float: {Text.quoted text}"
  | weightTooLarge => "int too large to convert to float"
  | notTruth text => Text.quoted text
  | emptyNumber => "string index out of range"
  | notTimestamp => "not a timestamp"
  | outOfRange .year value => s!"year {value} is out of range"
  | outOfRange .month _ => "month must be in 1..12"
  | outOfRange .day _ => "day is out of range for month"
  | outOfRange .hour _ => "hour must be in 0..23"
  | outOfRange .minute _ => "minute must be in 0..59"
  | outOfRange .second _ => "second must be in 0..59"
  | offsetTooLarge offset =>
    "offset must be a timedelta strictly between -timedelta(hours=24) and timedelta(hours=24), " ++
      s!"not {offset}."
  | noSuchCharacter code =>
    if code < Nat.pow 2 31 then "chr() arg not in range(0x110000)"
    else "Python int too large to convert to C int"
  | timestampOfMapping => "expected string or bytes-like object, got 'list'"

/-- Why a text gives no value. -/
inductive Failure where
  | flaw (cause : Flaw)
  | scalar (cause : ScalarError)
  /-- The bytes of the text are no characters. -/
  | undecodable
  /-- A collection lies within too many others. -/
  | nestedTooDeep

def Failure.message : Failure → String
  | flaw cause => cause.message
  | scalar cause => cause.message
  | undecodable => "the text is not UTF-8"
  | nestedTooDeep => "maximum recursion depth exceeded"

end ModuleBundler.Yaml
