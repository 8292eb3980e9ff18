import ModuleBundler.Ordered.Set
import ModuleBundler.Path.Parts
import ModuleBundler.Settings.File
import ModuleBundler.Text.Blank
import ModuleBundler.Text.Feed

/-! Patterns in a file of the project, one a line. Blank lines, comments and
negations name nothing; the slash at the end of a folder's name is dropped. A file
that is missing or cannot be read gives no patterns. -/
namespace ModuleBundler.Watch

open Source

/-- The lines of a text without their ends. -/
def lines : List Char → List (List Char)
  | [] => [[]]
  | c :: rest =>
    match lines rest with
    | [] => [[c]]
    | first :: more => if c = '\n' then [] :: first :: more else (c :: first) :: more

/-- The text without the slashes at its end. -/
def withoutSlashes (text : List Char) : List Char :=
  (text.reverse.dropWhile (· = '/')).reverse

/-- The pattern of a line, if it names one. -/
def patternOf? (line : List Char) : Option String :=
  match Text.trim line with
  | [] => none
  | c :: rest =>
    if c = '#' ∨ c = '!' then none else some (String.ofList (withoutSlashes (c :: rest)))

def patternsIn (lines : List (List Char)) : OrderedSet String :=
  .ofList (lines.filterMap patternOf?)

/-- The patterns of a file. Where it is no text, only the lines that were read to their end before
that count. -/
def patternsOf (content : ByteArray) : OrderedSet String :=
  let (text, whole) := Text.readBlocks content
  patternsIn (if whole then lines text else (lines text).dropLast)

/-- The patterns in the file at a path. -/
def readPatterns (path : String) : StateM Host (Except LookError (OrderedSet String)) := do
  match ← Settings.fileExists path with
  | .error e => return .error e
  | .ok false => return .ok ∅
  | .ok true =>
    match ← Host.openFile path with
    | .error (.system _) => return .ok ∅
    | .error .nullByte => return .error .nullByte
    | .ok content => return .ok (patternsOf content)

end ModuleBundler.Watch
