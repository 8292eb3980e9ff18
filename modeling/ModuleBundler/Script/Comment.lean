/-! Comments of script text, found without parsing. A block comment runs to its
first end and counts only if it has one. A line comment is a double slash at the
start of a line or after any character but a colon and a backslash; it runs to
the end of the line, and the character before it stays. The scan is not aware of
strings. -/
namespace ModuleBundler.Script

/-- Text after the first end of a block comment. -/
def afterBlockEnd? : List Char → Option (List Char)
  | '*' :: '/' :: rest => some rest
  | _ :: rest => afterBlockEnd? rest
  | [] => none

/-- Text after a block comment that starts the text. -/
def afterBlock? : List Char → Option (List Char)
  | '/' :: '*' :: rest => afterBlockEnd? rest
  | _ => none

def startsDoubleSlash : List Char → Bool
  | '/' :: '/' :: _ => true
  | _ => false

/-- Whether a double slash after this character is left alone. -/
def shieldsSlashes (c : Char) : Bool := c == ':' || c == '\\'

def restOfLine (text : List Char) : List Char := text.dropWhile (· ≠ '\n')

theorem length_afterBlockEnd? {text rest : List Char} (found : afterBlockEnd? text = some rest) :
    rest.length < text.length := by
  fun_induction afterBlockEnd? text with
  | case1 =>
    cases found
    simp only [List.length_cons]
    omega
  | case2 _ _ _ ih =>
    have := ih found
    simp only [List.length_cons]
    omega
  | case3 => cases found

theorem length_afterBlock? {text rest : List Char} (found : afterBlock? text = some rest) :
    rest.length < text.length := by
  unfold afterBlock? at found
  split at found
  · have := length_afterBlockEnd? found
    simp only [List.length_cons]
    omega
  · cases found

theorem length_restOfLine_le (text : List Char) : (restOfLine text).length ≤ text.length :=
  (List.dropWhile_sublist _).length_le

/-- What is left of a text without its comments. `lineStart` says whether the text begins a line. -/
def stripFrom (lineStart : Bool) (text : List Char) : List Char :=
  match text with
  | [] => []
  | c :: tail =>
    match block : afterBlock? (c :: tail) with
    | some rest =>
      have := length_afterBlock? block
      stripFrom false rest
    | none =>
      if !shieldsSlashes c && startsDoubleSlash tail then
        c :: stripFrom false (restOfLine tail)
      else if lineStart && startsDoubleSlash (c :: tail) then
        stripFrom false (restOfLine tail)
      else c :: stripFrom (c == '\n') tail
  termination_by text.length
  decreasing_by
    · exact this
    · exact Nat.lt_succ_of_le (length_restOfLine_le tail)
    · exact Nat.lt_succ_of_le (length_restOfLine_le tail)
    · exact Nat.lt_succ_self _

/-- Script text without comments. -/
def stripComments (code : String) : String := String.ofList (stripFrom true code.toList)

end ModuleBundler.Script
