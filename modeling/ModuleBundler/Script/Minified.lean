import ModuleBundler.Script.Comment
import ModuleBundler.Text.Blank

/-! Minified script text: no comments, every run of blanks one space, and none at
the ends. -/
namespace ModuleBundler.Script

open Text

/-- Puts one space in place of every run of blanks. -/
def collapseBlanks : List Char → List Char
  | [] => []
  | c :: rest =>
    if isBlank c then ' ' :: collapseBlanks (rest.dropWhile isBlank) else c :: collapseBlanks rest
  termination_by text => text.length
  decreasing_by
    · exact Nat.lt_succ_of_le (List.dropWhile_sublist _).length_le
    · exact Nat.lt_succ_self _

def minifyChars (code : List Char) : List Char := trim (collapseBlanks (stripFrom true code))

/-- Script text in its minified form. -/
def minify (code : String) : String := String.ofList (minifyChars code.toList)

end ModuleBundler.Script
