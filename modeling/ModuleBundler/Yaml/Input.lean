import ModuleBundler.Text.Feed
import ModuleBundler.Yaml.Character
import ModuleBundler.Yaml.Flaw

/-! The text of a document as it comes in. It is read in portions, and a portion
that is no text or holds a character without place in a document ends what can be
read of it, whatever stands there. What stands before is read first. -/
namespace ModuleBundler.Yaml

/-- Text as far as it can be read. -/
structure Input where
  chars : List Char
  /-- Why it does not go on, unless it is whole. -/
  obstacle : Option Failure

namespace Input

/-- Text that is read portion by portion, where `whole` tells whether all could be decoded. -/
def ofPortions (whole : Bool) : List (List Char) → Input
  | [] => ⟨[], if whole then none else some .undecodable⟩
  | portion :: rest =>
    match portion.find? fun c => !isPrintable c with
    | some c => ⟨[], some (.flaw (.unprintable c))⟩
    | none =>
      let more := ofPortions whole rest
      ⟨portion ++ more.chars, more.obstacle⟩

/-- How many characters are read at a time. -/
def portionSize : Nat := 4096

/-- The text of a file. The first two portions are read as one. -/
def ofContent (content : ByteArray) : Input :=
  match Text.readPortions portionSize content with
  | ([], whole) => ofPortions whole []
  | ([_], false) => ofPortions false []
  | (first :: second :: rest, whole) => ofPortions whole ((first ++ second) :: rest)
  | (portions, whole) => ofPortions whole portions

end Input
end ModuleBundler.Yaml
