import ModuleBundler.Text.Bytes

/-! Text on its way out of a file. The file is read in blocks of bytes, and each
block is decoded as soon as it is read; a character that a block leaves unfinished
and a carriage return at its end wait for the next one. So what stands before a
block with bytes that are no text is read before those are met. -/
namespace ModuleBundler.Text

/-- A file of which some bytes have been read. -/
structure Feed where
  content : ByteArray
  /-- How many bytes have been read. -/
  taken : Nat
  /-- How many of them make up the text so far. -/
  decoded : Nat
  /-- Whether a carriage return waits for what follows it. -/
  returnWaits : Bool
  /-- Whether the end of the file has been seen. -/
  ended : Bool

namespace Feed

def ofContent (content : ByteArray) : Feed := ⟨content, 0, 0, false, false⟩

/-- The usual number of bytes in a block. -/
def blockSize : Nat := 8192

/-- The text of a block that has been read; nothing if its bytes are no text. A block without bytes
is the end, where nothing may be left unfinished. -/
def block (size : Nat) (f : Feed) : Option (List Char × Feed) := do
  let stop := min (f.taken + size) f.content.size
  let ended := stop = f.taken
  let (text, used) ← decodeFront? (f.content.extract f.decoded stop)
  if ended ∧ f.decoded + used < stop then none
  let text := if f.returnWaits ∧ (ended ∨ !text.isEmpty) then '\r' :: text.toList else text.toList
  let returnWaits := !ended && (text.getLast? == some '\r' || (f.returnWaits && text.isEmpty))
  let settled := if returnWaits then text.dropLast else text
  return (unifyLineEnds settled, ⟨f.content, stop, f.decoded + used, returnWaits, ended⟩)

/-- The text of all blocks up to the first that is no text, and whether there is none such. -/
def blocks : Nat → Feed → List Char × Bool
  | 0, _ => ([], true)
  | fuel + 1, f =>
    if f.ended then ([], true)
    else
      match f.block blockSize with
      | none => ([], false)
      | some (text, next) =>
        let (more, whole) := blocks fuel next
        (text ++ more, whole)

end Feed

/-- The text of a file up to the first block that is no text, and whether that is all of it. -/
def readBlocks (content : ByteArray) : List Char × Bool :=
  (Feed.ofContent content).blocks (content.size + 2)

/-- A file that is read in portions of characters. -/
structure Portions where
  feed : Feed
  /-- Text that has been read and is in no portion yet. -/
  ready : List Char
  /-- Bytes for each character of the last block; nothing if that had no characters. -/
  width : Float

namespace Portions

def ofContent (content : ByteArray) : Portions := ⟨.ofContent content, [], 0.0⟩

/-- Bytes to be read where so many characters are wanted: as many as those of the last block took,
but no less than usual. -/
def wanted (p : Portions) (count : Nat) : Nat :=
  let width := if p.width < 1.0 then 1.0 else p.width
  max Feed.blockSize (width * count.toFloat).toUInt64.toNat

/-- The next characters, fewer than asked for only at the end of the file; nothing if a block that
they need is no text. -/
def portion (count : Nat) : Nat → Portions → Option (List Char × Portions)
  | 0, p => some ([], p)
  | fuel + 1, p =>
    let given := p.ready.take count
    let missing := count - given.length
    let rest := { p with ready := p.ready.drop count }
    if missing = 0 ∨ p.feed.ended then some (given, rest)
    else do
      let (text, feed) ← p.feed.block (p.wanted missing)
      let width := if text.isEmpty then 0.0
        else (feed.taken - p.feed.taken).toFloat / text.length.toFloat
      let (more, left) ← portion missing fuel ⟨feed, text, width⟩
      return (given ++ more, left)

/-- All portions of a size up to the first that cannot be read, and whether there is none such. -/
def all (size : Nat) : Nat → Portions → List (List Char) × Bool
  | 0, _ => ([], true)
  | fuel + 1, p =>
    match p.portion size (p.feed.content.size + 2) with
    | none => ([], false)
    | some ([], _) => ([], true)
    | some (text, next) =>
      let (more, whole) := all size fuel next
      (text :: more, whole)

end Portions

/-- The text of a file in portions of so many characters, up to the first that cannot be read, and
whether that is all of it. -/
def readPortions (size : Nat) (content : ByteArray) : List (List Char) × Bool :=
  (Portions.ofContent content).all size (content.size + 2)

end ModuleBundler.Text
