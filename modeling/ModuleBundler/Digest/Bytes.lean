/-! Bytes as digests use them: numbers of fixed width in either order, blocks of
fixed size, and hexadecimal text. -/
namespace ModuleBundler.Digest

abbrev Bytes := List UInt8

/-- The number whose least significant byte comes first. -/
def ofLittleEndian (bytes : Bytes) : Nat := bytes.foldr (fun b n => b.toNat + 256 * n) 0

/-- The number whose most significant byte comes first. -/
def ofBigEndian (bytes : Bytes) : Nat := bytes.foldl (fun n b => 256 * n + b.toNat) 0

def littleEndian (width n : Nat) : Bytes :=
  (List.range width).map fun i => UInt8.ofNat (n / Nat.pow 256 i)

def bigEndian (width n : Nat) : Bytes := (littleEndian width n).reverse

/-- Consecutive pieces of the given size; the last one may be shorter. -/
def blocks {α : Type} (size : Nat) (items : List α) : List (List α) :=
  if more : 0 < size ∧ items ≠ [] then
    have := List.length_pos_iff.mpr more.2
    items.take size :: blocks size (items.drop size)
  else []
  termination_by items.length

/-- A message with a one bit, zeros, and its bit count in `width` bytes, so that it fills blocks
of `size` bytes. -/
def padded (size width : Nat) (encode : Nat → Nat → Bytes) (message : Bytes) : Bytes :=
  let used := (message.length + 1 + width) % size
  message ++ 0x80 :: List.replicate ((size - used) % size) 0 ++ encode width (8 * message.length)

/-- Two lower-case hexadecimal digits for each byte. -/
def hex (bytes : Bytes) : String :=
  String.ofList (bytes.flatMap fun b => [(b.toNat / 16).digitChar, (b.toNat % 16).digitChar])

end ModuleBundler.Digest
