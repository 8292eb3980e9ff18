import ModuleBundler.Digest.Bytes

/-! SHA-3: a sponge over twenty-five 64-bit lanes. Lane `x + 5 * y` stands in
column `x` and row `y`. -/
namespace ModuleBundler.Digest.Sha3

def roundConstants : List UInt64 := [
    0x0000000000000001, 0x0000000000008082, 0x800000000000808a, 0x8000000080008000,
    0x000000000000808b, 0x0000000080000001, 0x8000000080008081, 0x8000000000008009,
    0x000000000000008a, 0x0000000000000088, 0x0000000080008009, 0x000000008000000a,
    0x000000008000808b, 0x800000000000008b, 0x8000000000008089, 0x8000000000008003,
    0x8000000000008002, 0x8000000000000080, 0x000000000000800a, 0x800000008000000a,
    0x8000000080008081, 0x8000000000008080, 0x0000000080000001, 0x8000000080008008]

/-- How far each lane is rotated. -/
def rotations : Array UInt64 := #[0, 1, 62, 28, 27, 36, 44, 6, 55, 20, 3, 10, 43,
    25, 39, 41, 45, 15, 21, 8, 18, 2, 61, 56, 14]

abbrev State := Array UInt64

def rotateLeft (x distance : UInt64) : UInt64 :=
  if distance = 0 then x else (x <<< distance) ||| (x >>> (64 - distance))

def lane (s : State) (x y : Nat) : UInt64 := s.getD (x % 5 + 5 * (y % 5)) 0

/-- Parity of a column. -/
def column (s : State) (x : Nat) : UInt64 :=
  lane s x 0 ^^^ lane s x 1 ^^^ lane s x 2 ^^^ lane s x 3 ^^^ lane s x 4

def lanes (value : Nat → Nat → UInt64) : State :=
  ((List.range 25).map fun i => value (i % 5) (i / 5)).toArray

/-- Adds to each lane the parities of the two columns beside it. -/
def spread (s : State) : State :=
  let parity := ((List.range 5).map (column s)).toArray
  lanes fun x y => lane s x y ^^^ parity.getD ((x + 4) % 5) 0 ^^^
    rotateLeft (parity.getD ((x + 1) % 5) 0) 1

/-- Rotates each lane and moves it to its new place. -/
def permute (s : State) : State :=
  lanes fun x y =>
    let source := (x + 3 * y) % 5 + 5 * x
    rotateLeft (s.getD source 0) (rotations.getD source 0)

/-- Combines each lane with the next two of its row. -/
def combine (s : State) : State :=
  lanes fun x y => lane s x y ^^^ (~~~lane s (x + 1) y &&& lane s (x + 2) y)

def round (s : State) (constant : UInt64) : State :=
  (combine (permute (spread s))).modify 0 (· ^^^ constant)

def scramble (s : State) : State := roundConstants.foldl round s

def absorb (s : State) (block : Bytes) : State :=
  let words := ((blocks 8 block).map fun w => UInt64.ofNat (ofLittleEndian w)).toArray
  scramble (s.mapIdx fun i x => x ^^^ words.getD i 0)

/-- The message with the marks of its end, filling blocks of `rate` bytes. -/
def marked (rate : Nat) (message : Bytes) : Bytes :=
  let free := rate - message.length % rate
  if free = 1 then message ++ [0x86]
  else message ++ 0x06 :: List.replicate (free - 2) 0 ++ [0x80]

/-- The digest of `size` bytes; twice as many are withheld from the message. -/
def hash (size : Nat) (message : Bytes) : Bytes :=
  let rate := 200 - 2 * size
  let s := (blocks rate (marked rate message)).foldl absorb (Array.replicate 25 0)
  (s.toList.flatMap fun w => littleEndian 8 w.toNat).take size

end ModuleBundler.Digest.Sha3
