import ModuleBundler.Digest.Sha2

/-! BLAKE2 in its two word sizes, without a key. Blocks are mixed into eight words
along a fixed schedule of permutations, together with a count of the bytes so far
and a mark on the last block. -/
namespace ModuleBundler.Digest.Blake2

/-- The order in which each round takes the words of a block. -/
def permutations : List (List Nat) := [
    [0, 1, 2, 3, 4, 5, 6, 7, 8, 9, 10, 11, 12, 13, 14, 15],
    [14, 10, 4, 8, 9, 15, 13, 6, 1, 12, 0, 2, 11, 7, 5, 3],
    [11, 8, 12, 0, 5, 2, 15, 13, 10, 14, 3, 6, 7, 1, 9, 4],
    [7, 9, 3, 1, 13, 12, 11, 14, 2, 6, 5, 10, 4, 0, 15, 8],
    [9, 0, 5, 7, 2, 4, 10, 15, 14, 1, 11, 12, 6, 8, 3, 13],
    [2, 12, 6, 10, 0, 11, 8, 3, 4, 13, 7, 5, 15, 14, 1, 9],
    [12, 5, 1, 15, 14, 13, 4, 10, 0, 7, 6, 3, 9, 2, 8, 11],
    [13, 11, 7, 14, 12, 1, 3, 9, 5, 0, 15, 4, 8, 6, 2, 10],
    [6, 15, 14, 9, 11, 3, 0, 8, 12, 2, 13, 7, 1, 4, 10, 5],
    [10, 2, 8, 4, 7, 6, 1, 5, 15, 11, 9, 14, 3, 12, 13, 0]]

/-- The four words that each half step mixes: first the columns, then the diagonals. -/
def quarters : List (Nat × Nat × Nat × Nat) :=
  [(0, 4, 8, 12), (1, 5, 9, 13), (2, 6, 10, 14), (3, 7, 11, 15),
    (0, 5, 10, 15), (1, 6, 11, 12), (2, 7, 8, 13), (3, 4, 9, 14)]

/-- What one word size is made of. -/
structure Family (W : Type) where
  bytes : Nat
  rounds : Nat
  ofNat : Nat → W
  toNat : W → Nat
  initial : List W
  rotate : W → Nat → W
  distances : Nat × Nat × Nat × Nat

variable {W : Type} [Inhabited W] [Add W] [XorOp W]

/-- Mixes two words of a block into four words of the state. -/
def quarter (f : Family W) (v : Array W) (place : Nat × Nat × Nat × Nat) (x y : W) : Array W :=
  let (i, j, k, l) := place
  let (r, s, t, u) := f.distances
  let a := v.getD i default + v.getD j default + x
  let d := f.rotate (v.getD l default ^^^ a) r
  let c := v.getD k default + d
  let b := f.rotate (v.getD j default ^^^ c) s
  let a := a + b + y
  let d := f.rotate (d ^^^ a) t
  let c := c + d
  let b := f.rotate (b ^^^ c) u
  (((v.setIfInBounds i a).setIfInBounds j b).setIfInBounds k c).setIfInBounds l d

def round (f : Family W) (words : Array W) (v : Array W) (order : List Nat) : Array W :=
  (quarters.zip (blocks 2 order)).foldl (fun v (place, pair) =>
    quarter f v place (words.getD (pair.getD 0 0) default) (words.getD (pair.getD 1 0) default)) v

/-- Mixes one block in; `count` is the number of message bytes up to its end. -/
def compress (f : Family W) (h : List W) (block : Bytes) (count : Nat) (last : Bool) : List W :=
  let size := Nat.pow 256 f.bytes
  let words := ((blocks f.bytes block).map fun w => f.ofNat (ofLittleEndian w)).toArray
  let marks := [f.ofNat (count % size), f.ofNat (count / size),
    f.ofNat (if last then size - 1 else 0), f.ofNat 0]
  let v := (h ++ f.initial.take 4 ++ List.zipWith (· ^^^ ·) (f.initial.drop 4) marks).toArray
  let orders := (List.range f.rounds).map fun i => permutations.getD (i % 10) []
  let v := (orders.foldl (round f words) v).toList
  List.zipWith (· ^^^ ·) h (List.zipWith (· ^^^ ·) (v.take 8) (v.drop 8))

/-- Blocks of a message, each with the count of bytes up to its end; an empty message has one. -/
def compressAll (f : Family W) (total : Nat) : List W → Nat → List Bytes → List W
  | h, _, [] => h
  | h, done, [block] =>
    compress f h (block ++ List.replicate (16 * f.bytes - block.length) 0)
      (min total (done + 16 * f.bytes)) true
  | h, done, block :: rest =>
    compressAll f total (compress f h block (done + 16 * f.bytes) false) (done + 16 * f.bytes) rest

def hash (f : Family W) (message : Bytes) : Bytes :=
  let size := 8 * f.bytes
  let start := match f.initial with
    | first :: rest => (first ^^^ f.ofNat (0x01010000 + size)) :: rest
    | [] => []
  let pieces := if message.isEmpty then [[]] else blocks (16 * f.bytes) message
  (compressAll f message.length start 0 pieces).flatMap fun w =>
    littleEndian f.bytes (f.toNat w)

def words32 : Family UInt32 where
  bytes := 4
  rounds := 10
  ofNat := UInt32.ofNat
  toNat := UInt32.toNat
  initial := Sha2.initial256
  rotate x distance := Sha2.rotate32 x (UInt32.ofNat distance)
  distances := (16, 12, 8, 7)

def words64 : Family UInt64 where
  bytes := 8
  rounds := 12
  ofNat := UInt64.ofNat
  toNat := UInt64.toNat
  initial := Sha2.initial512
  rotate x distance := Sha2.rotate64 x (UInt64.ofNat distance)
  distances := (32, 24, 16, 63)

/-- The digest of thirty-two bytes. -/
def hash32 : Bytes → Bytes := hash words32

/-- The digest of sixty-four bytes. -/
def hash64 : Bytes → Bytes := hash words64

end ModuleBundler.Digest.Blake2
